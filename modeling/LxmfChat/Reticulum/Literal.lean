import LxmfChat.Base.Checked
import LxmfChat.Reticulum.Link
import LxmfChat.Reticulum.Resource.Sender
import Mathlib.Tactic.Simps.Basic

/-! The code that reads packets, statement by statement, with every operation that can panic. -/

namespace LxmfChat.Literal

open Base Checked

variable (crypto : Crypto)

variable {p : LxmfChat.Packet}

def truncatedHash (data : Bytes) : Checked TruncatedHash := do
  let full := fullHash crypto data
  copySlice 16 full.val 0 16

theorem truncatedHash_eq (data : Bytes) :
    truncatedHash crypto data = .ok (LxmfChat.truncatedHash crypto data) := by
  rw [truncatedHash, copySlice_ok rfl (by simp)]
  congr 1
  apply Subtype.ext
  rw [LxmfChat.truncatedHash, BytesN.ofBytes_val_take (by simp)]
  rfl

def nameHash (appName : String) (aspects : List String) : Checked NameHash := do
  let full := fullHash crypto (expandName appName aspects).toUTF8.toList
  copySlice 10 full.val 0 10

def plainDestinationHash (appName : String) (aspects : List String) : Checked TruncatedHash := do
  let nh ← nameHash crypto appName aspects
  let full := fullHash crypto nh.val
  copySlice 16 full.val 0 16

theorem plainDestinationHash_eq (appName : String) (aspects : List String) :
    plainDestinationHash crypto appName aspects
      = .ok (LxmfChat.plainDestinationHash crypto appName aspects) := by
  rw [plainDestinationHash, nameHash, copySlice_ok rfl (by simp), ok_bind,
    copySlice_ok rfl (by simp)]
  rfl

def hkdf (length : Nat) (deriveFrom salt context : Bytes) : Checked Bytes :=
  if 255 * 32 < length then crash "hkdf expand"
  else .ok (crypto.hkdf length deriveFrom salt context).val

theorem hkdf_session (deriveFrom salt context : Bytes) :
    hkdf crypto 64 deriveFrom salt context = .ok (crypto.hkdf 64 deriveFrom salt context).val :=
  if_neg (by decide)

def Token.new (key : Bytes) : Checked (Except String Token) := do
  if key.length ≠ 64 then return .error "Token requires a 64-byte key (AES-256 mode)"
  let signingKey ← copySlice 32 key 0 32
  let encryptionKey ← copySlice 32 key 32 key.length
  return .ok ⟨signingKey, encryptionKey⟩

theorem Token.new_eq (key : SessionKey) :
    Token.new key.val = .ok (.ok (Token.ofSessionKey key)) := by
  have width : ¬ key.val.length ≠ 64 := by simp
  rw [Token.new, if_neg width, copySlice_ok rfl (by simp), ok_bind, copySlice_ok (by simp) (by simp)]
  simp only [ok_bind, pure_eq_ok, LxmfChat.Token.ofSessionKey]
  congr 3
  · exact Subtype.ext (BytesN.ofBytes_val_take (by simp)).symm
  · exact Subtype.ext (BytesN.ofBytes_val_take (by simp)).symm

def Token.encryptWithIv (token : Token) (plaintext : Bytes) (iv : Iv) : Checked Bytes := do
  let ct := crypto.aesCbcEncrypt token.encryptionKey iv plaintext
  -- The capacity of the result.
  let _ ← add 16 ct.length
  let signed := iv.val ++ ct
  return signed ++ (crypto.hmacSha256 token.signingKey signed).val

theorem Token.encryptWithIv_eq (pads : crypto.CbcPads) (token : Token) {plaintext : Bytes}
    (fits : plaintext.length ≤ maxLength) (iv : Iv) :
    Token.encryptWithIv crypto token plaintext iv
      = .ok (LxmfChat.Token.encryptWithIv crypto token plaintext iv) := by
  have padded := pads token.encryptionKey iv plaintext
  rw [maxLength] at fits
  rw [Token.encryptWithIv, add_ok (by rw [padded, wordSize]; omega)]
  rfl

def Token.decrypt (token : Token) (data : Bytes) : Checked (Except String Bytes) := do
  if data.length < 16 + 32 then return .error "token too short"
  let (signed, recvMac) ← splitAt data (← sub data.length 32)
  if (crypto.hmacSha256 token.signingKey signed).val ≠ recvMac then
    return .error "token HMAC verification failed"
  let (iv, ct) ← splitAt signed 16
  -- The cipher takes its vector from a slice of the right length only.
  let iv ← copyFromSlice 16 iv
  match crypto.aesCbcDecrypt token.encryptionKey iv ct with
  | some plaintext => return .ok plaintext
  | none => return .error "token padding error"

theorem Token.decrypt_eq (token : Token) (data : Bytes) :
    Token.decrypt crypto token data = .ok (LxmfChat.Token.decrypt crypto token data) := by
  rw [Token.decrypt, LxmfChat.Token.decrypt]
  by_cases short : data.length < 16 + 32
  · rw [if_pos short, if_pos short]
    rfl
  · -- What the tag covers starts with the sixteen bytes of the vector.
    have cut : (data.take (data.length - 32)).length = data.length - 32 := by
      rw [List.length_take]
      omega
    have vector : ((data.take (data.length - 32)).take 16).length = 16 := by
      rw [List.length_take, cut]
      omega
    rw [if_neg short, if_neg short, sub_ok (by omega), ok_bind, splitAt_ok (by omega), ok_bind]
    dsimp only
    split
    · rfl
    · rw [splitAt_ok (by rw [cut]; omega), ok_bind]
      dsimp only
      rw [copyFromSlice_ok vector, ok_bind]
      have same : (⟨(data.take (data.length - 32)).take 16, vector⟩ : Iv)
          = BytesN.ofBytes 16 (data.take (data.length - 32)) :=
        Subtype.ext (BytesN.ofBytes_val_take (by rw [cut]; omega)).symm
      rw [same]
      cases crypto.aesCbcDecrypt token.encryptionKey _ _ with
      | none => rfl
      | some plaintext => rfl

def PublicIdentity.fromPublicKey (bytes : Bytes) : Checked (Except String PublicIdentity) := do
  if bytes.length ≠ 64 then return .error "public key must be 64 bytes"
  let encPub ← copySlice 32 bytes 0 32
  let sigPub ← copySlice 32 bytes 32 bytes.length
  return .ok { encPub, sigPub, hash := ← truncatedHash crypto bytes }

theorem PublicIdentity.fromPublicKey_eq (bytes : Bytes) :
    PublicIdentity.fromPublicKey crypto bytes
      = .ok (LxmfChat.PublicIdentity.fromPublicKey crypto bytes) := by
  rw [PublicIdentity.fromPublicKey, LxmfChat.PublicIdentity.fromPublicKey]
  by_cases width : bytes.length ≠ 64
  · rw [if_pos width, dif_pos width]
    rfl
  · rw [if_neg width, dif_neg width, copySlice_ok rfl (by omega), ok_bind,
      copySlice_ok (by omega) (by omega), ok_bind, truncatedHash_eq, ok_bind]
    rfl

def sharedToken (id : PrivateIdentity) (scalar peerPub : KeyHalf) :
    Checked (Except String Token) := do
  let shared := crypto.x25519 scalar peerPub
  let derived ← hkdf crypto 64 shared.val (id.hash crypto).val []
  Token.new derived

theorem sharedToken_eq (id : PrivateIdentity) (scalar peerPub : KeyHalf) :
    sharedToken crypto id scalar peerPub
      = .ok (.ok (Token.ofSessionKey (id.sharedKey crypto scalar peerPub))) := by
  rw [sharedToken, hkdf_session]
  exact Token.new_eq _

def decryptRatchets (id : PrivateIdentity) (peerPub : KeyHalf) (ciphertext : Bytes) :
    List KeyHalf → Checked (Option Bytes)
  | [] => return none
  | r :: ratchets => do
    match ← sharedToken crypto id r peerPub with
    | .error _ => decryptRatchets id peerPub ciphertext ratchets
    | .ok token =>
      match ← Token.decrypt crypto token ciphertext with
      | .ok plaintext => return some plaintext
      | .error _ => decryptRatchets id peerPub ciphertext ratchets

theorem decryptRatchets_eq (id : PrivateIdentity) (peerPub : KeyHalf) (ciphertext : Bytes)
    (ratchets : List KeyHalf) :
    decryptRatchets crypto id peerPub ciphertext ratchets
      = .ok (id.decryptRatchets crypto peerPub ciphertext ratchets) := by
  induction ratchets with
  | nil => rfl
  | cons r ratchets ih =>
    -- The key is always sixty-four bytes long, so only the decryption can send us on.
    rw [decryptRatchets, sharedToken_eq, ok_bind]
    dsimp only
    rw [Token.decrypt_eq, ok_bind, PrivateIdentity.decryptRatchets]
    cases LxmfChat.Token.decrypt crypto _ ciphertext with
    | ok plaintext => rfl
    | error reason => exact ih

def PrivateIdentity.decrypt (id : PrivateIdentity) (blob : Bytes) (ratchets : List KeyHalf) :
    Checked (Except String Bytes) := do
  if blob.length ≤ 32 then return .error "encrypted blob too short"
  let peerPub ← copySlice 32 blob 0 32
  let ciphertext ← slice blob 32 blob.length
  match ← decryptRatchets crypto id peerPub ciphertext ratchets with
  | some plaintext => return .ok plaintext
  | none =>
    match ← sharedToken crypto id id.x25519Seed peerPub with
    | .error reason => return .error reason
    | .ok token => Token.decrypt crypto token ciphertext

theorem PrivateIdentity.decrypt_eq (id : PrivateIdentity) (blob : Bytes)
    (ratchets : List KeyHalf) :
    PrivateIdentity.decrypt crypto id blob ratchets
      = .ok (LxmfChat.PrivateIdentity.decrypt crypto id blob ratchets) := by
  rw [PrivateIdentity.decrypt, LxmfChat.PrivateIdentity.decrypt]
  by_cases short : blob.length ≤ 32
  · rw [if_pos short, dif_pos short]
    rfl
  · rw [if_neg short, dif_neg short, copySlice_ok rfl (by omega), ok_bind, slice_length (by omega),
      ok_bind, decryptRatchets_eq, ok_bind, sharedToken_eq, ok_bind]
    dsimp only
    rw [Token.decrypt_eq]
    cases id.decryptRatchets crypto _ _ ratchets with
    | some plaintext => rfl
    | none => rfl

inductive HeaderType
  | one
  | two
deriving DecidableEq, Repr

/-- A packet, with the transport id as an option that nothing ties to the layout. -/
structure Packet where
  headerType : HeaderType
  contextFlag : Bool
  transportType : TransportType
  destinationType : DestinationType
  packetType : PacketType
  hops : UInt8
  context : UInt8
  transportId : Option TruncatedHash
  destinationHash : TruncatedHash
  data : Bytes

namespace Packet

@[simps]
def ofPacket (p : LxmfChat.Packet) : Packet where
  headerType := match p.headerType with
    | .one => .one
    | .two _ => .two
  contextFlag := p.contextFlag
  transportType := p.transportType
  destinationType := p.destinationType
  packetType := p.packetType
  hops := p.hops
  context := p.context
  transportId := p.transportId
  destinationHash := p.destinationHash
  data := p.data

def packedFlags (p : Packet) : UInt8 :=
  let ht := match p.headerType with
    | .one => HEADER_1
    | .two => HEADER_2
  LxmfChat.Packet.flagBits ht p.contextFlag p.transportType p.destinationType p.packetType

def encode (p : Packet) : Checked Bytes := do
  -- The capacity of the result, with room for the longer header.
  let _ ← add (2 + 1 + 16 * 2) p.data.length
  let mut raw := [p.packedFlags, p.hops]
  if p.headerType = .two then
    let id ← unwrap "HEADER_2 requires transport_id" p.transportId
    raw := raw ++ id.val
  return raw ++ p.destinationHash.val ++ [p.context] ++ p.data

theorem encode_eq (fits : p.data.length ≤ maxLength) : (ofPacket p).encode = .ok p.encode := by
  rw [maxLength] at fits
  have capacity : 2 + 1 + 16 * 2 + (ofPacket p).data.length < wordSize := by
    rw [wordSize, ofPacket]
    dsimp only
    omega
  rw [encode, add_ok capacity, ok_bind]
  cases header : p.headerType with
  | one =>
    simp [ofPacket, packedFlags, header, LxmfChat.Packet.encode, LxmfChat.Packet.packedFlags,
      LxmfChat.Packet.transportBytes, LxmfChat.HeaderType.code]
  | two id =>
    simp [ofPacket, packedFlags, header, LxmfChat.Packet.encode, LxmfChat.Packet.packedFlags,
      LxmfChat.Packet.transportBytes, LxmfChat.Packet.transportId, LxmfChat.HeaderType.code]

def decode (raw : Bytes) : Checked (Except String Packet) := do
  if raw.length < 2 + 16 + 1 then return .error "packet too short"
  let flags ← index raw 0
  let hops ← index raw 1
  let headerType := if (flags &&& 0b01000000) >>> 6 = HEADER_2 then HeaderType.two else .one
  let parsed := fun transportId destinationHash ctxOff => do
    let context ← index raw ctxOff
    let data ← slice raw (← add ctxOff 1) raw.length
    return .ok {
      headerType
      contextFlag := decide ((flags &&& 0b00100000) >>> 5 = FLAG_SET)
      transportType := .ofCode ((flags &&& 0b00010000) >>> 4)
      destinationType := .ofCode ((flags &&& 0b00001100) >>> 2)
      packetType := .ofCode (flags &&& 0b00000011)
      hops, context, transportId, destinationHash, data }
  if headerType = .two then
    if raw.length < 2 + 2 * 16 + 1 then return .error "HEADER_2 packet too short"
    let tid ← copySlice 16 raw 2 (2 + 16)
    let destinationHash ← copySlice 16 raw (2 + 16) (2 + 2 * 16)
    parsed (some tid) destinationHash (2 + 2 * 16)
  else
    let destinationHash ← copySlice 16 raw 2 (2 + 16)
    parsed none destinationHash (2 + 16)

theorem decode_eq (raw : Bytes) :
    decode raw = .ok ((LxmfChat.Packet.decode raw).map ofPacket) := by
  rw [decode, LxmfChat.Packet.decode]
  by_cases short : raw.length < 2 + 16 + 1
  · rw [if_pos short, dif_pos short]
    rfl
  rw [if_neg short, dif_neg short, index_ok (by omega), ok_bind, index_ok (by omega), ok_bind]
  by_cases two : (raw[0] &&& 0b01000000) >>> 6 = HEADER_2
  · simp only [if_pos two]
    by_cases shortTwo : raw.length < 2 + 2 * 16 + 1
    · rw [if_pos shortTwo, dif_pos shortTwo]
      rfl
    · rw [if_neg shortTwo, dif_neg shortTwo, copySlice_ok rfl (by omega), ok_bind,
        copySlice_ok rfl (by omega), ok_bind, index_ok (by omega), ok_bind,
        add_ok (by rw [wordSize]; omega), ok_bind, slice_length (by omega)]
      rfl
  · simp only [if_neg two]
    rw [if_neg (by decide), copySlice_ok rfl (by omega), ok_bind, index_ok (by omega), ok_bind,
      add_ok (by rw [wordSize]; omega), ok_bind, slice_length (by omega)]
    rfl

def hashablePart (p : Packet) : Checked Bytes := do
  let raw ← p.encode
  -- The capacity of the result.
  let _ ← add 1 raw.length
  let flags ← index raw 0
  let skip := match p.headerType with
    | .one => 2
    | .two => 16 + 2
  return (flags &&& 0x0F) :: (← slice raw skip raw.length)

theorem hashablePart_eq (fits : p.data.length ≤ maxLength) :
    (ofPacket p).hashablePart = .ok p.hashablePart := by
  -- The first byte is there in either layout, and so is everything that is skipped.
  have length : p.encode.length = 19 + p.transportBytes.length + p.data.length := by
    simp only [LxmfChat.Packet.encode, List.length_cons, List.length_append, BytesN.length_val]
    omega
  have transport : p.transportBytes.length ≤ 16 := by
    rw [LxmfChat.Packet.transportBytes]
    split <;> simp
  rw [hashablePart, encode_eq fits, ok_bind]
  rw [maxLength] at fits
  rw [add_ok (by rw [length, wordSize]; omega), ok_bind, index_ok (by omega), ok_bind]
  cases header : p.headerType with
  | one =>
    simp only [ofPacket, header]
    rw [slice_length (by omega)]
    simp only [ok_bind, pure_eq_ok, LxmfChat.Packet.hashablePart, header]
    rfl
  | two id =>
    have width : p.transportBytes.length = 16 := by simp [LxmfChat.Packet.transportBytes, header]
    simp only [ofPacket, header]
    rw [slice_length (by omega)]
    simp only [ok_bind, pure_eq_ok, LxmfChat.Packet.hashablePart, header]
    rfl

def packetHash (p : Packet) : Checked FullHash := do
  return fullHash crypto (← p.hashablePart)

theorem packetHash_eq (fits : p.data.length ≤ maxLength) :
    (ofPacket p).packetHash crypto = .ok (p.packetHash crypto) := by
  rw [packetHash, hashablePart_eq fits]
  rfl

def header1 (destinationType : DestinationType) (packetType : PacketType) (context : UInt8)
    (destinationHash : TruncatedHash) (data : Bytes) : Packet where
  headerType := .one
  contextFlag := false
  transportType := .broadcast
  destinationType := destinationType
  packetType := packetType
  hops := 0
  context := context
  transportId := none
  destinationHash := destinationHash
  data := data

theorem encode_header1 (destinationType : DestinationType) (packetType : PacketType)
    (context : UInt8) (destinationHash : TruncatedHash) {data : Bytes}
    (fits : data.length ≤ maxLength) :
    (header1 destinationType packetType context destinationHash data).encode
      = .ok (LxmfChat.Packet.header1 destinationType packetType context destinationHash
          data).encode :=
  @encode_eq (LxmfChat.Packet.header1 destinationType packetType context destinationHash data) fits

end Packet

namespace Link

def linkId (request : Packet) : Checked TruncatedHash := do
  let mut hp ← request.hashablePart
  if ECPUBSIZE < request.data.length then
    let diff ← sub request.data.length ECPUBSIZE
    hp := hp.take (← sub hp.length diff)
  truncatedHash crypto hp

theorem linkId_eq (fits : p.data.length ≤ maxLength) :
    linkId crypto (.ofPacket p) = .ok (LxmfChat.Link.linkId crypto p) := by
  have length : p.data.length ≤ p.hashablePart.length := by
    rw [LxmfChat.Packet.hashablePart_eq]
    simp only [List.length_cons, List.length_append]
    omega
  rw [linkId, Packet.hashablePart_eq fits, ok_bind, Packet.ofPacket_data, LxmfChat.Link.linkId,
    LxmfChat.Link.linkMaterial]
  by_cases longer : ECPUBSIZE < p.data.length
  · simp only [if_pos longer]
    rw [sub_ok longer.le, ok_bind, sub_ok (by omega), ok_bind, truncatedHash_eq]
  · simp only [if_neg longer]
    exact truncatedHash_eq crypto p.hashablePart

def requestedMtu (request : Packet) : Checked UInt32 := do
  let d := request.data
  if d.length = ECPUBSIZE + LINK_MTU_SIZE then
    let high ← index d ECPUBSIZE
    let middle ← index d (ECPUBSIZE + 1)
    let low ← index d (ECPUBSIZE + 2)
    return ((high.toUInt32 <<< 16) ||| (middle.toUInt32 <<< 8) ||| low.toUInt32) &&& MTU_BYTEMASK
  else return UInt32.ofNat MTU

theorem or_shifts (high middle low : UInt8) :
    (high.toUInt32 <<< 16) ||| (middle.toUInt32 <<< 8) ||| low.toUInt32
      = UInt32.ofNat (beNat [high, middle, low]) := by
  have h := high.toNat_lt
  have m := middle.toNat_lt
  have l := low.toNat_lt
  have value : beNat [high, middle, low]
      = (high.toNat * 256 + middle.toNat) * 256 + low.toNat := by
    simp [beNat]
  -- Bits that do not overlap are put together as if they were added.
  have upper : (high.toNat <<< 16) ||| (middle.toNat <<< 8)
      = (high.toNat * 256 + middle.toNat) <<< 8 := by
    rw [← Nat.shiftLeft_add_eq_or_of_lt (by rw [Nat.shiftLeft_eq]; omega)]
    simp only [Nat.shiftLeft_eq]
    omega
  apply UInt32.toNat_inj.mp
  rw [UInt32.toNat_or, UInt32.toNat_or, UInt32.toNat_shiftLeft, UInt32.toNat_shiftLeft,
    UInt8.toNat_toUInt32, UInt8.toNat_toUInt32, UInt8.toNat_toUInt32,
    UInt32.toNat_ofNat_of_lt' (by rw [value, UInt32.size]; omega), value]
  simp only [UInt32.toNat_ofNat, Nat.reduceMod, Nat.reducePow]
  rw [Nat.mod_eq_of_lt (by rw [Nat.shiftLeft_eq]; omega),
    Nat.mod_eq_of_lt (by rw [Nat.shiftLeft_eq]; omega), upper,
    ← Nat.shiftLeft_add_eq_or_of_lt (by omega), Nat.shiftLeft_eq]

theorem requestedMtu_eq (p : LxmfChat.Packet) :
    requestedMtu (.ofPacket p) = .ok (LxmfChat.Link.requestedMtu p) := by
  rw [requestedMtu, LxmfChat.Link.requestedMtu, Packet.ofPacket_data]
  by_cases width : p.data.length = ECPUBSIZE + LINK_MTU_SIZE
  · have bounds : p.data.length = 64 + 3 := width
    have cut : (BytesN.slice p.data ECPUBSIZE LINK_MTU_SIZE (by omega)).val
        = [p.data[64], p.data[65], p.data[66]] := by
      rw [BytesN.slice]
      simp only [ECPUBSIZE, LINK_MTU_SIZE]
      rw [List.drop_eq_getElem_cons (by omega), List.drop_eq_getElem_cons (by omega),
        List.drop_eq_getElem_cons (by omega)]
      rfl
    rw [if_pos width, dif_pos width, cut]
    simp only [ECPUBSIZE]
    rw [index_ok (by omega), ok_bind, index_ok (by omega), ok_bind, index_ok (by omega), ok_bind,
      or_shifts]
    rfl
  · rw [if_neg width, dif_neg width]
    rfl

def acceptRequest (request : Packet) (identity : PrivateIdentity) (ephemeralSecret : KeyHalf) :
    Checked (Option EstablishedLink) := do
  if request.headerType ≠ .one ∧ request.headerType ≠ .two then return none
  if request.data.length ≠ ECPUBSIZE ∧ request.data.length ≠ ECPUBSIZE + LINK_MTU_SIZE then
    return none
  let peerPub ← copySlice 32 request.data 0 32
  let peerSigPub ← copySlice 32 request.data 32 ECPUBSIZE
  let lid ← linkId crypto request
  let ourPub := crypto.x25519Base ephemeralSecret
  let shared := crypto.x25519 ephemeralSecret peerPub
  let derived ← hkdf crypto 64 shared.val lid.val []
  let derivedKey ← copyFromSlice 64 derived
  let mtu ← requestedMtu request
  let sig := LxmfChat.Link.signallingBytes mtu MODE_AES256_CBC
  let signed := lid.val ++ ourPub.val ++ (identity.publicIdentity crypto).sigPub.val ++ sig.val
  let signature := identity.sign crypto signed
  let proofData := signature.val ++ ourPub.val ++ sig.val
  let proof := Packet.header1 .link .proof CONTEXT_LRPROOF lid proofData
  return some { linkId := lid, derivedKey, proofPacket := ← proof.encode, peerSigPub }

theorem acceptRequest_eq (fits : p.data.length ≤ maxLength) (identity : PrivateIdentity)
    (ephemeralSecret : KeyHalf) :
    acceptRequest crypto (.ofPacket p) identity ephemeralSecret
      = .ok (LxmfChat.Link.acceptRequest crypto p identity ephemeralSecret) := by
  -- Every packet has one of the two layouts, so the check of the layout always passes.
  have layout : ¬ ((Packet.ofPacket p).headerType ≠ .one
      ∧ (Packet.ofPacket p).headerType ≠ .two) := by
    cases (Packet.ofPacket p).headerType <;> decide
  rw [acceptRequest, LxmfChat.Link.acceptRequest, if_neg layout, Packet.ofPacket_data]
  by_cases width : p.data.length ≠ ECPUBSIZE ∧ p.data.length ≠ ECPUBSIZE + LINK_MTU_SIZE
  · rw [if_pos width, dif_pos width]
    rfl
  · have enough : 32 + 32 ≤ p.data.length := by
      simp only [ECPUBSIZE, LINK_MTU_SIZE] at width
      omega
    rw [if_neg width, dif_neg width, copySlice_ok rfl (by omega), ok_bind,
      copySlice_ok (show 32 + 32 = ECPUBSIZE from rfl) enough, ok_bind, linkId_eq crypto fits, ok_bind]
    dsimp only
    rw [hkdf_session, ok_bind, copyFromSlice_ok (by simp), ok_bind, requestedMtu_eq, ok_bind]
    rw [Packet.encode_header1 _ _ _ _ (by simp [LINK_MTU_SIZE, maxLength])]
    rfl

def decrypt (derivedKey : SessionKey) (data : Bytes) : Checked (Except String Bytes) := do
  match ← Token.new derivedKey.val with
  | .error reason => return .error reason
  | .ok token => Token.decrypt crypto token data

theorem decrypt_eq (derivedKey : SessionKey) (data : Bytes) :
    decrypt crypto derivedKey data = .ok (LxmfChat.Link.decrypt crypto derivedKey data) := by
  rw [decrypt, Token.new_eq, ok_bind, LxmfChat.Link.decrypt, LxmfChat.Token.new_sessionKey]
  exact Token.decrypt_eq crypto _ data

def completeHandshake (lid : TruncatedHash) (ephX25519Secret : KeyHalf) (proofData : Bytes)
    (peerIdentity : PublicIdentity) : Checked (Option SessionKey) := do
  if proofData.length < 64 + 32 then return none
  let signature ← slice proofData 0 64
  let peerPub ← copySlice 32 proofData 64 (64 + 32)
  let signalling ← slice proofData (64 + 32) proofData.length
  -- The capacity of what was signed.
  let _ ← add (16 + 32 + 32) signalling.length
  let signed := lid.val ++ peerPub.val ++ peerIdentity.sigPub.val ++ signalling
  if !peerIdentity.validate crypto signature signed then return none
  let shared := crypto.x25519 ephX25519Secret peerPub
  let derived ← hkdf crypto 64 shared.val lid.val []
  return some (← copyFromSlice 64 derived)

theorem completeHandshake_eq (lid : TruncatedHash) (ephX25519Secret : KeyHalf) {proofData : Bytes}
    (fits : proofData.length ≤ maxLength) (peerIdentity : PublicIdentity) :
    completeHandshake crypto lid ephX25519Secret proofData peerIdentity
      = .ok (LxmfChat.Link.completeHandshake crypto lid ephX25519Secret proofData
          peerIdentity) := by
  rw [maxLength] at fits
  rw [completeHandshake, LxmfChat.Link.completeHandshake]
  by_cases short : proofData.length < 64 + 32
  · rw [if_pos short, dif_pos short]
    rfl
  · rw [if_neg short, dif_neg short, slice_zero (by omega), ok_bind, copySlice_ok rfl (by omega),
      ok_bind, slice_length (by omega), ok_bind,
      add_ok (by rw [List.length_drop, wordSize]; omega), ok_bind]
    dsimp only
    rw [LxmfChat.Link.proofMaterial]
    split
    · rfl
    · rw [hkdf_session, ok_bind, copyFromSlice_ok (by simp)]
      rfl

def makeLinkContextPacket (lid : TruncatedHash) (derivedKey : SessionKey) (context : UInt8)
    (plaintext : Bytes) (iv : Iv) : Checked (Except String Bytes) := do
  match ← Token.new derivedKey.val with
  | .error reason => return .error reason
  | .ok token =>
    let ciphertext ← Token.encryptWithIv crypto token plaintext iv
    return .ok (← (Packet.header1 .link .data context lid ciphertext).encode)

theorem makeLinkContextPacket_eq (pads : crypto.CbcPads) (lid : TruncatedHash)
    (derivedKey : SessionKey) (context : UInt8) {plaintext : Bytes}
    (fits : plaintext.length ≤ 500) (iv : Iv) :
    makeLinkContextPacket crypto lid derivedKey context plaintext iv
      = .ok (LxmfChat.Link.makeLinkContextPacket crypto lid derivedKey context plaintext iv) := by
  have length := LxmfChat.Token.encryptWithIv_length_eq crypto pads (Token.ofSessionKey derivedKey)
    plaintext iv
  rw [makeLinkContextPacket, Token.new_eq, ok_bind]
  dsimp only
  rw [Token.encryptWithIv_eq crypto pads _ (by rw [maxLength]; omega), ok_bind,
    Packet.encode_header1 _ _ _ _ (by rw [length, maxLength]; omega), ok_bind,
    LxmfChat.Link.makeLinkContextPacket, LxmfChat.Link.encryptData, LxmfChat.Token.new_sessionKey]
  rfl

def validateProofSig (sigPub : KeyHalf) (packetHash : FullHash) (proofData : Bytes) :
    Checked Bool := do
  if proofData.length = 32 + 64 then
    if (← slice proofData 0 32) ≠ packetHash.val then return false
    let sig ← copySlice 64 proofData 32 (32 + 64)
    return crypto.ed25519Verify sigPub packetHash.val sig
  else if proofData.length = 64 then
    let sig ← copySlice 64 proofData 0 64
    return crypto.ed25519Verify sigPub packetHash.val sig
  else return false

theorem validateProofSig_eq (sigPub : KeyHalf) (packetHash : FullHash) (proofData : Bytes) :
    validateProofSig crypto sigPub packetHash proofData
      = .ok (LxmfChat.Link.validateProofSig crypto sigPub packetHash proofData) := by
  rw [validateProofSig, LxmfChat.Link.validateProofSig]
  by_cases explicit : proofData.length = 32 + 64
  · rw [if_pos explicit, dif_pos explicit, slice_zero (by omega), ok_bind]
    split
    · rfl
    · rw [copySlice_ok rfl (by omega)]
      rfl
  · rw [if_neg explicit, dif_neg explicit]
    by_cases implicit : proofData.length = 64
    · rw [if_pos implicit, dif_pos implicit, copySlice_ok rfl (by omega)]
      rfl
    · rw [if_neg implicit, dif_neg implicit]
      rfl

def provePacketWith (sign : FullHash → Signature) (lid : TruncatedHash) (dataPacket : Packet) :
    Checked Bytes := do
  let packetHash ← dataPacket.packetHash crypto
  let signature := sign packetHash
  (Packet.header1 .link .proof CONTEXT_NONE lid (packetHash.val ++ signature.val)).encode

def provePacket (identity : PrivateIdentity) (lid : TruncatedHash) (dataPacket : Packet) :
    Checked Bytes :=
  provePacketWith crypto (fun packetHash => identity.sign crypto packetHash.val) lid dataPacket

def provePacketEphemeral (ephEd25519Seed : KeyHalf) (lid : TruncatedHash) (dataPacket : Packet) :
    Checked Bytes :=
  provePacketWith crypto (fun packetHash => crypto.ed25519Sign ephEd25519Seed
    (crypto.ed25519Public ephEd25519Seed) packetHash.val) lid dataPacket

theorem provePacketWith_eq (sign : FullHash → Signature) (lid : TruncatedHash)
    (fits : p.data.length ≤ maxLength) :
    provePacketWith crypto sign lid (.ofPacket p)
      = .ok (LxmfChat.Packet.header1 .link .proof CONTEXT_NONE lid
          ((p.packetHash crypto).val ++ (sign (p.packetHash crypto)).val)).encode := by
  rw [provePacketWith, Packet.packetHash_eq crypto fits, ok_bind]
  exact Packet.encode_header1 _ _ _ _ (by simp [maxLength])

def validateIdentify (lid : TruncatedHash) (plaintext : Bytes) :
    Checked (Option PublicIdentity) := do
  if plaintext.length ≠ 64 + 64 then return none
  match ← PublicIdentity.fromPublicKey crypto (← slice plaintext 0 64) with
  | .error _ => return none
  | .ok identity =>
    let signed := lid.val ++ (← slice plaintext 0 64)
    if identity.validate crypto (← slice plaintext 64 plaintext.length) signed then
      return some identity
    else return none

theorem validateIdentify_eq (lid : TruncatedHash) (plaintext : Bytes) :
    validateIdentify crypto lid plaintext
      = .ok (LxmfChat.Link.validateIdentify crypto lid plaintext) := by
  rw [validateIdentify, LxmfChat.Link.validateIdentify]
  by_cases width : plaintext.length ≠ 64 + 64
  · rw [if_pos width, if_pos width]
    rfl
  · rw [if_neg width, if_neg width, slice_zero (by omega), ok_bind,
      PublicIdentity.fromPublicKey_eq, ok_bind]
    cases LxmfChat.PublicIdentity.fromPublicKey crypto (plaintext.take 64) with
    | error reason => rfl
    | ok identity =>
      dsimp only
      rw [ok_bind, slice_length (by omega), ok_bind]
      split <;> rfl

end Link

def validateAnnounce (packet : Packet) (publicKey nameHashSlice randomHash : Bytes)
    (ratchet : Option KeyHalf) (sigOff : Nat) : Checked (Option ParsedAnnounce) := do
  let data := packet.data
  let signature ← slice data sigOff (sigOff + 64)
  let appData ← slice data (sigOff + 64) data.length
  let signed := packet.destinationHash.val ++ publicKey ++ nameHashSlice ++ randomHash
    ++ (ratchet.map Subtype.val).getD [] ++ appData
  match ← PublicIdentity.fromPublicKey crypto publicKey with
  | .error _ => return none
  | .ok identity =>
    if !identity.validate crypto signature signed then return none
    let expected ← slice (fullHash crypto (nameHashSlice ++ identity.hash.val)).val 0 16
    if expected ≠ packet.destinationHash.val then return none
    let nameHash ← copyFromSlice 10 nameHashSlice
    return some ⟨packet.destinationHash, identity, nameHash, ratchet, appData⟩

theorem validateAnnounce_eq (publicKey : BytesN 64) (name : NameHash) (random : BytesN 10)
    (ratchet : Option KeyHalf) {sigOff : Nat} (room : sigOff + 64 ≤ p.data.length) :
    validateAnnounce crypto (.ofPacket p) publicKey.val name.val random.val ratchet sigOff
      = .ok (LxmfChat.validateAnnounce crypto p publicKey name random ratchet
          ((p.data.drop sigOff).take 64) (p.data.drop (sigOff + 64))) := by
  rw [validateAnnounce, LxmfChat.validateAnnounce, Packet.ofPacket_data,
    Packet.ofPacket_destinationHash, slice_ok (Nat.le_add_right _ _) room, Nat.add_sub_cancel_left, ok_bind, slice_length room,
    ok_bind, PublicIdentity.fromPublicKey_eq, ok_bind]
  cases LxmfChat.PublicIdentity.fromPublicKey crypto publicKey.val with
  | error reason => rfl
  | ok identity =>
    dsimp only
    cases identity.validate crypto _ _ with
    | false => rfl
    | true =>
      simp only [Bool.not_true, Bool.false_eq_true, if_false]
      rw [slice_zero (by simp), ok_bind]
      by_cases foreign : (fullHash crypto (name.val ++ identity.hash.val)).val.take 16
          ≠ p.destinationHash.val
      · rw [if_pos foreign, if_pos foreign]
        rfl
      · rw [if_neg foreign, if_neg foreign, copyFromSlice_ok name.length_val]
        rfl

def parseAndValidate (packet : Packet) : Checked (Option ParsedAnnounce) := do
  if packet.packetType ≠ .announce then return none
  let data := packet.data
  if data.length < 64 + 10 + 10 + 64 then return none
  let publicKey ← slice data 0 64
  let nameHashSlice ← slice data 64 (64 + 10)
  let randomHash ← slice data (64 + 10) (64 + 10 + 10)
  if packet.contextFlag then
    if data.length < 64 + 10 + 10 + 64 + 32 then return none
    let r ← copySlice 32 data (64 + 10 + 10) (64 + 10 + 10 + 32)
    validateAnnounce crypto packet publicKey nameHashSlice randomHash (some r) (64 + 10 + 10 + 32)
  else validateAnnounce crypto packet publicKey nameHashSlice randomHash none (64 + 10 + 10)

theorem parseAndValidate_eq (p : LxmfChat.Packet) :
    parseAndValidate crypto (.ofPacket p) = .ok (LxmfChat.parseAndValidate crypto p) := by
  rw [parseAndValidate, LxmfChat.parseAndValidate, Packet.ofPacket_data,
    Packet.ofPacket_packetType, Packet.ofPacket_contextFlag]
  by_cases other : p.packetType ≠ .announce
  · rw [if_pos other, if_pos other]
    rfl
  rw [if_neg other, if_neg other]
  dsimp only
  by_cases short : p.data.length < 64 + 10 + 10 + 64
  · rw [if_pos short, dif_pos short]
    rfl
  -- The fixed parts fit; whether there is room for a ratchet is asked only if there is one.
  rw [if_neg short, dif_neg short, slice_width (show 0 + 64 = 64 from rfl) (by omega), ok_bind,
    slice_width rfl (by omega), ok_bind, slice_width rfl (by omega), ok_bind]
  by_cases ratcheted : p.contextFlag = true
  · rw [if_pos ratcheted, if_pos ratcheted]
    by_cases shortRatchet : p.data.length < 64 + 10 + 10 + 64 + 32
    · rw [if_pos shortRatchet, dif_pos shortRatchet]
      rfl
    · rw [if_neg shortRatchet, dif_neg shortRatchet, copySlice_ok rfl (by omega), ok_bind]
      exact validateAnnounce_eq crypto _ _ _ _ (by omega)
  · rw [if_neg ratcheted, if_neg ratcheted]
    exact validateAnnounce_eq crypto _ _ _ _ (by omega)

def proofIsValid (tx : ResourceSender) (proofData : Bytes) : Checked Bool := do
  if proofData.length ≠ 64 then return false
  if (← slice proofData 0 32) ≠ tx.hash.val then return false
  return (← slice proofData 32 proofData.length) == tx.expectedProof.val

theorem proofIsValid_eq (tx : ResourceSender) (proofData : Bytes) :
    proofIsValid tx proofData = .ok (tx.proofIsValid proofData) := by
  rw [proofIsValid, ResourceSender.proofIsValid]
  by_cases width : proofData.length ≠ 64
  · rw [if_pos width, beq_false_of_ne width]
    rfl
  · rw [if_neg width, slice_zero (by omega), ok_bind, not_not.mp width, beq_self_eq_true,
      Bool.true_and]
    by_cases hash : proofData.take 32 ≠ tx.hash.val
    · rw [if_pos hash, beq_false_of_ne hash]
      rfl
    · rw [if_neg hash, not_not.mp hash, beq_self_eq_true, Bool.true_and, ← not_not.mp width,
        slice_length (by omega)]
      rfl

end LxmfChat.Literal
