import LxmfChat.Reticulum.Identity

/-! Links: the handshake of both sides, and the packets and proofs sent over an open link. -/

namespace LxmfChat

open Base

def ECPUBSIZE : Nat := 64

def LINK_MTU_SIZE : Nat := 3

def MODE_AES256_CBC : UInt8 := 0x01
def MTU_BYTEMASK : UInt32 := 0x001FFFFF
def MODE_BYTEMASK : UInt32 := 0xE0

/-- Result of accepting a link request. -/
structure EstablishedLink where
  linkId : TruncatedHash
  derivedKey : SessionKey
  /-- The proof to transmit back to the initiator, already encoded. -/
  proofPacket : Bytes
  /-- The initiator's ephemeral verifying key for this link. -/
  peerSigPub : KeyHalf

namespace Link

variable (crypto : Crypto)

/-- What a link id is the hash of: the hashable part without trailing signalling bytes. -/
def linkMaterial (request : Packet) : Bytes :=
  let hp := request.hashablePart
  if ECPUBSIZE < request.data.length then
    let diff := request.data.length - ECPUBSIZE
    hp.take (hp.length - diff)
  else hp

def linkId (request : Packet) : TruncatedHash := truncatedHash crypto (linkMaterial request)

def signallingBytes (mtu : UInt32) (mode : UInt8) : BytesN LINK_MTU_SIZE :=
  let value := (mtu &&& MTU_BYTEMASK) ||| (((mode.toUInt32 <<< 5) &&& MODE_BYTEMASK) <<< 16)
  ⟨beBytes LINK_MTU_SIZE value.toNat, by simp⟩

def requestedMtu (request : Packet) : UInt32 :=
  let d := request.data
  if width : d.length = ECPUBSIZE + LINK_MTU_SIZE then
    UInt32.ofNat (beNat (BytesN.slice d ECPUBSIZE LINK_MTU_SIZE (by omega)).val) &&& MTU_BYTEMASK
  else UInt32.ofNat MTU

def proofMaterial (lid : TruncatedHash) (ephPub sigPub : KeyHalf) (signalling : Bytes) : Bytes :=
  lid.val ++ ephPub.val ++ sigPub.val ++ signalling

def sessionKey (lid : TruncatedHash) (secret peerPub : KeyHalf) : SessionKey :=
  crypto.hkdf 64 (crypto.x25519 secret peerPub).val lid.val []

/-- The proof a responder answers a request with, signed with its long-term key. -/
def proofPacket (request : Packet) (identity : PrivateIdentity) (ephemeralSecret : KeyHalf) :
    Packet :=
  let lid := linkId crypto request
  let ourPub := crypto.x25519Base ephemeralSecret
  let sig := signallingBytes (requestedMtu request) MODE_AES256_CBC
  let signature := identity.sign crypto
    (proofMaterial lid ourPub (identity.publicIdentity crypto).sigPub sig.val)
  Packet.header1 .link .proof CONTEXT_LRPROOF lid (signature.val ++ ourPub.val ++ sig.val)

/-- Accept a link request, in either header layout: the link's state and a signed proof. -/
def acceptRequest (request : Packet) (identity : PrivateIdentity) (ephemeralSecret : KeyHalf) :
    Option EstablishedLink :=
  if width : request.data.length ≠ ECPUBSIZE
      ∧ request.data.length ≠ ECPUBSIZE + LINK_MTU_SIZE then none
  else
    have enough : 32 + 32 ≤ request.data.length := by
      simp only [ECPUBSIZE, LINK_MTU_SIZE] at width
      omega
    let peerPub := BytesN.slice request.data 0 32 (by omega)
    let lid := linkId crypto request
    some {
      linkId := lid
      derivedKey := sessionKey crypto lid ephemeralSecret peerPub
      proofPacket := (proofPacket crypto request identity ephemeralSecret).encode
      peerSigPub := BytesN.slice request.data 32 32 (by omega) }

def decrypt (derivedKey : SessionKey) (data : Bytes) : Except String Bytes := do
  (← Token.new derivedKey.val).decrypt crypto data

def requestPacket (target : TruncatedHash) (ephX25519Secret ephEd25519Seed : KeyHalf) : Packet :=
  let xPub := crypto.x25519Base ephX25519Secret
  let edPub := crypto.ed25519Public ephEd25519Seed
  let sig := signallingBytes (UInt32.ofNat MTU) MODE_AES256_CBC
  Packet.header1 .single .linkRequest CONTEXT_NONE target (xPub.val ++ edPub.val ++ sig.val)

/-- Build a link request as the initiator, with the id that the proof will be matched by. -/
def initiateRequest (target : TruncatedHash) (ephX25519Secret ephEd25519Seed : KeyHalf) :
    Bytes × TruncatedHash :=
  let packet := requestPacket crypto target ephX25519Secret ephEd25519Seed
  (packet.encode, linkId crypto packet)

/-- Complete the handshake from the responder's proof, whatever signalling follows it. -/
def completeHandshake (lid : TruncatedHash) (ephX25519Secret : KeyHalf) (proofData : Bytes)
    (peerIdentity : PublicIdentity) : Option SessionKey :=
  if short : proofData.length < 64 + 32 then none
  else
    let signature := proofData.take 64
    let peerPub := BytesN.slice proofData 64 32 (by omega)
    let signalling := proofData.drop (64 + 32)
    let signed := proofMaterial lid peerPub peerIdentity.sigPub signalling
    if !peerIdentity.validate crypto signature signed then none
    else some (sessionKey crypto lid ephX25519Secret peerPub)

def encryptData (derivedKey : SessionKey) (plaintext : Bytes) (iv : Iv) : Except String Bytes := do
  return (← Token.new derivedKey.val).encryptWithIv crypto plaintext iv

def makeLinkContextPacket (lid : TruncatedHash) (derivedKey : SessionKey) (context : UInt8)
    (plaintext : Bytes) (iv : Iv) : Except String Bytes := do
  let ciphertext ← encryptData crypto derivedKey plaintext iv
  return (Packet.header1 .link .data context lid ciphertext).encode

def makeRttPacket (lid : TruncatedHash) (derivedKey : SessionKey) (rttSeconds : BytesN 8)
    (iv : Iv) : Except String Bytes :=
  makeLinkContextPacket crypto lid derivedKey CONTEXT_LRRTT (0xcb :: rttSeconds.val) iv

def validateProofSig (sigPub : KeyHalf) (packetHash : FullHash) (proofData : Bytes) : Bool :=
  if explicit : proofData.length = 32 + 64 then
    if proofData.take 32 ≠ packetHash.val then false
    else crypto.ed25519Verify sigPub packetHash.val (BytesN.slice proofData 32 64 (by omega))
  else if implicit : proofData.length = 64 then
    crypto.ed25519Verify sigPub packetHash.val (BytesN.slice proofData 0 64 (by omega))
  else false

def validateProof (peerIdentity : PublicIdentity) (packetHash : FullHash) (proofData : Bytes) :
    Bool :=
  validateProofSig crypto peerIdentity.sigPub packetHash proofData

def provePacket (identity : PrivateIdentity) (lid : TruncatedHash) (dataPacket : Packet) : Bytes :=
  let packetHash := dataPacket.packetHash crypto
  let signature := identity.sign crypto packetHash.val
  (Packet.header1 .link .proof CONTEXT_NONE lid (packetHash.val ++ signature.val)).encode

/-- Build a packet proof for a link we initiated, signed with that link's ephemeral key. -/
def provePacketEphemeral (ephEd25519Seed : KeyHalf) (lid : TruncatedHash) (dataPacket : Packet) :
    Bytes :=
  let sigPub := crypto.ed25519Public ephEd25519Seed
  let packetHash := dataPacket.packetHash crypto
  let signature := crypto.ed25519Sign ephEd25519Seed sigPub packetHash.val
  (Packet.header1 .link .proof CONTEXT_NONE lid (packetHash.val ++ signature.val)).encode

def validateIdentify (lid : TruncatedHash) (plaintext : Bytes) : Option PublicIdentity :=
  if plaintext.length ≠ 64 + 64 then none
  else
    match PublicIdentity.fromPublicKey crypto (plaintext.take 64) with
    | .error _ => none
    | .ok identity =>
      if identity.validate crypto (plaintext.drop 64) (lid.val ++ plaintext.take 64) then
        some identity
      else none

def makeIdentify (lid : TruncatedHash) (derivedKey : SessionKey) (identity : PrivateIdentity)
    (iv : Iv) : Except String Bytes :=
  let pubkey := (identity.publicIdentity crypto).publicKey
  let signature := identity.sign crypto (lid.val ++ pubkey.val)
  makeLinkContextPacket crypto lid derivedKey CONTEXT_LINKIDENTIFY (pubkey.val ++ signature.val) iv

theorem linkMaterial_eq (request : Packet) :
    linkMaterial request = ((request.destinationType.code <<< 2) ||| request.packetType.code) ::
      (request.destinationHash.val ++ (request.context :: request.data.take ECPUBSIZE)) := by
  rw [linkMaterial, Packet.hashablePart_eq]
  split
  case isTrue longer =>
    -- What is cut off the end is what the data has beyond the two keys.
    have kept : (request.destinationHash.val ++ (request.context :: request.data)).length + 1
        - (request.data.length - ECPUBSIZE) = 16 + (ECPUBSIZE + 1) + 1 := by
      simp only [List.length_append, List.length_cons, BytesN.length_val]
      omega
    simp only [List.length_cons] at kept ⊢
    rw [kept, List.take_succ_cons]
    simp [List.take_append, List.take_of_length_le]
  case isFalse exact =>
    rw [List.take_of_length_le (Nat.not_lt.mp exact)]

theorem linkId_relayed {p q : Packet} (relayed : Packet.Relayed p q) :
    linkId crypto p = linkId crypto q := by
  rw [linkId, linkId, linkMaterial, linkMaterial, relayed.hashablePart, relayed.data]

theorem requestPacket_data (target : TruncatedHash) (secret seed : KeyHalf) :
    (requestPacket crypto target secret seed).data
      = (crypto.x25519Base secret).val ++ ((crypto.ed25519Public seed).val
        ++ (signallingBytes (UInt32.ofNat MTU) MODE_AES256_CBC).val) := by
  rw [requestPacket, Packet.header1, List.append_assoc]

theorem completeHandshake_some {lid : TruncatedHash} {secret : KeyHalf} {proofData : Bytes}
    {peer : PublicIdentity} {key : SessionKey}
    (completed : completeHandshake crypto lid secret proofData peer = some key) :
    ∃ (peerPub : KeyHalf) (signalling : Bytes),
      peer.validate crypto (proofData.take 64)
        (proofMaterial lid peerPub peer.sigPub signalling) = true
      ∧ key = sessionKey crypto lid secret peerPub := by
  rw [completeHandshake] at completed
  split at completed
  · cases completed
  · simp only [Bool.not_eq_true', Option.ite_none_left_eq_some, Bool.not_eq_false] at completed
    exact ⟨_, _, completed.1, (Option.some.inj completed.2).symm⟩

theorem acceptRequest_some {request : Packet} {identity : PrivateIdentity} {secret : KeyHalf}
    {est : EstablishedLink} (accepted : acceptRequest crypto request identity secret = some est) :
    ∃ (peerPub peerSigPub : KeyHalf) (signalling : Bytes),
      request.data = peerPub.val ++ (peerSigPub.val ++ signalling)
      ∧ est = {
          linkId := linkId crypto request
          derivedKey := sessionKey crypto (linkId crypto request) secret peerPub
          proofPacket := (proofPacket crypto request identity secret).encode
          peerSigPub := peerSigPub } := by
  rw [acceptRequest] at accepted
  split at accepted
  · cases accepted
  · have keys := Option.some.inj accepted
    refine ⟨_, _, request.data.drop 64, ?_, keys.symm⟩
    -- The two keys are the first and the second thirty-two bytes.
    simp only [BytesN.slice, List.drop_zero]
    rw [← List.drop_drop (i := 32) (j := 32), List.take_append_drop, List.take_append_drop]

theorem acceptRequest_linkId {request : Packet} {identity : PrivateIdentity} {secret : KeyHalf}
    {est : EstablishedLink} (accepted : acceptRequest crypto request identity secret = some est) :
    linkId crypto request = est.linkId := by
  obtain ⟨_, _, _, -, rfl⟩ := acceptRequest_some crypto accepted
  rfl

theorem encryptData_eq (key : SessionKey) (plaintext : Bytes) (iv : Iv) :
    encryptData crypto key plaintext iv
      = .ok ((Token.ofSessionKey key).encryptWithIv crypto plaintext iv) := by
  rw [encryptData, Token.new_sessionKey]
  rfl

theorem makeLinkContextPacket_eq (lid : TruncatedHash) (key : SessionKey) (context : UInt8)
    (plaintext : Bytes) (iv : Iv) :
    makeLinkContextPacket crypto lid key context plaintext iv
      = .ok (Packet.header1 .link .data context lid
          ((Token.ofSessionKey key).encryptWithIv crypto plaintext iv)).encode := by
  rw [makeLinkContextPacket, encryptData_eq]
  rfl

theorem length_makeLinkContextPacket (pads : crypto.CbcPads) {lid : TruncatedHash}
    {key : SessionKey} {context : UInt8} {plaintext raw : Bytes} {iv : Iv}
    (made : makeLinkContextPacket crypto lid key context plaintext iv = .ok raw) :
    raw.length = 19 + (16 * (plaintext.length / 16 + 1) + 48) := by
  rw [makeLinkContextPacket_eq] at made
  cases made
  rw [Packet.length_encode_header1, Token.encryptWithIv_length_eq crypto pads]

end Link

end LxmfChat
