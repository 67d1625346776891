import LxmfChat.Reticulum.Packet

/-! Identities, the destinations they own, and the announces that publish both. -/

namespace LxmfChat

open Base

abbrev NameHash := BytesN 10

/-- The public half of an identity. -/
structure PublicIdentity where
  /-- X25519 public key, for encryption. -/
  encPub : KeyHalf
  /-- Ed25519 public key, for signatures. -/
  sigPub : KeyHalf
  hash : TruncatedHash
deriving DecidableEq, Repr

/-- A full identity: the two private seeds, from which everything else is computed. -/
structure PrivateIdentity where
  x25519Seed : KeyHalf
  ed25519Seed : KeyHalf

namespace PublicIdentity

variable (crypto : Crypto)

def publicKey (id : PublicIdentity) : BytesN 64 :=
  ⟨id.encPub.val ++ id.sigPub.val, by simp⟩

def fromPublicKey (bytes : Bytes) : Except String PublicIdentity :=
  if width : bytes.length ≠ 64 then .error "public key must be 64 bytes"
  else .ok {
    encPub := BytesN.slice bytes 0 32 (by omega)
    sigPub := BytesN.slice bytes 32 32 (by omega)
    hash := truncatedHash crypto bytes }

def validate (id : PublicIdentity) (signature message : Bytes) : Bool :=
  if width : signature.length = 64 then crypto.ed25519Verify id.sigPub message ⟨signature, width⟩
  else false

def encrypt (id : PublicIdentity) (plaintext : Bytes) (ephemeralSecret : KeyHalf) (iv : Iv)
    (ratchetPub : Option KeyHalf) : Bytes :=
  let ephPub := crypto.x25519Base ephemeralSecret
  let targetPub := ratchetPub.getD id.encPub
  let shared := crypto.x25519 ephemeralSecret targetPub
  let derived : SessionKey := crypto.hkdf 64 shared.val id.hash.val []
  ephPub.val ++ (Token.ofSessionKey derived).encryptWithIv crypto plaintext iv

end PublicIdentity

namespace PrivateIdentity

variable (crypto : Crypto)

def publicIdentity (id : PrivateIdentity) : PublicIdentity :=
  let encPub := crypto.x25519Base id.x25519Seed
  let sigPub := crypto.ed25519Public id.ed25519Seed
  { encPub, sigPub, hash := truncatedHash crypto (encPub.val ++ sigPub.val) }

def hash (id : PrivateIdentity) : TruncatedHash := (id.publicIdentity crypto).hash

def sign (id : PrivateIdentity) (message : Bytes) : Signature :=
  crypto.ed25519Sign id.ed25519Seed (id.publicIdentity crypto).sigPub message

def sharedKey (id : PrivateIdentity) (scalar peerPub : KeyHalf) : SessionKey :=
  crypto.hkdf 64 (crypto.x25519 scalar peerPub).val (id.hash crypto).val []

def decryptRatchets (id : PrivateIdentity) (peerPub : KeyHalf) (ciphertext : Bytes) :
    List KeyHalf → Option Bytes
  | [] => none
  | r :: ratchets =>
    match (Token.ofSessionKey (id.sharedKey crypto r peerPub)).decrypt crypto ciphertext with
    | .ok plaintext => some plaintext
    | .error _ => decryptRatchets id peerPub ciphertext ratchets

def decrypt (id : PrivateIdentity) (blob : Bytes) (ratchets : List KeyHalf) :
    Except String Bytes :=
  if short : blob.length ≤ 32 then .error "encrypted blob too short"
  else
    let peerPub := BytesN.slice blob 0 32 (Nat.le_of_not_le short)
    let ciphertext := blob.drop 32
    match id.decryptRatchets crypto peerPub ciphertext ratchets with
    | some plaintext => .ok plaintext
    | none =>
      (Token.ofSessionKey (id.sharedKey crypto id.x25519Seed peerPub)).decrypt crypto ciphertext

theorem decrypt_encrypt (symmetric : crypto.DhSymmetric) (inverse : crypto.CbcInverse)
    (id : PrivateIdentity) (plaintext : Bytes) (ephemeralSecret : KeyHalf) (iv : Iv) :
    id.decrypt crypto ((id.publicIdentity crypto).encrypt crypto plaintext ephemeralSecret iv none)
      [] = .ok plaintext := by
  unfold PublicIdentity.encrypt
  dsimp only
  generalize sent : (Token.ofSessionKey (crypto.hkdf 64 (crypto.x25519 ephemeralSecret
    ((none : Option KeyHalf).getD (id.publicIdentity crypto).encPub)).val
    (id.publicIdentity crypto).hash.val [])).encryptWithIv crypto plaintext iv = token
  have long : 48 ≤ token.length := by
    rw [← sent]
    exact Token.encryptWithIv_length crypto _ _ _
  have enough : ¬ ((crypto.x25519Base ephemeralSecret).val ++ token).length ≤ 32 := by
    rw [List.length_append, BytesN.length_val]
    omega
  -- The receiver finds the ephemeral key in front, and with it the sender's shared secret.
  have front : BytesN.slice ((crypto.x25519Base ephemeralSecret).val ++ token) 0 32
      (Nat.le_of_not_le enough) = crypto.x25519Base ephemeralSecret := by
    apply Subtype.ext
    simp [BytesN.slice]
  rw [decrypt, dif_neg enough]
  dsimp only
  rw [front, BytesN.drop_append]
  simp only [decryptRatchets, sharedKey]
  rw [symmetric id.x25519Seed ephemeralSecret, ← sent]
  exact Token.decrypt_encryptWithIv crypto inverse _ _ _

end PrivateIdentity

section Destinations

variable (crypto : Crypto)

def expandName (appName : String) (aspects : List String) : String :=
  aspects.foldl (fun name aspect => name ++ "." ++ aspect) appName

def nameHash (appName : String) (aspects : List String) : NameHash :=
  BytesN.slice (fullHash crypto (expandName appName aspects).toUTF8.toList).val 0 10 (by simp)

def singleDestinationHash (appName : String) (aspects : List String)
    (identityHash : TruncatedHash) : TruncatedHash :=
  let material := (nameHash crypto appName aspects).val ++ identityHash.val
  BytesN.slice (fullHash crypto material).val 0 16 (by simp)

def plainDestinationHash (appName : String) (aspects : List String) : TruncatedHash :=
  BytesN.slice (fullHash crypto (nameHash crypto appName aspects).val).val 0 16 (by simp)

end Destinations

/-- A validated inbound announce. -/
structure ParsedAnnounce where
  destinationHash : TruncatedHash
  identity : PublicIdentity
  nameHash : NameHash
  ratchet : Option KeyHalf
  appData : Bytes

section Announces

variable (crypto : Crypto)

def randomHash (random5 : BytesN 5) (unixTime : Nat) : BytesN 10 :=
  ⟨random5.val ++ beBytes 5 unixTime, by simp⟩

def buildAnnounce (identity : PrivateIdentity) (appName : String) (aspects : List String)
    (appData : Bytes) (randomHash : BytesN 10) (ratchetPub : Option KeyHalf) : Packet :=
  let destHash := singleDestinationHash crypto appName aspects (identity.hash crypto)
  let name := nameHash crypto appName aspects
  let publicKey := (identity.publicIdentity crypto).publicKey
  let ratchet := (ratchetPub.map Subtype.val).getD []
  let signed := destHash.val ++ publicKey.val ++ name.val ++ randomHash.val ++ ratchet ++ appData
  let signature := identity.sign crypto signed
  let data := publicKey.val ++ name.val ++ randomHash.val ++ ratchet ++ signature.val ++ appData
  { Packet.header1 .single .announce CONTEXT_NONE destHash data with
    contextFlag := ratchetPub.isSome }

def validateAnnounce (packet : Packet) (publicKey : BytesN 64) (name : NameHash)
    (random : BytesN 10) (ratchet : Option KeyHalf) (signature appData : Bytes) :
    Option ParsedAnnounce :=
  let signed := packet.destinationHash.val ++ publicKey.val ++ name.val ++ random.val
    ++ (ratchet.map Subtype.val).getD [] ++ appData
  match PublicIdentity.fromPublicKey crypto publicKey.val with
  | .error _ => none
  | .ok identity =>
    if !identity.validate crypto signature signed then none
    else
      let expected := (fullHash crypto (name.val ++ identity.hash.val)).val.take 16
      if expected ≠ packet.destinationHash.val then none
      else some ⟨packet.destinationHash, identity, name, ratchet, appData⟩

def parseAndValidate (packet : Packet) : Option ParsedAnnounce :=
  if packet.packetType ≠ .announce then none
  else
    let data := packet.data
    if short : data.length < 64 + 10 + 10 + 64 then none
    else
      let publicKey := BytesN.slice data 0 64 (by omega)
      let name := BytesN.slice data 64 10 (by omega)
      let random := BytesN.slice data (64 + 10) 10 (by omega)
      if packet.contextFlag then
        if shortRatchet : data.length < 64 + 10 + 10 + 64 + 32 then none
        else
          validateAnnounce crypto packet publicKey name random
            (some (BytesN.slice data (64 + 10 + 10) 32 (by omega)))
            ((data.drop (64 + 10 + 10 + 32)).take 64) (data.drop (64 + 10 + 10 + 32 + 64))
      else
        validateAnnounce crypto packet publicKey name random none
          ((data.drop (64 + 10 + 10)).take 64) (data.drop (64 + 10 + 10 + 64))

end Announces

end LxmfChat
