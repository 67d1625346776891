import LxmfChat.Reticulum.Identity

/-! What an accepted announce says, and what of it its signature vouches for. -/

namespace LxmfChat

open Base

section Layout

def ratchetBytes (ratchet : Option KeyHalf) : Bytes := (ratchet.map Subtype.val).getD []

def announceSigned (destHash : TruncatedHash) (publicKey : BytesN 64) (name : NameHash)
    (random : BytesN 10) (ratchet : Option KeyHalf) (appData : Bytes) : Bytes :=
  destHash.val ++ publicKey.val ++ name.val ++ random.val ++ ratchetBytes ratchet ++ appData

def announceData (publicKey : BytesN 64) (name : NameHash) (random : BytesN 10)
    (ratchet : Option KeyHalf) (signature appData : Bytes) : Bytes :=
  publicKey.val ++ name.val ++ random.val ++ ratchetBytes ratchet ++ signature ++ appData

end Layout

variable {crypto : Crypto}

theorem PublicIdentity.fromPublicKey_ok {bytes : Bytes} {identity : PublicIdentity}
    (parsed : fromPublicKey crypto bytes = .ok identity) :
    identity.publicKey.val = bytes ∧ identity.hash = truncatedHash crypto bytes := by
  rw [fromPublicKey] at parsed
  split at parsed
  case isTrue => cases parsed
  case isFalse width =>
    cases parsed
    have halves : bytes.length = 64 := by omega
    refine ⟨?_, rfl⟩
    simp only [publicKey, BytesN.slice, List.drop_zero]
    rw [List.take_of_length_le (i := 32) (l := bytes.drop 32) (by rw [List.length_drop]; omega)]
    exact List.take_append_drop 32 bytes

/-- An address belongs to a name and to a key. -/
structure Owns (crypto : Crypto) (identity : PublicIdentity) (name : NameHash)
    (address : TruncatedHash) : Prop where
  address : address.val = (fullHash crypto (name.val ++ identity.hash.val)).val.take 16
  key : identity.hash = truncatedHash crypto identity.publicKey.val

/-- What an announce that passes its checks has shown. -/
structure Vouched (crypto : Crypto) (packet : Packet) (random : BytesN 10) (signature : Bytes)
    (parsed : ParsedAnnounce) : Prop where
  destination : packet.destinationHash = parsed.destinationHash
  owns : Owns crypto parsed.identity parsed.nameHash parsed.destinationHash
  verified : parsed.identity.validate crypto signature
    (announceSigned parsed.destinationHash parsed.identity.publicKey parsed.nameHash random
      parsed.ratchet parsed.appData) = true

theorem validateAnnounce_some {packet : Packet} {publicKey : BytesN 64} {name : NameHash}
    {random : BytesN 10} {ratchet : Option KeyHalf} {signature appData : Bytes}
    {parsed : ParsedAnnounce}
    (valid : validateAnnounce crypto packet publicKey name random ratchet signature appData
      = some parsed) :
    parsed.identity.publicKey = publicKey ∧ parsed.nameHash = name ∧ parsed.ratchet = ratchet
      ∧ parsed.appData = appData ∧ Vouched crypto packet random signature parsed := by
  rw [validateAnnounce] at valid
  cases keys : PublicIdentity.fromPublicKey crypto publicKey.val with
  | error reason => simp [keys] at valid
  | ok identity =>
    obtain ⟨same, hash⟩ := PublicIdentity.fromPublicKey_ok keys
    have key : identity.publicKey = publicKey := Subtype.ext same
    simp only [keys] at valid
    split at valid
    case isTrue => cases valid
    case isFalse verified =>
      split at valid
      case isTrue => cases valid
      case isFalse bound =>
        cases valid
        refine ⟨key, rfl, rfl, rfl, rfl, ⟨(not_not.mp bound).symm, same ▸ hash⟩, ?_⟩
        rw [key]
        simpa [announceSigned, ratchetBytes] using verified

theorem parseAndValidate_some {packet : Packet} {parsed : ParsedAnnounce}
    (accepted : parseAndValidate crypto packet = some parsed) :
    packet.packetType = .announce ∧ packet.contextFlag = parsed.ratchet.isSome
      ∧ ∃ random signature, packet.data = announceData parsed.identity.publicKey parsed.nameHash
          random parsed.ratchet signature parsed.appData
        ∧ Vouched crypto packet random signature parsed := by
  rw [parseAndValidate] at accepted
  split at accepted
  case isTrue => cases accepted
  case isFalse kind =>
    dsimp only at accepted
    split at accepted
    case isTrue => cases accepted
    case isFalse long =>
      split at accepted
      case isTrue flag =>
        split at accepted
        case isTrue => cases accepted
        case isFalse room =>
          obtain ⟨key, name, ratchet, appData, vouched⟩ := validateAnnounce_some accepted
          refine ⟨not_not.mp kind, by rw [ratchet]; exact flag, _, _, ?_, vouched⟩
          -- The pieces put together from the end are the data again.
          simp only [key, name, ratchet, appData, announceData, ratchetBytes, BytesN.slice,
            Option.map_some, Option.getD_some, List.drop_zero, List.append_assoc]
          rw [take_drop_append, take_drop_append, take_drop_append, take_drop_append,
            List.take_append_drop]
      case isFalse flag =>
        obtain ⟨key, name, ratchet, appData, vouched⟩ := validateAnnounce_some accepted
        refine ⟨not_not.mp kind, by rw [ratchet]; simpa using flag, _, _, ?_, vouched⟩
        simp only [key, name, ratchet, appData, announceData, ratchetBytes, BytesN.slice,
          Option.map_none, Option.getD_none, List.drop_zero, List.append_assoc, List.nil_append]
        rw [take_drop_append, take_drop_append, take_drop_append, List.take_append_drop]

/-- The arguments of one call of `buildAnnounce`, but for the identity. -/
structure AnnounceCall where
  appName : String
  aspects : List String
  appData : Bytes
  randomHash : BytesN 10
  ratchetPub : Option KeyHalf

namespace AnnounceCall

variable (crypto) (identity : PrivateIdentity) (call : AnnounceCall)

def destination : TruncatedHash :=
  singleDestinationHash crypto call.appName call.aspects (identity.hash crypto)

def name : NameHash := nameHash crypto call.appName call.aspects

def signed : Bytes :=
  announceSigned (call.destination crypto identity) (identity.publicIdentity crypto).publicKey
    (call.name crypto) call.randomHash call.ratchetPub call.appData

def packet : Packet :=
  buildAnnounce crypto identity call.appName call.aspects call.appData call.randomHash
    call.ratchetPub

end AnnounceCall

section Samples

def ratchetCall : AnnounceCall where
  appName := "lxmf"
  aspects := ["delivery"]
  appData := [7, 7]
  randomHash := BytesN.ofBytes 10 []
  ratchetPub := some (BytesN.ofBytes 32 [9])

def announcer : PrivateIdentity := ⟨BytesN.ofBytes 32 [1], BytesN.ofBytes 32 [2]⟩

end Samples

end LxmfChat
