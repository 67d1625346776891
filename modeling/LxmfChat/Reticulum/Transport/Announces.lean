import LxmfChat.Reticulum.Announce
import LxmfChat.Reticulum.Transport.Ops

/-! Announces on the wire: what was announced is what is learned, however it was relayed. -/

namespace LxmfChat

open Base

variable {crypto : Crypto}

theorem PrivateIdentity.fromPublicKey_publicKey (identity : PrivateIdentity) :
    PublicIdentity.fromPublicKey crypto (identity.publicIdentity crypto).publicKey.val
      = .ok (identity.publicIdentity crypto) := by
  have width : ¬ (identity.publicIdentity crypto).publicKey.val.length ≠ 64 := by simp
  rw [PublicIdentity.fromPublicKey, dif_neg width]
  -- The two halves are cut where they were joined.
  congr 1
  rw [PublicIdentity.mk.injEq]
  refine ⟨Subtype.ext ?_, Subtype.ext ?_, rfl⟩
  · simp [BytesN.slice, PublicIdentity.publicKey]
  · simp [BytesN.slice, PublicIdentity.publicKey, List.take_of_length_le]

/-- Announce data is taken apart into the pieces that it was put together from. -/
theorem parseAndValidate_announceData {packet : Packet} {publicKey : BytesN 64} {name : NameHash}
    {random : BytesN 10} {ratchet : Option KeyHalf} {signature : Signature} {appData : Bytes}
    (kind : packet.packetType = .announce) (flag : packet.contextFlag = ratchet.isSome)
    (data : packet.data = announceData publicKey name random ratchet signature.val appData) :
    parseAndValidate crypto packet
      = validateAnnounce crypto packet publicKey name random ratchet signature.val appData := by
  have long : ¬ packet.data.length < 64 + 10 + 10 + 64 := by
    simp only [data, announceData, List.length_append, BytesN.length_val]
    omega
  -- The first three pieces stand in their places whether there is a ratchet or not.
  simp only [announceData, List.append_assoc] at data
  have first : BytesN.slice packet.data 0 64 (by omega) = publicKey :=
    BytesN.slice_eq publicKey (data.trans (List.nil_append _).symm) rfl _
  have second : BytesN.slice packet.data 64 10 (by omega) = name :=
    BytesN.slice_eq name data publicKey.property _
  have third : BytesN.slice packet.data (64 + 10) 10 (by omega) = random :=
    BytesN.slice_eq random (data.trans (List.append_assoc ..).symm) (by simp) _
  rw [parseAndValidate, if_neg (not_not.mpr kind)]
  dsimp only
  rw [dif_neg long, first, second, third, flag]
  have front : (publicKey.val ++ (name.val ++ random.val)).length = 64 + 10 + 10 := by simp
  cases ratchet with
  | none =>
    have whole : packet.data = (publicKey.val ++ (name.val ++ random.val))
        ++ (signature.val ++ appData) := by
      rw [data]
      simp [ratchetBytes]
    have behind : packet.data.drop (64 + 10 + 10) = signature.val ++ appData := by
      rw [← front, whole, List.drop_left]
    have last : packet.data.drop (64 + 10 + 10 + 64) = appData := by
      rw [← List.drop_drop, behind, BytesN.drop_append]
    rw [if_neg (by simp), behind, last, BytesN.take_append]
  | some key =>
    have room : ¬ packet.data.length < 64 + 10 + 10 + 64 + 32 := by
      simp only [data, ratchetBytes, Option.map_some, Option.getD_some, List.length_append,
        BytesN.length_val]
      omega
    have whole : packet.data = (publicKey.val ++ (name.val ++ random.val))
        ++ (key.val ++ (signature.val ++ appData)) := by
      rw [data]
      simp [ratchetBytes]
    have behind : packet.data.drop (64 + 10 + 10 + 32) = signature.val ++ appData := by
      rw [← List.drop_drop, ← front, whole, List.drop_left, BytesN.drop_append]
    have last : packet.data.drop (64 + 10 + 10 + 32 + 64) = appData := by
      rw [← List.drop_drop, behind, BytesN.drop_append]
    rw [if_pos (by simp), dif_neg room, BytesN.slice_eq key whole front, behind, last,
      BytesN.take_append]

theorem PrivateIdentity.validate_sign (verifies : crypto.SignVerifies) (identity : PrivateIdentity)
    (message : Bytes) :
    (identity.publicIdentity crypto).validate crypto (identity.sign crypto message).val message
      = true := by
  rw [PublicIdentity.validate, dif_pos (BytesN.length_val _)]
  exact verifies identity.ed25519Seed message

namespace AnnounceCall

variable (crypto) (identity : PrivateIdentity) (call : AnnounceCall)

def parsed : ParsedAnnounce where
  destinationHash := call.destination crypto identity
  identity := identity.publicIdentity crypto
  nameHash := call.name crypto
  ratchet := call.ratchetPub
  appData := call.appData

def signature : Signature := identity.sign crypto (call.signed crypto identity)

/-- The announce as it arrives: with a context, and after relays counted hops and set the header. -/
def arriving (context hops : UInt8) (headerType : HeaderType) (transportType : TransportType) :
    Packet :=
  { call.packet crypto identity with context, hops, headerType, transportType }

theorem data_packet : (call.packet crypto identity).data
    = announceData (identity.publicIdentity crypto).publicKey (call.name crypto) call.randomHash
        call.ratchetPub (call.signature crypto identity).val call.appData := rfl

variable {crypto}

theorem validateAnnounce_call (verifies : crypto.SignVerifies) (packet : Packet)
    (destination : packet.destinationHash = call.destination crypto identity) :
    validateAnnounce crypto packet (identity.publicIdentity crypto).publicKey (call.name crypto)
      call.randomHash call.ratchetPub (call.signature crypto identity).val call.appData
      = some (call.parsed crypto identity) := by
  have verified := PrivateIdentity.validate_sign verifies identity (call.signed crypto identity)
  rw [validateAnnounce, identity.fromPublicKey_publicKey]
  dsimp only
  rw [destination]
  -- What is verified is what was signed, and the destination is the hash of name and identity.
  have signed : (identity.publicIdentity crypto).validate crypto (call.signature crypto identity).val
      ((call.destination crypto identity).val ++ (identity.publicIdentity crypto).publicKey.val
        ++ (call.name crypto).val ++ call.randomHash.val
        ++ (call.ratchetPub.map Subtype.val).getD [] ++ call.appData) = true := verified
  rw [signed, if_neg (by simp)]
  exact if_neg (not_not.mpr rfl)

theorem parseAndValidate_arriving (verifies : crypto.SignVerifies) (context hops : UInt8)
    (headerType : HeaderType) (transportType : TransportType) :
    parseAndValidate crypto (call.arriving crypto identity context hops headerType transportType)
      = some (call.parsed crypto identity) := by
  refine Eq.trans ?_ (validateAnnounce_call identity call verifies (call.arriving crypto identity
    context hops headerType transportType) rfl)
  exact parseAndValidate_announceData rfl rfl (call.data_packet crypto identity)

theorem makeAnnounceWith_eq (t : Transport) (appName : String) (aspects : List String)
    (appData : Bytes) (random5 : BytesN 5) (unixTime : Nat) :
    t.makeAnnounceWith crypto appName aspects appData random5 unixTime
      = (arriving crypto t.identity ⟨appName, aspects, appData, LxmfChat.randomHash random5 unixTime, none⟩
          CONTEXT_NONE 0 .one .broadcast).encode := rfl

theorem makePathResponseWith_eq (t : Transport) (appName : String) (aspects : List String)
    (appData : Bytes) (random5 : BytesN 5) (unixTime : Nat) :
    t.makePathResponseWith crypto appName aspects appData random5 unixTime
      = (arriving crypto t.identity ⟨appName, aspects, appData, LxmfChat.randomHash random5 unixTime, none⟩
          CONTEXT_PATH_RESPONSE 0 .one .broadcast).encode := rfl

theorem handlePacket_announce {packet : Packet} (kind : packet.packetType = .announce)
    (t : Transport) (noLink : t.links.get packet.destinationHash = none) (ephemeral : KeyHalf)
    (iface : PathIface) :
    t.handlePacket crypto ephemeral iface packet = t.handleAnnounce crypto iface packet := by
  simp [Transport.handlePacket, Transport.handleLrProof, Transport.handleResourceProof,
    Transport.handleLinkProof, Transport.handleOutLinkData, Transport.handleOppProof,
    Transport.handleInLink, Transport.handleAddressed, noLink, kind]

/--
An announce survives the wire.

Whatever context it is tagged with, however often it was relayed and whichever relay it names, it is
decoded, accepted and understood, and whoever receives it stores what it says and the way to it.
-/
theorem announce_survives (verifies : crypto.SignVerifies) (context hops : UInt8)
    (headerType : HeaderType) (transportType : TransportType) :
    ∃ packet parsed,
      Packet.decode (call.arriving crypto identity context hops headerType transportType).encode
        = .ok packet ∧
      parseAndValidate crypto packet = some parsed ∧
      parsed.destinationHash = call.destination crypto identity ∧
      parsed.identity.publicKey = (identity.publicIdentity crypto).publicKey ∧
      parsed.nameHash = call.name crypto ∧
      parsed.ratchet = call.ratchetPub ∧
      parsed.appData = call.appData ∧
      ∀ (t : Transport) (ephemeral : KeyHalf) (iface : PathIface),
        t.links.get (call.destination crypto identity) = none →
        ∃ after event, t.handleFrame crypto
            (call.arriving crypto identity context hops headerType transportType).encode ephemeral
            iface = (after, event) ∧
          after.known.get (call.destination crypto identity) = some parsed.info ∧
          after.paths.get (call.destination crypto identity) = some
            { nextHop := match headerType with
                | .one => none
                | .two id => some id
              hops := UInt8.ofNat (min (hops.toNat + 1) 255)
              learnedOn := iface } := by
  have accepted := parseAndValidate_arriving identity call verifies context hops headerType
    transportType
  refine ⟨_, _, Packet.decode_encode _, accepted, rfl, rfl, rfl, rfl, rfl, ?_⟩
  intro t ephemeral iface noLink
  have handled : t.handleFrame crypto (call.arriving crypto identity context hops headerType
      transportType).encode ephemeral iface = t.handleAnnounce crypto iface (call.arriving crypto
        identity context hops headerType transportType) := by
    rw [Transport.handleFrame, Packet.decode_encode]
    exact handlePacket_announce rfl t noLink ephemeral iface
  rw [Transport.handleAnnounce, accepted] at handled
  -- What is inserted is found, whatever had to leave the table for it.
  exact ⟨_, _, handled, Capped.get_insert_self .., Capped.get_insert_self ..⟩

/-- An announce with a ratchet that answers a path request, from as far away as can be counted. -/
theorem announce_survives_relayed :
    ∃ packet parsed, Packet.decode (ratchetCall.arriving Crypto.sample announcer
        CONTEXT_PATH_RESPONSE 255 (.two (BytesN.ofBytes 16 [3])) .transport).encode = .ok packet ∧
      parseAndValidate Crypto.sample packet = some parsed ∧
      parsed.ratchet = ratchetCall.ratchetPub := by
  obtain ⟨packet, parsed, decoded, accepted, -, -, -, ratchet, -⟩ := announce_survives announcer
    ratchetCall Crypto.sample_signVerifies CONTEXT_PATH_RESPONSE 255 (.two (BytesN.ofBytes 16 [3]))
    .transport
  exact ⟨packet, parsed, decoded, accepted, ratchet⟩

end AnnounceCall

end LxmfChat
