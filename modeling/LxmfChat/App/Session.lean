import LxmfChat.App.Inbox
import LxmfChat.Lxmf.RoundTrip
import LxmfChat.Reticulum.Transport.Announces
import LxmfChat.Reticulum.Transport.Receipts
import LxmfChat.Reticulum.Transport.Relaying

/-! Links that work: two transports open one, and what is sent on it is shown and confirmed. -/

namespace LxmfChat

open Base

theorem Packet.Relayed.trans {p q r : Packet} (first : Packet.Relayed p q)
    (second : Packet.Relayed q r) : Packet.Relayed p r :=
  ⟨first.1.trans second.1, first.2.trans second.2, first.3.trans second.3, first.4.trans second.4,
    first.5.trans second.5⟩

/-- The two ends of a link fit together: one key, and what the one proves the other can check. -/
structure Session (crypto : Crypto) (a b : Transport) (lid : TruncatedHash) (link : OutLink)
    (st : LinkState) : Prop where
  opened : a.outLinks.get lid = some link
  accepted : b.links.get lid = some st
  /-- The responder asked for no link of that id itself. -/
  alone : b.outLinks.get lid = none
  key : link.key = st.key
  responder : link.identity = b.identity.publicIdentity crypto

variable {crypto : Crypto} {a b t : Transport} {lid : TruncatedHash} {link : OutLink}
  {st : LinkState} {plaintext : Bytes} {iv : Iv} {q : Packet}

theorem Link.decrypt_encrypted (inverse : crypto.CbcInverse) (key : SessionKey) (plaintext : Bytes)
    (iv : Iv) :
    Link.decrypt crypto key ((Token.ofSessionKey key).encryptWithIv crypto plaintext iv)
      = .ok plaintext := by
  rw [Link.decrypt, Token.new_sessionKey]
  exact Token.decrypt_encryptWithIv crypto inverse _ _ _

theorem Link.sessionKey_comm (symmetric : crypto.DhSymmetric) (lid : TruncatedHash) (x y : KeyHalf) :
    Link.sessionKey crypto lid x (crypto.x25519Base y)
      = Link.sessionKey crypto lid y (crypto.x25519Base x) := by
  rw [Link.sessionKey, symmetric, Link.sessionKey]

theorem Link.acceptRequest_eq {x sig : KeyHalf} {signalling : BytesN LINK_MTU_SIZE}
    (data : q.data = x.val ++ (sig.val ++ signalling.val)) (identity : PrivateIdentity)
    (secret : KeyHalf) :
    Link.acceptRequest crypto q identity secret = some {
      linkId := Link.linkId crypto q
      derivedKey := Link.sessionKey crypto (Link.linkId crypto q) secret x
      proofPacket := (Link.proofPacket crypto q identity secret).encode
      peerSigPub := sig } := by
  have width : ¬ (q.data.length ≠ ECPUBSIZE ∧ q.data.length ≠ ECPUBSIZE + LINK_MTU_SIZE) := by
    simp [data, ECPUBSIZE, LINK_MTU_SIZE]
  have room : 32 + 32 ≤ q.data.length := by simp [data, LINK_MTU_SIZE]
  have first : BytesN.slice q.data 0 32 (by omega) = x :=
    BytesN.slice_eq x (data.trans (List.nil_append _).symm) rfl _
  have second : BytesN.slice q.data 32 32 room = sig := BytesN.slice_eq sig data x.property _
  rw [Link.acceptRequest, dif_neg width]
  simp only [first, second]

theorem Link.completeHandshake_eq_some (verifies : crypto.SignVerifies) (identity : PrivateIdentity)
    {pub : KeyHalf} {data signalling : Bytes} (secret : KeyHalf)
    (made : data = (identity.sign crypto (Link.proofMaterial lid pub
      (identity.publicIdentity crypto).sigPub signalling)).val ++ (pub.val ++ signalling)) :
    Link.completeHandshake crypto lid secret data (identity.publicIdentity crypto)
      = some (Link.sessionKey crypto lid secret pub) := by
  have place := BytesN.slice_eq pub made (BytesN.length_val _) (by simp [made]; omega)
  have behind : data.drop (64 + 32) = signalling := by
    rw [made, ← List.drop_drop, BytesN.drop_append, BytesN.drop_append]
  rw [Link.completeHandshake, dif_neg (by simp [made]; omega)]
  simp only [place, behind]
  rw [made, BytesN.take_append, identity.validate_sign verifies]
  rfl

/-- The proof of a packet that the owner of a seed makes, on a link or for its identity. -/
def Link.proofOf (crypto : Crypto) (seed : KeyHalf) (lid : TruncatedHash) (h : FullHash) : Packet :=
  Packet.header1 .link .proof CONTEXT_NONE lid
    (h.val ++ (crypto.ed25519Sign seed (crypto.ed25519Public seed) h.val).val)

namespace Transport

/-- A proof is taken wherever its receipt is held and the key that it is checked with is known. -/
theorem handleFrame_proof (verifies : crypto.SignVerifies) {seed : KeyHalf} {h : FullHash}
    (known : t.proofKey lid = some (crypto.ed25519Public seed)) (awaited : t.receipts.get h = some lid)
    (relayed : Packet.Relayed q (Link.proofOf crypto seed lid h)) (ephemeral : KeyHalf)
    (iface : PathIface) :
    t.handleFrame crypto q.encode ephemeral iface
      = ({ t with receipts := t.receipts.remove h }, .delivered h) := by
  obtain ⟨-, kind, destination, context, data⟩ := relayed
  have valid : Link.validateProofSig crypto (crypto.ed25519Public seed) h q.data = true :=
    validateProofSig_iff.mpr ⟨_, .inr data, verifies seed h.val⟩
  -- The proof begins with the hash, which is then the only candidate.
  have named : t.proofCandidates q = [h] := by
    rw [proofCandidates, dif_pos (by rw [data]; simp [Link.proofOf, Packet.header1])]
    congr 1
    exact BytesN.slice_eq h (data.trans (List.nil_append _).symm) rfl _
  have proven : t.provenReceipt crypto q (crypto.ed25519Public seed) = some h := by
    simp [provenReceipt, named, destination, Link.proofOf, Packet.header1, awaited, valid]
  simp only [Link.proofOf, Packet.header1] at kind destination context
  simp [handleFrame, Packet.decode_encode, handlePacket, handleLrProof, handleResourceProof,
    handleLinkProof, kind, destination, context, known, proven, CONTEXT_NONE, CONTEXT_LRPROOF,
    CONTEXT_RESOURCE_PRF]

/-- Data from the initiator is decrypted, and proven under the hash that its sender registered. -/
theorem handleFrame_linkData (inverse : crypto.CbcInverse) (alone : t.outLinks.get lid = none)
    (held : t.links.get lid = some st)
    (relayed : Packet.Relayed q (linkDataPacket crypto lid st.key plaintext iv))
    (ephemeral : KeyHalf) (iface : PathIface) :
    t.handleFrame crypto q.encode ephemeral iface = (t, .linkData lid plaintext
      (Link.proofOf crypto t.identity.ed25519Seed lid
        ((linkDataPacket crypto lid st.key plaintext iv).packetHash crypto)).encode) := by
  -- Nothing that a relay changes is hashed, so this proves the packet that was sent.
  have proof : Link.provePacket crypto t.identity lid q = _ :=
    congrArg (fun h => (Link.proofOf crypto t.identity.ed25519Seed lid h).encode)
      (relayed.packetHash crypto)
  obtain ⟨-, kind, destination, context, data⟩ := relayed
  have decrypted := Link.decrypt_encrypted inverse st.key plaintext iv
  simp only [linkDataPacket, Packet.header1] at kind destination context data
  simp [handleFrame, Packet.decode_encode, handlePacket, handleLrProof, handleResourceProof,
    handleLinkProof, handleOutLinkData, handleOppProof, handleInLink, handleInLinkContext,
    inLinkContexts, kind, destination, context, data, alone, held, decrypted, proof, CONTEXT_NONE,
    CONTEXT_RESOURCE]

/-- A request for a link that is not held yet is accepted. -/
theorem handleFrame_linkRequest {target : TruncatedHash} {x e : KeyHalf}
    (relayed : Packet.Relayed q (Link.requestPacket crypto target x e)) (ours : target ∈ t.ourDests)
    (noLink : t.links.get target = none) (named : Link.linkId crypto q = lid)
    (fresh : t.links.get lid = none) (secret : KeyHalf) (iface : PathIface) :
    t.handleFrame crypto q.encode secret iface
      = (t.insertLink lid {
          key := Link.sessionKey crypto lid secret (crypto.x25519Base x)
          proof := (Link.proofPacket crypto q t.identity secret).encode
          peerSigPub := crypto.ed25519Public e
          peerIdentity := none },
        .linkEstablished lid (Link.proofPacket crypto q t.identity secret).encode) := by
  obtain ⟨-, kind, destination, -, data⟩ := relayed
  rw [Link.requestPacket_data] at data
  simp only [Link.requestPacket, Packet.header1] at kind destination
  simp [handleFrame, Packet.decode_encode, handlePacket, handleLrProof, handleResourceProof,
    handleLinkProof, handleOutLinkData, handleOppProof, handleInLink, handleAddressed,
    handleLinkRequest, kind, destination, ours, noLink, named, fresh, Link.acceptRequest_eq data,
    EstablishedLink.opened]

/-- The proof of a link that is awaited brings the link up. -/
theorem handleFrame_lrProof (verifies : crypto.SignVerifies) {request : Packet} {pend : PendingOut}
    {identity : PrivateIdentity} {secret : KeyHalf} (named : Link.linkId crypto request = lid)
    (pending : t.pendingOut.get lid = some pend)
    (peer : pend.identity = identity.publicIdentity crypto)
    (relayed : Packet.Relayed q (Link.proofPacket crypto request identity secret))
    (ephemeral : KeyHalf) (iface : PathIface) :
    t.handleFrame crypto q.encode ephemeral iface
      = ({ t with pendingOut := t.pendingOut.remove lid }.insertOutLink lid (pend.opened
          (Link.sessionKey crypto lid pend.ephSecret (crypto.x25519Base secret))),
        .outboundLinkUp lid pend.target) := by
  subst named
  obtain ⟨-, kind, destination, context, data⟩ := relayed
  have completed := Link.completeHandshake_eq_some verifies identity pend.ephSecret
    (data.trans (List.append_assoc ..))
  simp only [Link.proofPacket, Packet.header1] at kind destination context
  simp [handleFrame, Packet.decode_encode, handlePacket, handleLrProof, kind, destination, context,
    pending, peer, completed]

end Transport

namespace Session

open Transport

/--
A link that is asked for opens: the request is accepted, and its proof brings the link up.

The initiator may do anything in between but give the request up, and frames may be relayed.
-/
theorem link_opens (verifies : crypto.SignVerifies) (symmetric : crypto.DhSymmetric)
    {target : TruncatedHash} (ours : target ∈ b.ourDests) (noLink : b.links.get target = none)
    (x e : KeyHalf) (now : Nat) :
    ∃ a₁ raw lid sent, a.makeLinkRequest crypto target (b.identity.publicIdentity crypto) x e now
        = (a₁, raw, lid)
      ∧ Packet.decode raw = .ok sent
      ∧ ∀ q ephemeral iface, Packet.Relayed q sent → b.links.get lid = none →
        b.outLinks.get lid = none → ∃ b₁ proof,
        b.handleFrame crypto q.encode ephemeral iface
          = (b₁, .linkEstablished lid (Packet.encode proof))
        ∧ ∀ (a₂ : Transport) r ephemeral iface, a₂.pendingOut.get lid = a₁.pendingOut.get lid →
          Packet.Relayed r proof → ∃ a₃ link st,
          a₂.handleFrame crypto r.encode ephemeral iface = (a₃, .outboundLinkUp lid target)
          ∧ Session crypto a₃ b₁ lid link st := by
  refine ⟨_, _, _, _, rfl, decode_applyTransport a target rfl, ?_⟩
  intro q ephemeral iface relayed fresh alone
  -- The request as it arrives names the same link, and carries the same two keys.
  have relayed := relayed.trans (Packet.relayed_forwarded _ (a.relayFor target))
  have named := Link.linkId_relayed crypto relayed
  refine ⟨_, _, handleFrame_linkRequest relayed ours noLink named fresh ephemeral iface, ?_⟩
  intro a₂ r ephemeral' iface' kept relayed'
  have pending := kept.trans (Capped.get_insert_self ..)
  exact ⟨_, _, _, handleFrame_lrProof verifies named pending rfl relayed' ephemeral' iface',
    Capped.get_insert_self .., Capped.get_insert_self .., alone,
    Link.sessionKey_comm symmetric _ x ephemeral, rfl⟩

def sampleListener : Transport := (Transport.new (sampleIdentity 3)).registerDestination sampleDest

/-- A link between two nodes that have just started opens. -/
theorem link_opens_started : sampleDest ∈ sampleListener.ourDests ∧ ∃ a₃ b₁ lid link st,
    Session Crypto.sample a₃ b₁ lid link st := by
  refine ⟨by decide, ?_⟩
  obtain ⟨a₁, raw, lid, sent, made, -, accepts⟩ := link_opens (a := Transport.new (sampleIdentity 1))
    (b := sampleListener) Crypto.sample_signVerifies Crypto.sample_dhSymmetric
    (by decide : sampleDest ∈ _) rfl (sampleSeed 7) (sampleSeed 8) 0
  obtain ⟨b₁, proof, -, opens⟩ := accepts sent (sampleSeed 9) .hub ⟨rfl, rfl, rfl, rfl, rfl⟩ rfl rfl
  obtain ⟨a₃, link, st, -, session⟩ := opens a₁ proof (sampleSeed 9) .hub rfl
    ⟨rfl, rfl, rfl, rfl, rfl⟩
  exact ⟨a₃, b₁, lid, link, st, session⟩

/-- What is parsed from a source, under the identity it is known by, is shown unless it was before. -/
theorem shown_deliverLxmf {dest src : TruncatedHash} {signature : Signature} {payload : Bytes}
    {m : ParsedMessage} {inbox : Inbox} (new : m.messageId ∉ inbox.recentMsgIds)
    (parsed : Message.parse crypto (Message.framed dest src signature payload)
      ((t.known.get src).map (·.identity)) = .ok m) (now : Nat) (live : Bool) :
    ∃ shown, (inbox.deliverLxmf crypto t now (Message.framed dest src signature payload) live).2.shown?
        = some (m, shown)
      ∧ shown.text = shownText live m.signatureValidated m.content := by
  have long : 16 + 16 ≤ (Message.framed dest src signature payload).length := by
    simp [Message.framed_length, Message.headerLength, DEST_LEN]
    omega
  have source : BytesN.slice (Message.framed dest src signature payload) 16 16 long = src :=
    BytesN.slice_eq src (List.append_assoc _ _ payload |>.trans (List.append_assoc ..))
      dest.property _
  rw [Inbox.deliverLxmf, dif_neg (Nat.not_lt.mpr long)]
  simp only [source, parsed, if_neg new]
  split <;> exact ⟨_, rfl, rfl⟩

/--
A message that is sent on an open link to a peer who knows its sender is shown there as it was
written, without a warning, and its proof confirms it to the sender.

Frames may be relayed in any way, and the sender may do anything before the proof arrives but lose
the link or the receipt.
-/
theorem message_delivered (session : Session crypto a b lid link st)
    (verifies : crypto.SignVerifies) (inverse : crypto.CbcInverse) {dest src : TruncatedHash}
    (known : (b.known.get src).map (·.identity) = some (a.identity.publicIdentity crypto))
    {fields : Fields} (plain : (Value.map fields).Plain) {timestamp : Double} {text : Text}
    {ticket : Option TruncatedHash} {message : Message.PackedMessage}
    (packed : message = Message.pack crypto a.identity dest src timestamp [] (utf8Encode text)
      fields ticket)
    (fits : message.packed.length < wordSize) (iv : Iv) (now : Nat) {inbox : Inbox}
    (new : message.messageId ∉ inbox.recentMsgIds) :
    ∃ a₁ sent h, a.makeLinkData crypto lid message.packed iv = (a₁, some (Packet.encode sent, h))
      ∧ a₁.outLinks.get lid = some link ∧ a₁.receipts.get h = some lid
      ∧ ∀ q ephemeral iface, Packet.Relayed q sent → ∃ proof,
        b.handleFrame crypto q.encode ephemeral iface
          = (b, .linkData lid message.packed (Packet.encode proof))
        ∧ (∃ m shown, (inbox.deliverLxmf crypto b now message.packed true).2.shown? = some (m, shown)
          ∧ m.messageId = message.messageId ∧ m.signatureValidated = true ∧ shown.text = text)
        ∧ ∀ (a₂ : Transport) r ephemeral iface, a₂.outLinks.get lid = some link →
          a₂.receipts.get h = some lid → Packet.Relayed r proof →
          a₂.handleFrame crypto r.encode ephemeral iface
            = ({ a₂ with receipts := a₂.receipts.remove h }, .delivered h) := by
  have made : a.makeLinkData crypto lid message.packed iv
      = a.registerLinkData crypto lid link.key message.packed iv := by
    simp only [makeLinkData, session.opened]
  refine ⟨_, _, _, made.trans (registerLinkData_eq ..), session.opened, Capped.get_insert_self .., ?_⟩
  intro q ephemeral iface relayed
  rw [session.key] at relayed ⊢
  refine ⟨_, handleFrame_linkData inverse session.alone session.accepted relayed _ _, ?_, ?_⟩
  · -- The text is shown without a warning since the signature verifies.
    subst packed
    have wire := Message.pack_packed crypto a.identity dest src timestamp [] (utf8Encode text)
      fields ticket
    rw [wire, Message.framed_length] at fits
    have parsed := Message.parse_signed crypto a.identity dest src timestamp [] (utf8Encode text)
      verifies plain ticket (Message.plain_ticketStamp crypto _ ticket)
      (Nat.lt_of_le_of_lt (Nat.le_add_left ..) fits)
    rw [← known] at parsed
    obtain ⟨shown, showing, written⟩ := shown_deliverLxmf new parsed now true
    rw [wire]
    exact ⟨_, shown, showing, rfl, rfl, written.trans (utf8Lossy_encode text)⟩
  · -- The key to check the proof with is that of the identity the link was asked for.
    intro a₂ r ephemeral iface held awaited relayed
    refine handleFrame_proof verifies ?_ awaited relayed _ _
    rw [proofKey, held]
    exact congrArg (fun id => some id.sigPub) session.responder

def sampleLink : OutLink :=
  ⟨sampleDest, BytesN.ofBytes 64 [], sampleSeed 8, (sampleIdentity 3).publicIdentity Crypto.sample, 0⟩

def sampleCaller : Transport := (Transport.new (sampleIdentity 1)).insertOutLink sampleDest sampleLink

def sampleCalled : Transport :=
  ((Transport.new (sampleIdentity 3)).insertLink sampleDest
    ⟨sampleLink.key, [], sampleSeed 8, none⟩).insertKnown sampleDest
      ⟨(sampleIdentity 1).publicIdentity Crypto.sample, BytesN.ofBytes 10 [], none, []⟩

def sampleHello : Message.PackedMessage :=
  Message.pack Crypto.sample (sampleIdentity 1) sampleDest sampleDest (Double.ofNat 0) []
    (utf8Encode ['h', 'i']) [] none

/-- The first message to a peer who knows us is shown. -/
theorem message_delivered_first :
    sampleHello.packed.length < wordSize ∧ ∃ m shown, (({} : Inbox).deliverLxmf Crypto.sample
      sampleCalled 0 sampleHello.packed true).2.shown? = some (m, shown)
        ∧ m.signatureValidated = true ∧ shown.text = ['h', 'i'] := by
  have fits : sampleHello.packed.length < wordSize := by decide +kernel
  have session : Session Crypto.sample sampleCaller sampleCalled sampleDest sampleLink _ :=
    ⟨Capped.get_insert_self .., Capped.get_insert_self .., rfl, rfl, rfl⟩
  have known : (sampleCalled.known.get sampleDest).map (·.identity) = _ := rfl
  have new : sampleHello.messageId ∉ ({} : Inbox).recentMsgIds := List.not_mem_nil
  obtain ⟨a₁, sent, h, -, -, -, arrives⟩ := message_delivered session Crypto.sample_signVerifies
    Crypto.sample_cbcInverse known Message.plain_nil rfl fits sampleIv 0 new
  obtain ⟨proof, -, ⟨m, shown, showing, -, valid, text⟩, -⟩ :=
    arrives sent (sampleSeed 9) .hub ⟨rfl, rfl, rfl, rfl, rfl⟩
  exact ⟨fits, m, shown, showing, valid, text⟩

end Session

end LxmfChat
