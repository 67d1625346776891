import LxmfChat.Reticulum.Transport.Frame

/-! Everything an inbound frame can do to a transport, stated once. -/

namespace LxmfChat

open Base

/-- An event that comes with no change to the transport and answers no link request. -/
def Event.Quiet : Event → Prop
  | .announce _ _ | .linkEstablished _ _ | .linkIdentified _ _ | .inLinkClosed _
  | .outboundLinkUp _ _ | .delivered _ | .outLinkClosed _ => False
  | _ => True

namespace Transport

variable (crypto : Crypto)

/-- What one packet does to the transport, with the event it reports and what let it happen. -/
inductive Effect (t : Transport) (ephemeral : KeyHalf) (p : Packet) : Transport → Event → Prop
  | linkUp {pend : PendingOut} {key : SessionKey} (kind : p.packetType = .proof)
      (context : p.context = CONTEXT_LRPROOF)
      (pending : t.pendingOut.get p.destinationHash = some pend)
      (completed : Link.completeHandshake crypto p.destinationHash pend.ephSecret p.data
        pend.identity = some key) :
      Effect t ephemeral p
        ({ t with pendingOut := t.pendingOut.remove p.destinationHash }.insertOutLink
          p.destinationHash (pend.opened key))
        (.outboundLinkUp p.destinationHash pend.target)
  | linkRefused {pend : PendingOut} (kind : p.packetType = .proof)
      (context : p.context = CONTEXT_LRPROOF)
      (pending : t.pendingOut.get p.destinationHash = some pend)
      (failed : Link.completeHandshake crypto p.destinationHash pend.ephSecret p.data
        pend.identity = none) :
      Effect t ephemeral p { t with pendingOut := t.pendingOut.remove p.destinationHash }
        (.dropped "invalid LRPROOF for initiated link")
  | resourceProven {tx : ResourceSender} (kind : p.packetType = .proof)
      (context : p.context = CONTEXT_RESOURCE_PRF)
      (sending : t.outResources.lookup p.destinationHash = some tx)
      (valid : tx.proofIsValid p.data = true) :
      Effect t ephemeral p { t with outResources := t.outResources.erase p.destinationHash }
        (.delivered tx.hash)
  | receiptProven {sigPub : KeyHalf} {ph : FullHash} (kind : p.packetType = .proof)
      (context : p.context = CONTEXT_NONE) (key : t.proofKey p.destinationHash = some sigPub)
      (waiting : t.receipts.get ph = some p.destinationHash)
      (valid : Link.validateProofSig crypto sigPub ph p.data = true) :
      Effect t ephemeral p { t with receipts := t.receipts.remove ph } (.delivered ph)
  | oppProven {rec : OppReceipt} (kind : p.packetType = .proof)
      (waiting : t.oppReceipts.get p.destinationHash = some rec)
      (valid : Link.validateProof crypto rec.identity rec.fullHash p.data = true) :
      Effect t ephemeral p { t with oppReceipts := t.oppReceipts.remove p.destinationHash }
        (.delivered rec.fullHash)
  | outLinkClosed {link : OutLink} (kind : p.packetType = .data)
      (context : p.context = CONTEXT_LINKCLOSE)
      (held : t.outLinks.get p.destinationHash = some link)
      (named : Link.decrypt crypto link.key p.data = .ok p.destinationHash.val) :
      Effect t ephemeral p (t.removeOutLink p.destinationHash) (.outLinkClosed p.destinationHash)
  | identified {st : LinkState} {plaintext : Bytes} {identity : PublicIdentity}
      (kind : p.packetType = .data) (context : p.context = CONTEXT_LINKIDENTIFY)
      (held : t.links.get p.destinationHash = some st)
      (decrypted : Link.decrypt crypto st.key p.data = .ok plaintext)
      (signed : Link.validateIdentify crypto p.destinationHash plaintext = some identity) :
      Effect t ephemeral p
        { t with links := t.links.modify p.destinationHash fun st =>
            { st with peerIdentity := some identity } }
        (.linkIdentified p.destinationHash identity)
  | inLinkClosed {st : LinkState} (kind : p.packetType = .data)
      (context : p.context = CONTEXT_LINKCLOSE)
      (held : t.links.get p.destinationHash = some st)
      (named : Link.decrypt crypto st.key p.data = .ok p.destinationHash.val) :
      Effect t ephemeral p { t with links := t.links.forget p.destinationHash }
        (.inLinkClosed p.destinationHash)
  | learned {parsed : ParsedAnnounce} {path : PathEntry} (kind : p.packetType = .announce)
      (valid : parseAndValidate crypto p = some parsed) :
      Effect t ephemeral p
        ((t.insertKnown parsed.destinationHash parsed.info).insertPath
          parsed.destinationHash path)
        (.announce parsed.destinationHash parsed.info)
  | repeated {st : LinkState} (kind : p.packetType = .linkRequest)
      (ours : p.destinationHash ∈ t.ourDests)
      (held : t.links.get (Link.linkId crypto p) = some st) :
      Effect t ephemeral p t (.linkEstablished (Link.linkId crypto p) st.proof)
  | accepted {est : EstablishedLink} (kind : p.packetType = .linkRequest)
      (ours : p.destinationHash ∈ t.ourDests)
      (fresh : t.links.get (Link.linkId crypto p) = none)
      (established : Link.acceptRequest crypto p t.identity ephemeral = some est) :
      Effect t ephemeral p (t.insertLink est.linkId est.opened)
        (.linkEstablished est.linkId est.proofPacket)
  | quiet {event : Event} (inert : event.Quiet) : Effect t ephemeral p t event

/-- A branch that takes a packet has one of the listed effects. -/
def Takes (t : Transport) (ephemeral : KeyHalf) (p : Packet) (branch : Option Handled) : Prop :=
  ∀ result ∈ branch, Effect crypto t ephemeral p result.1 result.2

variable {crypto} {t : Transport} {ephemeral : KeyHalf} {p : Packet}

theorem takes_handleLrProof : Takes crypto t ephemeral p (t.handleLrProof crypto p) := by
  intro result took
  rw [Option.mem_def, handleLrProof] at took
  split at took
  case isFalse => cases took
  case isTrue kind =>
    cases pending : t.pendingOut.get p.destinationHash with
    | none => simp [pending] at took
    | some pend =>
      simp only [pending] at took
      cases completed : Link.completeHandshake crypto p.destinationHash pend.ephSecret p.data
          pend.identity with
      | none =>
        simp only [completed, Option.some.injEq] at took
        subst took
        exact .linkRefused kind.1 kind.2 pending completed
      | some key =>
        simp only [completed, Option.some.injEq] at took
        subst took
        exact .linkUp kind.1 kind.2 pending completed

theorem takes_handleResourceProof : Takes crypto t ephemeral p (t.handleResourceProof p) := by
  intro result took
  rw [Option.mem_def, handleResourceProof] at took
  split at took
  case isFalse => cases took
  case isTrue kind =>
    cases sending : t.outResources.lookup p.destinationHash with
    | none => simp [sending] at took
    | some tx =>
      simp only [sending] at took
      split at took
      case isFalse => cases took
      case isTrue valid =>
        cases took
        exact .resourceProven kind.1 kind.2 sending valid

theorem provenReceipt_spec {sigPub : KeyHalf} {ph : FullHash}
    (found : t.provenReceipt crypto p sigPub = some ph) :
    t.receipts.get ph = some p.destinationHash
      ∧ Link.validateProofSig crypto sigPub ph p.data = true := by
  have holds := List.find?_some found
  simpa using holds

theorem takes_handleLinkProof : Takes crypto t ephemeral p (t.handleLinkProof crypto p) := by
  intro result took
  rw [Option.mem_def, handleLinkProof] at took
  split at took
  case isFalse => cases took
  case isTrue kind =>
    cases key : t.proofKey p.destinationHash with
    | none => simp [key] at took
    | some sigPub =>
      simp only [key] at took
      cases found : t.provenReceipt crypto p sigPub with
      | none =>
        simp only [found, Option.some.injEq] at took
        subst took
        exact .quiet trivial
      | some ph =>
        simp only [found, Option.some.injEq] at took
        subst took
        obtain ⟨waiting, valid⟩ := provenReceipt_spec found
        exact .receiptProven kind.1 kind.2 key waiting valid

theorem takes_handleOutLinkData : Takes crypto t ephemeral p (t.handleOutLinkData crypto p) := by
  intro result took
  rw [Option.mem_def, handleOutLinkData] at took
  split at took
  case isFalse => cases took
  case isTrue kind =>
    cases held : t.outLinks.get p.destinationHash with
    | none => simp [held] at took
    | some link =>
      simp only [held] at took
      split at took
      · cases took
        exact .quiet trivial
      · cases decrypted : Link.decrypt crypto link.key p.data with
        | error reason =>
          simp only [decrypted, Option.some.injEq] at took
          subst took
          exact .quiet trivial
        | ok plaintext =>
          simp only [decrypted] at took
          split at took
          case isTrue close =>
            cases took
            exact .outLinkClosed kind close.1 held (close.2 ▸ decrypted)
          case isFalse =>
            split at took
            · cases took
              exact .quiet trivial
            · cases took
              exact .quiet trivial

theorem takes_handleOppProof : Takes crypto t ephemeral p (t.handleOppProof crypto p) := by
  intro result took
  rw [Option.mem_def, handleOppProof] at took
  split at took
  case isFalse => cases took
  case isTrue kind =>
    cases waiting : t.oppReceipts.get p.destinationHash with
    | none => simp [waiting] at took
    | some rec =>
      simp only [waiting] at took
      split at took
      case isFalse => cases took
      case isTrue valid =>
        cases took
        exact .oppProven kind waiting valid

theorem effect_handleInLinkContext {st : LinkState} {plaintext : Bytes}
    (kind : p.packetType = .data) (held : t.links.get p.destinationHash = some st)
    (decrypted : Link.decrypt crypto st.key p.data = .ok plaintext) :
    Effect crypto t ephemeral p
      (t.handleInLinkContext crypto ephemeral p plaintext st.key).1
      (t.handleInLinkContext crypto ephemeral p plaintext st.key).2 := by
  rw [handleInLinkContext]
  split
  · exact .quiet trivial
  split
  case isTrue context =>
    cases signed : Link.validateIdentify crypto p.destinationHash plaintext with
    | none => exact .quiet trivial
    | some identity => exact .identified kind context held decrypted signed
  split
  · split
    · simp only [Link.makeLinkContextPacket_eq]
      exact .quiet trivial
    · exact .quiet trivial
  split
  case isTrue context =>
    split
    case isTrue close => exact .inLinkClosed kind context held (close ▸ decrypted)
    case isFalse => exact .quiet trivial
  · exact .quiet trivial

theorem takes_handleInLink : Takes crypto t ephemeral p (t.handleInLink crypto ephemeral p) := by
  intro result took
  rw [Option.mem_def, handleInLink] at took
  cases held : t.links.get p.destinationHash with
  | none => simp [held] at took
  | some st =>
    simp only [held] at took
    split at took
    · cases took
      exact .quiet trivial
    split at took
    case isTrue kind =>
      cases decrypted : Link.decrypt crypto st.key p.data with
      | error reason =>
        simp only [decrypted, Option.some.injEq] at took
        subst took
        exact .quiet trivial
      | ok plaintext =>
        simp only [decrypted, Option.some.injEq] at took
        subst took
        exact effect_handleInLinkContext kind.1 held decrypted
    · cases took
      exact .quiet trivial

theorem effect_handleLinkRequest (kind : p.packetType = .linkRequest)
    (ours : p.destinationHash ∈ t.ourDests) :
    Effect crypto t ephemeral p (t.handleLinkRequest crypto ephemeral p).1
      (t.handleLinkRequest crypto ephemeral p).2 := by
  rw [handleLinkRequest]
  cases held : t.links.get (Link.linkId crypto p) with
  | some st => exact .repeated kind ours held
  | none =>
    cases established : Link.acceptRequest crypto p t.identity ephemeral with
    | none => exact .quiet trivial
    | some est => exact .accepted kind ours held established

theorem effect_handleAddressed (iface : PathIface) :
    Effect crypto t ephemeral p (t.handleAddressed crypto ephemeral iface p).1
      (t.handleAddressed crypto ephemeral iface p).2 := by
  rw [handleAddressed]
  split
  case isTrue kind =>
    rw [handleAnnounce]
    cases valid : parseAndValidate crypto p with
    | none => exact .quiet trivial
    | some parsed => exact .learned kind valid
  split
  · rw [handlePathRequest]
    split
    · exact .quiet trivial
    · by_cases ours : BytesN.slice p.data 0 16 (by omega) ∈ t.ourDests
      · simp only [if_pos ours]
        exact .quiet trivial
      · simp only [if_neg ours]
        exact .quiet trivial
  split
  case isTrue ours =>
    cases kind : p.packetType with
    | linkRequest => exact effect_handleLinkRequest kind ours
    | data =>
      simp only [handleOpportunistic]
      cases t.identity.decrypt crypto p.data [] with
      | ok plaintext => exact .quiet trivial
      | error reason => exact .quiet trivial
    | announce => exact .quiet trivial
    | proof => exact .quiet trivial
  · exact .quiet trivial

theorem Takes.or {first second : Option Handled} (one : Takes crypto t ephemeral p first)
    (two : Takes crypto t ephemeral p second) : Takes crypto t ephemeral p (first <|> second) := by
  intro result took
  cases first with
  | some result' => exact one result took
  | none => exact two result took

theorem handlePacket_effect (t : Transport) (ephemeral : KeyHalf) (iface : PathIface)
    (p : Packet) :
    Effect crypto t ephemeral p (t.handlePacket crypto ephemeral iface p).1
      (t.handlePacket crypto ephemeral iface p).2 := by
  have takes : Takes crypto t ephemeral p (t.handleLrProof crypto p
      <|> t.handleResourceProof p <|> t.handleLinkProof crypto p
      <|> t.handleOutLinkData crypto p <|> t.handleOppProof crypto p
      <|> t.handleInLink crypto ephemeral p) :=
    takes_handleLrProof.or (takes_handleResourceProof.or (takes_handleLinkProof.or
      (takes_handleOutLinkData.or (takes_handleOppProof.or takes_handleInLink))))
  rw [handlePacket]
  generalize (t.handleLrProof crypto p <|> t.handleResourceProof p
    <|> t.handleLinkProof crypto p <|> t.handleOutLinkData crypto p
    <|> t.handleOppProof crypto p <|> t.handleInLink crypto ephemeral p) = branch at takes
  cases branch with
  | some result => exact takes result rfl
  | none => exact effect_handleAddressed iface

theorem handleFrame_cases (t : Transport) (raw : Bytes) (ephemeral : KeyHalf)
    (iface : PathIface) :
    (∃ p, Packet.decode raw = .ok p ∧ Effect crypto t ephemeral p
      (t.handleFrame crypto raw ephemeral iface).1 (t.handleFrame crypto raw ephemeral iface).2)
    ∨ ∃ reason, t.handleFrame crypto raw ephemeral iface = (t, .dropped reason) := by
  rw [handleFrame]
  cases decoded : Packet.decode raw with
  | error reason => exact .inr ⟨reason, rfl⟩
  | ok p => exact .inl ⟨p, rfl, handlePacket_effect t ephemeral iface p⟩

theorem handleFrame_fixed (crypto : Crypto) (t : Transport) (raw : Bytes) (ephemeral : KeyHalf)
    (iface : PathIface) :
    (t.handleFrame crypto raw ephemeral iface).1.identity = t.identity
    ∧ (t.handleFrame crypto raw ephemeral iface).1.ourDests = t.ourDests := by
  rcases handleFrame_cases t raw ephemeral iface with ⟨p, -, effect⟩ | ⟨reason, result⟩
  · generalize t.handleFrame crypto raw ephemeral iface = handled at effect ⊢
    obtain ⟨u, event⟩ := handled
    cases effect <;> exact ⟨rfl, rfl⟩
  · rw [result]
    exact ⟨rfl, rfl⟩

end Transport

end LxmfChat
