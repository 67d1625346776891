import LxmfChat.Reticulum.Transport.Receipts

/-! Frames that are turned away, and the one way such a frame still changes the transport. -/

namespace LxmfChat

open Base

/-- The frame was turned away: malformed, undecryptable, unverifiable, or for nobody here. -/
def Event.rejects : Event → Bool
  | .dropped _ | .dataUndecryptable _ _ | .addressedUnhandled _ _ _ | .unhandled _ _ _ => true
  | _ => false

namespace Transport

/--
A link proof names a pending request and does not complete its handshake.

The proof may be malformed, forged, or signed by someone else.
-/
def FailsPending (crypto : Crypto) (t : Transport) (raw : Bytes) : Prop :=
  ∃ p pend, Packet.decode raw = .ok p ∧ p.packetType = .proof ∧ p.context = CONTEXT_LRPROOF
    ∧ t.pendingOut.get p.destinationHash = some pend
    ∧ Link.completeHandshake crypto p.destinationHash pend.ephSecret p.data pend.identity = none

variable {crypto : Crypto} {t : Transport} {raw : Bytes} {ephemeral : KeyHalf} {iface : PathIface}

theorem handleFrame_of_failsPending (ephemeral : KeyHalf) (iface : PathIface)
    (fails : FailsPending crypto t raw) :
    ∃ lid pend, t.pendingOut.get lid = some pend
      ∧ t.handleFrame crypto raw ephemeral iface
        = ({ t with pendingOut := t.pendingOut.remove lid },
          .dropped "invalid LRPROOF for initiated link") := by
  obtain ⟨p, pend, decoded, kind, context, pending, failed⟩ := fails
  refine ⟨p.destinationHash, pend, pending, ?_⟩
  have branch : t.handleLrProof crypto p
      = some ({ t with pendingOut := t.pendingOut.remove p.destinationHash },
        .dropped "invalid LRPROOF for initiated link") := by
    rw [handleLrProof, if_pos ⟨kind, context⟩]
    simp only [pending, failed]
  simp only [handleFrame, decoded, handlePacket, branch]
  rfl

theorem handleFrame_of_rejects (holds : ¬ FailsPending crypto t raw)
    (rejected : (t.handleFrame crypto raw ephemeral iface).2.rejects = true) :
    (t.handleFrame crypto raw ephemeral iface).1 = t := by
  rcases handleFrame_cases t raw ephemeral iface with ⟨p, decoded, effect⟩ | ⟨reason, result⟩
  · generalize t.handleFrame crypto raw ephemeral iface = handled at effect rejected ⊢
    obtain ⟨u, event⟩ := handled
    -- Every effect that changes a table reports something other than a rejection, but for one.
    cases effect with
    | linkRefused kind context pending failed =>
      exact absurd ⟨p, _, decoded, kind, context, pending, failed⟩ holds
    | quiet inert => rfl
    | repeated kind ours held => rfl
    | linkUp kind context pending completed => cases rejected
    | resourceProven kind context sending valid => cases rejected
    | receiptProven kind context key waiting valid => cases rejected
    | oppProven kind waiting valid => cases rejected
    | outLinkClosed kind context held named => cases rejected
    | identified kind context held decrypted signed => cases rejected
    | inLinkClosed kind context held named => cases rejected
    | learned kind valid => cases rejected
    | accepted kind ours fresh established => cases rejected
  · rw [result]

/--
A frame that is turned away changes nothing, unless it fails a pending link request.

The request is taken out before its proof is checked, so a proof that fails cancels it.
-/
theorem rejected_unchanged_iff (crypto : Crypto) (t : Transport) (raw : Bytes)
    (ephemeral : KeyHalf) (iface : PathIface) :
    ((t.handleFrame crypto raw ephemeral iface).2.rejects = true →
        (t.handleFrame crypto raw ephemeral iface).1 = t)
      ↔ ¬ FailsPending crypto t raw := by
  constructor
  · intro unchanged fails
    obtain ⟨lid, pend, pending, result⟩ := handleFrame_of_failsPending ephemeral iface fails
    rw [result] at unchanged
    -- The request that was pending would have to be pending still.
    have still : (t.pendingOut.remove lid).get lid = some pend := by
      have same := congrArg (fun u : Transport => u.pendingOut) (unchanged rfl)
      exact (congrArg (fun table => Capped.get table lid) same).trans pending
    rw [Capped.get_remove, if_pos rfl] at still
    cases still
  · exact handleFrame_of_rejects

def requestedLink : Transport :=
  (new (sampleIdentity 1)).perform Crypto.sample
    (.makeLinkRequest sampleDest ((sampleIdentity 3).publicIdentity Crypto.sample)
      (sampleSeed 7) (sampleSeed 8) 0)

/-- A proof signed by someone else is turned away and cancels the pending link all the same. -/
theorem forged_proof_cancels :
    let handled := requestedLink.handleFrame Crypto.sample (sampleProof (sampleIdentity 5)).encode
      (sampleSeed 0) .hub
    handled.2.rejects = true
      ∧ (requestedLink.pendingOut.get sampleLink).isSome
      ∧ handled.1.pendingOut.get sampleLink = none := by
  decide +kernel

end Transport

end LxmfChat
