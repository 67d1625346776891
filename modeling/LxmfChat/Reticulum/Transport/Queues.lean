import LxmfChat.Base.Fifo
import LxmfChat.Reticulum.Transport.Rejection

/-! The capped tables of a transport stay within their caps and in step with their queues. -/

namespace LxmfChat.Transport

open Base

variable (crypto : Crypto)

/-- One step of a run: a call, or a hash map that iterates in another order. -/
inductive Moves (t : Transport) : Transport → Prop
  | call (op : Op) : Moves t (t.perform crypto op)
  | reorder {u : Transport} (same : t.Same u) : Moves t u

variable {crypto}

/--
What a step may do to the capped tables.

Four of them keep an exact queue; of the other three, taking an entry out may leave its key queued.
-/
structure Evolves (t u : Transport) : Prop where
  known : t.known.Evolves MAX_KNOWN u.known
  paths : t.paths.Evolves MAX_PATHS u.paths
  links : t.links.Evolves MAX_LINKS u.links
  outLinks : t.outLinks.Evolves MAX_OUT_LINKS u.outLinks
  pendingOut : t.pendingOut.Bounded MAX_PENDING_OUT → u.pendingOut.Bounded MAX_PENDING_OUT
  receipts : t.receipts.Bounded MAX_RECEIPTS → u.receipts.Bounded MAX_RECEIPTS
  oppReceipts : t.oppReceipts.Bounded MAX_RECEIPTS → u.oppReceipts.Bounded MAX_RECEIPTS

theorem Evolves.refl (t : Transport) : Evolves t t where
  known := .refl _ _
  paths := .refl _ _
  links := .refl _ _
  outLinks := .refl _ _
  pendingOut := id
  receipts := id
  oppReceipts := id

theorem Same.evolves {t u : Transport} (same : t.Same u) : Evolves t u where
  known := .of_same same.known
  paths := .of_same same.paths
  links := .of_same same.links
  outLinks := .of_same same.outLinks
  pendingOut bounded := bounded.same same.pendingOut
  receipts bounded := bounded.same same.receipts
  oppReceipts bounded := bounded.same same.oppReceipts

theorem evolves_insertReceipt (t : Transport) (packetHash : FullHash) (linkId : TruncatedHash) :
    Evolves t (t.insertReceipt packetHash linkId) :=
  { Evolves.refl t with receipts := fun bounded => bounded.insert (by decide) packetHash linkId }

theorem evolves_removeOutLinks (t : Transport) (lids : List TruncatedHash) :
    Evolves t (lids.foldl removeOutLink t) := by
  rw [foldl_removeOutLink]
  exact { Evolves.refl t with outLinks := .foldl_forget _ _ lids }

theorem evolves_forgetPendingLinks (t : Transport) (lids : List TruncatedHash) :
    Evolves t (lids.foldl forgetPendingLink t) := by
  rw [foldl_forgetPendingLink]
  exact { Evolves.refl t with pendingOut := fun bounded => bounded.foldl_forget lids }

theorem evolves_outboundLinkFor (t : Transport) (target : TruncatedHash) (now : Nat) :
    Evolves t (t.outboundLinkFor target now).1 := by
  have dropped := evolves_removeOutLinks t (t.expiredOutLinks now)
  rw [outboundLinkFor]
  generalize (t.expiredOutLinks now).foldl removeOutLink t = u at dropped
  cases u.outLinks.table.entries.find? fun e => e.2.target = target with
  | none => exact dropped
  | some e => exact { dropped with outLinks := dropped.outLinks.modify e.1 _ }

theorem evolves_connectionReset (t : Transport) : Evolves t t.connectionReset where
  known := .refl _ _
  paths := .refl _ _
  links := .clear _ _
  outLinks := .clear _ _
  pendingOut _ := .empty _
  receipts _ := .empty _
  oppReceipts _ := .empty _

theorem Effect.evolves {t u : Transport} {ephemeral : KeyHalf} {p : Packet} {event : Event}
    (effect : Effect crypto t ephemeral p u event) : Evolves t u := by
  have same := Evolves.refl t
  cases effect with
  | linkUp kind context pending completed =>
    exact { same with
      pendingOut := fun bounded => bounded.remove p.destinationHash
      outLinks := .insert (by decide) _ _ _ }
  | linkRefused kind context pending failed =>
    exact { same with pendingOut := fun bounded => bounded.remove p.destinationHash }
  | resourceProven kind context sending valid => exact { same with }
  | receiptProven kind context key waiting valid =>
    exact { same with receipts := fun bounded => bounded.remove _ }
  | oppProven kind waiting valid =>
    exact { same with oppReceipts := fun bounded => bounded.remove p.destinationHash }
  | outLinkClosed kind context held named => exact evolves_removeOutLinks t [p.destinationHash]
  | identified kind context held decrypted signed =>
    exact { same with links := same.links.modify p.destinationHash _ }
  | inLinkClosed kind context held named => exact { same with links := .forget _ _ _ }
  | learned kind valid =>
    exact { same with known := .insert (by decide) _ _ _, paths := .insert (by decide) _ _ _ }
  | repeated kind ours held => exact same
  | accepted kind ours fresh established =>
    exact { same with links := .insert (by decide) _ _ _ }
  | quiet inert => exact same

theorem evolves_perform (t : Transport) (op : Op) : Evolves t (t.perform crypto op) := by
  have same := Evolves.refl t
  cases op with
  | dropPathsOn iface => exact { same with paths := .retain _ _ _ }
  | expirePath hash =>
    rw [perform, expirePath]
    split
    · exact { same with paths := .forget _ _ _ }
    · exact same
  | registerDestination hash =>
    rw [perform, registerDestination]
    split
    · exact same
    · exact { same with }
  | remember hash info => exact { same with known := .insert (by decide) _ _ _ }
  | handleFrame raw ephemeral iface =>
    rcases handleFrame_cases t raw ephemeral iface with ⟨p, decoded, effect⟩ | ⟨reason, result⟩
    · exact effect.evolves
    · rw [perform, result]
      exact same
  | makeOpportunisticTracked recipientHash recipient ratchet plaintext ephemeralSecret iv =>
    exact { same with oppReceipts := fun bounded => bounded.insert (by decide) _ _ }
  | makeLinkRequest target peerIdentity ephX25519 ephEd25519 now =>
    exact { same with pendingOut := fun bounded => bounded.insert (by decide) _ _ }
  | outboundLinkFor target now => exact evolves_outboundLinkFor t target now
  | pendingLinkTo target now => exact evolves_forgetPendingLinks t _
  | dropOutLink linkId => exact evolves_removeOutLinks t [linkId]
  | forgetPendingLink linkId => exact evolves_forgetPendingLinks t [linkId]
  | connectionReset => exact evolves_connectionReset t
  | makeLinkData linkId plaintext iv =>
    rw [perform, makeLinkData]
    split
    · exact same
    · rw [registerLinkData_eq]
      exact evolves_insertReceipt t _ linkId
  | makeInLinkData linkId plaintext iv =>
    rw [perform, makeInLinkData]
    split
    · exact same
    · split
      · exact same
      · rw [registerLinkData_eq]
        exact evolves_insertReceipt t _ linkId
  | makeLinkResource linkId data r streamPrefix iv advIv =>
    -- The table of outbound resources has no cap of its own.
    cases held : t.anyLinkKey linkId with
    | none =>
      simp only [perform, makeLinkResource, held]
      exact same
    | some key =>
      obtain ⟨tx, adv, -, result⟩ := makeLinkResource_eq crypto held data r streamPrefix iv advIv
      simp only [perform, result]
      exact { same with }

theorem Moves.evolves {t u : Transport} (moves : Moves crypto t u) : Evolves t u := by
  cases moves with
  | call op => exact evolves_perform t op
  | reorder same => exact same.evolves

/-- The tables are within their caps, and the four exact queues are in the order of arrival. -/
structure Queued (t : Transport) (past : List Transport) : Prop where
  known : t.known.InOrder MAX_KNOWN (past.map (·.known))
  paths : t.paths.InOrder MAX_PATHS (past.map (·.paths))
  links : t.links.InOrder MAX_LINKS (past.map (·.links))
  outLinks : t.outLinks.InOrder MAX_OUT_LINKS (past.map (·.outLinks))
  pendingOut : t.pendingOut.Bounded MAX_PENDING_OUT
  receipts : t.receipts.Bounded MAX_RECEIPTS
  oppReceipts : t.oppReceipts.Bounded MAX_RECEIPTS

theorem queued_new (identity : PrivateIdentity) : Queued (new identity) [] where
  known := .start _ _
  paths := .start _ _
  links := .start _ _
  outLinks := .start _ _
  pendingOut := .empty _
  receipts := .empty _
  oppReceipts := .empty _

theorem Queued.next {t u : Transport} {past : List Transport} (queued : Queued t past)
    (evolves : Evolves t u) : Queued u (t :: past) where
  known := queued.known.next evolves.known
  paths := queued.paths.next evolves.paths
  links := queued.links.next evolves.links
  outLinks := queued.outLinks.next evolves.outLinks
  pendingOut := evolves.pendingOut queued.pendingOut
  receipts := evolves.receipts queued.receipts
  oppReceipts := evolves.oppReceipts queued.oppReceipts

theorem queued_trace {identity : PrivateIdentity} {states : List Transport}
    (trace : Trace (Moves crypto) (new identity) states) :
    ∀ {t past}, states = t :: past → Queued t past := by
  induction trace with
  | start =>
    intro t past latest
    cases latest
    exact queued_new identity
  | step before moves ih =>
    intro t past latest
    cases latest
    exact (ih rfl).next moves.evolves

/--
At every moment of a run the seven tables are within their caps and their keys are queued.

The queues of the four tables that forget a key with its entry list exactly the keys, in the order
they came, and a new key in a full table evicts the oldest.
-/
theorem tables_capped {identity : PrivateIdentity} {t : Transport} {past : List Transport}
    (trace : Trace (Moves crypto) (new identity) (t :: past)) :
    (t.known.Confined MAX_KNOWN ∧ t.paths.Confined MAX_PATHS ∧ t.links.Confined MAX_LINKS
      ∧ t.pendingOut.Confined MAX_PENDING_OUT ∧ t.outLinks.Confined MAX_OUT_LINKS
      ∧ t.receipts.Confined MAX_RECEIPTS ∧ t.oppReceipts.Confined MAX_RECEIPTS)
    ∧ (t.known.InOrder MAX_KNOWN (past.map (·.known))
      ∧ t.paths.InOrder MAX_PATHS (past.map (·.paths))
      ∧ t.links.InOrder MAX_LINKS (past.map (·.links))
      ∧ t.outLinks.InOrder MAX_OUT_LINKS (past.map (·.outLinks)))
    ∧ t.known.EvictsOldest MAX_KNOWN ∧ t.paths.EvictsOldest MAX_PATHS
    ∧ t.links.EvictsOldest MAX_LINKS ∧ t.outLinks.EvictsOldest MAX_OUT_LINKS := by
  have queued := queued_trace trace rfl
  refine ⟨⟨queued.known.bounded.confined, queued.paths.bounded.confined,
    queued.links.bounded.confined, queued.pendingOut.confined, queued.outLinks.bounded.confined,
    queued.receipts.confined, queued.oppReceipts.confined⟩,
    ⟨queued.known, queued.paths, queued.links, queued.outLinks⟩, ?_⟩
  exact ⟨queued.known.evictsOldest (by decide), queued.paths.evictsOldest (by decide),
    queued.links.evictsOldest (by decide), queued.outLinks.evictsOldest (by decide)⟩

/-- The request of a link is in its queue once it is pending. -/
theorem tables_capped_requested :
    (requestedLink.pendingOut.get sampleLink).isSome
      ∧ requestedLink.pendingOut.Confined MAX_PENDING_OUT := by
  have trace : Trace (Moves Crypto.sample) (new (sampleIdentity 1))
      [requestedLink, new (sampleIdentity 1)] := .step .start (.call _)
  exact ⟨by decide +kernel, (tables_capped trace).1.2.2.2.1⟩

end LxmfChat.Transport
