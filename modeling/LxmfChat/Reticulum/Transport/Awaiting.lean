import LxmfChat.Reticulum.Transport.Lookups

/-! What the transport keeps for a proof to be taken, and which calls keep it. -/

namespace LxmfChat.Transport

open Base

/-- A proof of the hash on the open link would be taken. -/
def Awaits (t : Transport) (h : FullHash) (lid : TruncatedHash) : Prop :=
  t.Live lid
    ∧ (t.receipts.get h = some lid ∨ ∃ tx, t.outResources.lookup lid = some tx ∧ tx.hash = h)

/-- Some link is open on which a proof of the hash would be taken. -/
def Confirmable (t : Transport) (h : FullHash) : Prop := ∃ lid, t.Awaits h lid

variable {crypto : Crypto} {t u : Transport} {h : FullHash} {lid : TruncatedHash} {now : Nat}

theorem Awaits.congr (awaits : t.Awaits h lid) (links : u.links = t.links)
    (outLinks : u.outLinks = t.outLinks) (receipts : u.receipts = t.receipts)
    (outResources : u.outResources = t.outResources) : u.Awaits h lid := by
  rw [Awaits, Live, outLinks, links, receipts, outResources]
  exact awaits

theorem Awaits.looks (awaits : t.Awaits h lid) (looks : Looks now t u) (small : now < 2 ^ 64)
    (fresh : t.expiredOutLinks now = []) : u.Awaits h lid := by
  obtain ⟨stays, resources, -⟩ := looks.kept small fresh
  obtain ⟨live, record⟩ := awaits
  refine ⟨?_, ?_⟩
  · rcases live with own | theirs
    · exact .inl (stays own)
    · right
      rw [looks.links]
      exact theirs
  · rw [looks.receipts, resources]
    exact record

theorem Awaits.dropOutLink (awaits : t.Awaits h lid) {gone : TruncatedHash} (other : lid ≠ gone) :
    (t.dropOutLink gone).Awaits h lid := by
  obtain ⟨live, record⟩ := awaits
  refine ⟨?_, ?_⟩
  · rcases live with own | theirs
    · left
      simpa [Transport.dropOutLink, removeOutLink, Capped.get_forget, other] using own
    · exact .inr theirs
  · rcases record with receipt | ⟨tx, sending, named⟩
    · exact .inl receipt
    · refine .inr ⟨tx, ?_, named⟩
      rw [Transport.dropOutLink, removeOutLink, AList.lookup_erase_ne other]
      exact sending

theorem expiredOutLinks_dropOutLink {gone : TruncatedHash} (fresh : t.expiredOutLinks now = []) :
    (t.dropOutLink gone).expiredOutLinks now = [] := by
  rw [expiredOutLinks_eq_nil] at fresh ⊢
  intro e there
  exact fresh e ((List.kerase_sublist gone t.outLinks.table.entries).subset there)

theorem Confirmable.insertReceipt (confirmable : t.Confirmable h) {sent : FullHash}
    {on : TruncatedHash} (live : t.Live on) (spares : t.receipts.Spares MAX_RECEIPTS sent) :
    (t.insertReceipt sent on).Confirmable h := by
  obtain ⟨lid, stays, record⟩ := confirmable
  by_cases same : h = sent
  · -- The hash is registered anew, on a link that is open.
    subst same
    exact ⟨on, live, .inl (Capped.get_insert_self MAX_RECEIPTS h on t.receipts)⟩
  · refine ⟨lid, stays, ?_⟩
    rcases record with receipt | sending
    · exact .inl ((spares on h same).trans receipt)
    · exact .inr sending

theorem Confirmable.insertResource (confirmable : t.Confirmable h) {on : TruncatedHash}
    (replaced : ∀ old ∈ t.outResources.lookup on, old.hash ≠ h) (tx : ResourceSender) :
    { t with outResources := t.outResources.insert on tx }.Confirmable h := by
  obtain ⟨lid, stays, record⟩ := confirmable
  refine ⟨lid, stays, ?_⟩
  rcases record with receipt | ⟨old, sending, named⟩
  · exact .inl receipt
  · by_cases same : lid = on
    · subst same
      exact absurd named (replaced old sending)
    · exact .inr ⟨old, (AList.lookup_insert_ne same).trans sending, named⟩

/-- What a frame needs to leave every link open: none is closed by it, and none evicted. -/
structure Leaves (t : Transport) (event : Event) : Prop where
  ours : ∀ lid, event ≠ .outLinkClosed lid
  theirs : ∀ lid, event ≠ .inLinkClosed lid
  up : ∀ lid target, event = .outboundLinkUp lid target → t.outLinks.Spares MAX_OUT_LINKS lid
  accepted : ∀ lid proof, event = .linkEstablished lid proof → t.links.Spares MAX_LINKS lid

theorem Confirmable.handleFrame (confirmable : t.Confirmable h) {raw : Bytes} {ephemeral : KeyHalf}
    {iface : PathIface} (leaves : t.Leaves (t.handleFrame crypto raw ephemeral iface).2) :
    (t.handleFrame crypto raw ephemeral iface).1.Confirmable h
      ∨ (t.handleFrame crypto raw ephemeral iface).2 = .delivered h := by
  obtain ⟨lid, awaits⟩ := confirmable
  rcases @handleFrame_cases crypto t raw ephemeral iface with
    ⟨p, -, effect⟩ | ⟨reason, result⟩
  · generalize t.handleFrame crypto raw ephemeral iface = handled at effect leaves ⊢
    obtain ⟨u, event⟩ := handled
    have same := awaits
    obtain ⟨live, record⟩ := awaits
    cases effect with
    | linkUp kind context pending completed =>
      refine .inl ⟨lid, ?_, record⟩
      exact live.imp (fun own => Capped.Spares.isSome_insert (leaves.up _ _ rfl) own) id
    | linkRefused kind context pending failed => exact .inl ⟨lid, same.congr rfl rfl rfl rfl⟩
    | @resourceProven tx kind context sending valid =>
      rcases record with receipt | ⟨old, awaited, named⟩
      · exact .inl ⟨lid, live, .inl receipt⟩
      · -- Either this is the resource that was proven, or it is on another link.
        by_cases here : lid = p.destinationHash
        · rw [here, sending] at awaited
          cases awaited
          exact .inr (by rw [named])
        · exact .inl ⟨lid, live, .inr ⟨old, (AList.lookup_erase_ne here).trans awaited, named⟩⟩
    | @receiptProven sigPub ph kind context key waiting valid =>
      rcases record with receipt | sending
      · by_cases here : h = ph
        · exact .inr (by rw [here])
        · refine .inl ⟨lid, live, .inl ?_⟩
          rw [Capped.get_remove, if_neg here]
          exact receipt
      · exact .inl ⟨lid, live, .inr sending⟩
    | oppProven kind waiting valid => exact .inl ⟨lid, same.congr rfl rfl rfl rfl⟩
    | outLinkClosed kind context held named => exact absurd rfl (leaves.ours _)
    | identified kind context held decrypted signed =>
      refine .inl ⟨lid, live.imp id fun theirs => ?_, record⟩
      rw [Capped.get_modify, Option.isSome_map]
      exact theirs
    | inLinkClosed kind context held named => exact absurd rfl (leaves.theirs _)
    | learned kind valid => exact .inl ⟨lid, same.congr rfl rfl rfl rfl⟩
    | repeated kind ours held => exact .inl ⟨lid, same⟩
    | accepted kind ours fresh established =>
      refine .inl ⟨lid, ?_, record⟩
      exact live.imp id fun theirs => Capped.Spares.isSome_insert (leaves.accepted _ _ rfl) theirs
    | quiet inert => exact .inl ⟨lid, same⟩
  · rw [result]
    exact .inl ⟨lid, awaits⟩

theorem Same.confirmable (same : t.Same u) (confirmable : t.Confirmable h) : u.Confirmable h := by
  obtain ⟨lid, live, record⟩ := confirmable
  rw [Live, same.outLinks.get, same.links.get] at live
  rw [same.receipts.get, Table.Same.lookup same.outResources] at record
  exact ⟨lid, live, record⟩

end LxmfChat.Transport
