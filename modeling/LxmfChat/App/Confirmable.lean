import LxmfChat.App.Confirmations
import LxmfChat.App.Flights
import LxmfChat.Reticulum.Transport.Awaiting

/-! While the time for it is not up, the proof of what was sent can still be taken. -/

namespace LxmfChat

open Base
open Relation (ReflTransGen)

variable {m m' : OutboundMsg} {a : Action}

section Turns

variable {pn : Option TruncatedHash} {now : Nat} {syncLink : Option TruncatedHash}
  {t u : Transport} {b : Backchannels} {m : OutboundMsg} {o : Outcome} {h : FullHash}

theorem trims_attemptFrom (pn syncLink : Option TruncatedHash) (m : OutboundMsg)
    (small : now < 2 ^ 64) (fresh : t.expiredOutLinks now = []) :
    (attemptFrom pn now syncLink t m).expiredOutLinks now = []
      ∧ (attemptFrom pn now syncLink t m).receipts = t.receipts
      ∧ ∀ lid tx, (attemptFrom pn now syncLink t m).outResources.lookup lid = some tx →
          t.outResources.lookup lid = some tx := by
  rw [attemptFrom]
  split
  case isFalse => exact ⟨fresh, rfl, fun _ _ => id⟩
  case isTrue =>
    have looks := looks_suspectLink pn now syncLink t m
    rw [dropSuspect]
    cases found : suspectLink pn now syncLink t m with
    | mk u suspect =>
      rw [found] at looks
      obtain ⟨-, resources, still⟩ := looks.kept small fresh
      cases suspect with
      | none => exact ⟨still, looks.receipts, fun _ _ sending => resources ▸ sending⟩
      | some blamed =>
        refine ⟨Transport.expiredOutLinks_dropOutLink still, looks.receipts,
          fun lid tx sending => ?_⟩
        -- The resource on the blamed link is gone, the others are as they were.
        rw [← resources]
        by_cases gone : lid = blamed
        · rw [gone] at sending
          cases (AList.lookup_erase blamed u.outResources).symm.trans sending
        · exact (AList.lookup_erase_ne gone).symm.trans sending

theorem confirmable_attemptFrom (small : now < 2 ^ 64) (fresh : t.expiredOutLinks now = [])
    (confirmable : t.Confirmable h)
    (blamed : m.inFlight.isSome → ∀ lid ∈ (suspectLink pn now syncLink t m).2, ¬ t.Awaits h lid) :
    (attemptFrom pn now syncLink t m).Confirmable h := by
  rw [attemptFrom]
  split
  case isFalse => exact confirmable
  case isTrue flies =>
    have looks := looks_suspectLink pn now syncLink t m
    have spared := blamed flies
    obtain ⟨lid, awaits⟩ := confirmable
    rw [dropSuspect]
    cases found : suspectLink pn now syncLink t m with
    | mk u suspect =>
      rw [found] at looks spared
      have still : u.Awaits h lid := awaits.looks looks small fresh
      cases suspect with
      | none => exact ⟨lid, still⟩
      | some gone =>
        refine ⟨lid, still.dropOutLink fun same => ?_⟩
        exact spared gone rfl (same ▸ awaits)

theorem Sends.confirmable {lid : TruncatedHash} {data : Bytes} {hash : FullHash} {v : Transport}
    (sends : Sends u lid data hash v) (confirmable : u.Confirmable h)
    (room : u.receipts.Spares MAX_RECEIPTS hash)
    (replaced : LINK_PACKED_MAX < data.length → ∀ old ∈ u.outResources.lookup lid, old.hash ≠ h) :
    v.Confirmable h := by
  cases sends with
  | resource large live named => exact confirmable.insertResource (replaced large) _
  | packet small live => exact confirmable.insertReceipt live room

theorem Sends.sent {lid : TruncatedHash} {data : Bytes} {hash : FullHash} {v : Transport}
    (sends : Sends u lid data hash v) : v.Confirmable hash := by
  cases sends with
  | resource large live named => exact ⟨lid, live, .inr ⟨_, AList.lookup_insert _, named⟩⟩
  | packet small live => exact ⟨lid, live, .inl (Capped.get_insert_self MAX_RECEIPTS hash lid _)⟩

theorem Turned.sent (turned : Turned pn now syncLink t b m o) {x : Transmission}
    (sent : o.sent = some x) : o.transport.Confirmable x.hash := by
  cases turned with
  | waits _ | late _ _ _ _ _ | expires _ _ _ | unproven _ _ => cases sent
  | attempts ready due within follows idle attempt =>
    cases attempt with
    | moves _ _ _ _ _ | crashed _ _ => cases sent
    | delivers straight looks within' follows' inFlight far sends =>
      cases sent
      exact sends.sent
    | stores via node looks follows' inFlight far copy sends =>
      cases sent
      exact sends.sent

/--
What a turn keeps of the proofs that other messages await.

The message may blame a link for its own missing proof, and a resource that it starts takes the place of another on the same link.
-/
theorem Turned.confirmable (turned : Turned pn now syncLink t b m o) (small : now < 2 ^ 64)
    (fresh : t.expiredOutLinks now = []) (confirmable : t.Confirmable h)
    (room : ∀ x ∈ o.sent, t.receipts.Spares MAX_RECEIPTS x.hash)
    (replaced : ∀ x ∈ o.sent, LINK_PACKED_MAX < x.data.length →
      ∀ old ∈ t.outResources.lookup x.link, old.hash ≠ h)
    (blamed : m.inFlight.isSome → m.nextAction ≤ now →
      ∀ lid ∈ (suspectLink pn now syncLink t m).2, ¬ t.Awaits h lid) :
    o.transport.Confirmable h := by
  -- What a turn sends, it sends from the state that looking links up has left.
  have sending {from_ u v : Transport} {lid : TruncatedHash} {data : Bytes} {hash : FullHash}
      (still : from_.Confirmable h) (trimmed : from_.expiredOutLinks now = []
        ∧ from_.receipts = t.receipts ∧ ∀ lid tx, from_.outResources.lookup lid = some tx →
          t.outResources.lookup lid = some tx)
      (looks : Transport.Looks now from_ u) (sends : Sends u lid data hash v)
      (sent : (⟨lid, data, hash⟩ : Transmission) ∈ o.sent) : v.Confirmable h := by
    obtain ⟨fresh', receipts, resources⟩ := trimmed
    obtain ⟨on, awaits⟩ := still
    refine sends.confirmable ⟨on, awaits.looks looks small fresh'⟩ ?_ fun large old held => ?_
    · rw [looks.receipts, receipts]
      exact room _ sent
    · rw [(looks.kept small fresh').2.1] at held
      exact replaced _ sent large old (resources lid old held)
  cases turned with
  | waits waiting => exact confirmable
  | late ready past straight untried node => exact confirmable
  | expires ready past looks =>
    obtain ⟨lid, awaits⟩ := confirmable
    exact ⟨lid, awaits.looks looks small fresh⟩
  | unproven ready due =>
    exact confirmable_attemptFrom small fresh confirmable fun flies => blamed flies due
  | attempts ready due within follows idle attempt =>
    have still : (attemptFrom pn now syncLink t m).Confirmable h :=
      confirmable_attemptFrom small fresh confirmable fun flies => blamed flies due
    have trimmed := trims_attemptFrom pn syncLink m small fresh
    cases attempt with
    | moves looks within' follows' inFlight stays =>
      obtain ⟨lid, awaits⟩ := still
      exact ⟨lid, awaits.looks looks small trimmed.1⟩
    | delivers straight looks within' follows' inFlight far sends =>
      exact sending still trimmed looks sends rfl
    | stores via node looks follows' inFlight far copy sends =>
      exact sending still trimmed looks sends rfl
    | crashed via missing => exact still

end Turns

namespace System

variable {cfg : Config} {s s' : System} {h : FullHash}

/-- The call evicts nothing, closes nothing and finds no link idle. -/
def CalmOp (cfg : Config) (t : Transport) : Transport.Op → Prop
  | .connectionReset => False
  | .outboundLinkFor _ now => now < 2 ^ 64 ∧ t.expiredOutLinks now = []
  | .makeLinkData lid plaintext iv => ∀ made ∈ (t.makeLinkData cfg.crypto lid plaintext iv).2,
      t.receipts.Spares MAX_RECEIPTS made.2
  | .makeInLinkData lid plaintext iv => ∀ made ∈ (t.makeInLinkData cfg.crypto lid plaintext iv).2,
      t.receipts.Spares MAX_RECEIPTS made.2
  | _ => True

/--
Nothing from outside costs a link or a receipt.

The connection is not reset, no peer closes a link, no link is idle for too long, no table is full, clocks do not run backwards and no two things that are sent have one hash.
-/
def Calm (cfg : Config) (s : System) : Action → Prop
  | .tick time => s.clock ≤ time
  | .reconnect => False
  | .other op => CalmOp cfg s.shared.transport op
  | .frame raw ephemeral iface => s.shared.transport.Leaves
      (s.shared.transport.handleFrame cfg.crypto raw ephemeral iface).2
  | .turn index now d => now ≤ s.clock ∧ now < 2 ^ 64
      ∧ s.shared.transport.expiredOutLinks now = []
      ∧ ∀ m ∈ s.shared.outbox[index]?, ∀ x ∈ (s.turnOf cfg m now d).sent,
        s.shared.transport.receipts.Spares MAX_RECEIPTS x.hash
        ∧ ∀ other ∈ s.shared.outbox, other.key ≠ m.key → other.inFlight ≠ some x.hash
  | _ => True

/-- A message awaits the proof of the hash, and the time for it is not up. -/
def Pending (s : System) (m : OutboundMsg) (h : FullHash) : Prop :=
  m ∈ s.shared.outbox ∧ m.inFlight = some h ∧ s.clock < m.nextAction

/--
Nothing we do ourselves costs another message its proof.

No resource replaces one that is awaited on the same link, and no link is dropped, for a proof that is overdue or at the end of a sync, while another proof is awaited on it.
-/
def Considerate (cfg : Config) (s : System) : Action → Prop
  | .turn index now d => ∀ m ∈ s.shared.outbox[index]?, ∀ other h, s.Pending other h →
      other.key ≠ m.key →
      (∀ x ∈ (s.turnOf cfg m now d).sent, LINK_PACKED_MAX < x.data.length →
        ∀ tx ∈ s.shared.transport.outResources.lookup x.link, tx.hash ≠ h)
      ∧ (m.inFlight.isSome → m.nextAction ≤ now →
        ∀ lid ∈ (suspectLink cfg.propagationNode now s.shared.syncLink s.shared.transport m).2,
          ¬ s.shared.transport.Awaits h lid)
  | .other (.dropOutLink lid) => ∀ m h, s.Pending m h → ¬ s.shared.transport.Awaits h lid
  | .other (.makeLinkResource lid _ _ _ _ _) => ∀ m h, s.Pending m h →
      ∀ tx ∈ s.shared.transport.outResources.lookup lid, tx.hash ≠ h
  | _ => True

/-- Neither the outside nor we ourselves cost a message its proof. -/
structure Undisturbed (cfg : Config) (s : System) (a : Action) : Prop where
  calm : Calm cfg s a
  considerate : Considerate cfg s a

section Samples

open LxmfChat.Transport (sampleSeed sampleIdentity)

end Samples

end System

end LxmfChat
