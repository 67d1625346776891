import LxmfChat.App.Filing

/-! Held messages, their record and the badge, under every interleaving of the threads. -/

namespace LxmfChat

open Base Relation

/--
The held messages of a peer, their record and the badge agree.

They are absent together, and no empty list is kept.
-/
structure Inbox.Agrees (inbox : Inbox) (peer : TruncatedHash) : Prop where
  nonempty : inbox.pending.lookup peer ≠ some []
  record : inbox.persisted.lookup peer = inbox.pending.lookup peer
  badge : inbox.unread.lookup peer = (inbox.pending.lookup peer).map List.length

/-- How far the main thread has come with flushing the messages of one peer. -/
inductive FlushStage
  | resting
  | flushing (hadQueued : Bool)
  | deleting
deriving DecidableEq, Repr

def MainStage.flushStage (peer : TruncatedHash) : MainStage → FlushStage
  | .flushing addr _ hadQueued | .adding addr _ _ hadQueued =>
    if addr = peer then .flushing hadQueued else .resting
  | .deleting addr => if addr = peer then .deleting else .resting
  | _ => .resting

theorem MainStage.flushStage_elsewhere {main : MainStage} {peer : TruncatedHash}
    (elsewhere : main.addr? ≠ some peer) :
    main.flushStage peer = .resting ∧ main.toFlush peer = [] := by
  have other : ∀ {addr}, main.addr? = some addr → addr ≠ peer := by
    rintro addr at_ rfl
    exact elsewhere at_
  cases main with
  | idle | recording | switching | taking | saving => exact ⟨rfl, rfl⟩
  | flushing addr queued hadQueued => exact ⟨if_neg (other rfl), if_neg (other rfl)⟩
  | adding addr next queued hadQueued => exact ⟨if_neg (other rfl), if_neg (other rfl)⟩
  | deleting addr => exact ⟨if_neg (other rfl), rfl⟩

/-- The conversations as far as the held messages of one peer are concerned. -/
@[ext] structure PeerView where
  pending : Option (List HeldMessage)
  persisted : Option (List HeldMessage)
  unread : Option Nat
  locks : Nat
  uncounted : Nat
  stage : FlushStage

namespace PeerView

/--
What can happen to the held messages of a peer.

Nothing is held while they are flushed, and they are taken when all have been counted.
-/
inductive Step : PeerView → PeerView → Prop
  | same (v : PeerView) : Step v v
  | push (v : PeerView) (m : HeldMessage) (free : v.locks = 0) (resting : v.stage = .resting) :
      Step v { v with
        pending := some (v.pending.getD [] ++ [m]), locks := v.locks + 1
        uncounted := v.uncounted + 1 }
  | persist (v : PeerView) (record : Option (List HeldMessage)) (locked : 0 < v.locks) :
      Step v { v with persisted := record }
  | write (v : PeerView) (n : Nat) (locked : v.locks = n + 1) :
      Step v { v with persisted := some (v.pending.getD []), locks := n }
  | count (v : PeerView) (n : Nat) (counting : v.uncounted = n + 1) (free : v.locks ≤ n) :
      Step v { v with unread := some (v.unread.getD 0 + 1), uncounted := n }
  | take (v : PeerView) (free : v.locks = 0) (counted : v.uncounted = 0)
      (resting : v.stage = .resting) :
      Step v { v with pending := none, stage := .flushing (!(v.pending.getD []).isEmpty) }
  | clear (v : PeerView) (hadQueued : Bool) (flushing : v.stage = .flushing hadQueued) :
      Step v { v with unread := none, stage := if hadQueued then .deleting else .resting }
  | delete (v : PeerView) (deleting : v.stage = .deleting) :
      Step v { v with persisted := none, stage := .resting }

theorem Step.of_eq {v w : PeerView} (same : w = v) : Step v w := same ▸ .same v

theorem Step.to_eq {v w w' : PeerView} (step : Step v w) (same : w' = w) : Step v w' :=
  same ▸ step

/-- What always holds of the held messages of a peer. -/
structure Sound (v : PeerView) : Prop where
  locks : v.locks ≤ v.uncounted
  /-- Between flushes, only deliveries in progress can make a difference. -/
  resting : v.stage = .resting →
    v.pending ≠ some [] ∧ v.unread ≠ some 0
      ∧ v.unread.getD 0 + v.uncounted = (v.pending.getD []).length
      ∧ (v.locks = 0 → v.persisted = v.pending)
  /-- A flush that found nothing left no record behind. -/
  flushing : ∀ {hadQueued}, v.stage = .flushing hadQueued →
    v.pending = none ∧ v.uncounted = 0 ∧ (hadQueued = false → v.persisted = none)
  deleting : v.stage = .deleting → v.pending = none ∧ v.uncounted = 0 ∧ v.unread = none

variable {v w : PeerView}

theorem Sound.of_resting (locks : v.locks ≤ v.uncounted) (stage : v.stage = .resting)
    (agrees : v.pending ≠ some [] ∧ v.unread ≠ some 0
      ∧ v.unread.getD 0 + v.uncounted = (v.pending.getD []).length
      ∧ (v.locks = 0 → v.persisted = v.pending)) : v.Sound := by
  refine ⟨locks, fun _ => agrees, fun flushing => ?_, fun deleting => ?_⟩
  · rw [stage] at flushing
    cases flushing
  · rw [stage] at deleting
    cases deleting

theorem Sound.resting_of_pos (sound : v.Sound) (busy : 0 < v.uncounted) : v.stage = .resting := by
  cases stage : v.stage with
  | resting => rfl
  | flushing hadQueued =>
    have none := (sound.flushing stage).2.1
    omega
  | deleting =>
    have none := (sound.deleting stage).2.1
    omega

theorem Sound.step (sound : v.Sound) (step : Step v w) : w.Sound := by
  have uncounted := sound.locks
  cases step with
  | same => exact sound
  | push m free resting =>
    obtain ⟨-, unread, count, -⟩ := sound.resting resting
    refine .of_resting (Nat.succ_le_succ uncounted) resting ⟨?_, unread, ?_, ?_⟩
    · -- A list with a message more is not empty.
      intro empty
      simp at empty
    · simp only [Option.getD_some, List.length_append, List.length_singleton]
      omega
    · intro none
      simp at none
  | persist record locked =>
    have resting := sound.resting_of_pos (by omega)
    obtain ⟨pending, unread, count, -⟩ := sound.resting resting
    refine .of_resting uncounted resting ⟨pending, unread, count, fun free => ?_⟩
    exact absurd free (Nat.pos_iff_ne_zero.mp locked)
  | write n locked =>
    have resting := sound.resting_of_pos (by omega)
    obtain ⟨pending, unread, count, -⟩ := sound.resting resting
    have rest : n ≤ v.uncounted := by omega
    refine .of_resting rest resting ⟨pending, unread, count, fun _ => ?_⟩
    -- The message that is being written is in the list, so there is one.
    cases list : v.pending with
    | none =>
      rw [list] at count
      simp only [Option.getD_none, List.length_nil] at count
      omega
    | some messages => rfl
  | count n counting free =>
    have resting := sound.resting_of_pos (by omega)
    obtain ⟨pending, unread, count, kept⟩ := sound.resting resting
    refine .of_resting free resting ⟨pending, by simp, ?_, kept⟩
    simp only [Option.getD_some]
    omega
  | take free counted resting =>
    obtain ⟨pending, -, -, kept⟩ := sound.resting resting
    refine ⟨uncounted, (fun rests => nomatch rests), fun flushing => ⟨rfl, counted, ?_⟩,
      (fun deletes => nomatch deletes)⟩
    rintro rfl
    rw [kept free]
    -- What was taken is empty, and no empty list is kept.
    cases list : v.pending with
    | none => rfl
    | some messages =>
      rw [list] at pending flushing
      cases messages with
      | nil => exact absurd rfl pending
      | cons m rest => cases flushing
  | clear hadQueued flushing =>
    obtain ⟨taken, counted, unkept⟩ := sound.flushing flushing
    cases hadQueued with
    | false =>
      have persisted := unkept rfl
      refine .of_resting uncounted rfl ⟨?_, ?_, ?_, ?_⟩
      · simp [taken]
      · simp
      · simp [taken, counted]
      · intro _
        exact persisted.trans taken.symm
    | true =>
      -- The record is still there, and is deleted next.
      exact ⟨uncounted, (fun rests => nomatch rests), (fun flushes => nomatch flushes),
        fun _ => ⟨taken, counted, rfl⟩⟩
  | delete deleting =>
    obtain ⟨taken, counted, unread⟩ := sound.deleting deleting
    refine .of_resting uncounted rfl ⟨?_, ?_, ?_, ?_⟩
    · simp [taken]
    · simp [unread]
    · simp [taken, counted, unread]
    · intro _
      exact taken.symm

end PeerView

namespace Desk

variable {c : Desk}

def view (c : Desk) (peer : TruncatedHash) : PeerView where
  pending := c.inbox.pending.lookup peer
  persisted := c.inbox.persisted.lookup peer
  unread := c.inbox.unread.lookup peer
  locks := c.deliveries.countP fun d => d.src = peer && d.locks
  uncounted := c.deliveries.countP fun d => d.src = peer && d.uncounted
  stage := c.main.flushStage peer

/-- What keeps held messages, their record and the badge together. -/
structure Exclusive (c : Desk) (a : DeskAction) : Prop where
  /-- No message of a peer is held while those held before are flushed. -/
  holds : ∀ {index d}, a = .deliver index → c.deliveries[index]? = some d → d.stage = .holding →
    c.locked = false → c.main.flushStage d.src = .resting
  /-- The held messages of a peer are taken when all of them count as unread. -/
  takes : ∀ {addr}, a = .main → c.main = .taking addr → c.locked = false →
    ∀ d ∈ c.deliveries, d.src = addr → d.stage ≠ .counting

theorem locks_of_free (free : c.locked = false) (peer : TruncatedHash) :
    (c.view peer).locks = 0 := by
  rw [view, List.countP_eq_zero]
  intro d there both
  rw [Bool.and_eq_true] at both
  rw [locked, List.any_eq_false] at free
  exact free d there both.2

theorem deliverBlock_src {c c' : Desk} {d next : Delivery}
    (block : c.deliverBlock d = (c', some next)) : next.src = d.src := by
  rw [deliverBlock.eq_def] at block
  split at block
  case h_1 | h_5 => split at block <;> cases block <;> rfl
  all_goals
    cases block
    try rfl

theorem view_deliver_elsewhere {index : Nat} {d : Delivery} {peer : TruncatedHash}
    (there : c.deliveries[index]? = some d) (other : d.src ≠ peer) :
    (c.act (.deliver index)).view peer = c.view peer := by
  have apart : peer ≠ d.src := fun same => other same.symm
  have main := (deliverBlock_fields c d).2.1
  have tables : (c.deliverBlock d).1.inbox.pending.lookup peer = c.inbox.pending.lookup peer
      ∧ (c.deliverBlock d).1.inbox.persisted.lookup peer = c.inbox.persisted.lookup peer
      ∧ (c.deliverBlock d).1.inbox.unread.lookup peer = c.inbox.unread.lookup peer := by
    rw [deliverBlock.eq_def]
    split
    case h_1 => split <;> exact ⟨rfl, rfl, rfl⟩
    case h_5 =>
      split
      · exact ⟨rfl, rfl, rfl⟩
      · exact ⟨AList.lookup_insert_ne apart, rfl, rfl⟩
    case h_6 => exact ⟨rfl, AList.lookup_erase_ne apart, rfl⟩
    case h_7 | h_8 => exact ⟨rfl, AList.lookup_insert_ne apart, rfl⟩
    case h_9 => exact ⟨rfl, rfl, AList.lookup_insert_ne apart⟩
    all_goals exact ⟨rfl, rfl, rfl⟩
  obtain ⟨pending, persisted, unread⟩ := tables
  -- What moved on is no delivery for the peer, neither before nor after.
  have count : ∀ p : Delivery → Bool, (advance c.deliveries index (c.deliverBlock d).2).countP
      (fun e => e.src = peer && p e) = c.deliveries.countP fun e => e.src = peer && p e := by
    intro p
    have moved := countP_advance there (fun e => e.src = peer && p e) (c.deliverBlock d).2
    have before : [d].countP (fun e => e.src = peer && p e) = 0 := by simp [other]
    have after : (c.deliverBlock d).2.toList.countP (fun e => e.src = peer && p e) = 0 := by
      rw [List.countP_eq_zero]
      intro e new
      have same := deliverBlock_src (Prod.ext rfl (Option.mem_toList.mp new))
      simp [same, other]
    omega
  rw [Desk.act, there]
  simp only [view, pending, persisted, unread, main, count]

theorem count_advance {index : Nat} {d : Delivery} (there : c.deliveries[index]? = some d)
    (p : Delivery → Bool) {next : Option Delivery} (same : ∀ e, next = some e → e.src = d.src) :
    ((advance c.deliveries index next).countP fun e => e.src = d.src && p e) + (p d).toNat
      = (c.deliveries.countP fun e => e.src = d.src && p e) + (next.elim false p).toNat := by
  have moved := countP_advance there (fun e => e.src = d.src && p e) next
  have one : ∀ e : Delivery, e.src = d.src →
      [e].countP (fun e => e.src = d.src && p e) = (p e).toNat := by
    intro e same
    cases value : p e <;> simp [same, value]
  rw [one d rfl] at moved
  cases next with
  | none => exact moved
  | some e => rw [moved, Option.toList_some, one e (same e rfl), Option.elim_some]

theorem view_deliver {index : Nat} {d : Delivery} (there : c.deliveries[index]? = some d)
    (exclusive : Exclusive c (.deliver index)) :
    PeerView.Step (c.view d.src) ((c.act (.deliver index)).view d.src) := by
  have holds := @exclusive.holds _ _ rfl there
  rw [Desk.act, there]
  dsimp only
  cases block : c.deliverBlock d with
  | mk c' next =>
  have same : ∀ e, next = some e → e.src = d.src := by
    rintro e rfl
    exact deliverBlock_src block
  have locks := count_advance there Delivery.locks same
  have uncounted := count_advance there Delivery.uncounted same
  dsimp only
  rw [deliverBlock.eq_def] at block
  split at block
  all_goals
    rename_i stage
    rw [Delivery.locks.eq_def d, stage] at locks
    rw [Delivery.uncounted.eq_def d, Delivery.locks.eq_def d, stage] at uncounted
  -- Before the message is pushed the delivery does not count, and showing it does not either.
  case h_1 =>
    split at block <;> cases block <;>
      exact .of_eq (PeerView.ext rfl rfl rfl locks uncounted rfl)
  case h_2 | h_3 | h_4 =>
    cases block
    exact .of_eq (PeerView.ext rfl rfl rfl locks uncounted rfl)
  case h_5 =>
    split at block
    case isTrue =>
      cases block
      rw [Option.elim_some, Delivery.locks, stage] at locks
      rw [Option.elim_some, Delivery.uncounted, Delivery.locks, stage] at uncounted
      exact .of_eq (PeerView.ext rfl rfl rfl locks uncounted rfl)
    case isFalse free =>
      cases block
      rw [Bool.not_eq_true] at free
      exact .to_eq (.push (c.view d.src) d.shown (locks_of_free free d.src) (holds stage free))
        (PeerView.ext (AList.lookup_insert _) rfl rfl locks uncounted rfl)
  case h_6 | h_7 =>
    -- The record is gone or empty while the lock is held.
    cases block
    have locked : 0 < (c.view d.src).locks := by
      rw [view, List.countP_pos_iff]
      exact ⟨d, List.mem_of_getElem? there, by simp [Delivery.locks, stage]⟩
    exact .to_eq (.persist (c.view d.src) _ locked)
      (PeerView.ext rfl rfl rfl (Nat.succ.inj locks) (Nat.succ.inj uncounted) rfl)
  case h_8 =>
    cases block
    exact .to_eq (.write (c.view d.src) _ locks.symm)
      (PeerView.ext rfl (AList.lookup_insert _) rfl rfl (Nat.succ.inj uncounted) rfl)
  case h_9 =>
    cases block
    -- Those that have the lock are counted later.
    have fewer : (advance c.deliveries index none).countP (fun e => e.src = d.src && e.locks)
        ≤ (advance c.deliveries index none).countP fun e => e.src = d.src && e.uncounted := by
      refine List.countP_mono_left fun e _ both => ?_
      rw [Bool.and_eq_true] at both ⊢
      exact ⟨both.1, by rw [Delivery.uncounted, both.2, Bool.true_or]⟩
    have same : (c.view d.src).locks = _ := locks.symm
    exact .to_eq (.count (c.view d.src) _ uncounted.symm (same ▸ fewer))
      (PeerView.ext rfl rfl (AList.lookup_insert _) locks rfl rfl)

theorem view_main_elsewhere {peer : TruncatedHash} (elsewhere : c.main.addr? ≠ some peer) :
    c.mainBlock.view peer = c.view peer := by
  have other : ∀ {addr}, c.main.addr? = some addr → peer ≠ addr := by
    rintro addr at_ rfl
    exact elsewhere at_
  rw [mainBlock.eq_def]
  split
  case h_1 => rfl
  all_goals
    rename_i at_
    rw [at_] at other
  case h_2 | h_3 | h_5 | h_6 | h_9 =>
    exact PeerView.ext rfl rfl rfl rfl rfl (by rw [view, view, at_]; rfl)
  case h_4 addr =>
    split
    · rfl
    · have apart := other rfl
      exact PeerView.ext (AList.lookup_erase_ne apart) rfl rfl rfl rfl
        (by simp [view, at_, MainStage.flushStage, apart.symm])
  case h_7 addr hadQueued =>
    have apart := other rfl
    refine PeerView.ext rfl rfl (AList.lookup_erase_ne apart) rfl rfl ?_
    cases hadQueued <;> simp [view, at_, MainStage.flushStage, apart.symm]
  case h_8 addr =>
    have apart := other rfl
    exact PeerView.ext rfl (AList.lookup_erase_ne apart) rfl rfl rfl
      (by simp [view, at_, MainStage.flushStage, apart.symm])

theorem uncounted_of_free (free : c.locked = false) {peer : TruncatedHash}
    (counted : ∀ d ∈ c.deliveries, d.src = peer → d.stage ≠ .counting) :
    (c.view peer).uncounted = 0 := by
  rw [view, List.countP_eq_zero]
  intro d there both
  rw [Bool.and_eq_true, decide_eq_true_eq, Delivery.uncounted, Bool.or_eq_true,
    decide_eq_true_eq] at both
  obtain ⟨same, locks | counting⟩ := both
  · rw [locked, List.any_eq_false] at free
    exact free d there locks
  · exact counted d there same counting

theorem view_main {peer : TruncatedHash} (own : c.main.addr? = some peer)
    (exclusive : Exclusive c .main) : PeerView.Step (c.view peer) (c.mainBlock.view peer) := by
  rw [mainBlock.eq_def]
  split
  all_goals
    rename_i at_
    rw [at_] at own
    cases own
  -- Nothing is taken yet, or everything has been deleted.
  case h_2 | h_3 | h_5 | h_6 | h_9 =>
    exact .of_eq (PeerView.ext rfl rfl rfl rfl rfl (by rw [view, view, at_]; rfl))
  case h_4 =>
    split
    case isTrue => exact .same _
    case isFalse free =>
      rw [Bool.not_eq_true] at free
      have counted := uncounted_of_free free (exclusive.takes rfl at_ free)
      exact .to_eq (.take (c.view peer) (locks_of_free free peer) counted (by rw [view, at_]; rfl))
        (PeerView.ext (AList.lookup_erase _ _) rfl rfl rfl rfl (by simp [view, MainStage.flushStage]))
  case h_7 hadQueued =>
    refine .to_eq (.clear (c.view peer) hadQueued (by simp [view, at_, MainStage.flushStage]))
      (PeerView.ext rfl rfl (AList.lookup_erase _ _) rfl rfl ?_)
    cases hadQueued <;> simp [view, MainStage.flushStage]
  case h_8 =>
    exact .to_eq (.delete (c.view peer) (by simp [view, at_, MainStage.flushStage]))
      (PeerView.ext rfl (AList.lookup_erase _ _) rfl rfl rfl rfl)

theorem view_act {a : DeskAction} (exclusive : Exclusive c a) (peer : TruncatedHash) :
    PeerView.Step (c.view peer) ((c.act a).view peer) := by
  cases a with
  | arrive src shown =>
    -- The new delivery does not count yet.
    refine .of_eq (PeerView.ext rfl rfl rfl ?_ ?_ rfl)
    all_goals
      show List.countP _ (c.deliveries ++ [(⟨src, shown, .routing⟩ : Delivery)]) = _
      rw [List.countP_append]
      simp [Delivery.locks, Delivery.uncounted, view]
  | serve => exact .same _
  | activatePeer addr =>
    rw [Desk.act]
    split
    case h_1 idle => exact .of_eq (PeerView.ext rfl rfl rfl rfl rfl (by rw [view, view, idle]; rfl))
    case h_2 => exact .same _
  | deliver index =>
    cases there : c.deliveries[index]? with
    | none =>
      rw [Desk.act, there]
      exact .same _
    | some d =>
      by_cases own : d.src = peer
      · subst own
        exact view_deliver there exclusive
      · exact .of_eq (view_deliver_elsewhere there own)
  | main =>
    by_cases own : c.main.addr? = some peer
    · exact view_main own exclusive
    · exact .of_eq (view_main_elsewhere own)

/-- Nothing is in progress that concerns the held messages of the peer. -/
structure Quiet (c : Desk) (peer : TruncatedHash) : Prop where
  deliveries : ∀ d ∈ c.deliveries, d.src ≠ peer
  main : c.main.addr? ≠ some peer

theorem agrees_of_sound {peer : TruncatedHash} (sound : (c.view peer).Sound)
    (quiet : c.Quiet peer) : c.inbox.Agrees peer := by
  have none : ∀ p : Delivery → Bool,
      c.deliveries.countP (fun d => d.src = peer && p d) = 0 := by
    intro p
    rw [List.countP_eq_zero]
    intro d there both
    rw [Bool.and_eq_true, decide_eq_true_eq] at both
    exact quiet.deliveries d there both.1
  have resting := (MainStage.flushStage_elsewhere quiet.main).1
  obtain ⟨nonempty, badge, count, record⟩ := sound.resting resting
  refine ⟨nonempty, record (none _), ?_⟩
  have uncounted : (c.view peer).uncounted = 0 := none _
  rw [uncounted, Nat.add_zero] at count
  -- The badge shows the number of messages, and neither is kept when it is zero.
  change c.inbox.unread.lookup peer ≠ some 0 at badge
  change (c.inbox.unread.lookup peer).getD 0 = ((c.inbox.pending.lookup peer).getD []).length
    at count
  change c.inbox.pending.lookup peer ≠ some [] at nonempty
  cases unread : c.inbox.unread.lookup peer with
  | none =>
    rw [unread] at count
    cases pending : c.inbox.pending.lookup peer with
    | none => rfl
    | some list =>
      rw [pending] at count nonempty
      cases list with
      | nil => exact absurd rfl nonempty
      | cons m rest => cases count
  | some n =>
    rw [unread] at count badge
    cases pending : c.inbox.pending.lookup peer with
    | none =>
      rw [pending] at count
      exact absurd (congrArg some count) badge
    | some list =>
      rw [pending] at count
      exact congrArg some count

def addedTo (c : Desk) (peer : TruncatedHash) : List HeldMessage :=
  c.allFiled.filterMap fun f =>
    if f.key = hex peer.val ∧ f.src = some peer then some f.post else none

/-- Each time a message was held, it is still held, is about to be added, or was added. -/
def Covered (c : Desk) (peer : TruncatedHash) (m : HeldMessage) : Prop :=
  (c.held peer).count m
    ≤ ((c.inbox.pending.lookup peer).getD []).count m + (c.main.toFlush peer).count m
      + (c.addedTo peer).count m

/-- No message that was held is lost. -/
structure Accounted (c : Desk) : Prop where
  pointed : c.Pointed
  all : ∀ peer m, c.Covered peer m

theorem count_addedTo_le {c c' : Desk} {more : List Filing}
    (later : c'.allFiled = c.allFiled ++ more) (peer : TruncatedHash) (m : HeldMessage) :
    (c.addedTo peer).count m ≤ (c'.addedTo peer).count m := by
  rw [addedTo, addedTo, later, List.filterMap_append, List.count_append]
  exact Nat.le_add_right _ _

theorem addedTo_send {addr : TruncatedHash} (opened : c.openKey = some (hex addr.val))
    (next : HeldMessage) :
    (c.send (.postAdd (some addr) next)).addedTo addr = c.addedTo addr ++ [next] := by
  rw [addedTo, addedTo, allFiled_send, opened, List.filterMap_append]
  simp [filing]

theorem deliverBlock_held (c : Desk) (d : Delivery) :
    ((c.deliverBlock d).1.held = c.held
        ∧ (c.deliverBlock d).1.inbox.pending = c.inbox.pending)
      ∨ ((c.deliverBlock d).1.held = Function.update c.held d.src (c.held d.src ++ [d.shown])
        ∧ (c.deliverBlock d).1.inbox.pending = c.inbox.pending.insert d.src
          ((c.inbox.pending.lookup d.src).getD [] ++ [d.shown])) := by
  rw [deliverBlock.eq_def]
  split
  case h_1 => split <;> exact .inl ⟨rfl, rfl⟩
  case h_5 =>
    split
    · exact .inl ⟨rfl, rfl⟩
    · exact .inr ⟨rfl, rfl⟩
  all_goals exact .inl ⟨rfl, rfl⟩

variable {peer : TruncatedHash} {m : HeldMessage}

theorem Covered.send (covered : c.Covered peer m) (op : ChatOp) : (c.send op).Covered peer m :=
  covered.trans (Nat.add_le_add_left (count_addedTo_le (allFiled_send _) peer m) _)

theorem Covered.deliverBlock (covered : c.Covered peer m) (d : Delivery) :
    (c.deliverBlock d).1.Covered peer m := by
  have main := (deliverBlock_fields c d).2.1
  have added : (c.addedTo peer).count m ≤ ((c.deliverBlock d).1.addedTo peer).count m := by
    rcases deliverBlock_allFiled c d with same | ⟨-, more⟩
    · exact count_addedTo_le (same.trans (List.append_nil _).symm) peer m
    · exact count_addedTo_le more peer m
  rw [Covered] at covered ⊢
  rw [main]
  rcases deliverBlock_held c d with ⟨held, pending⟩ | ⟨held, pending⟩
  · rw [held, pending]
    omega
  · rw [held, pending]
    by_cases own : peer = d.src
    · -- The message is one more on both sides.
      subst own
      rw [Function.update_self, AList.lookup_insert, Option.getD_some, List.count_append,
        List.count_append]
      omega
    · rw [Function.update_of_ne own, AList.lookup_insert_ne own]
      omega

theorem Covered.take (covered : c.Covered peer m) {addr : TruncatedHash}
    (at_ : c.main = .taking addr) (hadQueued : Bool) :
    Covered { c with
      inbox := { c.inbox with pending := c.inbox.pending.erase addr }
      main := .flushing addr ((c.inbox.pending.lookup addr).getD []) hadQueued } peer m := by
  rw [Covered, at_] at covered
  show _ ≤ ((AList.lookup peer (c.inbox.pending.erase addr)).getD []).count m
    + ((MainStage.flushing addr _ _).toFlush peer).count m + _
  rw [MainStage.toFlush_flushing]
  by_cases own : peer = addr
  · subst own
    rw [AList.lookup_erase, if_pos rfl, Option.getD_none, List.count_nil, Nat.zero_add]
    exact covered
  · rw [AList.lookup_erase_ne own, if_neg fun same => own same.symm]
    exact covered

theorem Covered.add (covered : c.Covered peer m) (pointed : c.Pointed) {addr : TruncatedHash}
    {next : HeldMessage} {queued : List HeldMessage} {hadQueued : Bool}
    (at_ : c.main = .adding addr next queued hadQueued) :
    (Desk.send { c with
      inbox := { c.inbox with posts := c.inbox.posts ++ [next] }
      main := .flushing addr queued hadQueued } (.postAdd (some addr) next)).Covered peer m := by
  have opened : c.openKey = some (hex addr.val) :=
    pointed.key (by rw [at_]; rfl) (pointed.target (by rw [at_]; rfl))
  rw [Covered, at_, MainStage.toFlush_adding] at covered
  show _ ≤ _ + ((MainStage.flushing addr queued hadQueued).toFlush peer).count m + _
  rw [MainStage.toFlush_flushing]
  by_cases own : addr = peer
  · subst own
    rw [if_pos rfl] at covered ⊢
    have added : (Desk.send { c with
        inbox := { c.inbox with posts := c.inbox.posts ++ [next] }
        main := .flushing addr queued hadQueued } (.postAdd (some addr) next)).addedTo addr
          = c.addedTo addr ++ [next] :=
      addedTo_send (c := { c with
        inbox := { c.inbox with posts := c.inbox.posts ++ [next] }
        main := .flushing addr queued hadQueued }) opened next
    rw [List.count_cons] at covered
    rw [added, List.count_append, List.count_singleton]
    -- The message leaves the one list and joins the other.
    refine covered.trans (le_of_eq ?_)
    show _ = ((c.inbox.pending.lookup addr).getD []).count m + _ + _
    omega
  · rw [if_neg own] at covered ⊢
    exact covered.trans (Nat.add_le_add_left (count_addedTo_le (allFiled_send _) peer m) _)

theorem Covered.mainBlock (covered : c.Covered peer m) (pointed : c.Pointed) :
    c.mainBlock.Covered peer m := by
  rw [Desk.mainBlock.eq_def]
  split
  all_goals rename_i at_
  case h_1 => exact covered
  case h_4 addr =>
    split
    · exact covered
    · exact covered.take at_ _
  case h_6 addr next queued hadQueued => exact covered.add pointed at_
  all_goals rw [Covered, at_] at covered
  case h_2 | h_5 | h_8 => exact covered
  case h_3 addr => exact Covered.send (c := { c with main := .taking addr }) covered _
  case h_9 => exact Covered.send (c := { c with main := .idle }) covered _
  case h_7 addr hadQueued =>
    have flushed : (MainStage.flushing addr [] hadQueued).toFlush peer = [] := by
      rw [MainStage.toFlush_flushing, ite_self]
    rw [flushed] at covered
    cases hadQueued <;> exact covered

theorem Accounted.act (accounted : c.Accounted) (a : DeskAction) : (c.act a).Accounted := by
  refine ⟨accounted.pointed.act a, fun peer m => ?_⟩
  have covered := accounted.all peer m
  cases a with
  | arrive src shown => exact covered
  | serve =>
    have sent : (c.act .serve).addedTo peer = c.addedTo peer := by
      rw [addedTo, addedTo, allFiled, allFiled]
      exact congrArg (fun sent => (filing.outputs none sent).filterMap _)
        (Mailbox.sent_serve c.chat)
    rw [Covered, sent]
    exact covered
  | activatePeer addr =>
    rw [Desk.act]
    split
    case h_1 idle =>
      rw [Covered, idle] at covered
      exact covered
    case h_2 => exact covered
  | deliver index =>
    rw [Desk.act]
    split
    case h_1 => exact covered
    case h_2 d there => exact covered.deliverBlock d
  | main => exact covered.mainBlock accounted.pointed

theorem sound_start {inbox : Inbox} {peer : TruncatedHash} (agrees : inbox.Agrees peer) :
    ((start inbox).view peer).Sound := by
  obtain ⟨nonempty, record, badge⟩ := agrees
  refine .of_resting le_rfl rfl ⟨nonempty, ?_, ?_, fun _ => record⟩
  · show inbox.unread.lookup peer ≠ some 0
    rw [badge]
    intro zero
    obtain ⟨list, there, empty⟩ := Option.map_eq_some_iff.mp zero
    rw [List.length_eq_zero_iff.mp empty] at there
    exact nonempty there
  · show (inbox.unread.lookup peer).getD 0 + 0 = ((inbox.pending.lookup peer).getD []).length
    rw [badge]
    cases inbox.pending.lookup peer <;> rfl

/--
In every run in which no message of a peer is held while those held before are flushed, and they
are taken only when all of them count as unread, the held messages, their record and the badge
agree whenever nothing is in progress for the peer.

Every message that was held is then still held, or was sent to the peer's conversation.
-/
theorem held_messages_agree {inbox : Inbox} {c : Desk} (agrees : ∀ peer, inbox.Agrees peer)
    (run : ReflTransGen (Step Exclusive) (start inbox) c) (peer : TruncatedHash)
    (quiet : c.Quiet peer) :
    c.inbox.Agrees peer
      ∧ ∀ m, (c.held peer).count m
        ≤ ((c.inbox.pending.lookup peer).getD []).count m + (c.addedTo peer).count m := by
  have both : (c.view peer).Sound ∧ c.Accounted := by
    refine reachable_of_keeps (I := fun c => (c.view peer).Sound ∧ c.Accounted) ?_
      ⟨sound_start (agrees peer), pointed_start inbox, ?_⟩ run
    · intro before after kept step
      cases step with
      | act a fine => exact ⟨kept.1.step (view_act fine peer), kept.2.act a⟩
    · intro other m
      exact Nat.le_add_right _ _
  refine ⟨agrees_of_sound both.1 quiet, fun m => ?_⟩
  have all := both.2.all peer m
  rw [Covered, (MainStage.flushStage_elsewhere quiet.main).2, List.count_nil, Nat.add_zero] at all
  exact all

def sampleSecond : HeldMessage := ⟨"peer".toList, 6, "are you there?".toList⟩

/-- One message is held; the second is looked up, and is held after the first was taken. -/
def flushedRun : List DeskAction :=
  .arrive sampleOther samplePost :: List.replicate 6 (.deliver 0)
    ++ [.arrive sampleOther sampleSecond, .deliver 0, .activatePeer sampleOther, .main, .main, .main]
    ++ List.replicate 5 (.deliver 0) ++ List.replicate 5 .main

/-- The second message is in the list without a record or a badge: a restart loses it. -/
theorem flushed_record_lost :
    ((start {}).actAll flushedRun).deliveries = []
      ∧ ((start {}).actAll flushedRun).main = .idle
      ∧ ((start {}).actAll flushedRun).inbox.pending.lookup sampleOther = some [sampleSecond]
      ∧ ((start {}).actAll flushedRun).inbox.persisted.lookup sampleOther = none
      ∧ ((start {}).actAll flushedRun).inbox.unread.lookup sampleOther = none := by
  decide +kernel

def openedRun : List DeskAction :=
  .arrive sampleOther samplePost :: List.replicate 6 (.deliver 0)
    ++ .activatePeer sampleOther :: List.replicate 8 .main

theorem exclusive_deliver {index : Nat} (idle : c.main = .idle) : Exclusive c (.deliver index) := by
  refine ⟨fun _ _ _ _ => ?_, (fun same => nomatch same)⟩
  rw [idle]
  rfl

theorem exclusive_main (none : c.deliveries = []) : Exclusive c .main := by
  refine ⟨(fun same => nomatch same), fun _ _ _ d there => ?_⟩
  rw [none] at there
  cases there

theorem exclusive_other {a : DeskAction} (deliver : ∀ index, a ≠ .deliver index)
    (main : a ≠ .main) : Exclusive c a :=
  ⟨(fun same => absurd same (deliver _)), (fun same => absurd same main)⟩

theorem held_messages_agree_opened :
    ((start {}).actAll openedRun).held sampleOther = [samplePost]
      ∧ ((start {}).actAll openedRun).inbox.Agrees sampleOther
      ∧ ∀ m, (((start {}).actAll openedRun).held sampleOther).count m
        ≤ ((((start {}).actAll openedRun).inbox.pending.lookup sampleOther).getD []).count m
          + (((start {}).actAll openedRun).addedTo sampleOther).count m := by
  have permitted : Permitted act Exclusive (start {}) openedRun := by
    refine ⟨exclusive_other (by simp) (by simp), exclusive_deliver (by decide +kernel),
      exclusive_deliver (by decide +kernel), exclusive_deliver (by decide +kernel),
      exclusive_deliver (by decide +kernel), exclusive_deliver (by decide +kernel),
      exclusive_deliver (by decide +kernel), exclusive_other (by simp) (by simp),
      exclusive_main (by decide +kernel), exclusive_main (by decide +kernel),
      exclusive_main (by decide +kernel), exclusive_main (by decide +kernel),
      exclusive_main (by decide +kernel), exclusive_main (by decide +kernel),
      exclusive_main (by decide +kernel), exclusive_main (by decide +kernel), trivial⟩
  have agrees : ∀ peer, ({} : Inbox).Agrees peer := fun peer =>
    ⟨(fun same => nomatch same), rfl, rfl⟩
  have none : ((start {}).actAll openedRun).deliveries = [] := by decide +kernel
  have idle : ((start {}).actAll openedRun).main = .idle := by decide +kernel
  have quiet : ((start {}).actAll openedRun).Quiet sampleOther := by
    refine ⟨fun d there => ?_, ?_⟩
    · rw [none] at there
      cases there
    · rw [idle]
      exact fun same => nomatch same
  exact ⟨by decide +kernel,
    held_messages_agree agrees (run_of_allowed permitted) sampleOther quiet⟩

end Desk

end LxmfChat
