import LxmfChat.App.Lifecycle
import LxmfChat.Reticulum.Transport.Receipts

/-! Every message leaves the outbox once, with one final mark. -/

namespace LxmfChat

open Base
open Relation (ReflTransGen)

variable {m : OutboundMsg} {job : StampJob}

namespace Core

def held (c : Core) : List (TruncatedHash × Nat) := c.outbox.map OutboundMsg.key

def verdicts (c : Core) : List Mark := c.decided ++ c.marks

def keys (c : Core) : List (TruncatedHash × Nat) :=
  Tracked.keys OutboundMsg.key Mark.key c.outbox c.decided c.marks

/-- What holds of the messages however they are sent, proven and stamped. -/
structure Orderly (c : Core) : Prop where
  nodup : c.keys.Nodup
  posted : ∀ k ∈ c.keys, k ∈ c.posted
  postedOnce : c.posted.Nodup
  idle : ∀ m ∈ c.outbox, m.needsStamp.isSome → m.inFlight = none
  job : ∀ job ∈ c.stampJob, job.key ∈ c.posted ∧ job.key ∉ c.verdicts.map Mark.key
    ∧ ∀ m ∈ c.outbox, m.key = job.key → m.needsStamp.isSome

variable {cfg : Config} {limits : Limits} {mayArm : OutboundMsg → Prop} {c c' : Core}

theorem keys_eq (c : Core) : c.keys = c.held ++ c.verdicts.map Mark.key := by
  rw [keys, Tracked.keys, held, verdicts, List.map_append]

theorem mem_keys_of_mem (there : m ∈ c.outbox) : m.key ∈ c.keys := by
  rw [keys_eq]
  exact List.mem_append_left _ (List.mem_map_of_mem there)

namespace Orderly

theorem not_mem_verdicts (orderly : c.Orderly) {k : TruncatedHash × Nat} (held : k ∈ c.held) :
    k ∉ c.verdicts.map Mark.key := by
  have nodup := orderly.nodup
  rw [keys_eq] at nodup
  exact List.disjoint_of_nodup_append nodup held

theorem held_nodup (orderly : c.Orderly) : c.held.Nodup := by
  have nodup := orderly.nodup
  rw [keys_eq] at nodup
  exact nodup.of_append_left

theorem eq_of_key (orderly : c.Orderly) {other : OutboundMsg} (there : m ∈ c.outbox)
    (otherThere : other ∈ c.outbox) (same : other.key = m.key) : other = m :=
  List.inj_on_of_nodup_map orderly.held_nodup otherThere there same

theorem eq_of_mark (orderly : c.Orderly) {mark other : Mark} (there : mark ∈ c.verdicts)
    (otherThere : other ∈ c.verdicts) (same : other.key = mark.key) : other = mark := by
  have nodup := orderly.nodup
  rw [keys_eq] at nodup
  exact List.inj_on_of_nodup_map nodup.of_append_right otherThere there same

theorem job_key_ne (orderly : c.Orderly) (taken : job ∈ c.stampJob) (there : m ∈ c.outbox)
    (cause : m.needsStamp = none ∨ m.inFlight.isSome) : m.key ≠ job.key := by
  intro same
  have unmined := (orderly.job job taken).2.2 m there same
  rcases cause with ready | flying
  · simp [ready] at unmined
  · simp [orderly.idle m there unmined] at flying

end Orderly

theorem changed_stampOn (job : StampJob) (stamped : Bytes) (now : Nat)
    (outbox : List OutboundMsg) :
    List.Forall₂ (fun m m' => m'.key = m.key ∧ (m' = m ∨ m'.needsStamp = none)) outbox
      (outbox.replaceF (job.stampOn stamped now)) := by
  refine Tracked.forall₂_replaceF (fun m => ⟨rfl, .inl rfl⟩) ?_ outbox
  intro m m' added
  rw [StampJob.stampOn] at added
  split at added
  · cases added
    exact ⟨rfl, .inr rfl⟩
  · cases added

theorem perm_verdicts_marks {index : Nat} {mark : Mark} (found : c.decided[index]? = some mark) :
    (c.decided.eraseIdx index ++ (c.marks ++ [mark])).Perm c.verdicts := by
  refine (List.perm_append_comm_assoc _ _ _).trans ?_
  refine (List.perm_append_comm.trans ?_)
  refine List.Perm.append_right _ ?_
  exact (List.perm_append_singleton _ _).trans (Tracked.perm_cons_eraseIdx found).symm

namespace Orderly

theorem enters (orderly : c.Orderly) (fresh : m.key ∉ c.posted) (idle : m.inFlight = none) :
    Orderly { c with outbox := c.outbox ++ [m], posted := c.posted ++ [m.key] } where
  nodup := by
    refine (Tracked.keys_enter m).nodup_iff.mpr (List.nodup_cons.mpr ⟨?_, orderly.nodup⟩)
    exact fun known => fresh (orderly.posted _ known)
  posted k known := by
    rcases List.mem_cons.mp ((Tracked.keys_enter m).mem_iff.mp known) with rfl | old
    · exact List.mem_append_right _ List.mem_cons_self
    · exact List.mem_append_left _ (orderly.posted k old)
  postedOnce := by
    refine List.nodup_append.mpr ⟨orderly.postedOnce, List.nodup_singleton _, ?_⟩
    intro k old other new same
    cases List.mem_singleton.mp new
    exact fresh (same ▸ old)
  idle other there _ := by
    rcases List.mem_append.mp there with old | new
    · exact orderly.idle other old ‹_›
    · exact (List.mem_singleton.mp new) ▸ idle
  job job taken := by
    obtain ⟨posted, unmarked, unmined⟩ := orderly.job job taken
    refine ⟨List.mem_append_left _ posted, unmarked, fun other there same => ?_⟩
    rcases List.mem_append.mp there with old | new
    · exact unmined other old same
    · rw [List.mem_singleton.mp new] at same
      exact absurd (same ▸ posted) fresh

theorem changed (orderly : c.Orderly) {outbox : List OutboundMsg}
    (evolves : List.Forall₂ (OutboundMsg.Evolves mayArm) c.outbox outbox) :
    Orderly { c with outbox } := by
  have same : outbox.map OutboundMsg.key = c.outbox.map OutboundMsg.key :=
    Tracked.map_eq_of_forall₂ (fun _ _ evolves => evolves.key) evolves
  have keys : Core.keys { c with outbox } = c.keys := Tracked.keys_change same
  refine ⟨keys ▸ orderly.nodup, fun k known => orderly.posted k (keys ▸ known),
    orderly.postedOnce, ?_, ?_⟩
  · -- A message that lacks a stamp now did so before, or was armed while it was idle.
    intro m' there unmined
    obtain ⟨m, old, evolves⟩ := Tracked.exists_of_mem_right evolves there
    cases needs : m.needsStamp with
    | none => exact (evolves.armed needs unmined).2.1
    | some cost =>
      have lacks : m.needsStamp.isSome := by simp [needs]
      rw [(evolves.held lacks).2]
      exact orderly.idle m old lacks
  · intro job taken
    obtain ⟨posted, unmarked, unmined⟩ := orderly.job job taken
    refine ⟨posted, unmarked, fun m' there same => ?_⟩
    obtain ⟨m, old, evolves⟩ := Tracked.exists_of_mem_right evolves there
    have lacks := unmined m old (evolves.key ▸ same)
    rwa [(evolves.held lacks).1]

theorem retired (orderly : c.Orderly) {outbox : List OutboundMsg} (status : Status) (note : Note)
    (leaves : c.outbox.Perm (m :: outbox)) (cause : m.needsStamp = none ∨ m.inFlight.isSome) :
    Orderly { c with outbox, decided := c.decided ++ [m.mark status note] } := by
  have there : m ∈ c.outbox := leaves.mem_iff.mpr List.mem_cons_self
  have stays : ∀ other ∈ outbox, other ∈ c.outbox :=
    fun other mem => leaves.mem_iff.mpr (List.mem_cons_of_mem _ mem)
  have keys : (Core.keys { c with outbox, decided := c.decided ++ [m.mark status note] }).Perm
      c.keys := Tracked.keys_leave leaves rfl
  refine ⟨keys.nodup_iff.mpr orderly.nodup, fun k known => orderly.posted k (keys.mem_iff.mp known),
    orderly.postedOnce, fun other mem => orderly.idle other (stays other mem), ?_⟩
  intro job taken
  obtain ⟨posted, unmarked, unmined⟩ := orderly.job job taken
  refine ⟨posted, ?_, fun other mem => unmined other (stays other mem)⟩
  have other : job.key ≠ m.key := (orderly.job_key_ne taken there cause).symm
  simp only [verdicts, List.map_append, List.map_cons, List.map_nil, List.mem_append,
    List.mem_singleton, not_or] at unmarked ⊢
  exact ⟨⟨unmarked.1, other⟩, unmarked.2⟩

theorem begun (orderly : c.Orderly) (there : m ∈ c.outbox) (needs : m.needsStamp.isSome)
    (same : job.key = m.key) : Orderly { c with stampJob := some job } := by
  refine ⟨orderly.nodup, orderly.posted, orderly.postedOnce, orderly.idle, ?_⟩
  rintro _ ⟨⟩
  rw [same]
  refine ⟨orderly.posted _ (mem_keys_of_mem there),
    orderly.not_mem_verdicts (List.mem_map_of_mem there), fun other mem key => ?_⟩
  rwa [orderly.eq_of_key there mem key]

theorem mined (orderly : c.Orderly) (job : StampJob) (stamped : Bytes) (now : Nat) :
    Orderly { c with
      outbox := c.outbox.replaceF (job.stampOn stamped now)
      stampJob := none
      mined := c.mined ++ [job.key] } := by
  have changed := changed_stampOn job stamped now c.outbox
  have keys : Core.keys { c with outbox := c.outbox.replaceF (job.stampOn stamped now) } = c.keys :=
    Tracked.keys_change (Tracked.map_eq_of_forall₂ (fun _ _ both => both.1) changed)
  refine ⟨keys ▸ orderly.nodup, fun k known => orderly.posted k (keys ▸ known),
    orderly.postedOnce, fun m' there unmined => ?_, fun _ taken => nomatch taken⟩
  obtain ⟨m, old, -, rfl | ready⟩ := Tracked.exists_of_mem_right changed there
  · exact orderly.idle m' old unmined
  · simp [ready] at unmined

theorem leaves_of_key (orderly : c.Orderly) (there : m ∈ c.outbox) (same : m.key = job.key) :
    c.outbox.Perm (m :: c.outbox.filter fun m => m.key ≠ job.key) := by
  have leaves := Tracked.perm_cons_filter_ne orderly.held_nodup there
  rwa [same] at leaves

theorem refused (orderly : c.Orderly) (taken : job ∈ c.stampJob) {mark : Mark}
    (same : mark.key = job.key) :
    Orderly { c with
      outbox := c.outbox.filter fun m => m.key ≠ job.key
      stampJob := none
      decided := c.decided ++ [mark] } := by
  obtain ⟨posted, unmarked, -⟩ := orderly.job job taken
  suffices accounted : (Core.keys { c with
      outbox := c.outbox.filter fun m => m.key ≠ job.key, decided := c.decided ++ [mark] }).Nodup
      ∧ ∀ k ∈ Core.keys { c with
        outbox := c.outbox.filter fun m => m.key ≠ job.key, decided := c.decided ++ [mark] },
        k ∈ c.posted by
    refine ⟨accounted.1, accounted.2, orderly.postedOnce, fun m there => ?_,
      fun _ taken => nomatch taken⟩
    exact orderly.idle m (List.mem_of_mem_filter there)
  by_cases present : job.key ∈ c.held
  · -- The message is there: its key moves to its mark.
    obtain ⟨m, there, key⟩ := List.mem_map.mp present
    have keys : (Core.keys { c with
        outbox := c.outbox.filter fun m => m.key ≠ job.key, decided := c.decided ++ [mark] }).Perm
        c.keys := Tracked.keys_leave (orderly.leaves_of_key there key) (same.trans key.symm)
    exact ⟨keys.nodup_iff.mpr orderly.nodup, fun k known => orderly.posted k (keys.mem_iff.mp known)⟩
  · -- The user has cleared it meanwhile: only the mark is new.
    have untouched : (c.outbox.filter fun m => m.key ≠ job.key) = c.outbox :=
      List.filter_eq_self.mpr fun m there =>
        decide_eq_true fun key => present (List.mem_map.mpr ⟨m, there, key⟩)
    rw [untouched]
    have keys : (Core.keys { c with decided := c.decided ++ [mark] }).Perm (mark.key :: c.keys) :=
      Tracked.keys_decide mark
    have new : mark.key ∉ c.keys := by
      rw [keys_eq, List.mem_append, same]
      exact not_or.mpr ⟨present, unmarked⟩
    refine ⟨keys.nodup_iff.mpr (List.nodup_cons.mpr ⟨new, orderly.nodup⟩), fun k known => ?_⟩
    rcases List.mem_cons.mp (keys.mem_iff.mp known) with rfl | old
    · exact same ▸ posted
    · exact orderly.posted k old

theorem marked (orderly : c.Orderly) {index : Nat} {mark : Mark}
    (found : c.decided[index]? = some mark) :
    Orderly { c with decided := c.decided.eraseIdx index, marks := c.marks ++ [mark] } := by
  have keys : (Core.keys { c with
      decided := c.decided.eraseIdx index, marks := c.marks ++ [mark] }).Perm c.keys :=
    Tracked.keys_announce found
  refine ⟨keys.nodup_iff.mpr orderly.nodup, fun k known => orderly.posted k (keys.mem_iff.mp known),
    orderly.postedOnce, orderly.idle, fun job taken => ?_⟩
  obtain ⟨posted, unmarked, unmined⟩ := orderly.job job taken
  refine ⟨posted, fun known => unmarked ?_, unmined⟩
  obtain ⟨other, there, key⟩ := List.mem_map.mp known
  exact List.mem_map.mpr ⟨other, (perm_verdicts_marks found).mem_iff.mp there, key⟩

theorem cleared (orderly : c.Orderly) (peer : TruncatedHash) :
    Orderly { c with outbox := c.outbox.filter fun m => m.peer ≠ peer } := by
  have fewer : (Core.keys { c with outbox := c.outbox.filter fun m => m.peer ≠ peer }).Sublist
      c.keys := (List.filter_sublist.map _).append (.refl _)
  refine ⟨fewer.nodup orderly.nodup, fun k known => orderly.posted k (fewer.subset known),
    orderly.postedOnce, fun m there => orderly.idle m (List.mem_of_mem_filter there), ?_⟩
  intro job taken
  obtain ⟨posted, unmarked, unmined⟩ := orderly.job job taken
  exact ⟨posted, unmarked, fun m there => unmined m (List.mem_of_mem_filter there)⟩

theorem keeps (orderly : c.Orderly) (moves : Moves cfg limits c c') : c'.Orderly := by
  cases moves with
  | stays => exact orderly
  | posts fresh idle plain ticketed bare => exact orderly.enters fresh idle
  | changes evolves => exact orderly.changed (evolves.imp fun _ _ both => both.1)
  | retires leaves cause stampable => exact orderly.retired _ _ leaves cause
  | begins free alone there needs => exact orderly.begun there needs rfl
  | stamps taken may => exact orderly.mined _ _ _
  | takes alone there bare => exact { orderly with }
  | @copies job eph iv now stamp taken =>
    have changed := orderly.changed
      (evolves_copyOn (fun _ => True) job (job.blob cfg eph iv now stamp) c.outbox)
    exact { changed with }
  | refuses taken reason => exact orderly.refused taken rfl
  | marks found => exact orderly.marked found
  | clears peer may => exact orderly.cleared peer

end Orderly

/-- What holds as well as long as the user clears nothing: no message is lost. -/
structure Complete (c : Core) : Prop where
  kept : c.posted.Perm c.keys
  job : ∀ job ∈ c.stampJob, job.key ∈ c.held

theorem Complete.keeps (complete : c.Complete) (orderly : c.Orderly)
    (moves : Moves cfg limits c c') (uncleared : ¬ limits.mayClear) : c'.Complete := by
  cases moves with
  | stays => exact complete
  | @posts m fresh idle plain ticketed bare =>
    refine ⟨?_, fun job taken => ?_⟩
    · refine (List.perm_append_singleton _ _).trans ?_
      exact (complete.kept.cons _).trans (Tracked.keys_enter m).symm
    · rw [held, List.map_append]
      exact List.mem_append_left _ (complete.job job taken)
  | changes evolves =>
    have same := Tracked.map_eq_of_forall₂ (f := OutboundMsg.key)
      (fun _ _ both => both.1.key) evolves
    refine ⟨complete.kept.trans (.of_eq (Tracked.keys_change same).symm), fun job taken => ?_⟩
    rw [held, same]
    exact complete.job job taken
  | @retires m outbox status note leaves cause stampable =>
    have keys : (Core.keys { c with outbox, decided := c.decided ++ [m.mark status note] }).Perm
        c.keys := Tracked.keys_leave leaves rfl
    refine ⟨complete.kept.trans keys.symm, fun job taken => ?_⟩
    -- The message that leaves is not the one that is mined for.
    obtain ⟨other, there, same⟩ := List.mem_map.mp (complete.job job taken)
    rcases List.mem_cons.mp (leaves.mem_iff.mp there) with rfl | stays
    · exact absurd same (orderly.job_key_ne taken there cause)
    · exact List.mem_map.mpr ⟨other, stays, same⟩
  | begins free alone there needs =>
    refine ⟨complete.kept, ?_⟩
    rintro _ ⟨⟩
    exact List.mem_map_of_mem there
  | takes alone there bare => exact { complete with }
  | @copies job eph iv now stamp taken =>
    have same := Tracked.map_eq_of_forall₂ (f := OutboundMsg.key) (fun _ _ evolves => evolves.key)
      (evolves_copyOn (fun _ => True) job (job.blob cfg eph iv now stamp) c.outbox)
    refine ⟨complete.kept.trans (.of_eq (Tracked.keys_change same).symm), fun job taken => ?_⟩
    rw [held, same]
    exact complete.job job taken
  | stamps taken may =>
    refine ⟨complete.kept.trans (.of_eq (Tracked.keys_change ?_).symm), fun _ none => nomatch none⟩
    exact Tracked.map_eq_of_forall₂ (fun _ _ both => both.1) (changed_stampOn _ _ _ _)
  | @refuses job why taken reason =>
    obtain ⟨m, there, same⟩ := List.mem_map.mp (complete.job job taken)
    have keys : (Core.keys { c with
        outbox := c.outbox.filter fun m => m.key ≠ job.key
        decided := c.decided ++ [⟨job.peer, job.displayTs, job.text, .failed, why⟩] }).Perm c.keys :=
      Tracked.keys_leave (orderly.leaves_of_key there same) same.symm
    exact ⟨complete.kept.trans keys.symm, fun _ none => nomatch none⟩
  | marks found => exact ⟨complete.kept.trans (Tracked.keys_announce found).symm, complete.job⟩
  | clears peer may => exact absurd may uncleared

theorem verdicts_mono (moves : Moves cfg limits c c') {mark : Mark}
    (given : mark ∈ c.verdicts) : mark ∈ c'.verdicts := by
  cases moves with
  | retires leaves cause stampable | refuses taken reason =>
    rcases List.mem_append.mp given with decided | set
    · exact List.mem_append_left _ (List.mem_append_left _ decided)
    · exact List.mem_append_right _ set
  | marks found => exact (perm_verdicts_marks found).mem_iff.mpr given
  | _ => exact given

theorem count_verdicts (orderly : c.Orderly) (complete : c.Complete) {k : TruncatedHash × Nat}
    (queued : k ∈ c.posted) :
    (c.verdicts.map Mark.key).count k = if k ∈ c.held then 0 else 1 := by
  have once : c.keys.count k = 1 :=
    List.count_eq_one_of_mem orderly.nodup (complete.kept.mem_iff.mp queued)
  rw [keys_eq, List.count_append] at once
  split
  case isTrue tracked =>
    rw [List.count_eq_one_of_mem orderly.held_nodup tracked] at once
    omega
  case isFalse gone =>
    rw [List.count_eq_zero.mpr gone] at once
    omega

end Core

namespace System

variable {cfg : Config} {allowed : System → Action → Prop} {s s' : System}

theorem orderly_start (identity : PrivateIdentity) : (start identity).core.Orderly where
  nodup := .nil
  posted _ known := nomatch known
  postedOnce := .nil
  idle _ there := nomatch there
  job _ taken := nomatch taken

theorem orderly_run (ordered : s.core.Orderly) (run : ReflTransGen (Step cfg allowed) s s') :
    s'.core.Orderly :=
  reachable_of_keeps (I := fun s : System => s.core.Orderly)
    (fun s _ orderly step => orderly.keeps (moves_step step fun a _ => respects_all s a))
    ordered run

theorem verdicts_run {mark : Mark} (given : mark ∈ s.core.verdicts)
    (run : ReflTransGen (Step cfg allowed) s s') : mark ∈ s'.core.verdicts :=
  reachable_of_keeps (I := fun s : System => mark ∈ s.core.verdicts)
    (fun s _ given step => Core.verdicts_mono (moves_step step fun a _ => respects_all s a) given)
    given run

/-- The user clears no conversation. -/
def Uncleared (_ : System) (a : Action) : Prop := ∀ peer, a ≠ .clearHistory peer

theorem respects_uncleared {a : Action} (uncleared : Uncleared s a) :
    s.Respects cfg { mayClear := False } a := by
  cases a with
  | clearHistory peer => exact uncleared peer rfl
  | handle index => exact fun _ _ _ _ _ _ _ _ => trivial
  | endStamp stamp => exact fun _ _ _ _ _ => trivial
  | _ => trivial

theorem complete_run (ordered : s.core.Orderly) (complete : s.core.Complete)
    (run : ReflTransGen (Step cfg Uncleared) s s') : s'.core.Complete := by
  have both : s'.core.Orderly ∧ s'.core.Complete := by
    refine reachable_of_keeps (I := fun s : System => s.core.Orderly ∧ s.core.Complete) ?_
      ⟨ordered, complete⟩ run
    intro s s' ⟨orderly, complete⟩ step
    have moves := moves_step step fun a uncleared => respects_uncleared uncleared
    exact ⟨orderly.keeps moves, complete.keeps orderly moves id⟩
  exact both.2

theorem complete_start (identity : PrivateIdentity) : (start identity).core.Complete where
  kept := .refl _
  job _ taken := nomatch taken

/--
Every message ends once.

A message that was queued is either tracked and unmarked, or it has left the outbox with one final mark, and then it never comes back.
-/
theorem message_ends_once {identity : PrivateIdentity}
    (run : ReflTransGen (Step cfg Uncleared) (start identity) s) :
    s.history.posted.Nodup
    ∧ s.core.held.Nodup
    ∧ (∀ k ∈ s.core.keys, k ∈ s.history.posted)
    ∧ (∀ k ∈ s.history.posted,
        (s.core.verdicts.map Mark.key).count k = if k ∈ s.core.held then 0 else 1)
    ∧ ∀ s', ReflTransGen (Step cfg Uncleared) s s' →
        ∀ k ∈ s.history.posted, k ∉ s.core.held → k ∉ s'.core.held := by
  have orderly := orderly_run (orderly_start identity) run
  have complete := complete_run (orderly_start identity) (complete_start identity) run
  refine ⟨orderly.postedOnce, orderly.held_nodup, orderly.posted,
    fun k queued => Core.count_verdicts orderly complete queued, ?_⟩
  intro s' later k queued gone tracked
  -- A message that has left has a mark, and a tracked one has none.
  have known : k ∈ s.core.keys := complete.kept.mem_iff.mp queued
  rw [Core.keys_eq] at known
  have marked : k ∈ s.core.verdicts.map Mark.key := (List.mem_append.mp known).resolve_left gone
  obtain ⟨mark, given, rfl⟩ := List.mem_map.mp marked
  have kept : mark ∈ s'.core.verdicts := verdicts_run given later
  exact (orderly_run orderly later).not_mem_verdicts tracked (List.mem_map_of_mem kept)

section Samples

open LxmfChat.Transport (sampleSeed sampleIdentity sampleIv)

def samplePad (plaintext : Bytes) : Bytes :=
  let added := 16 - plaintext.length % 16
  plaintext ++ List.replicate added (UInt8.ofNat added)

def sampleUnpad (data : Bytes) : Option Bytes :=
  data.getLast?.map fun added => data.take (data.length - added.toNat)

/-- The sample primitives, with padding, and with hashes that differ in their first bytes. -/
def sampleCrypto : Crypto :=
  { Crypto.sample with
    sha256 := fun data => ⟨(Crypto.sample.sha256 data).val.reverse, by simp⟩
    aesCbcEncrypt := fun _ _ => samplePad
    aesCbcDecrypt := fun _ _ => sampleUnpad }

theorem sampleCrypto_cbcPads : sampleCrypto.CbcPads := by
  intro _ _ plaintext
  simp only [sampleCrypto, samplePad, List.length_append, List.length_replicate]
  omega

def sampleConfig (propagationNode : Option TruncatedHash) : Config where
  crypto := sampleCrypto
  propagationNode := propagationNode
  propagationCost := 0
  ourDh := singleDestinationHash sampleCrypto "lxmf" ["delivery"]
    ((sampleIdentity 1).hash sampleCrypto)

def samplePeer : TruncatedHash :=
  singleDestinationHash sampleCrypto "lxmf" ["delivery"] ((sampleIdentity 3).hash sampleCrypto)

def sampleAnnounce (cost : Option Nat) : Bytes :=
  let appData := (cost.map fun c => Msgpack.encode (.array [.nil, .int c])).getD []
  (buildAnnounce sampleCrypto (sampleIdentity 3) "lxmf" ["delivery"] appData
    (BytesN.ofBytes 10 []) none).encode

/-- What a turn draws in the sample runs; everything that is sent leaves the device. -/
def sampleDraw : Draw where
  ephX25519 := sampleSeed 7
  ephEd25519 := sampleSeed 8
  iv := sampleIv
  advIv := sampleIv
  r := BytesN.ofBytes 4 []
  streamPrefix := BytesN.ofBytes 4 []
  sent := true

def sampleEnd (propagationNode : Option TruncatedHash) (actions : List Action) : System :=
  (start (sampleIdentity 1)).actAll (sampleConfig propagationNode) actions

def unknownPeerRun : List Action :=
  [.post 0 samplePeer ['h', 'i'], .tick 91, .turn 0 91 sampleDraw, .mark 0]

/-- A message to a peer that nothing is known about fails once, when its time is up. -/
theorem message_ends_once_unknownPeer :
    (sampleEnd none unknownPeerRun).marks.map (·.note) = [.unsent .noRouteFound]
    ∧ ((sampleEnd none unknownPeerRun).core.verdicts.map Mark.key).count (samplePeer, 0) = 1 := by
  refine ⟨by decide +kernel, ?_⟩
  have permitted : Permits (sampleConfig none) Uncleared (start (sampleIdentity 1))
      unknownPeerRun :=
    ⟨⟨by decide, by decide⟩, nofun, trivial, nofun, trivial, nofun, trivial, nofun, trivial⟩
  have ends := message_ends_once (run_actAll permitted)
  exact (ends.2.2.2.1 (samplePeer, 0) (by decide +kernel)).trans (if_neg (by decide +kernel))

end Samples

end System

end LxmfChat
