import LxmfChat.App.Ending
import LxmfChat.Lxmf.RoundTrip

/-! Mining delivery stamps: a message takes one mined stamp, unless an announce asks for a second. -/

namespace LxmfChat

open Base
open Relation (ReflTransGen)

theorem Unstamped.appendStamp {cfg : Config} {peer : TruncatedHash} {packed : Bytes}
    (unstamped : Unstamped cfg peer packed) (stamp : Bytes) :
    ∃ stamped, Message.appendStamp packed stamp = .ok (some stamped) := by
  obtain ⟨source, now, content, short, rfl⟩ := unstamped
  have bound := Message.packPayload_length_le (Double.ofNat now) [] content
  refine ⟨_, Message.appendStamp_pack cfg.crypto source peer cfg.ourDh (Double.ofNat now) []
    content Message.plain_nil stamp ?_⟩
  simp only [wordSize, List.length_nil] at bound ⊢
  omega

namespace Core

variable {cfg : Config} {limits : Limits} {c c' : Core}

/-- What holds while no message that carries a mined stamp is made to mine again. -/
structure Stampable (cfg : Config) (c : Core) : Prop where
  mined : ∀ k ∈ c.mined, k ∈ c.posted
  once : c.mined.Nodup
  plain : ∀ m ∈ c.outbox, m.stamped = false → m.key ∉ c.mined → Unstamped cfg m.peer m.packed
  lacks : ∀ m ∈ c.outbox, m.needsStamp.isSome → m.stamped = false ∧ m.key ∉ c.mined
  job : ∀ job ∈ c.stampJob, job.key ∉ c.mined ∧ Unstamped cfg job.peer job.packed
  marks : ∀ mark ∈ c.verdicts, mark.note ≠ .couldNotStamp

namespace Stampable

theorem unstamped (stampable : c.Stampable cfg) {m : OutboundMsg} (there : m ∈ c.outbox)
    (needs : m.needsStamp.isSome) : Unstamped cfg m.peer m.packed :=
  have ⟨ticketless, unmined⟩ := stampable.lacks m there needs
  stampable.plain m there ticketless unmined

theorem subset (stampable : c.Stampable cfg) {outbox : List OutboundMsg}
    (stays : ∀ m ∈ outbox, m ∈ c.outbox) : Stampable cfg { c with outbox } where
  mined := stampable.mined
  once := stampable.once
  plain m there := stampable.plain m (stays m there)
  lacks m there := stampable.lacks m (stays m there)
  job := stampable.job
  marks := stampable.marks

theorem decided (stampable : c.Stampable cfg) {mark : Mark} (fine : mark.note ≠ .couldNotStamp) :
    Stampable cfg { c with decided := c.decided ++ [mark] } := by
  refine { stampable with marks := fun other given => ?_ }
  rcases List.mem_append.mp given with decided | set
  · rcases List.mem_append.mp decided with old | new
    · exact stampable.marks other (List.mem_append_left _ old)
    · exact List.mem_singleton.mp new ▸ fine
  · exact stampable.marks other (List.mem_append_right _ set)

theorem enters (stampable : c.Stampable cfg) {m : OutboundMsg} (fresh : m.key ∉ c.posted)
    (plain : m.stamped = false → Unstamped cfg m.peer m.packed)
    (ticketed : m.stamped = true → m.needsStamp = none) :
    Stampable cfg { c with outbox := c.outbox ++ [m], posted := c.posted ++ [m.key] } where
  mined k known := List.mem_append_left _ (stampable.mined k known)
  once := stampable.once
  plain other there := by
    rcases List.mem_append.mp there with old | new
    · exact stampable.plain other old
    · cases List.mem_singleton.mp new
      exact fun ticketless _ => plain ticketless
  lacks other there needs := by
    rcases List.mem_append.mp there with old | new
    · exact stampable.lacks other old needs
    · cases List.mem_singleton.mp new
      refine ⟨?_, fun known => fresh (stampable.mined _ known)⟩
      -- A message with a ticket never needs a stamp.
      cases ticket : m.stamped with
      | false => rfl
      | true => simp [ticketed ticket] at needs
  job := stampable.job
  marks := stampable.marks

theorem changed (stampable : c.Stampable cfg) {mayArm : OutboundMsg → Prop}
    {outbox : List OutboundMsg} (once : ∀ m, mayArm m → m.key ∉ c.mined)
    (evolves : List.Forall₂ (OutboundMsg.Evolves mayArm) c.outbox outbox) :
    Stampable cfg { c with outbox } := by
  refine { stampable with plain := fun m' there ticketless unmined => ?_, lacks := ?_ }
  · obtain ⟨m, old, evolves⟩ := Tracked.exists_of_mem_right evolves there
    rw [evolves.peer, evolves.packed]
    exact stampable.plain m old (evolves.stamped ▸ ticketless) (evolves.key ▸ unmined)
  · intro m' there needs
    obtain ⟨m, old, evolves⟩ := Tracked.exists_of_mem_right evolves there
    rw [evolves.stamped, evolves.key]
    cases before : m.needsStamp with
    | none =>
      obtain ⟨arms, -, may⟩ := evolves.armed before needs
      exact ⟨arms.2.2.1, once m may⟩
    | some cost => exact stampable.lacks m old (by simp [before])

theorem minedFor (stampable : c.Stampable cfg) (orderly : c.Orderly) {job : StampJob}
    (taken : job ∈ c.stampJob) (stamped : Bytes) (now : Nat) :
    Stampable cfg { c with
      outbox := c.outbox.replaceF (job.stampOn stamped now)
      stampJob := none
      mined := c.mined ++ [job.key] } := by
  obtain ⟨unmined, -⟩ := stampable.job job taken
  have others {m : OutboundMsg} (there : m ∈ c.outbox.replaceF (job.stampOn stamped now)) :=
    Tracked.mem_replaceF_key orderly.held_nodup there
  refine ⟨fun k known => ?_, ?_, fun m there ticketless notMined => ?_, fun m there needs => ?_,
    (fun _ none => nomatch none), stampable.marks⟩
  · rcases List.mem_append.mp known with old | new
    · exact stampable.mined k old
    · exact List.mem_singleton.mp new ▸ (orderly.job job taken).1
  · refine List.nodup_append.mpr ⟨stampable.once, List.nodup_singleton _, ?_⟩
    intro k old other new same
    exact unmined (List.mem_singleton.mp new ▸ same ▸ old)
  · rw [List.mem_append, List.mem_singleton, not_or] at notMined
    rcases others there with ⟨old, -⟩ | ⟨before, -, same, rfl⟩
    · exact stampable.plain m old ticketless notMined.1
    · exact absurd same notMined.2
  · -- The stamped message needs no stamp, and the others are not the one that was mined for.
    rcases others there with ⟨old, other⟩ | ⟨before, -, -, rfl⟩
    · obtain ⟨ticketless, notMined⟩ := stampable.lacks m old needs
      refine ⟨ticketless, ?_⟩
      rw [List.mem_append, List.mem_singleton, not_or]
      exact ⟨notMined, other⟩
    · cases needs

theorem keeps (stampable : c.Stampable cfg) (orderly : c.Orderly)
    (moves : Moves cfg limits c c') (once : ∀ m, limits.mayArm m → m.key ∉ c.mined) :
    c'.Stampable cfg := by
  cases moves with
  | stays => exact stampable
  | posts fresh idle plain ticketed bare => exact stampable.enters fresh plain ticketed
  | changes evolves => exact stampable.changed once (evolves.imp fun _ _ both => both.1)
  | retires leaves cause fine =>
    refine (stampable.subset fun m there => ?_).decided fine
    exact leaves.mem_iff.mpr (List.mem_cons_of_mem _ there)
  | begins free alone there needs =>
    refine { stampable with job := ?_ }
    rintro _ ⟨⟩
    exact ⟨(stampable.lacks _ there needs).2, stampable.unstamped there needs⟩
  | stamps taken may => exact stampable.minedFor orderly taken _ _
  | takes alone there bare => exact { stampable with }
  | @copies job eph iv now stamp taken =>
    have changed := stampable.changed once
      (evolves_copyOn limits.mayArm job (job.blob cfg eph iv now stamp) c.outbox)
    exact { changed with }
  | @refuses job why taken reason =>
    -- The message that was mined for takes a stamp, so this is not why it is refused.
    have fine : why ≠ .couldNotStamp := by
      intro unstampable
      obtain ⟨stamp, refused⟩ := reason unstampable
      obtain ⟨stamped, accepted⟩ := (stampable.job job taken).2.appendStamp stamp
      simp [refused] at accepted
    have fewer : Stampable cfg { c with outbox := c.outbox.filter fun m => m.key ≠ job.key } :=
      stampable.subset fun m there => List.mem_of_mem_filter there
    have refused : Stampable cfg { c with
        outbox := c.outbox.filter fun m => m.key ≠ job.key
        decided := c.decided ++ [⟨job.peer, job.displayTs, job.text, .failed, why⟩] } :=
      fewer.decided fine
    exact { refused with job := fun _ none => nomatch none }
  | marks found =>
    refine { stampable with marks := fun mark given => stampable.marks mark ?_ }
    exact (perm_verdicts_marks found).mem_iff.mp given
  | clears peer may => exact stampable.subset fun m there => List.mem_of_mem_filter there

end Stampable

end Core

namespace System

variable {cfg : Config} {s s' : System}

/-- No announce makes a message mine a stamp that already carries a mined one. -/
def MinesOnce (cfg : Config) (s : System) (a : Action) : Prop :=
  s.Respects cfg { mayArm := fun m => m.key ∉ s.history.mined } a

theorem stampable_start (identity : PrivateIdentity) : (start identity).core.Stampable cfg where
  mined _ known := nomatch known
  once := .nil
  plain _ there := nomatch there
  lacks _ there := nomatch there
  job _ taken := nomatch taken
  marks _ given := nomatch given

theorem stampable_run (ordered : s.core.Orderly) (stampable : s.core.Stampable cfg)
    (run : ReflTransGen (Step cfg (MinesOnce cfg)) s s') : s'.core.Stampable cfg := by
  have both : s'.core.Orderly ∧ s'.core.Stampable cfg := by
    refine reachable_of_keeps (I := fun s : System => s.core.Orderly ∧ s.core.Stampable cfg) ?_
      ⟨ordered, stampable⟩ run
    intro s s' ⟨orderly, stampable⟩ step
    have moves : Moves cfg { mayArm := fun m => m.key ∉ s.core.mined } s.core s'.core :=
      moves_step step fun a once => once
    exact ⟨orderly.keeps moves, stampable.keeps orderly moves fun _ unmined => unmined⟩
  exact both.2

/--
Each message is stamped at most once if no announce makes a stamped message mine again.

A message that lacks its stamp is then as it was packed, so the stamp can be added, and no message fails because it cannot.
-/
theorem stamped_once {identity : PrivateIdentity}
    (run : ReflTransGen (Step cfg (MinesOnce cfg)) (start identity) s) :
    s.history.mined.Nodup
    ∧ (∀ m ∈ s.shared.outbox, m.needsStamp.isSome → Unstamped cfg m.peer m.packed)
    ∧ (∀ job ∈ s.stampJob, ∀ stamp, ∃ stamped,
        Message.appendStamp job.packed stamp = .ok (some stamped))
    ∧ ∀ mark ∈ s.core.verdicts, mark.note ≠ .couldNotStamp := by
  have stampable := stampable_run (orderly_start identity) (stampable_start identity) run
  refine ⟨stampable.once, fun m there needs => stampable.unstamped there needs, ?_,
    stampable.marks⟩
  intro job taken stamp
  exact (stampable.job job taken).2.appendStamp stamp

section Samples

open LxmfChat.Transport (sampleSeed sampleIdentity)

def announcedRun : List Action :=
  [.post 0 samplePeer ['h', 'i'], .frame (sampleAnnounce (some 8)) (sampleSeed 0) .hub]

def minedRun : List Action :=
  announcedRun ++
    [.handle 0, .beginStamp, .endStamp (BytesN.ofBytes 32 []), .turn 0 0 sampleDraw]

def minedAgainRun : List Action :=
  minedRun ++
    [ .frame (sampleAnnounce (some 8)) (sampleSeed 0) .hub, .handle 0, .beginStamp,
      .endStamp (BytesN.ofBytes 32 []) ]

/--
A second announce makes a message that carries its mined stamp mine again, and then fails it.

The flag for a stamp made from a ticket is not set for a mined one, and the message was not sent yet.
-/
theorem second_announce_fails_message :
    Permits (sampleConfig none) (fun _ _ => True) (start (sampleIdentity 1)) minedAgainRun
    ∧ (sampleEnd none minedRun).history.mined = [(samplePeer, 0)]
    ∧ (sampleEnd none (minedRun ++ [.frame (sampleAnnounce (some 8)) (sampleSeed 0) .hub, .handle 0])
        ).shared.outbox.map (fun m => (m.key, m.needsStamp)) = [((samplePeer, 0), some 8)]
    ∧ (sampleEnd none minedAgainRun).decided.map (fun mark => (mark.key, mark.status, mark.note))
      = [((samplePeer, 0), .failed, .couldNotStamp)] := by
  refine ⟨?_, by decide +kernel⟩
  exact ⟨⟨by decide, by decide⟩, trivial, trivial, trivial, trivial, trivial,
    by rw [Enabled]; decide +kernel, trivial, trivial, trivial, trivial, trivial, trivial, trivial,
    trivial, trivial, by rw [Enabled]; decide +kernel, trivial, trivial, trivial, trivial⟩

/-- With one announce the message is stamped once and can be sent. -/
theorem stamped_once_minedRun :
    (sampleEnd none minedRun).history.mined = [(samplePeer, 0)]
    ∧ (sampleEnd none minedRun).history.mined.Nodup
    ∧ ∀ mark ∈ (sampleEnd none minedRun).core.verdicts, mark.note ≠ .couldNotStamp := by
  have once : MinesOnce (sampleConfig none) (sampleEnd none announcedRun) (.handle 0) := by
    have unmined : (sampleEnd none announcedRun).history.mined = [] := by decide +kernel
    intro _ _ _ _ m _ _ _
    rw [unmined]
    exact List.not_mem_nil
  have permitted : Permits (sampleConfig none) (MinesOnce (sampleConfig none))
      (start (sampleIdentity 1)) minedRun :=
    ⟨⟨by decide, by decide⟩, trivial, trivial, trivial, trivial, once,
      by rw [Enabled]; decide +kernel, trivial, trivial, fun _ _ _ _ _ => trivial, trivial, trivial,
      trivial⟩
  have run : ReflTransGen (Step (sampleConfig none) (MinesOnce (sampleConfig none)))
      (start (sampleIdentity 1)) (sampleEnd none minedRun) := run_actAll permitted
  have stamped := stamped_once run
  exact ⟨by decide +kernel, stamped.1, stamped.2.2.2⟩

end Samples

end System

end LxmfChat
