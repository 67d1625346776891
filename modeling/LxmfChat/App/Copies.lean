import LxmfChat.App.Ending

/-! The copies for the propagation node: each is a copy of the message it is kept with. -/

namespace LxmfChat

open Base
open Relation (ReflTransGen)

/-- The bytes are a copy for the propagation node of a packed message to the peer. -/
def IsCopy (cfg : Config) (peer : TruncatedHash) (packed blob : Bytes) : Prop :=
  ∃ (recipient : PublicIdentity) (ratchet : Option KeyHalf) (eph : KeyHalf) (iv : Iv) (now : Nat)
    (stamp : BytesN 32),
    blob = Message.packPropagation cfg.crypto recipient peer (packed.drop DEST_LEN) ratchet eph iv
      (Double.ofNat now) cfg.propagationCost stamp

namespace Core

variable {cfg : Config} {limits : Limits} {c c' : Core}

structure Copied (cfg : Config) (c : Core) : Prop where
  copy : ∀ m ∈ c.outbox, ∀ blob ∈ m.pnBlob, IsCopy cfg m.peer m.packed blob
  /-- The message that is being copied is still as it was when the copying began. -/
  job : ∀ job ∈ c.blobJob, ∀ m ∈ c.outbox, m.key = job.key → m.packed = job.packed
  posted : ∀ job ∈ c.blobJob, job.key ∈ c.posted
  alone : c.stampJob = none ∨ c.blobJob = none

namespace Copied

theorem subset (copied : c.Copied cfg) {outbox : List OutboundMsg}
    (stays : ∀ m ∈ outbox, m ∈ c.outbox) : Copied cfg { c with outbox } :=
  { copied with
    copy := fun m there => copied.copy m (stays m there)
    job := fun job taken m there => copied.job job taken m (stays m there) }

theorem enters (copied : c.Copied cfg) {m : OutboundMsg} (fresh : m.key ∉ c.posted)
    (bare : m.pnBlob = none) :
    Copied cfg { c with outbox := c.outbox ++ [m], posted := c.posted ++ [m.key] } where
  copy other there blob held := by
    rcases List.mem_append.mp there with old | new
    · exact copied.copy other old blob held
    · rw [List.mem_singleton.mp new, bare] at held
      cases held
  job job taken other there same := by
    rcases List.mem_append.mp there with old | new
    · exact copied.job job taken other old same
    · rw [List.mem_singleton.mp new] at same
      exact absurd (same ▸ copied.posted job taken) fresh
  posted job taken := List.mem_append_left _ (copied.posted job taken)
  alone := copied.alone

theorem changed (copied : c.Copied cfg) {mayArm : OutboundMsg → Prop} {outbox : List OutboundMsg}
    (evolves : List.Forall₂ (fun m m' => m.Evolves mayArm m' ∧ m'.pnBlob = m.pnBlob)
      c.outbox outbox) : Copied cfg { c with outbox } := by
  refine { copied with copy := fun m' there blob held => ?_, job := fun job taken m' there same => ?_ }
  · obtain ⟨m, old, evolves, blobs⟩ := Tracked.exists_of_mem_right evolves there
    rw [evolves.peer, evolves.packed]
    exact copied.copy m old blob (blobs ▸ held)
  · obtain ⟨m, old, evolves, -⟩ := Tracked.exists_of_mem_right evolves there
    rw [evolves.packed]
    exact copied.job job taken m old (evolves.key ▸ same)

theorem minedFor (copied : c.Copied cfg) (orderly : c.Orderly) {job : StampJob}
    (taken : c.stampJob = some job) (bare : ∀ m ∈ c.outbox, m.key = job.key → m.pnBlob = none)
    (stamped : Bytes) (now : Nat) :
    Copied cfg { c with
      outbox := c.outbox.replaceF (job.stampOn stamped now)
      stampJob := none
      mined := c.mined ++ [job.key] } := by
  have idle : c.blobJob = none := copied.alone.resolve_left (by simp [taken])
  refine ⟨fun m' there blob held => ?_, fun other begun => ?_, fun other begun => ?_, .inl rfl⟩
  · rcases Tracked.mem_replaceF_key orderly.held_nodup there with ⟨old, -⟩ | ⟨m, old, same, rfl⟩
    · exact copied.copy m' old blob held
    · -- The stamped message has no copy.
      have none : m.pnBlob = none := bare m old same
      simp [none] at held
  · simp [idle] at begun
  · simp [idle] at begun

theorem stored (copied : c.Copied cfg) (orderly : c.Orderly) {job : BlobJob}
    (taken : job ∈ c.blobJob) (eph : KeyHalf) (iv : Iv) (now : Nat) (stamp : BytesN 32) :
    Copied cfg { c with
      outbox := c.outbox.replaceF (job.copyOn (job.blob cfg eph iv now stamp))
      blobJob := none } := by
  refine ⟨fun m' there blob held => ?_, (fun _ none => nomatch none), (fun _ none => nomatch none),
    .inr rfl⟩
  rcases Tracked.mem_replaceF_key orderly.held_nodup there with ⟨old, -⟩ | ⟨m, old, same, rfl⟩
  · exact copied.copy m' old blob held
  · -- The message is still as it was, and a message's key names its peer.
    have packed : m.packed = job.packed := copied.job job taken m old same
    have peer : m.peer = job.peer := congrArg Prod.fst same
    cases held
    rw [peer, packed]
    exact ⟨job.known.identity, job.known.ratchet, eph, iv, now, stamp, rfl⟩

theorem keeps (copied : c.Copied cfg) (orderly : c.Orderly) (moves : Moves cfg limits c c')
    (bare : ∀ m, limits.mayStamp m → m.pnBlob = none) : c'.Copied cfg := by
  cases moves with
  | stays => exact copied
  | posts fresh idle plain ticketed none => exact copied.enters fresh none
  | changes evolves => exact copied.changed evolves
  | retires leaves cause fine =>
    have fewer := copied.subset fun m there => leaves.mem_iff.mpr (List.mem_cons_of_mem _ there)
    exact { fewer with }
  | begins free alone there needs => exact { copied with alone := .inr alone }
  | stamps taken may => exact copied.minedFor orderly taken (fun m there same => bare m (may m there same)) _ _
  | @refuses job why taken reason =>
    have fewer : Copied cfg { c with outbox := c.outbox.filter fun m => m.key ≠ job.key } :=
      copied.subset fun m there => List.mem_of_mem_filter there
    exact { fewer with alone := .inl rfl }
  | @takes m known alone there bare =>
    refine { copied with job := ?_, posted := ?_, alone := .inl alone }
    · -- The message of a key is the only one of it.
      rintro _ ⟨⟩ other otherThere same
      rw [orderly.eq_of_key there otherThere same]
    · rintro _ ⟨⟩
      exact orderly.posted _ (mem_keys_of_mem there)
  | copies taken => exact copied.stored orderly taken _ _ _ _
  | marks found => exact { copied with }
  | clears peer may => exact copied.subset fun m there => List.mem_of_mem_filter there

end Copied

end Core

namespace System

variable {cfg : Config} {s s' : System}

/-- A mined stamp is put only on a message that has no copy for the node yet. -/
def StampsBare (cfg : Config) (s : System) (a : Action) : Prop :=
  s.Respects cfg { mayStamp := fun m => m.pnBlob = none } a

theorem copied_start (identity : PrivateIdentity) : (start identity).core.Copied cfg where
  copy _ there := nomatch there
  job _ taken := nomatch taken
  posted _ taken := nomatch taken
  alone := .inl rfl

theorem copied_run (ordered : s.core.Orderly) (copied : s.core.Copied cfg)
    (run : ReflTransGen (Step cfg (StampsBare cfg)) s s') : s'.core.Copied cfg := by
  have both : s'.core.Orderly ∧ s'.core.Copied cfg := by
    refine reachable_of_keeps (I := fun s : System => s.core.Orderly ∧ s.core.Copied cfg) ?_
      ⟨ordered, copied⟩ run
    intro s s' ⟨orderly, copied⟩ step
    have moves : Moves cfg { mayStamp := fun m => m.pnBlob = none } s.core s'.core :=
      moves_step step fun a bare => bare
    exact ⟨orderly.keeps moves, copied.keeps orderly moves fun _ none => none⟩
  exact both.2

/-- A copy that is kept with a message is a copy of the message as it is now. -/
theorem copy_matches_message {identity : PrivateIdentity} {m : OutboundMsg} {blob : Bytes}
    (run : ReflTransGen (Step cfg (StampsBare cfg)) (start identity) s)
    (there : m ∈ s.shared.outbox) (kept : m.pnBlob = some blob) :
    IsCopy cfg m.peer m.packed blob :=
  (copied_run (orderly_start identity) (copied_start identity) run).copy m there blob kept

section Samples

open LxmfChat.Transport (sampleSeed sampleIdentity sampleIv)

def sampleNode : TruncatedHash := BytesN.ofBytes 16 [9]

/-- A message to a peer that asks for no stamp has fallen back to the node and been copied. -/
def copiedRun : List Action :=
  [ .frame (sampleAnnounce none) (sampleSeed 0) .hub, .handle 0, .post 0 samplePeer ['h', 'i'],
    .tick 91, .turn 0 91 sampleDraw, .beginBlob,
    .endBlob (sampleSeed 5) sampleIv (BytesN.ofBytes 32 []) ]

def copiedThenMinedRun : List Action :=
  copiedRun ++
    [ .frame (sampleAnnounce (some 8)) (sampleSeed 0) .hub, .handle 0, .beginStamp,
      .endStamp (BytesN.ofBytes 32 []) ]

theorem length_of_isCopy {peer : TruncatedHash} {packed blob : Bytes}
    (copy : IsCopy (sampleConfig (some sampleNode)) peer packed blob) :
    blob.length = Message.lxmfDataLength (packed.drop DEST_LEN).length 0
      + (Msgpack.binHead (Message.lxmfDataLength (packed.drop DEST_LEN).length 0)).length + 11 := by
  obtain ⟨recipient, ratchet, eph, iv, now, stamp, rfl⟩ := copy
  exact Message.packPropagation_length sampleCrypto sampleCrypto_cbcPads _ _ _ _ _ _ _ _ _

/--
A message that is stamped after it was copied keeps the copy without the stamp.

The announce that asks for stamps comes when the message waits for its link to the node.
-/
theorem stale_copy_kept :
    Permits (sampleConfig (some sampleNode)) (fun _ _ => True) (start (sampleIdentity 1))
      copiedThenMinedRun
    ∧ (sampleEnd (some sampleNode) copiedThenMinedRun).history.mined = [(samplePeer, 0)]
    ∧ ∃ m ∈ (sampleEnd (some sampleNode) copiedThenMinedRun).shared.outbox,
        ∃ blob, m.pnBlob = some blob
          ∧ ¬ IsCopy (sampleConfig (some sampleNode)) m.peer m.packed blob := by
  refine ⟨?_, by decide +kernel, ?_⟩
  · exact ⟨trivial, trivial, trivial, trivial, ⟨by decide +kernel, by decide⟩, trivial, trivial,
      trivial, trivial, trivial, by rw [Enabled]; decide +kernel, trivial, trivial, trivial, trivial,
      trivial, trivial, trivial, by rw [Enabled]; decide +kernel, trivial, trivial, trivial, trivial⟩
  · -- The copy is too short for the message as it is now.
    have short : (sampleEnd (some sampleNode) copiedThenMinedRun).shared.outbox.any (fun m =>
        m.pnBlob.any fun blob => blob.length
          ≠ Message.lxmfDataLength (m.packed.drop DEST_LEN).length 0
            + (Msgpack.binHead (Message.lxmfDataLength (m.packed.drop DEST_LEN).length 0)).length
            + 11) = true := by
      decide +kernel
    obtain ⟨m, there, held⟩ := List.any_eq_true.mp short
    cases kept : m.pnBlob with
    | none =>
      rw [kept] at held
      cases held
    | some blob =>
      rw [kept] at held
      exact ⟨m, there, blob, kept, fun copy => of_decide_eq_true held (length_of_isCopy copy)⟩

/-- A message that was copied and not stamped since keeps a copy of itself. -/
theorem copy_matches_message_copiedRun :
    ∃ m ∈ (sampleEnd (some sampleNode) copiedRun).shared.outbox, ∃ blob, m.pnBlob = some blob
      ∧ IsCopy (sampleConfig (some sampleNode)) m.peer m.packed blob := by
  have permitted : Permits (sampleConfig (some sampleNode))
      (StampsBare (sampleConfig (some sampleNode))) (start (sampleIdentity 1)) copiedRun :=
    ⟨trivial, trivial, trivial, fun _ _ _ _ _ _ _ _ => trivial, ⟨by decide +kernel, by decide⟩,
      trivial, trivial, trivial, trivial, trivial, by rw [Enabled]; decide +kernel, trivial, trivial,
      trivial, trivial⟩
  have run : ReflTransGen (Step (sampleConfig (some sampleNode))
      (StampsBare (sampleConfig (some sampleNode)))) (start (sampleIdentity 1))
      (sampleEnd (some sampleNode) copiedRun) := run_actAll permitted
  have some : (sampleEnd (some sampleNode) copiedRun).shared.outbox.any (·.pnBlob.isSome) = true := by
    decide +kernel
  obtain ⟨m, there, held⟩ := List.any_eq_true.mp some
  obtain ⟨blob, kept⟩ := Option.isSome_iff_exists.mp held
  exact ⟨m, there, blob, kept, copy_matches_message run there kept⟩

end Samples

end System

end LxmfChat
