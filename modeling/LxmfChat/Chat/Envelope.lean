import LxmfChat.Chat.Server
import LxmfChat.Chat.Thread
import Mathlib.Algebra.Group.Action.Defs
import Mathlib.Algebra.Order.BigOperators.Group.List

/-! How a conversation is stored, when it can be loaded again, and how large it can grow. -/

namespace LxmfChat

open Base
open Relation (ReflTransGen)

variable {body : Bytes} {limit : Nat} {text : Text}

def MAX_BYTES : Nat := 65536

def ENVELOPE_MAGIC : Bytes := [0x43, 0x48, 0x64, 0x31]

def ENVELOPE_HEADER : Nat := 12

def checksum (data : Bytes) : UInt32 :=
  data.foldl (fun h b => (h ^^^ b.toUInt32) * 0x01000193) 0x811c9dc5

/-- Why a stored conversation is not taken. -/
inductive DecodeError
  | envelope
  | deserialize (reason : Text)
deriving DecidableEq

def Dialogue.textBytes (d : Dialogue) : Nat := (d.posts.map fun p => (utf8Encode p.text).length).sum

/-- The serializer of the bodies. -/
structure Archiver where
  toBytes : Dialogue → Bytes
  deserialize : Bytes → Except Text Dialogue
  contains : ∀ d, d.textBytes ≤ (toBytes d).length

/-- The texts alone are a body, although nothing is read from it. -/
instance : Inhabited Archiver where
  default := {
    toBytes d := d.posts.flatMap fun p : Post => utf8Encode p.text
    deserialize _ := .error []
    contains _ := Nat.le_of_eq List.length_flatMap.symm }

def envelope (body : Bytes) : Bytes :=
  ENVELOPE_MAGIC ++ beBytes 4 body.length ++ beBytes 4 (checksum body).toNat ++ body

variable (rkyv : Archiver)

def decode (buf : Bytes) : Except DecodeError Dialogue :=
  let len := beNat ((buf.drop 4).take 4)
  let crc := beNat ((buf.drop 8).take 4)
  let body := (buf.drop ENVELOPE_HEADER).take len
  if ENVELOPE_HEADER ≤ buf.length ∧ buf.take 4 = ENVELOPE_MAGIC
      ∧ ENVELOPE_HEADER + len ≤ buf.length ∧ len ≤ MAX_BYTES ∧ (checksum body).toNat = crc then
    (rkyv.deserialize body).mapError .deserialize
  else .error .envelope

/-- Why no conversation was read. -/
inductive ReadError
  | missing
  | corrupt
deriving DecidableEq

/-- The server with the bytes of the conversations on the disk. -/
structure DiskUi where
  pddbKey : Option Text := none
  dialogue : Option Dialogue := none
  disk : Table Text Bytes := ∅

namespace DiskUi

def dialogueRead (ui : DiskUi) : Except ReadError DiskUi :=
  match ui.pddbKey.bind ui.disk.lookup with
  | none => .error .missing
  | some value =>
    -- A value that is too long is cut, and then its envelope does not hold.
    match decode rkyv (value.take (MAX_BYTES + ENVELOPE_HEADER + 2)) with
    | .error .envelope => .error .corrupt
    | .error (.deserialize _) => .ok { ui with dialogue := none }
    | .ok d => .ok { ui with dialogue := some d }

def dialogueSave (ui : DiskUi) : DiskUi :=
  match ui.dialogue, ui.pddbKey with
  | some d, some key => { ui with disk := ui.disk.insert key (envelope (rkyv.toBytes d)) }
  | _, _ => ui

def dialogueSet (ui : DiskUi) (key : Text) : DiskUi :=
  let ui := { ui with pddbKey := some key }
  match ui.dialogueRead rkyv with
  | .ok ui => ui
  | .error _ => { ui with dialogue := some (Dialogue.new key) }.dialogueSave rkyv

end DiskUi

theorem envelope_fields (small : body.length < 256 ^ 4) {cap : Nat}
    (header : ENVELOPE_HEADER ≤ cap) :
    ((envelope body).take cap).take 4 = ENVELOPE_MAGIC ∧
    beNat ((((envelope body).take cap).drop 4).take 4) = body.length ∧
    beNat ((((envelope body).take cap).drop 8).take 4) = (checksum body).toNat ∧
    ((envelope body).take cap).drop ENVELOPE_HEADER = body.take (cap - ENVELOPE_HEADER) := by
  -- The header is shorter than what is read, so only the body is cut.
  obtain ⟨more, rfl⟩ := Nat.exists_eq_add_of_le header
  have cut : (envelope body).take (ENVELOPE_HEADER + more) = ENVELOPE_MAGIC
      ++ (beBytes 4 body.length ++ (beBytes 4 (checksum body).toNat ++ body.take more)) := by
    rw [envelope, List.append_assoc, List.append_assoc,
      show ENVELOPE_HEADER + more = ENVELOPE_MAGIC.length + (4 + (4 + more)) by
        rw [ENVELOPE_HEADER, ENVELOPE_MAGIC]; simp only [List.length_cons, List.length_nil]; omega,
      List.take_length_add_append]
    congr 1
    have length := beBytes_length 4 body.length
    have sum := beBytes_length 4 (checksum body).toNat
    rw [List.take_append, List.take_append, length, sum, Nat.add_sub_cancel_left,
      Nat.add_sub_cancel_left, List.take_of_length_le (by omega), List.take_of_length_le (by omega)]
  have word : (checksum body).toNat < 256 ^ 4 := (checksum body).toNat_lt
  have drop8 : ∀ tail : Bytes, (ENVELOPE_MAGIC ++ (beBytes 4 body.length ++ tail)).drop 8 = tail := by
    intro tail
    rw [← List.append_assoc]
    exact List.drop_left' (by rw [List.length_append, beBytes_length]; rfl)
  rw [cut, ENVELOPE_HEADER, Nat.add_sub_cancel_left]
  refine ⟨rfl, ?_, ?_, ?_⟩
  · rw [List.drop_left' (show ENVELOPE_MAGIC.length = 4 from rfl),
      List.take_left' (beBytes_length 4 _), beNat_beBytes_of_lt small]
  · rw [drop8, List.take_left' (beBytes_length 4 _), beNat_beBytes_of_lt word]
  · rw [show 12 = 8 + 4 from rfl, ← List.drop_drop, drop8, List.drop_left' (beBytes_length 4 _)]

theorem decode_envelope_large (large : MAX_BYTES < body.length) (small : body.length < 256 ^ 4) :
    decode rkyv ((envelope body).take (MAX_BYTES + ENVELOPE_HEADER + 2))
      = .error .envelope := by
  obtain ⟨-, len, -, -⟩ := envelope_fields small
    (show ENVELOPE_HEADER ≤ MAX_BYTES + ENVELOPE_HEADER + 2 by omega)
  rw [decode]
  simp only [len]
  rw [if_neg]
  rintro ⟨-, -, -, fits, -⟩
  omega

theorem dialogueSet_dialogueSave_large {ui : DiskUi} {d : Dialogue} {key : Text}
    (shown : ui.dialogue = some d) (under : ui.pddbKey = some key)
    (large : MAX_BYTES < (rkyv.toBytes d).length) (small : (rkyv.toBytes d).length < 256 ^ 4) :
    ((ui.dialogueSave rkyv).dialogueSet rkyv key).dialogue = some (Dialogue.new key) := by
  have stored : (ui.dialogueSave rkyv).disk.lookup key = some (envelope (rkyv.toBytes d)) := by
    rw [DiskUi.dialogueSave, shown, under]
    exact AList.lookup_insert _
  rw [DiskUi.dialogueSet, DiskUi.dialogueRead]
  dsimp only [Option.bind_some]
  rw [stored]
  dsimp only
  rw [decode_envelope_large rkyv large small]
  rfl

namespace Dialogue

/-- A post of a limited length is added. -/
def Added (limit : Nat) (d d' : Dialogue) : Prop :=
  ∃ author timestamp text, (utf8Encode text).length ≤ limit ∧
    d.postAdd author timestamp text = some d'

/-- A post is added, or its text is replaced by one of a limited length. -/
def Edited (limit : Nat) (d d' : Dialogue) : Prop :=
  Added limit d d' ∨ ∃ author timestamp text, (utf8Encode text).length ≤ limit ∧
    d.postUpdate author timestamp text = some d'

structure Short (limit : Nat) (d : Dialogue) : Prop where
  each : ∀ p ∈ d.posts, (utf8Encode p.text).length ≤ limit
  few : d.posts.length ≤ MAX_POSTS

theorem Short.added {d d' : Dialogue} (short : d.Short limit) (added : Added limit d d') :
    d'.Short limit := by
  obtain ⟨author, timestamp, text, small, added⟩ := added
  obtain ⟨id, numbered, known, posts, -⟩ := postAdd_some added
  refine ⟨?_, ?_⟩
  · intro p there
    rw [posts] at there
    rcases List.mem_cons.mp ((inserted_perm _ _).subset ((capped_suffix _ _).subset there))
      with rfl | old
    · exact small
    · rw [(authorId_keeps known).2.1] at old
      exact short.each p old
  · rw [posts]
    exact capped_length_le _ _

theorem Short.edited {d d' : Dialogue} (short : d.Short limit) (edited : Edited limit d d') :
    d'.Short limit := by
  rcases edited with added | ⟨author, timestamp, text, small, updated⟩
  · exact short.added added
  · refine ⟨?_, ?_⟩
    · intro p there
      rcases mem_postUpdate updated there with before | ⟨old, -, -, -, rfl⟩
      · exact short.each p before
      · exact small
    · obtain ⟨i, p, -, -, -, rfl⟩ := postUpdate_spec updated
      rw [List.length_set]
      exact short.few

theorem short_run {title : Text} {d : Dialogue} (run : ReflTransGen (Edited limit) (new title) d) :
    d.Short limit := by
  induction run with
  | refl => exact ⟨fun p there => absurd there List.not_mem_nil, Nat.zero_le _⟩
  | tail _ edited ih => exact ih.edited edited

theorem Short.textBytes_le {d : Dialogue} (short : d.Short limit) :
    d.textBytes ≤ d.posts.length * limit := by
  have bound := List.sum_le_card_nsmul (d.posts.map fun p => (utf8Encode p.text).length) limit
    (List.forall_mem_map.mpr short.each)
  rwa [List.length_map, smul_eq_mul] at bound

theorem textBytes_le_size (d : Dialogue) : d.textBytes ≤ (d.posts.map Post.size).sum :=
  List.sum_le_sum fun _ _ => Nat.le_add_right _ _

theorem fits_run {title : Text} {d : Dialogue} (run : ReflTransGen (Added limit) (new title) d) :
    d.textBytes ≤ BYTE_BUDGET ∨ d.posts.length ≤ 1 := by
  -- The last addition has just enforced the budget.
  cases run with
  | refl => exact .inr (Nat.zero_le _)
  | tail _ added =>
    obtain ⟨author, timestamp, text, -, added⟩ := added
    obtain ⟨id, numbered, -, posts, -⟩ := postAdd_some added
    rw [capped] at posts
    generalize (inserted numbered.posts ⟨id, timestamp, text⟩).drop _ = counted at posts
    have kept := trim_fits ((utf8Encode numbered.title).length + 512) counted
    rw [← posts] at kept
    rcases kept with fits | single
    · have texts := d.textBytes_le_size
      exact .inl (by omega)
    · exact .inr single

theorem trim_of_le {total : Nat} (fits : total ≤ BYTE_BUDGET) (posts : List Post) :
    trim total posts = posts := by
  fun_induction trim with
  | case1 | case2 | case4 => rfl
  | case3 total p q rest beyond ih => omega

theorem postAdd_behind {d : Dialogue} {author : Text} {timestamp : Nat} {id : UInt16}
    (known : d.authorLookup.lookup author = some id)
    (late : ∀ p ∈ d.posts, p.timestamp ≤ timestamp) (few : d.posts.length < MAX_POSTS)
    (room : (utf8Encode d.title).length + 512
      + ((d.posts ++ [(⟨id, timestamp, text⟩ : Post)]).map Post.size).sum ≤ BYTE_BUDGET) :
    d.postAdd author timestamp text
      = some { d with posts := d.posts ++ [⟨id, timestamp, text⟩] } := by
  have numbered : d.authorId author = some (id, d) := by rw [authorId, known]
  have last : partitionPoint (fun p => decide (p.timestamp ≤ timestamp)) d.posts
      = d.posts.length := by
    rw [partitionPoint, List.takeWhile_eq_self_iff.mpr]
    intro p there
    exact decide_eq_true (late p there)
  rw [postAdd, numbered]
  dsimp only
  split_ifs with empty
  · rw [List.isEmpty_iff.mp empty, List.nil_append]
  · have count : (d.posts ++ [(⟨id, timestamp, text⟩ : Post)]).length - MAX_POSTS = 0 := by
      rw [List.length_append, List.length_singleton]
      omega
    rw [last, List.take_length, List.drop_length, count, List.drop_zero, enforceByteBudget]
    dsimp only
    rw [trim_of_le room]

/-- Posts of one author at the times from zero on, the first so many of them with a text. -/
def spaced (count : Nat) (text : Text) (full : Nat) : List Post :=
  (List.range count).map fun i => ⟨2, i, if i < full then text else []⟩

theorem size_spaced (count : Nat) :
    ((spaced count [] 0).map Post.size).sum = count * PER_POST_OVERHEAD := by
  have each : (Post.size ∘ fun i => (⟨2, i, if i < 0 then [] else []⟩ : Post))
      = fun _ => PER_POST_OVERHEAD := by
    funext i
    simp [Post.size, utf8Encode]
  rw [spaced, List.map_map, each, List.map_const', List.length_range, List.sum_replicate_nat]

theorem spaced_run (limit : Nat) {count : Nat} (few : count < MAX_POSTS) :
    ∃ d, ReflTransGen (Edited limit) (new []) d ∧ d.title = [] ∧
      d.authorLookup.lookup SELF_AUTHOR = some 2 ∧ d.posts = spaced (count + 1) [] 0 := by
  induction count with
  | zero =>
    refine ⟨Thread.onePost [] |> fun d => { d with posts := [⟨2, 0, []⟩] }, ?_, rfl, rfl, rfl⟩
    exact .single (.inl ⟨SELF_AUTHOR, 0, [], Nat.zero_le _, rfl⟩)
  | succ count ih =>
    obtain ⟨d, run, title, known, posts⟩ := ih (Nat.lt_of_succ_lt few)
    have grown : spaced (count + 2) [] 0 = d.posts ++ [⟨2, count + 1, []⟩] := by
      rw [posts, spaced, spaced, List.range_succ, List.map_append]
      rfl
    refine ⟨{ d with posts := spaced (count + 2) [] 0 }, run.tail (.inl ?_), title, known, rfl⟩
    refine ⟨SELF_AUTHOR, count + 1, [], Nat.zero_le _, ?_⟩
    rw [grown]
    refine postAdd_behind known ?_ ?_ ?_
    · intro p there
      rw [posts, spaced] at there
      obtain ⟨i, inside, rfl⟩ := List.mem_map.mp there
      exact Nat.le_of_lt (List.mem_range.mp inside)
    · rw [posts, spaced, List.length_map, List.length_range]
      exact few
    · rw [← grown, size_spaced, title]
      rw [MAX_POSTS] at few
      rw [BYTE_BUDGET, PER_POST_OVERHEAD, show (utf8Encode []).length = 0 from rfl]
      omega

theorem spaced_full_run (small : (utf8Encode text).length ≤ limit) {full : Nat}
    (some_ : full ≤ MAX_POSTS) :
    ∃ d, ReflTransGen (Edited limit) (new []) d ∧
      d.authorLookup.lookup SELF_AUTHOR = some 2 ∧ d.posts = spaced MAX_POSTS text full := by
  induction full with
  | zero =>
    obtain ⟨d, run, -, known, posts⟩ := spaced_run limit (show 255 < MAX_POSTS by decide)
    refine ⟨d, run, known, posts.trans ?_⟩
    simp only [spaced, Nat.not_lt_zero, if_false]
    rfl
  | succ full ih =>
    obtain ⟨d, run, known, posts⟩ := ih (Nat.le_of_succ_le some_)
    have at_ : ∀ {i p}, d.posts[i]? = some p →
        i < MAX_POSTS ∧ p = ⟨2, i, if i < full then text else []⟩ := by
      intro i p there
      rw [posts, spaced, List.getElem?_map] at there
      obtain ⟨j, inside, rfl⟩ := Option.map_eq_some_iff.mp there
      obtain ⟨bound, rfl⟩ := List.getElem?_eq_some_iff.mp inside
      rw [List.length_range] at bound
      rw [List.getElem_range]
      exact ⟨bound, rfl⟩
    have sorted : Sorted d.posts := by
      rw [posts, spaced, Sorted, List.pairwise_map]
      exact List.pairwise_lt_range.imp fun earlier => Nat.le_of_lt earlier
    have next : d.posts[full]? = some ⟨2, full, []⟩ := by
      rw [posts, spaced, List.getElem?_map, List.getElem?_range some_, Option.map_some,
        if_neg (Nat.lt_irrefl _)]
    -- The times are all different, so the update finds the post at its own index.
    have found : d.postFind SELF_AUTHOR full = some full := by
      refine (postFind_eq_some_iff sorted).mpr ⟨⟨_, next, rfl, known⟩, ?_⟩
      rintro j earlier p there ⟨time, -⟩
      rw [(at_ there).2] at time
      exact Nat.ne_of_lt earlier time
    have updated : d.postUpdate SELF_AUTHOR full text
        = some { d with posts := d.posts.set full ⟨2, full, text⟩ } := by
      rw [postUpdate_eq, found, Option.bind_some, next, Option.map_some]
    refine ⟨_, run.tail (.inr ⟨SELF_AUTHOR, full, text, small, updated⟩), known, ?_⟩
    refine List.ext_getElem? fun i => ?_
    rw [List.getElem?_set, posts, spaced, spaced, List.getElem?_map, List.getElem?_map,
      List.length_map, List.length_range]
    split_ifs with same inside
    · subst same
      rw [List.getElem?_range inside, Option.map_some, if_pos (Nat.lt_succ_self _)]
    · exact absurd (same ▸ some_) inside
    · refine Option.map_congr fun j inside => ?_
      -- Only the post at that index changes sides.
      obtain ⟨-, rfl⟩ := List.getElem?_eq_some_iff.mp inside
      rw [List.getElem_range]
      have other : i < full ↔ i < full + 1 := by omega
      simp only [other]

theorem textBytes_spaced {d : Dialogue} {count : Nat} (posts : d.posts = spaced count text count) :
    d.textBytes = count * (utf8Encode text).length := by
  have each : ∀ i ∈ List.range count,
      (utf8Encode (if i < count then text else [])).length = (utf8Encode text).length := by
    intro i inside
    rw [if_pos (List.mem_range.mp inside)]
  rw [textBytes, posts, spaced, List.map_map]
  refine (congrArg List.sum (List.map_congr_left each)).trans ?_
  rw [List.map_const', List.length_range, List.sum_replicate_nat]

/--
The texts fit what is read exactly if the longest text does so as often as there are posts, and
while no text is replaced exactly if it does so once.
-/
theorem texts_fit_iff (limit : Nat) :
    ((∀ title d, ReflTransGen (Edited limit) (new title) d → d.textBytes ≤ MAX_BYTES)
      ↔ MAX_POSTS * limit ≤ MAX_BYTES) ∧
    ((∀ title d, ReflTransGen (Added limit) (new title) d → d.textBytes ≤ MAX_BYTES)
      ↔ limit ≤ MAX_BYTES) := by
  have longest := Thread.utf8Encode_letters limit
  refine ⟨⟨?_, ?_⟩, ⟨?_, ?_⟩⟩
  · -- As many posts as are kept are added without a text, which then is replaced.
    intro fits
    obtain ⟨d, run, -, posts⟩ := spaced_full_run (Nat.le_of_eq longest) (Nat.le_refl MAX_POSTS)
    have total := fits [] d run
    rwa [textBytes_spaced posts, longest] at total
  · intro fits title d run
    have short := short_run run
    exact Nat.le_trans short.textBytes_le
      (Nat.le_trans (Nat.mul_le_mul_right limit short.few) fits)
  · -- The first post is taken whatever its size.
    intro fits
    have total := fits [] (Thread.onePost (Thread.letters limit))
      (.single ⟨SELF_AUTHOR, 1, _, Nat.le_of_eq longest, rfl⟩)
    rwa [textBytes, Thread.onePost, List.map_singleton, List.sum_singleton, longest] at total
  · intro fits title d run
    rcases fits_run run with within | single
    · exact Nat.le_trans within (by decide)
    · have edits : ReflTransGen (Edited limit) (new title) d :=
        run.lift id fun _ _ added => .inl added
      have short := (short_run edits).textBytes_le
      have one := Nat.mul_le_mul_right limit single
      omega

/--
A message of more than the limit, which is well below what can be received, resets its thread.
-/
theorem large_message_resets_thread : ∃ d, (new []).postAdd SELF_AUTHOR 1 (Thread.letters 65537)
      = some d ∧ MAX_BYTES < d.textBytes ∧
    ∀ (rkyv : Archiver) (ui : DiskUi) (key : Text), ui.dialogue = some d → ui.pddbKey = some key →
      (rkyv.toBytes d).length < 2 ^ 32 →
      ((ui.dialogueSave rkyv).dialogueSet rkyv key).dialogue = some (new key) := by
  have total : (Thread.onePost (Thread.letters 65537)).textBytes = 65537 := by
    rw [textBytes, Thread.onePost, List.map_singleton, List.sum_singleton]
    exact Thread.utf8Encode_letters 65537
  have large : MAX_BYTES < (Thread.onePost (Thread.letters 65537)).textBytes := by
    rw [total]
    decide
  refine ⟨Thread.onePost (Thread.letters 65537), rfl, large, ?_⟩
  intro rkyv ui key shown under small
  exact dialogueSet_dialogueSave_large rkyv shown under
    (Nat.lt_of_lt_of_le large (rkyv.contains _)) small

end Dialogue

end LxmfChat
