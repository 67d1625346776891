import LxmfChat.Base.Text
import LxmfChat.Base.Capped
import Mathlib.Data.List.TakeWhile

/-! A conversation: posts in the order of their times, and the names of their authors. -/

namespace LxmfChat

open Base

def SELF_AUTHOR : Text := "me".toList

def MAX_POSTS : Nat := 256

/-- How much room the posts of a conversation may take when they are stored. -/
def BYTE_BUDGET : Nat := 56 * 1024

def PER_POST_OVERHEAD : Nat := 128

/-- A post; its author is known by a number. -/
structure Post where
  authorId : UInt16
  timestamp : Nat
  text : Text
deriving DecidableEq, Repr

def Post.size (p : Post) : Nat := (utf8Encode p.text).length + PER_POST_OVERHEAD

structure Dialogue where
  title : Text
  posts : List Post := []
  authors : Table UInt16 Text := (∅ : Table UInt16 Text).insert 0 SELF_AUTHOR
  authorLookup : Table Text UInt16 := ∅
  lastAuthorId : UInt16 := 1

namespace Dialogue

def new (title : Text) : Dialogue := { title }

/-- The number of an author, and the conversation that knows it; the numbers may run out. -/
def authorId (d : Dialogue) (author : Text) : Option (UInt16 × Dialogue) :=
  match d.authorLookup.lookup author with
  | some id => some (id, d)
  | none =>
    if d.lastAuthorId < 65535 then
      let id := d.lastAuthorId + 1
      some (id, { d with
        lastAuthorId := id
        authors := d.authors.insert id author
        authorLookup := d.authorLookup.insert author id })
    else none

/-- Where the posts begin that do not satisfy the condition, when those that do come first. -/
def partitionPoint (before : Post → Bool) (posts : List Post) : Nat :=
  (posts.takeWhile before).length

def trim (total : Nat) : List Post → List Post
  | [] => []
  | [p] => [p]
  | p :: q :: rest =>
    if BYTE_BUDGET < total then trim (total - p.size) (q :: rest) else p :: q :: rest

def enforceByteBudget (d : Dialogue) : Dialogue :=
  let total := (utf8Encode d.title).length + 512 + (d.posts.map Post.size).sum
  { d with posts := trim total d.posts }

/-- Add a post behind those of the same time or before; the oldest may have to go. -/
def postAdd (d : Dialogue) (author : Text) (timestamp : Nat) (text : Text) : Option Dialogue :=
  match d.authorId author with
  | none => none
  | some (id, d) =>
    let new : Post := ⟨id, timestamp, text⟩
    if d.posts.isEmpty then some { d with posts := [new] }
    else
      let i := partitionPoint (fun p => p.timestamp ≤ timestamp) d.posts
      let posts := d.posts.take i ++ new :: d.posts.drop i
      some { d with posts := posts.drop (posts.length - MAX_POSTS) }.enforceByteBudget

def postFind (d : Dialogue) (author : Text) (timestamp : Nat) : Option Nat :=
  match d.authorLookup.lookup author with
  | none => none
  | some id =>
    let i := partitionPoint (fun p => p.timestamp < timestamp) d.posts
    let same := (d.posts.drop i).takeWhile fun p => p.timestamp = timestamp
    (same.findIdx? fun p => p.authorId = id).map (i + ·)

def postUpdate (d : Dialogue) (author : Text) (timestamp : Nat) (text : Text) : Option Dialogue :=
  match d.postFind author timestamp with
  | none => none
  | some i =>
    (d.posts[i]?).map fun p => { d with posts := d.posts.set i ⟨p.authorId, timestamp, text⟩ }

def postDel (d : Dialogue) (index : Nat) : Option Dialogue :=
  if index < d.posts.length then some { d with posts := d.posts.eraseIdx index } else none

/-- The post goes under the name. -/
def By (d : Dialogue) (p : Post) (name : Text) : Prop :=
  d.authorLookup.lookup name = some p.authorId

/-- The numbers of the authors tell them apart. -/
structure WellNamed (d : Dialogue) : Prop where
  bounded : ∀ {name id}, d.authorLookup.lookup name = some id → id ≤ d.lastAuthorId
  injective : ∀ {name name' id}, d.authorLookup.lookup name = some id →
    d.authorLookup.lookup name' = some id → name = name'
  named : ∀ p ∈ d.posts, ∃ name, d.By p name

variable {d d' : Dialogue} {author text : Text} {timestamp : Nat}

theorem wellNamed_new (title : Text) : (new title).WellNamed := by
  refine ⟨fun there => ?_, fun there => ?_, fun p there => nomatch there⟩
  all_goals
    rw [new] at there
    cases there

theorem lt_next {n : UInt16} (room : n < 65535) : n < n + 1 := by
  rw [UInt16.lt_iff_toNat_lt] at room ⊢
  have bound : n.toNat < 65535 := room
  rw [UInt16.toNat_add, UInt16.toNat_one]
  omega

theorem authorId_spec (named : d.WellNamed) {id : UInt16}
    (numbered : d.authorId author = some (id, d')) :
    d'.posts = d.posts ∧ d'.WellNamed ∧ d'.authorLookup.lookup author = some id
      ∧ ∀ p ∈ d.posts, ∀ name, d'.By p name → d.By p name := by
  rw [authorId] at numbered
  split at numbered
  case h_1 id' known =>
    cases numbered
    exact ⟨rfl, named, known, fun _ _ _ under => under⟩
  case h_2 unknown =>
    split at numbered
    case isFalse => cases numbered
    case isTrue room =>
      cases numbered
      have larger := lt_next room
      have next : ∀ {name id}, (d.authorLookup.insert author (d.lastAuthorId + 1)).lookup name = some id →
          (name = author ∧ id = d.lastAuthorId + 1) ∨ d.authorLookup.lookup name = some id := by
        intro name id there
        by_cases same : name = author
        · rw [same, AList.lookup_insert] at there
          exact .inl ⟨same, (Option.some.inj there).symm⟩
        · rw [AList.lookup_insert_ne same] at there
          exact .inr there
      -- Numbers that were given out before are smaller than the new one.
      have older : ∀ {name}, d.authorLookup.lookup name ≠ some (d.lastAuthorId + 1) := by
        intro name there
        exact absurd (named.bounded there) (UInt16.not_le.mpr larger)
      refine ⟨rfl, ⟨?_, ?_, ?_⟩, AList.lookup_insert _, ?_⟩
      · intro name id there
        rcases next there with ⟨-, rfl⟩ | before
        · exact UInt16.le_refl _
        · exact UInt16.le_trans (named.bounded before) (UInt16.le_of_lt larger)
      · intro name name' id there there'
        rcases next there with ⟨rfl, rfl⟩ | before <;> rcases next there' with ⟨rfl, same⟩ | before'
        · rfl
        · exact absurd before' older
        · exact absurd (same ▸ before) older
        · exact named.injective before before'
      · intro p there
        obtain ⟨name, under⟩ := named.named p there
        have other : name ≠ author := by
          rintro rfl
          rw [By, unknown] at under
          cases under
        exact ⟨name, (AList.lookup_insert_ne other).trans under⟩
      · intro p there name under
        rcases next under with ⟨-, new⟩ | before
        · obtain ⟨name', under'⟩ := named.named p there
          rw [By, new] at under'
          exact absurd under' older
        · exact before

theorem trim_suffix (total : Nat) (posts : List Post) : trim total posts <:+ posts := by
  fun_induction trim with
  | case1 | case2 | case4 => exact List.suffix_refl _
  | case3 total p q rest beyond ih => exact ih.trans (List.suffix_cons p _)

def inserted (posts : List Post) (new : Post) : List Post :=
  posts.take (partitionPoint (fun p => p.timestamp ≤ new.timestamp) posts)
    ++ new :: posts.drop (partitionPoint (fun p => p.timestamp ≤ new.timestamp) posts)

/-- What is left of some posts when the oldest are dropped: not too many, and not too large. -/
def capped (title : Text) (posts : List Post) : List Post :=
  let posts := posts.drop (posts.length - MAX_POSTS)
  trim ((utf8Encode title).length + 512 + (posts.map Post.size).sum) posts

theorem postAdd_some (added : d.postAdd author timestamp text = some d') :
    ∃ id numbered, d.authorId author = some (id, numbered)
      ∧ d'.posts = capped numbered.title (inserted numbered.posts ⟨id, timestamp, text⟩)
      ∧ d' = { numbered with posts := d'.posts } := by
  rw [postAdd] at added
  split at added
  case h_1 => cases added
  case h_2 id numbered known =>
    refine ⟨id, numbered, known, ?_⟩
    dsimp only at added
    split at added
    case isTrue empty =>
      -- The first post is never dropped, so that nothing is checked makes no difference.
      rw [← Option.some.inj added, List.isEmpty_iff.mp empty]
      exact ⟨by simp [inserted, capped, partitionPoint, trim, MAX_POSTS], rfl⟩
    case isFalse =>
      rw [← Option.some.inj added, enforceByteBudget, capped, inserted]
      simp only [and_self]

theorem inserted_perm (posts : List Post) (new : Post) : (inserted posts new).Perm (new :: posts) := by
  refine List.perm_middle.trans ?_
  rw [List.take_append_drop]

theorem capped_suffix (title : Text) (posts : List Post) : capped title posts <:+ posts :=
  (trim_suffix _ _).trans (List.drop_suffix _ _)

theorem postAdd_subperm (added : d.postAdd author timestamp text = some d') :
    ∃ id numbered posts, d.authorId author = some (id, numbered)
      ∧ posts.Subperm (⟨id, timestamp, text⟩ :: numbered.posts)
      ∧ d' = { numbered with posts } := by
  obtain ⟨id, numbered, known, posts, result⟩ := postAdd_some added
  refine ⟨id, numbered, d'.posts, known, ?_, result⟩
  rw [posts]
  exact (capped_suffix _ _).sublist.subperm.trans (inserted_perm _ _).subperm

theorem postAdd_spec (named : d.WellNamed)
    (added : d.postAdd author timestamp text = some d') :
    d'.WellNamed ∧ ∀ p ∈ d'.posts,
      (p.timestamp = timestamp ∧ p.text = text ∧ d'.By p author)
        ∨ (p ∈ d.posts ∧ ∀ name, d'.By p name → d.By p name) := by
  obtain ⟨id, numbered, posts, known, some_, rfl⟩ := postAdd_subperm added
  obtain ⟨same, named', author_, kept⟩ := authorId_spec named known
  refine ⟨⟨named'.bounded, named'.injective, ?_⟩, ?_⟩
  · intro p there
    rcases List.mem_cons.mp (some_.subset there) with rfl | old
    · exact ⟨author, author_⟩
    · exact named'.named p old
  · intro p there
    rcases List.mem_cons.mp (some_.subset there) with rfl | old
    · exact .inl ⟨rfl, rfl, author_⟩
    · rw [same] at old
      exact .inr ⟨old, kept p old⟩

theorem postFind_spec {i : Nat} (found : d.postFind author timestamp = some i) :
    ∃ p, d.posts[i]? = some p ∧ p.timestamp = timestamp ∧ d.By p author := by
  rw [postFind] at found
  split at found
  case h_1 => cases found
  case h_2 id known =>
    obtain ⟨n, there, rfl⟩ := Option.map_eq_some_iff.mp found
    generalize partitionPoint (fun p => p.timestamp < timestamp) d.posts = start at there ⊢
    obtain ⟨inside, matching, -⟩ := List.findIdx?_eq_some_iff_getElem.mp there
    -- The scan runs over the posts of that time, which stand together.
    have same := List.mem_takeWhile_imp (List.getElem_mem inside)
    refine ⟨_, ?_, of_decide_eq_true same, ?_⟩
    · rw [← List.getElem?_drop]
      exact List.prefix_iff_getElem?.mp (List.takeWhile_prefix _) n inside
    · exact known.trans (congrArg some (of_decide_eq_true matching).symm)

theorem postUpdate_spec (updated : d.postUpdate author timestamp text = some d') :
    ∃ i p, d.posts[i]? = some p ∧ p.timestamp = timestamp ∧ d.By p author
      ∧ d' = { d with posts := d.posts.set i { p with text } } := by
  rw [postUpdate] at updated
  split at updated
  case h_1 => cases updated
  case h_2 i found =>
    obtain ⟨p, there, time, under⟩ := postFind_spec found
    rw [there] at updated
    refine ⟨i, p, there, time, under, ?_⟩
    rw [← Option.some.inj updated, ← time]

theorem mem_postUpdate (updated : d.postUpdate author timestamp text = some d') {p : Post}
    (there : p ∈ d'.posts) :
    p ∈ d.posts ∨ ∃ old ∈ d.posts, old.timestamp = timestamp ∧ d.By old author
      ∧ p = { old with text } := by
  obtain ⟨i, old, found, time, under, rfl⟩ := postUpdate_spec updated
  rcases List.mem_or_eq_of_mem_set there with before | new
  · exact .inl before
  · exact .inr ⟨old, List.mem_of_getElem? found, time, under, new⟩

theorem WellNamed.postUpdate (named : d.WellNamed)
    (updated : d.postUpdate author timestamp text = some d') : d'.WellNamed := by
  have posts := fun {p} => @mem_postUpdate d d' author text timestamp updated p
  obtain ⟨i, old, found, -, -, rfl⟩ := postUpdate_spec updated
  refine ⟨named.bounded, named.injective, fun p there => ?_⟩
  rcases posts there with before | ⟨old, before, -, under, rfl⟩
  · exact named.named p before
  · exact ⟨author, under⟩

end Dialogue

end LxmfChat
