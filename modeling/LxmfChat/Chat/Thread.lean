import LxmfChat.Base.Runs
import LxmfChat.Base.Search
import LxmfChat.Chat.Dialogue
import Mathlib.Data.List.InsertIdx

/-! What every sequence of edits leaves of a conversation, and which posts it loses. -/

namespace LxmfChat

open Base
open Relation (ReflTransGen)

/-- The posts stand in the order of their times. -/
def Sorted (posts : List Post) : Prop := posts.Pairwise fun a b => a.timestamp ≤ b.timestamp

namespace Sorted

variable {posts : List Post}

theorem upTo (sorted : Sorted posts) (timestamp : Nat) :
    posts.Pairwise fun a b => decide (b.timestamp ≤ timestamp) = true →
      decide (a.timestamp ≤ timestamp) = true := by
  refine sorted.imp fun {a b} earlier => ?_
  simp only [decide_eq_true_eq]
  omega

theorem before (sorted : Sorted posts) (timestamp : Nat) :
    posts.Pairwise fun a b => decide (b.timestamp < timestamp) = true →
      decide (a.timestamp < timestamp) = true := by
  refine sorted.imp fun {a b} earlier => ?_
  simp only [decide_eq_true_eq]
  omega

theorem inserted_eq (sorted : Sorted posts) (new : Post) :
    Dialogue.inserted posts new = posts.filter (fun p => p.timestamp ≤ new.timestamp)
      ++ new :: posts.filter fun p => new.timestamp < p.timestamp := by
  have partitioned := sorted.upTo new.timestamp
  have front : posts.take (posts.takeWhile fun p => p.timestamp ≤ new.timestamp).length
      = posts.filter fun p => p.timestamp ≤ new.timestamp := by
    rw [← takeWhile_eq_filter partitioned]
    exact List.prefix_iff_eq_take.mp (List.takeWhile_prefix _) |>.symm
  rw [Dialogue.inserted, Dialogue.partitionPoint, front, drop_takeWhile_eq_filter partitioned]
  simp only [← decide_not, Nat.not_le]

theorem inserted (sorted : Sorted posts) (new : Post) :
    Sorted (Dialogue.inserted posts new) := by
  rw [sorted.inserted_eq]
  refine List.pairwise_append.mpr ⟨List.Pairwise.filter _ sorted, List.pairwise_cons.mpr
    ⟨?_, List.Pairwise.filter _ sorted⟩, ?_⟩
  · intro p later
    have after : new.timestamp < p.timestamp := by simpa using List.of_mem_filter later
    exact Nat.le_of_lt after
  · intro p early q there
    have before : p.timestamp ≤ new.timestamp := by simpa using List.of_mem_filter early
    rcases List.mem_cons.mp there with rfl | later
    · exact before
    · have after : new.timestamp < q.timestamp := by simpa using List.of_mem_filter later
      omega

theorem bisectPoint_upTo (sorted : Sorted posts) (timestamp : Nat) :
    bisectPoint (fun p => decide (p.timestamp ≤ timestamp)) posts
      = Dialogue.partitionPoint (fun p => p.timestamp ≤ timestamp) posts :=
  bisectPoint_eq_takeWhile (sorted.upTo timestamp)

theorem bisectPoint_before (sorted : Sorted posts) (timestamp : Nat) :
    bisectPoint (fun p => decide (p.timestamp < timestamp)) posts
      = Dialogue.partitionPoint (fun p => p.timestamp < timestamp) posts :=
  bisectPoint_eq_takeWhile (sorted.before timestamp)

end Sorted

namespace Dialogue

variable {d d' : Dialogue} {author text : Text} {timestamp : Nat}

theorem suffix_trim {base : Nat} (front : List Post) {rest : List Post}
    (fits : base + (rest.map Post.size).sum ≤ BYTE_BUDGET ∨ rest.length = 1) :
    rest <:+ trim (base + ((front ++ rest).map Post.size).sum) (front ++ rest) := by
  induction front with
  | nil =>
    rw [List.nil_append]
    rcases rest with _ | ⟨p, _ | ⟨q, rest⟩⟩
    · exact List.suffix_refl _
    · exact List.suffix_refl _
    · -- Two posts are left, so it is their size that decides.
      have fits : base + ((p :: q :: rest).map Post.size).sum ≤ BYTE_BUDGET :=
        fits.resolve_right (by simp)
      have kept : trim (base + ((p :: q :: rest).map Post.size).sum) (p :: q :: rest) = p :: q :: rest := by
        rw [trim, if_neg (Nat.not_lt.mpr fits)]
      exact ⟨[], kept.symm⟩
  | cons p front ih =>
    cases behind : front ++ rest with
    | nil =>
      rw [(List.append_eq_nil_iff.mp behind).2]
      exact List.nil_suffix
    | cons q more =>
      rw [List.cons_append, behind, trim]
      split_ifs with large
      · -- One post goes, and the total is what the others take.
        have total : base + ((p :: q :: more).map Post.size).sum - p.size
            = base + ((front ++ rest).map Post.size).sum := by
          rw [behind, List.map_cons, List.sum_cons]
          omega
        rw [total, ← behind]
        exact ih
      · rw [← behind]
        exact (List.suffix_append front rest).trans (List.suffix_cons p _)

theorem trim_suffix_tail {base : Nat} (front : List Post) {p q : Post} {rest : List Post}
    (large : BYTE_BUDGET < base + ((p :: q :: rest).map Post.size).sum) :
    trim (base + ((front ++ p :: q :: rest).map Post.size).sum) (front ++ p :: q :: rest)
      <:+ q :: rest := by
  induction front with
  | nil =>
    rw [List.nil_append, trim, if_pos large]
    exact trim_suffix _ _
  | cons o front ih =>
    have total : base + ((o :: (front ++ p :: q :: rest)).map Post.size).sum - o.size
        = base + ((front ++ p :: q :: rest).map Post.size).sum := by
      rw [List.map_cons, List.sum_cons]
      omega
    have larger : BYTE_BUDGET
        < base + ((o :: (front ++ p :: q :: rest)).map Post.size).sum := by
      simp only [List.map_cons, List.sum_cons, List.map_append, List.sum_append] at large ⊢
      omega
    cases behind : front ++ p :: q :: rest with
    | nil => simp at behind
    | cons o' more =>
      rw [behind] at total larger ih
      rw [List.cons_append, behind, trim, if_pos larger, total]
      exact ih

theorem trim_fits (base : Nat) (posts : List Post) :
    base + ((trim (base + (posts.map Post.size).sum) posts).map Post.size).sum ≤ BYTE_BUDGET
      ∨ (trim (base + (posts.map Post.size).sum) posts).length ≤ 1 := by
  induction posts with
  | nil => exact .inr (Nat.zero_le _)
  | cons p posts ih =>
    cases posts with
    | nil => exact .inr (Nat.le_refl _)
    | cons q rest =>
      rw [trim]
      split_ifs with large
      · have total : base + ((p :: q :: rest).map Post.size).sum - p.size
            = base + ((q :: rest).map Post.size).sum := by
          rw [List.map_cons, List.sum_cons]
          omega
        rw [total]
        exact ih
      · exact .inl (Nat.not_lt.mp large)

theorem capped_length_le (title : Text) (posts : List Post) :
    (capped title posts).length ≤ MAX_POSTS := by
  have trimmed := (trim_suffix ((utf8Encode title).length + 512
    + ((posts.drop (posts.length - MAX_POSTS)).map Post.size).sum)
    (posts.drop (posts.length - MAX_POSTS))).length_le
  rw [List.length_drop] at trimmed
  rw [capped]
  omega

/-- A new post is kept exactly if few enough posts come after it and they fit with it. -/
theorem mem_capped_iff (title : Text) (front : List Post) {new : Post} {later : List Post}
    (earlier : new ∉ later) :
    new ∈ capped title (front ++ new :: later) ↔ later = [] ∨ later.length < MAX_POSTS ∧
      (utf8Encode title).length + 512 + ((new :: later).map Post.size).sum ≤ BYTE_BUDGET := by
  by_cases few : later.length < MAX_POSTS
  · -- The count drops old posts only.
    have counted : (front ++ new :: later).drop ((front ++ new :: later).length - MAX_POSTS)
        = front.drop ((front ++ new :: later).length - MAX_POSTS) ++ new :: later := by
      refine List.drop_append_of_le_length ?_
      simp only [List.length_append, List.length_cons]
      omega
    rw [capped, counted]
    cases later with
    | nil =>
      refine iff_of_true ?_ (.inl rfl)
      exact (suffix_trim _ (.inr rfl)).subset List.mem_cons_self
    | cons q rest =>
      constructor
      · intro kept
        by_contra large
        have more : BYTE_BUDGET
            < (utf8Encode title).length + 512 + ((new :: q :: rest).map Post.size).sum := by
          simp only [few, true_and] at large
          simp at large ⊢
          omega
        have dropped := trim_suffix_tail
          (front.drop ((front ++ new :: q :: rest).length - MAX_POSTS)) more
        exact earlier (dropped.subset kept)
      · rintro (impossible | ⟨-, fits⟩)
        · cases impossible
        · exact (suffix_trim _ (.inl fits)).subset List.mem_cons_self
  · -- There are enough newer posts to push it out.
    have counted : (front ++ new :: later).drop ((front ++ new :: later).length - MAX_POSTS)
        <:+ later := by
      have split : front ++ new :: later = (front ++ [new]) ++ later := by simp
      rw [split, List.drop_append]
      rw [List.drop_of_length_le (by simp only [List.length_append, List.length_singleton]; omega),
        List.nil_append]
      exact List.drop_suffix _ _
    refine iff_of_false ?_ ?_
    · intro kept
      rw [capped] at kept
      exact earlier (counted.subset ((trim_suffix _ _).subset kept))
    · rintro (rfl | ⟨small, -⟩)
      · exact few (by decide)
      · exact few small

theorem postFind_eq (sorted : Sorted d.posts) (author : Text) (timestamp : Nat) :
    d.postFind author timestamp = d.posts.findIdx? fun p =>
      decide (p.timestamp = timestamp ∧ d.authorLookup.lookup author = some p.authorId) := by
  rw [postFind]
  cases known : d.authorLookup.lookup author with
  | none =>
    refine (List.findIdx?_eq_none_iff.mpr fun p _ => ?_).symm
    simp
  | some id =>
    have scan := findIdx?_behind (fun p : Post => decide (p.timestamp = timestamp))
      (fun p : Post => decide (p.authorId = id)) (sorted.before timestamp)
      (by simp only [decide_eq_true_eq, decide_eq_false_iff_not]; omega)
      (sorted.imp fun {a b} earlier => by simp only [decide_eq_true_eq]; omega)
    refine scan.trans ?_
    congr 1
    funext p
    simp only [Option.some.injEq, eq_comm (a := id), Bool.decide_and]

theorem postFind_eq_some_iff (sorted : Sorted d.posts) {i : Nat} :
    d.postFind author timestamp = some i ↔
      (∃ p, d.posts[i]? = some p ∧ p.timestamp = timestamp ∧ d.By p author) ∧
      ∀ j < i, ∀ p, d.posts[j]? = some p → ¬ (p.timestamp = timestamp ∧ d.By p author) := by
  rw [postFind_eq sorted, List.findIdx?_eq_some_iff_getElem]
  simp only [decide_eq_true_eq]
  constructor
  · rintro ⟨inside, here, least⟩
    refine ⟨⟨d.posts[i], List.getElem?_eq_getElem inside, here⟩, ?_⟩
    intro j earlier p there
    obtain ⟨inside', rfl⟩ := List.getElem?_eq_some_iff.mp there
    exact least j earlier
  · rintro ⟨⟨p, there, here⟩, least⟩
    obtain ⟨inside, rfl⟩ := List.getElem?_eq_some_iff.mp there
    exact ⟨inside, here, fun j earlier =>
      least j earlier _ (List.getElem?_eq_getElem (Nat.lt_trans earlier inside))⟩

theorem postFind_eq_none_iff (sorted : Sorted d.posts) :
    d.postFind author timestamp = none ↔
      ∀ p ∈ d.posts, ¬ (p.timestamp = timestamp ∧ d.By p author) := by
  rw [postFind_eq sorted, List.findIdx?_eq_none_iff]
  simp only [decide_eq_false_iff_not]
  rfl

theorem postUpdate_eq (d : Dialogue) (author : Text) (timestamp : Nat) (text : Text) :
    d.postUpdate author timestamp text = (d.postFind author timestamp).bind fun i =>
      d.posts[i]?.map fun p => { d with posts := d.posts.set i { p with text } } := by
  rw [postUpdate]
  cases found : d.postFind author timestamp with
  | none => rfl
  | some i =>
    obtain ⟨p, there, time, -⟩ := postFind_spec found
    simp only [there, Option.map_some, Option.bind_some, ← time]

theorem authorId_cases {id : UInt16} (numbered : d.authorId author = some (id, d')) :
    d.authorLookup.lookup author = some id ∧ d' = d ∨
    d.authorLookup.lookup author = none ∧ d.lastAuthorId < 65535 ∧ id = d.lastAuthorId + 1 ∧
      d' = { d with
        lastAuthorId := id
        authors := d.authors.insert id author
        authorLookup := d.authorLookup.insert author id } := by
  rw [authorId] at numbered
  split at numbered
  case h_1 id' known =>
    cases numbered
    exact .inl ⟨known, rfl⟩
  case h_2 unknown =>
    split at numbered
    case isFalse => cases numbered
    case isTrue room =>
      cases numbered
      exact .inr ⟨unknown, room, rfl, rfl⟩

theorem authorId_keeps {id : UInt16} (numbered : d.authorId author = some (id, d')) :
    d'.title = d.title ∧ d'.posts = d.posts ∧ ∀ name other,
      d.authorLookup.lookup name = some other → d'.authorLookup.lookup name = some other := by
  rcases authorId_cases numbered with ⟨-, rfl⟩ | ⟨unknown, -, -, rfl⟩
  · exact ⟨rfl, rfl, fun _ _ known => known⟩
  · refine ⟨rfl, rfl, fun name other known => ?_⟩
    have apart : name ≠ author := by
      rintro rfl
      rw [unknown] at known
      cases known
    exact (AList.lookup_insert_ne apart).trans known

/-- Every number that was given to a name is listed with that name. -/
def Listed (d : Dialogue) : Prop :=
  ∀ name id, d.authorLookup.lookup name = some id → d.authors.lookup id = some name

theorem Listed.authorId {id : UInt16} (listed : d.Listed) (named : d.WellNamed)
    (numbered : d.authorId author = some (id, d')) : d'.Listed := by
  rcases authorId_cases numbered with ⟨-, rfl⟩ | ⟨unknown, room, rfl, rfl⟩
  · exact listed
  · intro name id known
    by_cases same : name = author
    · subst same
      rw [AList.lookup_insert] at known
      rw [← Option.some.inj known]
      exact AList.lookup_insert _
    · -- The numbers of the others are smaller, so their entries are not replaced.
      rw [AList.lookup_insert_ne same] at known
      have apart : id ≠ d.lastAuthorId + 1 := by
        rintro rfl
        exact absurd (named.bounded known) (UInt16.not_le.mpr (lt_next room))
      exact (AList.lookup_insert_ne apart).trans (listed name id known)

end Dialogue

/-- A conversation, and the author and time of every post that was added to it so far. -/
structure Thread where
  dialogue : Dialogue
  /-- The posts that came, the first one in front; nothing reads it. -/
  arrivals : List (Text × Nat) := []

/-- An edit that succeeds; one that fails changes nothing. -/
inductive Edit : Thread → Thread → Prop
  | add {s : Thread} (author : Text) (timestamp : Nat) (text : Text) {d : Dialogue}
      (added : s.dialogue.postAdd author timestamp text = some d) :
      Edit s ⟨d, s.arrivals ++ [(author, timestamp)]⟩
  | update {s : Thread} (author : Text) (timestamp : Nat) (text : Text) {d : Dialogue}
      (updated : s.dialogue.postUpdate author timestamp text = some d) :
      Edit s { s with dialogue := d }
  | del {s : Thread} (index : Nat) {d : Dialogue} (deleted : s.dialogue.postDel index = some d) :
      Edit s { s with dialogue := d }

structure Tag where
  authorId : UInt16
  timestamp : Nat
  arrival : Nat

/-- The one is older than the other, or came first at the same time. -/
def Tag.Before (a b : Tag) : Prop :=
  a.timestamp < b.timestamp ∨ a.timestamp = b.timestamp ∧ a.arrival < b.arrival

namespace Thread

variable {s t : Thread}

/-- The tags name the posts one by one, and each names an arrival of the post's author and time. -/
structure Tagged (s : Thread) (tags : List Tag) : Prop where
  posts : tags.map (fun g => (g.authorId, g.timestamp))
    = s.dialogue.posts.map fun p => (p.authorId, p.timestamp)
  arrived : ∀ g ∈ tags, ∃ name, s.arrivals[g.arrival]? = some (name, g.timestamp)
    ∧ s.dialogue.authorLookup.lookup name = some g.authorId

/-- The posts stand in the order of their times, and those of one time in the order they came. -/
def InOrder (s : Thread) : Prop := ∃ tags, s.Tagged tags ∧ tags.Pairwise Tag.Before

structure Sound (s : Thread) : Prop where
  named : s.dialogue.WellNamed
  listed : s.dialogue.Listed
  few : s.dialogue.posts.length ≤ MAX_POSTS
  inOrder : s.InOrder

theorem InOrder.sorted (inOrder : s.InOrder) : Sorted s.dialogue.posts := by
  obtain ⟨tags, tagged, ordered⟩ := inOrder
  have times : (tags.map fun g => (g.authorId, g.timestamp)).Pairwise fun a b => a.2 ≤ b.2 := by
    refine List.pairwise_map.mpr (ordered.imp fun {a b} before => ?_)
    rcases before with older | ⟨same, -⟩
    · exact Nat.le_of_lt older
    · exact Nat.le_of_eq same
  rw [tagged.posts, List.pairwise_map] at times
  exact times

theorem sound_new (title : Text) : Sound ⟨Dialogue.new title, []⟩ where
  named := Dialogue.wellNamed_new title
  listed := fun name id known => by cases known
  few := Nat.zero_le _
  inOrder := ⟨[], ⟨rfl, fun g there => by cases there⟩, .nil⟩

theorem exists_tags_of_suffix {posts kept : List Post} {tags : List Tag} (suffix : kept <:+ posts)
    (same : tags.map (fun g => (g.authorId, g.timestamp))
      = posts.map fun p => (p.authorId, p.timestamp)) :
    ∃ tags' : List Tag, tags'.Sublist tags ∧ tags'.map (fun g => (g.authorId, g.timestamp))
      = kept.map fun p => (p.authorId, p.timestamp) := by
  obtain ⟨dropped, rfl⟩ := suffix
  rw [List.map_append, List.map_eq_append_iff] at same
  obtain ⟨front, tags', rfl, -, same⟩ := same
  exact ⟨tags', List.sublist_append_right front tags', same⟩

theorem Sound.add (sound : s.Sound) {author text : Text} {timestamp : Nat} {d : Dialogue}
    (added : s.dialogue.postAdd author timestamp text = some d) :
    Sound ⟨d, s.arrivals ++ [(author, timestamp)]⟩ := by
  have named := (Dialogue.postAdd_spec sound.named added).1
  obtain ⟨id, numbered, known, posts', result⟩ := Dialogue.postAdd_some added
  obtain ⟨-, posts, keeps⟩ := Dialogue.authorId_keeps known
  obtain ⟨-, -, author_, -⟩ := Dialogue.authorId_spec sound.named known
  have listed := sound.listed.authorId sound.named known
  have lookups : d.authorLookup = numbered.authorLookup := by
    rw [result]
  have authors : d.authors = numbered.authors := by
    rw [result]
  refine ⟨named, ?_, ?_, ?_⟩
  · intro name other lookup
    rw [lookups] at lookup
    rw [authors]
    exact listed name other lookup
  · rw [posts']
    exact Dialogue.capped_length_le numbered.title _
  obtain ⟨tags, tagged, ordered⟩ := sound.inOrder
  -- The tag of the new post goes where the post goes.
  have among : (tags.filter (fun g => g.timestamp ≤ timestamp)
      ++ ⟨id, timestamp, s.arrivals.length⟩
        :: tags.filter fun g => timestamp < g.timestamp).map (fun g => (g.authorId, g.timestamp))
      = (Dialogue.inserted numbered.posts ⟨id, timestamp, text⟩).map
        fun p => (p.authorId, p.timestamp) := by
    have half (keep : Nat → Bool) :
        (tags.filter fun g => keep g.timestamp).map (fun g => (g.authorId, g.timestamp))
          = (s.dialogue.posts.filter fun p => keep p.timestamp).map
            fun p => (p.authorId, p.timestamp) := by
      have cut := congrArg (List.filter fun key : UInt16 × Nat => keep key.2) tagged.posts
      rw [List.filter_map, List.filter_map] at cut
      exact cut
    rw [posts, sound.inOrder.sorted.inserted_eq, List.map_append, List.map_append, List.map_cons,
      List.map_cons, half (fun time => time ≤ timestamp), half (fun time => timestamp < time)]
  obtain ⟨tags', sub, same⟩ := exists_tags_of_suffix (Dialogue.capped_suffix numbered.title _) among
  have earlier : ∀ g ∈ tags, g.arrival < s.arrivals.length := by
    intro g there
    obtain ⟨name, arrived, -⟩ := tagged.arrived g there
    exact (List.getElem?_eq_some_iff.mp arrived).1
  refine ⟨tags', ⟨?_, ?_⟩, List.Pairwise.sublist sub ?_⟩
  · rw [posts']
    exact same
  · rw [lookups]
    intro g there
    rcases List.mem_append.mp (sub.subset there) with front | back
    case' inr => rcases List.mem_cons.mp back with rfl | back
    case inr.inl => exact ⟨author, by simp, author_⟩
    all_goals
      have old : g ∈ tags := List.mem_of_mem_filter ‹_›
      obtain ⟨name, arrived, lookup⟩ := tagged.arrived g old
      exact ⟨name, by rw [List.getElem?_append_left (earlier g old)]; exact arrived,
        keeps name _ lookup⟩
  · refine List.pairwise_append.mpr ⟨ordered.filter _, List.pairwise_cons.mpr
      ⟨?_, ordered.filter _⟩, ?_⟩
    · intro g later
      have time := List.of_mem_filter later
      exact .inl (by simpa using time)
    · intro g early h there
      have time : g.timestamp ≤ timestamp := by simpa using List.of_mem_filter early
      rcases List.mem_cons.mp there with rfl | later
      · -- It came last of all, so it stands behind the posts of its time.
        have first := earlier g (List.mem_of_mem_filter early)
        rw [Tag.Before]
        dsimp only
        omega
      · have after : timestamp < h.timestamp := by simpa using List.of_mem_filter later
        exact .inl (Nat.lt_of_le_of_lt time after)

theorem postAdd_split (sound : s.Sound) {author text : Text} {timestamp : Nat} {d : Dialogue}
    (added : s.dialogue.postAdd author timestamp text = some d) :
    ∃ id dropped, d.authorLookup.lookup author = some id ∧
      dropped ++ d.posts = Dialogue.inserted s.dialogue.posts ⟨id, timestamp, text⟩ := by
  obtain ⟨id, numbered, known, posts', result⟩ := Dialogue.postAdd_some added
  obtain ⟨-, posts, -⟩ := Dialogue.authorId_keeps known
  obtain ⟨-, -, author_, -⟩ := Dialogue.authorId_spec sound.named known
  obtain ⟨dropped, split⟩ := Dialogue.capped_suffix numbered.title
    (Dialogue.inserted numbered.posts ⟨id, timestamp, text⟩)
  refine ⟨id, dropped, ?_, ?_⟩
  · rw [result]
    exact author_
  · rw [posts', ← posts]
    exact split

theorem Sound.update (sound : s.Sound) {author text : Text} {timestamp : Nat} {d : Dialogue}
    (updated : s.dialogue.postUpdate author timestamp text = some d) :
    Sound { s with dialogue := d } := by
  have named := sound.named.postUpdate updated
  obtain ⟨i, p, there, -, -, rfl⟩ := Dialogue.postUpdate_spec updated
  obtain ⟨inside, value⟩ := List.getElem?_eq_some_iff.mp there
  refine ⟨named, sound.listed, ?_, ?_⟩
  · change (s.dialogue.posts.set i { p with text }).length ≤ MAX_POSTS
    rw [List.length_set]
    exact sound.few
  · obtain ⟨tags, tagged, ordered⟩ := sound.inOrder
    refine ⟨tags, ⟨?_, tagged.arrived⟩, ordered⟩
    have same : (s.dialogue.posts.set i { p with text }).map (fun p => (p.authorId, p.timestamp))
        = s.dialogue.posts.map fun p => (p.authorId, p.timestamp) := by
      refine List.ext_getElem? fun j => ?_
      rw [List.getElem?_map, List.getElem?_map, List.getElem?_set]
      split_ifs with here
      · rw [← here, there]
        rfl
      · rfl
    exact tagged.posts.trans same.symm

theorem Sound.del (sound : s.Sound) {index : Nat} {d : Dialogue}
    (deleted : s.dialogue.postDel index = some d) : Sound { s with dialogue := d } := by
  rw [Dialogue.postDel] at deleted
  split at deleted
  case isFalse => cases deleted
  case isTrue inside =>
    obtain rfl := Option.some.inj deleted
    have fewer := List.eraseIdx_sublist s.dialogue.posts index
    refine ⟨⟨sound.named.bounded, sound.named.injective, fun p there =>
      sound.named.named p (fewer.subset there)⟩, sound.listed,
      Nat.le_trans fewer.length_le sound.few, ?_⟩
    obtain ⟨tags, tagged, ordered⟩ := sound.inOrder
    refine ⟨tags.eraseIdx index, ⟨?_, fun g there => ?_⟩, ?_⟩
    · change (tags.eraseIdx index).map _ = (s.dialogue.posts.eraseIdx index).map _
      rw [← List.eraseIdx_map, ← List.eraseIdx_map, tagged.posts]
    · exact tagged.arrived g ((List.eraseIdx_sublist tags index).subset there)
    · exact List.Pairwise.sublist (List.eraseIdx_sublist tags index) ordered

theorem Sound.edit (sound : s.Sound) (edit : Edit s t) : t.Sound := by
  cases edit with
  | add author timestamp text added => exact sound.add added
  | update author timestamp text updated => exact sound.update updated
  | del index deleted => exact sound.del deleted

theorem sound_run {title : Text} (run : ReflTransGen Edit ⟨Dialogue.new title, []⟩ s) : s.Sound :=
  reachable_of_keeps (I := Sound) (fun _ _ sound edit => sound.edit edit) (sound_new title) run

/--
The structure of a conversation, after any sequence of edits.

The posts stand in the order of their times and, at one time, of their arrival; they are no more
than a conversation keeps, and every number of an author belongs to one name.
A post is found at the least index it has, an update changes that post's text only, and what is
dropped for a new post is no newer than what is kept.
Since the posts are sorted, halving finds the places that a walk from the front would find.
-/
theorem dialogue_structure {title : Text}
    (run : ReflTransGen Edit ⟨Dialogue.new title, []⟩ s) :
    s.InOrder ∧ Sorted s.dialogue.posts ∧ s.dialogue.posts.length ≤ MAX_POSTS ∧
    (∀ p ∈ s.dialogue.posts, (s.dialogue.authors.lookup p.authorId).isSome) ∧
    (∀ name id, s.dialogue.authorLookup.lookup name = some id →
      s.dialogue.authors.lookup id = some name) ∧
    (∀ name name' id, s.dialogue.authorLookup.lookup name = some id →
      s.dialogue.authorLookup.lookup name' = some id → name = name') ∧
    (∀ author timestamp,
      (∀ i, s.dialogue.postFind author timestamp = some i ↔
        (∃ p, s.dialogue.posts[i]? = some p ∧ p.timestamp = timestamp
          ∧ s.dialogue.By p author) ∧
        ∀ j < i, ∀ p, s.dialogue.posts[j]? = some p →
          ¬ (p.timestamp = timestamp ∧ s.dialogue.By p author)) ∧
      (s.dialogue.postFind author timestamp = none ↔
        ∀ p ∈ s.dialogue.posts, ¬ (p.timestamp = timestamp ∧ s.dialogue.By p author)) ∧
      ∀ text, s.dialogue.postUpdate author timestamp text
        = (s.dialogue.postFind author timestamp).bind fun i => s.dialogue.posts[i]?.map fun p =>
          { s.dialogue with posts := s.dialogue.posts.set i { p with text } }) ∧
    (∀ author timestamp text d, s.dialogue.postAdd author timestamp text = some d →
      ∃ id dropped, d.authorLookup.lookup author = some id ∧
        dropped ++ d.posts = s.dialogue.posts.filter (fun p => p.timestamp ≤ timestamp)
          ++ ⟨id, timestamp, text⟩ :: s.dialogue.posts.filter (fun p => timestamp < p.timestamp) ∧
        ∀ p ∈ dropped, ∀ q ∈ d.posts, p.timestamp ≤ q.timestamp) ∧
    ∀ timestamp, bisectPoint (fun p => decide (p.timestamp ≤ timestamp)) s.dialogue.posts
        = Dialogue.partitionPoint (fun p => p.timestamp ≤ timestamp) s.dialogue.posts ∧
      bisectPoint (fun p => decide (p.timestamp < timestamp)) s.dialogue.posts
        = Dialogue.partitionPoint (fun p => p.timestamp < timestamp) s.dialogue.posts := by
  have sound := sound_run run
  have sorted := sound.inOrder.sorted
  refine ⟨sound.inOrder, sorted, sound.few, ?_, sound.listed,
    fun _ _ _ => sound.named.injective, ?_, ?_, fun timestamp =>
      ⟨sorted.bisectPoint_upTo timestamp, sorted.bisectPoint_before timestamp⟩⟩
  · intro p there
    obtain ⟨name, under⟩ := sound.named.named p there
    rw [sound.listed name _ under]
    rfl
  · intro author timestamp
    exact ⟨fun i => Dialogue.postFind_eq_some_iff sorted, Dialogue.postFind_eq_none_iff sorted,
      fun text => s.dialogue.postUpdate_eq author timestamp text⟩
  · intro author timestamp text d added
    obtain ⟨id, dropped, author_, split⟩ := postAdd_split sound added
    refine ⟨id, dropped, author_, ?_, ?_⟩
    · rw [split, sorted.inserted_eq]
    · -- The posts were sorted with the new one among them, and the dropped ones stood in front.
      have whole := sorted.inserted ⟨id, timestamp, text⟩
      rw [← split] at whole
      exact (List.pairwise_append.mp whole).2.2

/-- A conversation with one post. -/
theorem dialogue_structure_single : ∃ d, (Dialogue.new []).postAdd SELF_AUTHOR 7 [] = some d ∧
    Sorted d.posts ∧ d.posts.length ≤ MAX_POSTS := by
  have added : (Dialogue.new []).postAdd SELF_AUTHOR 7 []
      = some _ := rfl
  obtain ⟨-, sorted, few, -⟩ := dialogue_structure (.single (.add SELF_AUTHOR 7 [] added))
  exact ⟨_, added, sorted, few⟩

/-- Whether the new post is there depends on the newer posts only. -/
theorem Sound.kept_iff (sound : s.Sound) {author text : Text} {timestamp : Nat} {d : Dialogue}
    (added : s.dialogue.postAdd author timestamp text = some d) :
    (∃ p ∈ d.posts, p.timestamp = timestamp ∧ p.text = text ∧ d.By p author) ↔
      (∀ p ∈ s.dialogue.posts, p.timestamp ≤ timestamp) ∨
      s.dialogue.posts.countP (fun p => timestamp < p.timestamp) < MAX_POSTS ∧
      (utf8Encode s.dialogue.title).length + 512 + ((utf8Encode text).length + PER_POST_OVERHEAD)
        + ((s.dialogue.posts.filter fun p => timestamp < p.timestamp).map Post.size).sum
          ≤ BYTE_BUDGET := by
  obtain ⟨id, numbered, known, posts', result⟩ := Dialogue.postAdd_some added
  obtain ⟨title', posts, -⟩ := Dialogue.authorId_keeps known
  obtain ⟨-, -, author_, -⟩ := Dialogue.authorId_spec sound.named known
  have under : d.authorLookup.lookup author = some id := by
    rw [result]
    exact author_
  -- A post of this author, time and text can only be the new one: no newer post has its time.
  have apart : (⟨id, timestamp, text⟩ : Post)
      ∉ s.dialogue.posts.filter fun p => timestamp < p.timestamp := by
    intro there
    have newer := List.of_mem_filter there
    simp at newer
  have kept := Dialogue.mem_capped_iff s.dialogue.title
    (s.dialogue.posts.filter fun p => p.timestamp ≤ timestamp) apart
  rw [posts, title', sound.inOrder.sorted.inserted_eq] at posts'
  rw [← posts'] at kept
  have found : (∃ p ∈ d.posts, p.timestamp = timestamp ∧ p.text = text ∧ d.By p author)
      ↔ ⟨id, timestamp, text⟩ ∈ d.posts := by
    constructor
    · rintro ⟨p, there, rfl, rfl, by_⟩
      rw [Dialogue.By, under] at by_
      rw [Option.some.inj by_]
      exact there
    · intro there
      exact ⟨_, there, rfl, rfl, under⟩
  rw [found, kept, List.filter_eq_nil_iff, ← List.countP_eq_length_filter, List.map_cons,
    List.sum_cons, ← Nat.add_assoc]
  simp only [decide_eq_true_eq, Nat.not_lt]
  rfl

/--
A new post is kept exactly if no post is newer, or the newer ones are few and small enough.

The post is inserted by its time and the oldest are dropped first, so what counts is how many
posts come after it and how much room they take together with it.
-/
theorem new_post_kept_iff {title author text : Text} {timestamp : Nat} {d : Dialogue}
    (run : ReflTransGen Edit ⟨Dialogue.new title, []⟩ s)
    (added : s.dialogue.postAdd author timestamp text = some d) :
    (∃ p ∈ d.posts, p.timestamp = timestamp ∧ p.text = text ∧ d.By p author) ↔
      (∀ p ∈ s.dialogue.posts, p.timestamp ≤ timestamp) ∨
      s.dialogue.posts.countP (fun p => timestamp < p.timestamp) < MAX_POSTS ∧
      (utf8Encode s.dialogue.title).length + 512 + ((utf8Encode text).length + PER_POST_OVERHEAD)
        + ((s.dialogue.posts.filter fun p => timestamp < p.timestamp).map Post.size).sum
          ≤ BYTE_BUDGET :=
  (sound_run run).kept_iff added

def letters (count : Nat) : Text := List.replicate count 'a'

theorem utf8Encode_letters (count : Nat) : (utf8Encode (letters count)).length = count := by
  rw [letters, utf8Encode, List.length_flatMap, List.map_replicate, List.sum_replicate_nat]
  exact Nat.mul_one count

def onePost (text : Text) : Dialogue :=
  { Dialogue.new [] with
    posts := [⟨2, 1, text⟩]
    authors := (Dialogue.new []).authors.insert 2 SELF_AUTHOR
    authorLookup := (Dialogue.new []).authorLookup.insert SELF_AUTHOR 2
    lastAuthorId := 2 }

theorem onePost_added (text : Text) : Edit ⟨Dialogue.new [], []⟩
    ⟨onePost text, [(SELF_AUTHOR, 1)]⟩ :=
  .add SELF_AUTHOR 1 text rfl

/-- A newer post is kept. -/
theorem new_post_kept_iff_newer : ∃ d, (onePost ['a']).postAdd SELF_AUTHOR 2 ['x'] = some d ∧
    ∃ p ∈ d.posts, p.timestamp = 2 ∧ p.text = ['x'] ∧ d.By p SELF_AUTHOR := by
  obtain ⟨d, added⟩ : ∃ d, (onePost ['a']).postAdd SELF_AUTHOR 2 ['x'] = some d := ⟨_, rfl⟩
  refine ⟨d, added, ?_⟩
  refine (new_post_kept_iff (.single (onePost_added ['a'])) added).mpr (.inl ?_)
  intro p there
  rw [List.mem_singleton.mp there]
  decide

theorem lost_behind_large {text : Text} (large : BYTE_BUDGET < (utf8Encode text).length + 512) :
    ∃ d, (onePost text).postAdd SELF_AUTHOR 0 ['x'] = some d ∧
      ¬ ∃ p ∈ d.posts, p.timestamp = 0 ∧ p.text = ['x'] ∧ d.By p SELF_AUTHOR := by
  obtain ⟨d, added⟩ : ∃ d, (onePost text).postAdd SELF_AUTHOR 0 ['x'] = some d := ⟨_, rfl⟩
  refine ⟨d, added, ?_⟩
  rw [(sound_run (.single (onePost_added text))).kept_iff added]
  rintro (newest | ⟨-, fits⟩)
  · exact Nat.not_succ_le_zero 0 (newest _ List.mem_cons_self)
  · -- The newer post and the new one do not fit the budget together.
    have newer : (onePost text).posts.filter (fun p => decide (0 < p.timestamp))
        = [⟨2, 1, text⟩] := rfl
    rw [newer, List.map_singleton, List.sum_singleton, Post.size] at fits
    dsimp only at fits
    omega

/-- An older post is lost, although it is reported as added. -/
theorem older_post_lost : ∃ s d, ReflTransGen Edit ⟨Dialogue.new [], []⟩ s ∧
    s.dialogue.postAdd SELF_AUTHOR 0 ['x'] = some d ∧
    ¬ ∃ p ∈ d.posts, p.timestamp = 0 ∧ p.text = ['x'] ∧ d.By p SELF_AUTHOR := by
  have large : BYTE_BUDGET < (utf8Encode (letters 57000)).length + 512 := by
    rw [utf8Encode_letters]
    decide
  obtain ⟨d, lost⟩ := lost_behind_large large
  exact ⟨_, d, .single (onePost_added _), lost⟩

end Thread

end LxmfChat
