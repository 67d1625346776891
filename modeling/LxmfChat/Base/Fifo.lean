import LxmfChat.Base.Capped
import LxmfChat.Base.Runs

/-! Capped tables whose queue is kept in step with their entries, and the order of that queue. -/

namespace Base.Capped

variable {K V : Type*} [DecidableEq K]

theorem order_evict (cap : Nat) (newest : K) (order : List K) (table : Table K V) :
    (evict cap newest order table).order = order.drop (order.length - cap) := by
  -- The table shrinks as the queue is walked, so it stays quantified over.
  induction order generalizing table with
  | nil => simp [evict]
  | cons old rest ih =>
    rw [evict]
    split
    case isTrue excess =>
      -- One key goes, and the rest of the queue still has the others to lose.
      have count : (old :: rest).length - cap = (rest.length - cap) + 1 := by
        rw [List.length_cons] at excess ⊢
        omega
      rw [ih, count, List.drop_succ_cons]
    case isFalse within =>
      have stay : (old :: rest).length - cap = 0 := by omega
      rw [stay, List.drop_zero]

theorem get_evict {cap : Nat} {newest key : K} (differ : key ≠ newest) (order : List K)
    (table : Table K V) :
    (evict cap newest order table).get key
      = if key ∈ order.take (order.length - cap) then none else table.lookup key := by
  induction order generalizing table with
  | nil => simp [evict, get]
  | cons old rest ih =>
    rw [evict]
    split
    case isTrue excess =>
      have count : (old :: rest).length - cap = (rest.length - cap) + 1 := by
        rw [List.length_cons] at excess ⊢
        omega
      rw [ih, count, List.take_succ_cons]
      -- The key at the front goes unless it is the newest one.
      by_cases front : key = old
      · subst front
        simp [differ, AList.lookup_erase]
      · have kept : (if old ≠ newest then table.erase old else table).lookup key
            = table.lookup key := by
          split
          · exact AList.lookup_erase_ne front
          · rfl
        rw [kept]
        simp [front]
    case isFalse within =>
      have stay : (old :: rest).length - cap = 0 := by omega
      rw [stay, List.take_zero, if_neg (List.not_mem_nil)]
      rfl

theorem insert_of_isSome {cap : Nat} {key : K} {value : V} {c : Capped K V}
    (there : (c.get key).isSome) : c.insert cap key value = ⟨c.table.insert key value, c.order⟩ := by
  rw [insert, if_neg]
  simpa [Option.isSome_iff_ne_none] using there

theorem order_insert_of_none {cap : Nat} {key : K} {value : V} {c : Capped K V} (positive : 0 < cap)
    (absent : c.get key = none) :
    (c.insert cap key value).order = c.order.drop (c.order.length + 1 - cap) ++ [key] := by
  rw [insert, if_pos (by simp [absent]), order_evict, List.length_append, List.length_singleton]
  exact List.drop_append_of_le_length (by omega)

theorem get_insert_of_none {cap : Nat} {key other : K} {value : V} {c : Capped K V}
    (positive : 0 < cap) (absent : c.get key = none) (differ : other ≠ key) :
    (c.insert cap key value).get other
      = if other ∈ c.order.take (c.order.length + 1 - cap) then none else c.get other := by
  rw [insert, if_pos (by simp [absent]), get_evict differ, List.length_append,
    List.length_singleton, List.take_append_of_le_length (by omega),
    AList.lookup_insert_ne differ]
  rfl

/-- Every key stands in the queue, and the queue is no longer than the cap. -/
structure Bounded (cap : Nat) (c : Capped K V) : Prop where
  queued : ∀ key, (c.get key).isSome → key ∈ c.order
  short : c.order.length ≤ cap

namespace Bounded

variable {cap : Nat} {c d : Capped K V}

theorem size (bounded : Bounded cap c) : c.table.entries.length ≤ cap := by
  have within : c.table.keys ⊆ c.order := by
    intro key there
    exact bounded.queued key (AList.lookup_isSome.mpr (AList.mem_keys.mpr there))
  have count : c.table.keys.length ≤ c.order.length :=
    (c.table.keys_nodup.subperm within).length_le
  have entries : c.table.entries.length = c.table.keys.length := (List.length_map _).symm
  have short := bounded.short
  omega

theorem empty (cap : Nat) : Bounded cap (.empty : Capped K V) where
  queued _ there := nomatch there
  short := Nat.zero_le cap

theorem of_get (bounded : Bounded cap c) (order : d.order = c.order)
    (fewer : ∀ key, (d.get key).isSome → (c.get key).isSome) : Bounded cap d :=
  ⟨fun key there => order ▸ bounded.queued key (fewer key there), order ▸ bounded.short⟩

theorem same (bounded : Bounded cap c) (same : c.Same d) : Bounded cap d :=
  bounded.of_get same.2.symm fun key there => by rwa [same.get key]

theorem remove (bounded : Bounded cap c) (key : K) : Bounded cap (c.remove key) := by
  refine bounded.of_get rfl fun other there => ?_
  rw [get_remove] at there
  split at there
  · cases there
  · exact there

theorem forget (bounded : Bounded cap c) (key : K) : Bounded cap (c.forget key) := by
  refine ⟨fun other there => ?_, (List.length_filter_le _ _).trans bounded.short⟩
  rw [get_forget] at there
  split at there
  case isTrue => cases there
  case isFalse differ => exact List.mem_filter.mpr ⟨bounded.queued other there, by simpa using differ⟩

theorem foldl_forget (bounded : Bounded cap c) (keys : List K) :
    Bounded cap (keys.foldl (fun table key => table.forget key) c) := by
  induction keys generalizing c with
  | nil => exact bounded
  | cons key rest ih => exact ih (bounded.forget key)

theorem insert (positive : 0 < cap) (bounded : Bounded cap c) (key : K) (value : V) :
    Bounded cap (c.insert cap key value) := by
  cases held : c.get key with
  | some old =>
    -- Only the value of a key that is already queued changes.
    rw [insert_of_isSome (by simp [held])]
    refine ⟨fun other there => ?_, bounded.short⟩
    by_cases same : other = key
    · exact same ▸ bounded.queued key (by simp [held])
    · rw [get, AList.lookup_insert_ne same] at there
      exact bounded.queued other there
  | none =>
    have short := bounded.short
    refine ⟨fun other there => ?_, ?_⟩
    · rw [order_insert_of_none positive held]
      by_cases same : other = key
      · simp [same]
      · -- A key that keeps its entry was queued, and not among those that left the queue.
        rw [get_insert_of_none positive held same] at there
        split at there
        case isTrue => cases there
        case isFalse stays =>
          have before := bounded.queued other there
          rw [← List.take_append_drop (c.order.length + 1 - cap) c.order] at before
          exact List.mem_append_left _ ((List.mem_append.mp before).resolve_left stays)
    · rw [order_insert_of_none positive held, List.length_append, List.length_drop,
        List.length_singleton]
      omega

end Bounded

/-- Every key stands in the queue, and neither the queue nor the table is larger than the cap. -/
structure Confined (cap : Nat) (c : Capped K V) : Prop extends Bounded cap c where
  size : c.table.entries.length ≤ cap

theorem Bounded.confined {cap : Nat} {c : Capped K V} (bounded : Bounded cap c) : Confined cap c :=
  ⟨bounded, bounded.size⟩

/-- The queue lists exactly the keys of the table, each once, and is no longer than the cap. -/
structure Exact (cap : Nat) (c : Capped K V) : Prop where
  listed : ∀ key, key ∈ c.order ↔ (c.get key).isSome
  once : c.order.Nodup
  short : c.order.length ≤ cap

theorem Exact.bounded {cap : Nat} {c : Capped K V} (exact : Exact cap c) : Bounded cap c :=
  ⟨fun key => (exact.listed key).mpr, exact.short⟩

/--
The queue moved on: keys left it wherever they stood, and at most one new key joined at the end.
-/
def Follows (c d : Capped K V) : Prop :=
  ∃ kept new, d.order = kept ++ new ∧ kept.Sublist c.order ∧ new.length ≤ 1
    ∧ ∀ key ∈ new, c.get key = none

theorem Follows.of_sublist {c d : Capped K V} (fewer : d.order.Sublist c.order) : Follows c d :=
  ⟨d.order, [], (List.append_nil _).symm, fewer, Nat.zero_le 1, fun _ there => nomatch there⟩

/-- A change that keeps the queue exact and moves it on. -/
def Evolves (cap : Nat) (c d : Capped K V) : Prop := Exact cap c → Exact cap d ∧ Follows c d

namespace Evolves

variable {cap : Nat} {c d : Capped K V}

theorem refl (cap : Nat) (c : Capped K V) : Evolves cap c c :=
  fun exact => ⟨exact, .of_sublist (List.Sublist.refl _)⟩

theorem of_filter (keep : K → Bool) (order : d.order = c.order.filter keep)
    (entries : ∀ key, (d.get key).isSome ↔ (c.get key).isSome ∧ keep key = true) :
    Evolves cap c d := by
  intro exact
  have fewer : d.order.Sublist c.order := order ▸ List.filter_sublist
  refine ⟨⟨fun key => ?_, exact.once.sublist fewer, fewer.length_le.trans exact.short⟩,
    .of_sublist fewer⟩
  rw [order, List.mem_filter, exact.listed, entries]

theorem clear (cap : Nat) (c : Capped K V) : Evolves cap c empty :=
  fun _ => ⟨⟨fun key => by simp [empty, get], List.nodup_nil, Nat.zero_le cap⟩,
    .of_sublist (List.nil_sublist _)⟩

theorem of_same (same : c.Same d) : Evolves cap c d :=
  of_filter (fun _ => true) (by rw [List.filter_true, same.2]) fun key => by simp [same.get key]

theorem modify (evolves : Evolves cap c d) (key : K) (change : V → V) :
    Evolves cap c (d.modify key change) := by
  intro exact
  obtain ⟨after, follows⟩ := evolves exact
  refine ⟨⟨fun other => ?_, after.once, after.short⟩, follows⟩
  exact (after.listed other).trans (by simp [get_modify])

theorem foldl_forget (cap : Nat) (c : Capped K V) (keys : List K) :
    Evolves cap c (keys.foldl (fun table key => table.forget key) c) := by
  refine of_filter (fun key => key ∉ keys) ?_ fun key => ?_
  · -- The filters of the single steps add up.
    induction keys generalizing c with
    | nil => simp
    | cons key rest ih =>
      rw [List.foldl_cons, ih, forget, List.filter_filter]
      exact List.filter_congr fun other _ => by by_cases same : other = key <;> simp [same]
  · rw [get_foldl_forget]
    by_cases there : key ∈ keys <;> simp [there]

theorem forget (cap : Nat) (c : Capped K V) (key : K) : Evolves cap c (c.forget key) :=
  foldl_forget cap c [key]

theorem retain (cap : Nat) (c : Capped K V) (keep : V → Bool) : Evolves cap c (c.retain keep) := by
  refine of_filter (fun key => ((c.table.retain keep).lookup key).isSome) rfl fun key => ?_
  constructor
  · intro there
    obtain ⟨value, held⟩ := Option.isSome_iff_exists.mp there
    exact ⟨Option.isSome_iff_exists.mpr ⟨value, Table.lookup_of_lookup_retain held⟩, there⟩
  · exact fun both => both.2

theorem insert (positive : 0 < cap) (c : Capped K V) (key : K) (value : V) :
    Evolves cap c (c.insert cap key value) := by
  intro exact
  have bounded := exact.bounded.insert positive key value
  cases held : c.get key with
  | some old =>
    -- The key keeps its place in the queue.
    rw [insert_of_isSome (by simp [held])] at bounded ⊢
    refine ⟨⟨fun other => ⟨fun there => ?_, bounded.queued other⟩, exact.once, exact.short⟩,
      .of_sublist (List.Sublist.refl _)⟩
    by_cases same : other = key
    · rw [get, same, AList.lookup_insert]
      rfl
    · rw [get, AList.lookup_insert_ne same]
      exact (exact.listed other).mp there
  | none =>
    have order : (c.insert cap key value).order = _ := order_insert_of_none positive held
    have absent : key ∉ c.order := fun there => by simpa [held] using (exact.listed key).mp there
    have fewer := List.drop_sublist (c.order.length + 1 - cap) c.order
    refine ⟨⟨fun other => ⟨fun there => ?_, bounded.queued other⟩, ?_, bounded.short⟩, ?_⟩
    · by_cases same : other = key
      · simp [same]
      · -- A key that stays in the queue is not among those that left it, since it stands there once.
        rw [order, List.mem_append] at there
        have stays := there.resolve_right (by simpa using same)
        have notLeft : other ∉ c.order.take (c.order.length + 1 - cap) := by
          intro left
          have once := exact.once
          rw [← List.take_append_drop (c.order.length + 1 - cap) c.order] at once
          exact (List.disjoint_of_nodup_append once) left stays
        rw [get_insert_of_none positive held same, if_neg notLeft]
        exact (exact.listed other).mp (fewer.subset stays)
    · rw [order]
      exact (exact.once.sublist fewer).append (List.nodup_singleton key)
        (List.disjoint_singleton.mpr fun there => absent (fewer.subset there))
    · exact ⟨_, [key], order, fewer, le_rfl, fun other there => List.mem_singleton.mp there ▸ held⟩

end Evolves

/-- An insertion of a new key into a full table evicts the oldest key and no other. -/
def EvictsOldest (cap : Nat) (c : Capped K V) : Prop :=
  ∀ key value oldest rest, c.get key = none → c.order.length = cap → c.order = oldest :: rest →
    (c.insert cap key value).order = rest ++ [key]
      ∧ ∀ other, (c.insert cap key value).get other
          = if other = oldest then none else if other = key then some value else c.get other

theorem Exact.evictsOldest {cap : Nat} {c : Capped K V} (exact : Exact cap c)
    (positive : 0 < cap) : EvictsOldest cap c := by
  intro key value oldest rest absent full queue
  -- The new key makes the queue one too long.
  have one : c.order.length + 1 - cap = 1 := by omega
  have differ : oldest ≠ key := by
    intro same
    have there := (exact.listed oldest).mp (by simp [queue])
    rw [same, absent] at there
    cases there
  refine ⟨by rw [order_insert_of_none positive absent, one, queue]; rfl, fun other => ?_⟩
  by_cases same : other = key
  · rw [same, get_insert_self, if_neg differ.symm, if_pos rfl]
  · rw [get_insert_of_none positive absent same, one, queue, if_neg same]
    simp

def evicted (cap : Nat) (key : K) (c : Capped K V) : Option K :=
  if (c.get key).isNone ∧ c.order.length = cap then c.order.head? else none

theorem Exact.get_insert_evicted {cap : Nat} {c : Capped K V} (exact : Exact cap c)
    (positive : 0 < cap) {key other : K} (lost : other ∈ c.evicted cap key) (value : V) :
    (c.insert cap key value).get other = none := by
  rw [evicted, Option.mem_def] at lost
  split at lost
  case isFalse => cases lost
  case isTrue excess =>
    obtain ⟨rest, queue⟩ := List.head?_eq_some_iff.mp lost
    have stands := (exact.evictsOldest positive key value other rest (by simpa using excess.1)
      excess.2 queue).2 other
    rwa [if_pos rfl] at stands

theorem Exact.isSome_get_insert {cap : Nat} {c : Capped K V} (exact : Exact cap c)
    (positive : 0 < cap) {key other : K} (kept : other ∉ c.evicted cap key)
    (held : (c.get other).isSome) (value : V) : ((c.insert cap key value).get other).isSome := by
  by_cases same : other = key
  · rw [same, get_insert_self]
    rfl
  by_cases excess : (c.get key).isNone ∧ c.order.length = cap
  · -- A full queue is not empty, so there is an oldest key to lose.
    obtain ⟨oldest, rest, queue⟩ := List.exists_cons_of_length_pos (excess.2 ▸ positive)
    have stands := (exact.evictsOldest positive key value oldest rest (by simpa using excess.1)
      excess.2 queue).2 other
    rw [evicted, if_pos excess, queue] at kept
    have differ : other ≠ oldest := fun left => kept (by simp [left])
    rw [stands, if_neg differ, if_neg same]
    exact held
  · have room : c.order.length < cap ∨ (c.get key).isSome := by
      by_cases new : (c.get key).isNone
      · exact .inl (lt_of_le_of_ne exact.short fun full => excess ⟨new, full⟩)
      · exact .inr (by simpa [Option.isSome_iff_ne_none] using new)
    rw [get_insert_ne same room]
    exact held

/--
One key came before another: there was a moment when it was in the table and the other was not,
and it has been in the table ever since.

The tables are those of a run so far, the latest first.
-/
def Precedes (history : List (Capped K V)) (first second : K) : Prop :=
  ∃ later c earlier, history = later ++ c :: earlier ∧ (c.get first).isSome ∧ c.get second = none
    ∧ ∀ d ∈ later, (d.get first).isSome

/-- The queue is exact and its keys stand in it in the order they came. -/
structure InOrder (cap : Nat) (c : Capped K V) (past : List (Capped K V)) : Prop
    extends Exact cap c where
  arrival : ∀ first second, [first, second].Sublist c.order → Precedes (c :: past) first second

theorem InOrder.start (cap : Nat) (past : List (Capped K V)) : InOrder cap empty past where
  listed key := by simp [empty, get]
  once := List.nodup_nil
  short := Nat.zero_le cap
  arrival _ _ pair := by cases pair

theorem sublist_pair_append {first second : K} {kept new : List K} (single : new.length ≤ 1)
    (pair : [first, second].Sublist (kept ++ new)) :
    [first, second].Sublist kept ∨ (first ∈ kept ∧ second ∈ new) := by
  obtain ⟨left, right, whole, inKept, inNew⟩ := List.sublist_append_iff.mp pair
  have few := inNew.length_le
  match left, whole with
  | [], whole =>
    rw [List.nil_append] at whole
    subst whole
    simp at few
    omega
  | [a], whole =>
    simp at whole
    obtain ⟨rfl, rfl⟩ := whole
    exact .inr ⟨by simpa using inKept, by simpa using inNew⟩
  | a :: b :: rest, whole =>
    simp at whole
    obtain ⟨rfl, rfl, rfl, -⟩ := whole
    exact .inl inKept

theorem InOrder.next {cap : Nat} {c d : Capped K V} {past : List (Capped K V)}
    (inOrder : InOrder cap c past) (evolves : Evolves cap c d) : InOrder cap d (c :: past) := by
  obtain ⟨exact, kept, new, order, fewer, single, fresh⟩ := evolves inOrder.toExact
  refine { exact with arrival := fun first second pair => ?_ }
  have there : (d.get first).isSome := (exact.listed first).mp (pair.subset (by simp))
  rw [order] at pair
  rcases sublist_pair_append single pair with before | ⟨old, joined⟩
  · -- Both were there before, in this order.
    obtain ⟨later, e, earlier, whole, held, absent, since⟩ :=
      inOrder.arrival first second (before.trans fewer)
    refine ⟨d :: later, e, earlier, by rw [whole]; rfl, held, absent, ?_⟩
    intro f within
    rcases List.mem_cons.mp within with latest | older
    · exact latest ▸ there
    · exact since f older
  · -- The second key joined just now, when the first was there.
    refine ⟨[d], c, past, rfl, ?_, fresh second joined, ?_⟩
    · exact (inOrder.listed first).mp (fewer.subset old)
    · intro f within
      exact List.mem_singleton.mp within ▸ there

end Base.Capped
