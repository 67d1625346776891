import Mathlib.Data.List.Basic
import Mathlib.Data.List.TakeWhile

/-! Binary search for the place where a list changes over from one kind of item to the other. -/

namespace Base

variable {α : Type*} {before : α → Bool} {items : List α}

/-- Halve a range until one item is left, keeping the upper half if its first item comes before. -/
def bisect (before : α → Bool) (items : List α) (base size : Nat) : Nat :=
  if 1 < size then
    bisect before items (if items[base + size / 2]?.any before then base + size / 2 else base)
      (size - size / 2)
  else base
termination_by size
decreasing_by omega

def bisectPoint (before : α → Bool) (items : List α) : Nat :=
  if items.isEmpty then 0
  else if items[bisect before items 0 items.length]?.any before then
    bisect before items 0 items.length + 1
  else bisect before items 0 items.length

/-- The first items come before, up to the point, and no others. -/
structure ChangesAt (before : α → Bool) (items : List α) (point : Nat) : Prop where
  within : point ≤ items.length
  exact : ∀ i < items.length, items[i]?.any before = true ↔ i < point

theorem ChangesAt.bisect_spec {point : Nat} (changes : ChangesAt before items point) (base size : Nat)
    (some : 0 < size) (inside : base + size ≤ items.length) (low : base = 0 ∨ base < point)
    (high : point ≤ base + size) :
    bisect before items base size < items.length
      ∧ (bisect before items base size = 0 ∨ bisect before items base size < point)
      ∧ point ≤ bisect before items base size + 1 := by
  -- The induction follows the halving; the point stays in the range throughout.
  fun_induction bisect before items base size with
  | case1 base size large ih =>
    have middle := changes.exact (base + size / 2) (by omega)
    by_cases upper : items[base + size / 2]?.any before = true
    · have here := middle.mp upper
      rw [dif_pos upper] at ih
      rw [if_pos upper]
      exact ih (by omega) (by omega) (.inr here) (by omega)
    · have beyond : ¬ base + size / 2 < point := fun here => upper (middle.mpr here)
      rw [dif_neg upper] at ih
      rw [if_neg upper]
      exact ih (by omega) (by omega) low (by omega)
  | case2 base size single =>
    exact ⟨by omega, low, by omega⟩

theorem ChangesAt.bisectPoint {point : Nat} (changes : ChangesAt before items point) :
    bisectPoint before items = point := by
  have within := changes.within
  rw [Base.bisectPoint]
  split
  case isTrue empty =>
    rw [List.isEmpty_iff] at empty
    subst empty
    exact (Nat.le_zero.mp within).symm
  case isFalse filled =>
    have some : 0 < items.length := by
      rw [List.isEmpty_iff] at filled
      exact List.length_pos_iff.mpr filled
    obtain ⟨inside, low, high⟩ := changes.bisect_spec 0 items.length some (by omega) (.inl rfl) (by omega)
    have last := changes.exact _ inside
    split
    case isTrue upper =>
      have here := last.mp upper
      omega
    case isFalse lower =>
      have beyond : ¬ bisect before items 0 items.length < point :=
        fun here => lower (last.mpr here)
      omega

theorem changesAt_takeWhile
    (partitioned : items.Pairwise fun a b => before b = true → before a = true) :
    ChangesAt before items (items.takeWhile before).length := by
  induction items with
  | nil => exact ⟨Nat.le_refl _, fun i inside => absurd inside (Nat.not_lt_zero i)⟩
  | cons head rest ih =>
    obtain ⟨first, tail⟩ := List.pairwise_cons.mp partitioned
    obtain ⟨within, exact⟩ := ih tail
    by_cases here : before head = true
    · -- The head counts, and the rest changes over where it did.
      rw [List.takeWhile_cons_of_pos here, List.length_cons]
      refine ⟨Nat.succ_le_succ within, ?_⟩
      intro i inside
      cases i with
      | zero => simp [here]
      | succ i =>
        rw [List.getElem?_cons_succ, exact i (Nat.lt_of_succ_lt_succ inside)]
        omega
    · -- Nothing after the head can come before.
      rw [List.takeWhile_cons_of_neg here]
      refine ⟨Nat.zero_le _, ?_⟩
      intro i inside
      have none : ¬ (head :: rest)[i]?.any before = true := by
        cases i with
        | zero => simpa using here
        | succ i =>
          intro later
          rw [List.getElem?_cons_succ] at later
          cases found : rest[i]? with
          | none => simp [found] at later
          | some item =>
            rw [found, Option.any_some] at later
            exact here (first item (List.mem_of_getElem? found) later)
      simp [none]

theorem takeWhile_eq_filter
    (partitioned : items.Pairwise fun a b => before b = true → before a = true) :
    items.takeWhile before = items.filter before := by
  induction items with
  | nil => rfl
  | cons head rest ih =>
    obtain ⟨first, tail⟩ := List.pairwise_cons.mp partitioned
    by_cases here : before head = true
    · rw [List.takeWhile_cons_of_pos here, List.filter_cons_of_pos here, ih tail]
    · rw [List.takeWhile_cons_of_neg here, List.filter_cons_of_neg here, eq_comm,
        List.filter_eq_nil_iff]
      intro item among counts
      exact here (first item among counts)

theorem drop_takeWhile_eq_filter
    (partitioned : items.Pairwise fun a b => before b = true → before a = true) :
    items.drop (items.takeWhile before).length = items.filter fun item => !before item := by
  induction items with
  | nil => rfl
  | cons head rest ih =>
    obtain ⟨first, tail⟩ := List.pairwise_cons.mp partitioned
    by_cases here : before head = true
    · rw [List.takeWhile_cons_of_pos here, List.filter_cons_of_neg (by simp [here]),
        List.length_cons, List.drop_succ_cons, ih tail]
    · rw [List.takeWhile_cons_of_neg here, List.length_nil, List.drop_zero, eq_comm,
        List.filter_eq_self]
      intro item among
      rcases List.mem_cons.mp among with rfl | later
      · simpa using here
      · simpa using fun counts => here (first item later counts)

/-- Searching the items that stand right behind those in front finds the first one of that kind. -/
theorem findIdx?_behind (here wanted : α → Bool)
    (partitioned : items.Pairwise fun a b => before b = true → before a = true)
    (apart : ∀ item, here item = true → before item = false)
    (together : items.Pairwise fun a b => here b = true → before a = true ∨ here a = true) :
    (((items.drop (items.takeWhile before).length).takeWhile here).findIdx? wanted).map
        ((items.takeWhile before).length + ·)
      = items.findIdx? fun item => here item && wanted item := by
  induction items with
  | nil => rfl
  | cons head rest ih =>
    obtain ⟨first, tail⟩ := List.pairwise_cons.mp partitioned
    obtain ⟨first', tail'⟩ := List.pairwise_cons.mp together
    have later := ih tail tail'
    cases front : before head with
    | true =>
      -- An item in front is passed, and the search goes on behind it.
      have other : here head = false := by
        cases kind : here head with
        | false => rfl
        | true => exact absurd (apart head kind) (by simp [front])
      rw [List.takeWhile_cons_of_pos front, List.length_cons, List.drop_succ_cons,
        List.findIdx?_cons, other, Bool.false_and, ← later, Option.map_map]
      simp only [Bool.false_eq_true, if_false]
      congr 1
      funext i
      simp only [Function.comp_apply]
      omega
    | false =>
      have none : rest.takeWhile before = [] := by
        rw [takeWhile_eq_filter tail, List.filter_eq_nil_iff]
        intro item among counts
        rw [first item among counts] at front
        cases front
      rw [none] at later
      rw [List.takeWhile_cons_of_neg (by simp [front]), List.length_nil, List.drop_zero]
      cases kind : here head with
      | true =>
        rw [List.takeWhile_cons_of_pos kind, List.findIdx?_cons, List.findIdx?_cons, kind,
          Bool.true_and, ← later]
        cases wanted head <;> simp [Function.comp_def]
      | false =>
        -- Nothing of the kind can follow an item that is neither in front nor of the kind.
        rw [List.takeWhile_cons_of_neg (by simp [kind]), eq_comm]
        refine List.findIdx?_eq_none_iff.mpr fun item among => ?_
        rcases List.mem_cons.mp among with rfl | behind
        · rw [kind, Bool.false_and]
        · cases same : here item with
          | false => rw [Bool.false_and]
          | true =>
            rcases first' item behind same with early | equal
            · rw [front] at early
              cases early
            · rw [kind] at equal
              cases equal

theorem bisectPoint_eq_takeWhile
    (partitioned : items.Pairwise fun a b => before b = true → before a = true) :
    bisectPoint before items = (items.takeWhile before).length :=
  (changesAt_takeWhile partitioned).bisectPoint

end Base
