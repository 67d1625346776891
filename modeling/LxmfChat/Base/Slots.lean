import Mathlib.Data.List.Basic
import Mathlib.Data.List.Perm.Subperm
import Mathlib.Data.List.TakeWhile

/-! Tables of slots that are filled one at a time and never emptied. -/

namespace Base

variable {α : Type*}

def slot (slots : List (Option α)) (i : Nat) : Option α := slots[i]?.join

def filled (slots : List (Option α)) : Nat := slots.countP Option.isSome

def leading (slots : List (Option α)) : Nat := (slots.takeWhile Option.isSome).length

def missing (slots : List (Option α)) (below : Nat) : List Nat :=
  (List.range below).filter fun i => (slot slots i).isNone

@[simp] theorem slot_zero (head : Option α) (rest : List (Option α)) :
    slot (head :: rest) 0 = head := by
  simp [slot]

@[simp] theorem slot_succ (head : Option α) (rest : List (Option α)) (i : Nat) :
    slot (head :: rest) (i + 1) = slot rest i := by
  simp [slot]

theorem slot_of_length_le {slots : List (Option α)} {i : Nat} (outside : slots.length ≤ i) :
    slot slots i = none := by
  simp [slot, List.getElem?_eq_none outside]

theorem lt_length_of_slot {slots : List (Option α)} {i : Nat} {a : α}
    (held : slot slots i = some a) : i < slots.length := by
  by_contra outside
  rw [slot_of_length_le (by omega)] at held
  cases held

@[simp] theorem slot_replicate_none (n i : Nat) :
    slot (List.replicate n (none : Option α)) i = none := by
  unfold slot
  rw [List.getElem?_replicate]
  split <;> rfl

theorem slot_set {slots : List (Option α)} {i j : Nat} {a : α} (inside : i < slots.length) :
    slot (slots.set i (some a)) j = if i = j then some a else slot slots j := by
  unfold slot
  rw [List.getElem?_set]
  split_ifs <;> simp_all

theorem filled_le_length (slots : List (Option α)) : filled slots ≤ slots.length :=
  List.countP_le_length

@[simp] theorem filled_replicate_none (n : Nat) :
    filled (List.replicate n (none : Option α)) = 0 := by
  simp [filled, List.countP_replicate]

theorem filled_set {slots : List (Option α)} {i : Nat} {a : α} (inside : i < slots.length)
    (empty : slot slots i = none) : filled (slots.set i (some a)) = filled slots + 1 := by
  induction slots generalizing i with
  | nil => simp at inside
  | cons head rest ih =>
    cases i with
    | zero =>
      rw [slot_zero] at empty
      subst empty
      simp [filled]
    | succ i =>
      rw [slot_succ] at empty
      have rest := ih (by simpa using inside) empty
      simp only [filled, List.set_cons_succ, List.countP_cons] at rest ⊢
      omega

@[simp] theorem slot_map_some_append (items : List α) (n i : Nat) :
    slot (items.map some ++ List.replicate n none) i = items[i]? := by
  induction items generalizing i with
  | nil => simp
  | cons item rest ih =>
    cases i with
    | zero => simp
    | succ i => simpa using ih i

@[simp] theorem filled_map_some_append (items : List α) (n : Nat) :
    filled (items.map some ++ List.replicate n none) = items.length := by
  induction items with
  | nil => simp
  | cons item rest ih => simpa [filled] using ih

theorem filled_eq_length_iff (slots : List (Option α)) :
    filled slots = slots.length ↔ ∀ i < slots.length, (slot slots i).isSome := by
  rw [filled, List.countP_eq_length]
  constructor
  · intro all i inside
    have held := all slots[i] (List.getElem_mem inside)
    simpa [slot, List.getElem?_eq_getElem inside] using held
  · intro all a member
    obtain ⟨i, inside, rfl⟩ := List.getElem_of_mem member
    simpa [slot, List.getElem?_eq_getElem inside] using all i inside

theorem leading_le_length (slots : List (Option α)) : leading slots ≤ slots.length :=
  (List.takeWhile_prefix _).length_le

@[simp] theorem leading_cons_none (rest : List (Option α)) : leading (none :: rest) = 0 := by
  simp [leading]

@[simp] theorem leading_cons_some (a : α) (rest : List (Option α)) :
    leading (some a :: rest) = leading rest + 1 := by
  simp [leading]

@[simp] theorem leading_replicate_none (n : Nat) :
    leading (List.replicate n (none : Option α)) = 0 := by
  cases n with
  | zero => rfl
  | succ n => simp [List.replicate_succ]

theorem isSome_of_lt_leading {slots : List (Option α)} {i : Nat} (front : i < leading slots) :
    (slot slots i).isSome := by
  induction slots generalizing i with
  | nil => simp [leading] at front
  | cons head rest ih =>
    cases head with
    | none => simp at front
    | some a =>
      cases i with
      | zero => simp
      | succ i =>
        rw [slot_succ]
        exact ih (by simpa using front)

theorem slot_leading (slots : List (Option α)) : slot slots (leading slots) = none := by
  induction slots with
  | nil => rfl
  | cons head rest ih =>
    cases head with
    | none => simp
    | some a => simpa using ih

theorem leading_eq {slots : List (Option α)} {k : Nat}
    (front : ∀ i < k, (slot slots i).isSome) (stop : slot slots k = none) :
    leading slots = k := by
  rcases Nat.lt_trichotomy (leading slots) k with less | same | more
  · have held := front _ less
    rw [slot_leading] at held
    cases held
  · exact same
  · have held := isSome_of_lt_leading more
    rw [stop] at held
    cases held

theorem le_leading {slots : List (Option α)} {k : Nat}
    (front : ∀ i < k, (slot slots i).isSome) : k ≤ leading slots := by
  by_contra beyond
  have held := front (leading slots) (by omega)
  rw [slot_leading] at held
  cases held

theorem leading_eq_filled_iff (slots : List (Option α)) :
    leading slots = filled slots ↔ ∀ i, (slot slots i).isSome → i < leading slots := by
  induction slots with
  | nil => simp [leading, filled, slot]
  | cons head rest ih =>
    cases head with
    | none =>
      -- Behind an empty head nothing counts as leading, so nothing may be filled at all.
      constructor
      · intro same i held
        cases i with
        | zero => simp at held
        | succ i =>
          rw [slot_succ] at held
          obtain ⟨a, found⟩ := Option.isSome_iff_exists.mp held
          have inside := lt_length_of_slot found
          have member : rest[i] ∈ rest := List.getElem_mem inside
          have empty : filled rest = 0 := by simpa [filled] using same.symm
          rw [filled, List.countP_eq_zero] at empty
          have none := empty _ member
          simp [slot, List.getElem?_eq_getElem inside] at found
          simp [found] at none
      · intro front
        have none : ∀ i, ¬ (slot rest i).isSome := fun i held => by
          have := front (i + 1) (by simpa using held)
          simp at this
        rw [leading_cons_none, eq_comm, filled, List.countP_eq_zero]
        intro a member
        cases a with
        | none => simp
        | some a =>
          rcases List.mem_cons.mp member with impossible | behind
          · cases impossible
          · obtain ⟨i, inside, value⟩ := List.getElem_of_mem behind
            have := none i
            simp [slot, List.getElem?_eq_getElem inside, value] at this
    | some a =>
      have counts : filled (some a :: rest) = filled rest + 1 := by simp [filled]
      rw [leading_cons_some, counts, Nat.add_right_cancel_iff, ih]
      constructor
      · intro front i held
        cases i with
        | zero => omega
        | succ i => simpa using front i (by simpa using held)
      · intro front i held
        simpa using front (i + 1) (by simpa using held)

theorem leading_eq_of_front {slots : List (Option α)} {k : Nat}
    (exact : ∀ i, (slot slots i).isSome ↔ i < k) : leading slots = k := by
  refine leading_eq (fun i low => (exact i).mpr low) ?_
  by_contra held
  have below := (exact k).mp (Option.isSome_iff_ne_none.mpr held)
  omega

theorem filled_eq_of_front {slots : List (Option α)} {k : Nat}
    (exact : ∀ i, (slot slots i).isSome ↔ i < k) : filled slots = k := by
  have front := leading_eq_of_front exact
  rw [← front, eq_comm, leading_eq_filled_iff]
  intro i held
  rw [front]
  exact (exact i).mp held

theorem add_leading_drop {slots : List (Option α)} {k : Nat} (front : k ≤ leading slots) :
    k + leading (slots.drop k) = leading slots := by
  induction k generalizing slots with
  | zero => simp
  | succ k ih =>
    cases slots with
    | nil => simp [leading] at front
    | cons head rest =>
      cases head with
      | none => simp at front
      | some a =>
        rw [leading_cons_some] at front ⊢
        rw [List.drop_succ_cons]
        have tail : k + leading (rest.drop k) = leading rest := ih (by omega)
        omega

theorem leading_le_leading_set {slots : List (Option α)} {i : Nat} {a : α}
    (inside : i < slots.length) : leading slots ≤ leading (slots.set i (some a)) := by
  apply le_leading
  intro j front
  rw [slot_set inside]
  split_ifs
  · rfl
  · exact isSome_of_lt_leading front

@[simp] theorem mem_missing {slots : List (Option α)} {below i : Nat} :
    i ∈ missing slots below ↔ i < below ∧ slot slots i = none := by
  simp [missing]

theorem missing_le_missing_set {slots : List (Option α)} {i : Nat} (below : Nat) (a : α)
    (inside : i < slots.length) :
    (missing slots below).length ≤ (missing (slots.set i (some a)) below).length + 1 := by
  have distinct : (missing slots below).Nodup := List.nodup_range.filter _
  -- Whatever was missing before is the filled slot or is missing still.
  have among : missing slots below ⊆ i :: missing (slots.set i (some a)) below := by
    intro j absent
    obtain ⟨low, empty⟩ := mem_missing.mp absent
    by_cases same : i = j
    · exact List.mem_cons.mpr (.inl same.symm)
    · refine List.mem_cons_of_mem i (mem_missing.mpr ⟨low, ?_⟩)
      rw [slot_set inside, if_neg same]
      exact empty
  exact (List.subperm_of_subset distinct among).length_le

end Base
