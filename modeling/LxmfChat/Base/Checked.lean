import LxmfChat.Base.Cursor

/-! Operations of a systems language that panic when they are used out of range. -/

namespace Base

abbrev Checked (α : Type) := Except Fault α

namespace Checked

def maxLength : Nat := 2 ^ 31 - 1

def crash {α : Type} (message : String) : Checked α := .error (.panic message)

def unwrap {α : Type} (message : String) : Option α → Checked α
  | some value => .ok value
  | none => crash message

def index {α : Type} (items : List α) (i : Nat) : Checked α :=
  unwrap "index out of bounds" items[i]?

def slice {α : Type} (items : List α) (start stop : Nat) : Checked (List α) :=
  if stop < start then crash "slice index starts after its end"
  else if items.length < stop then crash "range end index out of range"
  else .ok ((items.drop start).take (stop - start))

def splitAt {α : Type} (items : List α) (mid : Nat) : Checked (List α × List α) :=
  if items.length < mid then crash "mid > len" else .ok (items.take mid, items.drop mid)

def copyFromSlice (n : Nat) (source : Bytes) : Checked (BytesN n) :=
  if width : source.length = n then .ok ⟨source, width⟩
  else crash "source slice length does not match destination slice length"

def copySlice (n : Nat) (source : Bytes) (start stop : Nat) : Checked (BytesN n) := do
  copyFromSlice n (← slice source start stop)

def extend {α : Type} (items more : List α) : Checked (List α) :=
  if maxLength < items.length + more.length then crash "capacity overflow" else .ok (items ++ more)

def add (a b : Nat) : Checked Nat :=
  if a + b < wordSize then .ok (a + b) else crash "attempt to add with overflow"

def sub (a b : Nat) : Checked Nat :=
  if b ≤ a then .ok (a - b) else crash "attempt to subtract with overflow"

def attempt {α : Type} (branch : Checked (Option α)) (next : Checked α) : Checked α := do
  match ← branch with
  | some value => return value
  | none => next

variable {α β : Type}

@[simp] theorem ok_bind (value : α) (f : α → Checked β) : (Except.ok value >>= f) = f value := rfl

@[simp] theorem pure_eq_ok (value : α) : (pure value : Checked α) = .ok value := rfl

@[simp] theorem unwrap_some (message : String) (value : α) :
    unwrap message (some value) = .ok value := rfl

theorem mapM_eq_ok_iff {f : α → Checked β} {g : α → β} {items : List α} :
    items.mapM f = .ok (items.map g) ↔ ∀ item ∈ items, f item = .ok (g item) := by
  induction items with
  | nil => simp
  | cons item items ih =>
    rw [List.mapM_cons, List.forall_mem_cons, ← ih]
    cases f item with
    | error e => exact iff_of_false (fun same => by cases same) (fun both => by cases both.1)
    | ok value =>
      cases items.mapM f with
      | error e => exact iff_of_false (fun same => by cases same) (fun both => by cases both.2)
      | ok values => simp

theorem index_ok {items : List α} {i : Nat} (inside : i < items.length) :
    index items i = .ok items[i] := by
  rw [index, List.getElem?_eq_getElem inside, unwrap_some]

theorem slice_ok {items : List α} {start stop : Nat} (forward : start ≤ stop)
    (inside : stop ≤ items.length) :
    slice items start stop = .ok ((items.drop start).take (stop - start)) := by
  rw [slice, if_neg (Nat.not_lt.mpr forward), if_neg (Nat.not_lt.mpr inside)]

theorem slice_zero {items : List α} {stop : Nat} (inside : stop ≤ items.length) :
    slice items 0 stop = .ok (items.take stop) :=
  slice_ok (Nat.zero_le stop) inside

theorem slice_length {items : List α} {start : Nat} (inside : start ≤ items.length) :
    slice items start items.length = .ok (items.drop start) := by
  rw [slice_ok inside le_rfl, List.take_of_length_le (by rw [List.length_drop])]

theorem splitAt_ok {items : List α} {mid : Nat} (inside : mid ≤ items.length) :
    splitAt items mid = .ok (items.take mid, items.drop mid) := by
  rw [splitAt, if_neg (Nat.not_lt.mpr inside)]

theorem copyFromSlice_ok {n : Nat} {source : Bytes} (width : source.length = n) :
    copyFromSlice n source = .ok ⟨source, width⟩ := by
  rw [copyFromSlice, dif_pos width]

theorem slice_width {n start stop : Nat} {source : Bytes} (width : start + n = stop)
    (inside : start + n ≤ source.length) :
    slice source start stop = .ok (BytesN.slice source start n inside).val := by
  subst width
  rw [slice_ok (Nat.le_add_right _ _) inside, Nat.add_sub_cancel_left]
  rfl

theorem copySlice_ok {n start stop : Nat} {source : Bytes} (width : start + n = stop)
    (inside : start + n ≤ source.length) :
    copySlice n source start stop = .ok (BytesN.slice source start n inside) := by
  rw [copySlice, slice_width width inside, ok_bind, copyFromSlice_ok (BytesN.length_val _)]

theorem add_ok {a b : Nat} (fits : a + b < wordSize) : add a b = .ok (a + b) := by
  rw [add, if_pos fits]

theorem sub_ok {a b : Nat} (enough : b ≤ a) : sub a b = .ok (a - b) := by
  rw [sub, if_pos enough]

theorem attempt_ok {branch : Checked (Option α)} {next : Checked α} {taken : Option α} {value : α}
    (first : branch = .ok taken) (second : next = .ok value) :
    attempt branch next = .ok (taken.getD value) := by
  rw [attempt, first, ok_bind]
  cases taken with
  | none => exact second
  | some other => rfl

/-- The computation does not panic, and what it returns has the property. -/
def Returns (m : Checked α) (post : α → Prop) : Prop := ∃ value, m = .ok value ∧ post value

theorem Returns.ok {value : α} {post : α → Prop} (holds : post value) :
    Returns (.ok value) post :=
  ⟨value, rfl, holds⟩

theorem Returns.bind {m : Checked α} {f : α → Checked β} {post : α → Prop} {post' : β → Prop}
    (first : Returns m post) (second : ∀ value, post value → Returns (f value) post') :
    Returns (m >>= f) post' := by
  obtain ⟨value, rfl, holds⟩ := first
  exact second value holds

theorem Returns.mono {m : Checked α} {post post' : α → Prop} (returns : Returns m post)
    (weaker : ∀ value, post value → post' value) : Returns m post' := by
  obtain ⟨value, result, holds⟩ := returns
  exact ⟨value, result, weaker value holds⟩

theorem Returns.eq_ok {m : Checked α} {value : α} (returns : Returns m fun v => v = value) :
    m = .ok value := by
  obtain ⟨v, result, rfl⟩ := returns
  exact result

end Checked

end Base
