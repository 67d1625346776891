import LxmfChat.Base.Bytes

/-! Reading a byte string through a cursor whose position is a 32-bit machine word. -/

namespace Base

variable {encoding : Bytes} {n : Nat}

/-- How a computation can end without a result: an error it returns, or a panic. -/
inductive Fault where
  | err (message : String)
  | panic (message : String)
deriving Repr, DecidableEq

abbrev wordSize : Nat := 2 ^ 32

/-- A byte string and the position of the next byte to read. -/
structure Cursor where
  b : Bytes
  i : Nat
deriving Repr, DecidableEq

abbrev Read (α : Type) := StateT Cursor (Except Fault) α

namespace Cursor

def fail {α : Type} (message : String) : Read α := fun _ => .error (.err message)

def get (truncated : String) : Read UInt8 := fun c =>
  match c.b[c.i]? with
  | some byte => .ok (byte, { c with i := c.i + 1 })
  | none => .error (.err truncated)

/--
The next bytes, as many as asked for.

The end of the slice is computed in a machine word.
A count that wraps it passes the length check and then makes the slice panic.
-/
def take (truncated : String) (n : Nat) : Read Bytes := fun c =>
  let stop := (c.i + n) % wordSize
  if c.b.length < stop then .error (.err truncated)
  else if stop < c.i then .error (.panic "slice index starts after its end")
  else .ok ((c.b.drop c.i).take (stop - c.i), { c with i := stop })

def crash {α : Type} (message : String) : Read α := fun _ => .error (.panic message)

def atLeast {α : Type} (scarce : String) (n : Nat) (m : Read α) : Read α := fun c =>
  if c.b.length - c.i < n then .error (.err scarce) else m c

def times {α : Type} (m : Read α) : Nat → Read (List α)
  | 0 => pure []
  | n + 1 => do
    let head ← m
    let tail ← times m n
    return head :: tail

def parse {α : Type} (m : Read α) (data : Bytes) : Except Fault α :=
  match m ⟨data, 0⟩ with
  | .ok (value, _) => .ok value
  | .error fault => .error fault

def between (done todo : Bytes) : Cursor := ⟨done ++ todo, done.length⟩

end Cursor

/--
A computation reads exactly this encoding and yields this value.

Whatever follows the encoding is left for the next read.
The string up to there must fit a machine word.
-/
def Reads {α : Type} (m : Read α) (encoding : Bytes) (value : α) : Prop :=
  ∀ done rest, done.length + encoding.length < wordSize →
    m (Cursor.between done (encoding ++ rest)) = .ok (value, Cursor.between (done ++ encoding) rest)

namespace Reads

theorem pure {α : Type} (value : α) : Reads (Pure.pure value) [] value := by
  intro done rest _
  show Except.ok (value, Cursor.between done ([] ++ rest)) = _
  rw [List.nil_append, List.append_nil]

theorem bind {α β : Type} {m : Read α} {f : α → Read β} {first second : Bytes} {a : α} {b : β}
    (head : Reads m first a) (tail : Reads (f a) second b) :
    Reads (m >>= f) (first ++ second) b := by
  intro done rest fits
  rw [List.length_append] at fits
  have here := head done (second ++ rest) (by omega)
  have next := tail (done ++ first) rest (by simp; omega)
  rw [List.append_assoc] at next ⊢
  simp only [Bind.bind, StateT.bind, here, Except.bind, next]

theorem map {α β : Type} {m : Read α} {a : α} (reads : Reads m encoding a) (g : α → β) :
    Reads (do return g (← m)) encoding (g a) := by
  have whole := reads.bind (f := fun a => Pure.pure (g a)) (Reads.pure (g a))
  rwa [List.append_nil] at whole

theorem get (truncated : String) (byte : UInt8) : Reads (Cursor.get truncated) [byte] byte := by
  intro done rest _
  simp [Cursor.get, Cursor.between]

theorem take (truncated : String) (piece : Bytes) :
    Reads (Cursor.take truncated piece.length) piece piece := by
  intro done rest fits
  have exact : (done.length + piece.length) % wordSize = done.length + piece.length :=
    Nat.mod_eq_of_lt fits
  simp [Cursor.take, Cursor.between, exact]

theorem be (truncated : String) {digits : Bytes} (width : digits.length = n) :
    Reads (do return beNat (← Cursor.take truncated n)) digits (beNat digits) := by
  subst width
  exact (Reads.take truncated digits).map beNat

theorem beBytes (truncated : String) {v : Nat} (fits : v < 256 ^ n) :
    Reads (do return beNat (← Cursor.take truncated n)) (beBytes n v) v := by
  have value := Reads.be truncated (beBytes_length n v)
  rwa [beNat_beBytes_of_lt fits] at value

theorem atLeast {α : Type} {m : Read α} {value : α} (scarce : String)
    (enough : n ≤ encoding.length) (reads : Reads m encoding value) :
    Reads (Cursor.atLeast scarce n m) encoding value := by
  intro done rest fits
  have left : ¬ (Cursor.between done (encoding ++ rest)).b.length
      - (Cursor.between done (encoding ++ rest)).i < n := by
    simp only [Cursor.between, List.length_append]
    omega
  rw [Cursor.atLeast, if_neg left]
  exact reads done rest fits

theorem times {α : Type} {m : Read α} {items : List (Bytes × α)}
    (each : ∀ item ∈ items, Reads m item.1 item.2) :
    Reads (Cursor.times m items.length) (items.flatMap (·.1)) (items.map (·.2)) := by
  induction items with
  | nil => exact Reads.pure []
  | cons item rest ih =>
    have head := each item List.mem_cons_self
    have tail := ih fun other there => each other (List.mem_cons_of_mem item there)
    exact head.bind (tail.map (item.2 :: ·))

theorem front {α : Type} {m : Read α} {value : α} (reads : Reads m encoding value)
    (fits : encoding.length < wordSize) (rest : Bytes) :
    m ⟨encoding ++ rest, 0⟩ = .ok (value, ⟨encoding ++ rest, encoding.length⟩) := by
  simpa [Cursor.between] using reads [] rest (by simpa using fits)

theorem parse_append {α : Type} {m : Read α} {value : α} (reads : Reads m encoding value)
    (fits : encoding.length < wordSize) (rest : Bytes) :
    Cursor.parse m (encoding ++ rest) = .ok value := by
  simp only [Cursor.parse, reads.front fits rest]

theorem parse {α : Type} {m : Read α} {value : α} (reads : Reads m encoding value)
    (fits : encoding.length < wordSize) : Cursor.parse m encoding = .ok value := by
  have whole := reads.parse_append fits []
  rwa [List.append_nil] at whole

theorem unique {α : Type} {m : Read α} {encoding' rest rest' : Bytes} {value value' : α}
    (reads : Reads m encoding value) (reads' : Reads m encoding' value')
    (same : encoding ++ rest = encoding' ++ rest') (fits : (encoding ++ rest).length < wordSize) :
    encoding = encoding' ∧ rest = rest' := by
  have fits' := fits
  rw [same] at fits'
  rw [List.length_append] at fits fits'
  have here := reads [] rest (by simpa using Nat.lt_of_le_of_lt (Nat.le_add_right _ _) fits)
  have there := reads' [] rest' (by simpa using Nat.lt_of_le_of_lt (Nat.le_add_right _ _) fits')
  rw [same, there] at here
  -- The cursor stops behind what was read, so both encodings are equally long.
  simp only [Except.ok.injEq, Prod.mk.injEq, Cursor.between, Cursor.mk.injEq, List.nil_append]
    at here
  exact List.append_inj same here.2.2.symm

end Reads

/-- Whatever a computation reads satisfies a condition. -/
def Yields {α : Type} (P : α → Prop) (m : Read α) : Prop :=
  ∀ c value c', m c = .ok (value, c') → P value

namespace Yields

variable {α β : Type} {P : α → Prop} {Q : β → Prop}

theorem imp {P' : α → Prop} {m : Read α} (yields : Yields P m) (weaker : ∀ value, P value → P' value) :
    Yields P' m := by
  intro c value c' read
  exact weaker value (yields c value c' read)

theorem pure {value : α} (holds : P value) : Yields P (Pure.pure value) := by
  intro c found c' read
  cases read
  exact holds

theorem bind {m : Read α} {f : α → Read β} (first : Yields P m) (second : ∀ a, P a → Yields Q (f a)) :
    Yields Q (m >>= f) := by
  intro c found c' read
  simp only [Bind.bind, StateT.bind] at read
  cases head : m c with
  | error fault =>
    rw [head] at read
    cases read
  | ok result =>
    rw [head] at read
    exact second result.1 (first c result.1 result.2 head) result.2 found c' read

theorem fail (message : String) : Yields P (Cursor.fail message) := fun _ _ _ read => nomatch read

theorem ite {p : Prop} [Decidable p] {m m' : Read α} (yields : Yields P m) (yields' : Yields P m') :
    Yields P (if p then m else m') := by
  split
  · exact yields
  · exact yields'

theorem atLeast {m : Read α} (yields : Yields P m) (scarce : String) (n : Nat) :
    Yields P (Cursor.atLeast scarce n m) := by
  intro c found c' read
  rw [Cursor.atLeast] at read
  split at read
  · cases read
  · exact yields c found c' read

theorem times {m : Read α} (yields : Yields P m) (n : Nat) :
    Yields (fun values => ∀ value ∈ values, P value) (Cursor.times m n) := by
  induction n with
  | zero => exact Yields.pure fun _ there => nomatch there
  | succ n ih =>
    refine yields.bind fun head holds => ih.bind fun tail all => Yields.pure fun value there => ?_
    rcases List.mem_cons.mp there with rfl | later
    · exact holds
    · exact all value later

theorem take (truncated : String) (n : Nat) :
    Yields (fun piece => piece.length ≤ n) (Cursor.take truncated n) := by
  intro c found c' read
  rw [Cursor.take] at read
  split at read
  · cases read
  split at read
  · cases read
  · cases read
    have wrapped := Nat.mod_le (c.i + n) wordSize
    rw [List.length_take]
    omega

end Yields

/--
What one computation reads from a string, another reads at the same place inside a longer string.

The longer string up to the end of the shorter one must fit a machine word.
-/
def Relocates {α : Type} (m m' : Read α) : Prop :=
  ∀ data i value c, i ≤ data.length → m ⟨data, i⟩ = .ok (value, c) →
    c.b = data ∧ c.i ≤ data.length
      ∧ ∀ before after, before.length + data.length < wordSize →
        m' ⟨before ++ data ++ after, before.length + i⟩
          = .ok (value, ⟨before ++ data ++ after, before.length + c.i⟩)

namespace Relocates

variable {α β : Type}

theorem pure (value : α) : Relocates (Pure.pure value) (Pure.pure value) := by
  intro data i found c inside read
  cases read
  exact ⟨rfl, inside, fun _ _ _ => rfl⟩

theorem bind {m m' : Read α} {f f' : α → Read β} (first : Relocates m m')
    (second : ∀ a, Relocates (f a) (f' a)) : Relocates (m >>= f) (m' >>= f') := by
  intro data i found c inside read
  simp only [Bind.bind, StateT.bind] at read ⊢
  cases head : m ⟨data, i⟩ with
  | error fault =>
    rw [head] at read
    cases read
  | ok result =>
    obtain ⟨a, d⟩ := result
    rw [head] at read
    -- The second read starts where the first one stopped.
    obtain ⟨same, within, moved⟩ := first data i a d inside head
    obtain ⟨b, stop⟩ := d
    subst same
    obtain ⟨same, within', moved'⟩ := second a b stop found c within read
    refine ⟨same, within', fun before after fits => ?_⟩
    rw [moved before after fits]
    exact moved' before after fits

theorem fail (message : String) (m' : Read α) : Relocates (Cursor.fail message) m' :=
  fun _ _ _ _ _ read => nomatch read

theorem crash (message : String) (m' : Read α) : Relocates (Cursor.crash message) m' :=
  fun _ _ _ _ _ read => nomatch read

theorem ite {p : Prop} [Decidable p] {m m' n n' : Read α} (relocates : Relocates m m')
    (relocates' : Relocates n n') : Relocates (if p then m else n) (if p then m' else n') := by
  split
  · exact relocates
  · exact relocates'

theorem atLeast {m m' : Read α} (relocates : Relocates m m') (scarce : String) (n : Nat) :
    Relocates (Cursor.atLeast scarce n m) (Cursor.atLeast scarce n m') := by
  intro data i found c inside read
  rw [Cursor.atLeast] at read
  split at read
  case isTrue => cases read
  case isFalse enough =>
    obtain ⟨same, within, moved⟩ := relocates data i found c inside read
    refine ⟨same, within, fun before after fits => ?_⟩
    rw [Cursor.atLeast, if_neg, moved before after fits]
    simp only [List.length_append] at enough ⊢
    omega

theorem times {m m' : Read α} (relocates : Relocates m m') (n : Nat) :
    Relocates (Cursor.times m n) (Cursor.times m' n) := by
  induction n with
  | zero => exact Relocates.pure []
  | succ n ih => exact relocates.bind fun head => ih.bind fun tail => Relocates.pure (head :: tail)

theorem take (truncated : String) (n : Nat) :
    Relocates (Cursor.take truncated n) (Cursor.take truncated n) := by
  intro data i found c inside read
  rw [Cursor.take] at read
  dsimp only at read
  split at read
  case isTrue => cases read
  case isFalse short =>
    split at read
    case isTrue => cases read
    case isFalse forward =>
      cases read
      refine ⟨rfl, Nat.le_of_not_lt short, fun before after fits => ?_⟩
      -- The end of the slice moves by as much as its start and still fits a machine word.
      have stop : (before.length + i + n) % wordSize = before.length + (i + n) % wordSize := by
        rw [Nat.add_assoc, ← Nat.add_mod_mod]
        exact Nat.mod_eq_of_lt (by omega)
      rw [Cursor.take]
      dsimp only
      rw [stop, if_neg (by simp only [List.length_append]; omega), if_neg (by omega)]
      congr 2
      rw [List.append_assoc, List.drop_append, List.drop_of_length_le (by omega), List.nil_append,
        Nat.add_sub_cancel_left, List.drop_append_of_le_length inside,
        List.take_append_of_le_length (by rw [List.length_drop]; omega)]
      congr 1
      omega

theorem reads {m m' : Read α} {value : α} (relocates : Relocates m m')
    (read : m ⟨encoding, 0⟩ = .ok (value, ⟨encoding, encoding.length⟩)) :
    Reads m' encoding value := by
  intro done rest fits
  obtain ⟨-, -, moved⟩ := relocates encoding 0 value _ (Nat.zero_le _) read
  simpa [Cursor.between] using moved done rest fits

end Relocates

end Base
