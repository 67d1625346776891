import LxmfChat.Base.Cursor

/-! Readers taken apart into the steps they make, with every slice they ask for. -/

namespace Base

variable {n : Nat} {truncated : String}

/-- A reader as the steps it makes, each depending on what was read before. -/
inductive Script (α : Type) where
  | done (value : α)
  | fail (message : String)
  /-- A byte that is looked up, with an error past the end. -/
  | get (truncated : String) (next : UInt8 → Script α)
  /-- A slice of one byte, and the byte in it. -/
  | u8 (truncated : String) (next : UInt8 → Script α)
  | take (truncated : String) (n : Nat) (next : Bytes → Script α)
  | atLeast (scarce : String) (n : Nat) (next : Script α)

namespace Script

variable {α β : Type}

def bind : Script α → (α → Script β) → Script β
  | .done value, f => f value
  | .fail message, _ => .fail message
  | .get truncated next, f => .get truncated fun byte => (next byte).bind f
  | .u8 truncated next, f => .u8 truncated fun byte => (next byte).bind f
  | .take truncated n next, f => .take truncated n fun piece => (next piece).bind f
  | .atLeast scarce n next, f => .atLeast scarce n (next.bind f)

def run : Script α → Read α
  | .done value => pure value
  | .fail message => Cursor.fail message
  | .get truncated next => do (next (← Cursor.get truncated)).run
  | .u8 truncated next => do
    match ← Cursor.take truncated 1 with
    | byte :: _ => (next byte).run
    | [] => Cursor.crash "index out of bounds"
  | .take truncated n next => do (next (← Cursor.take truncated n)).run
  | .atLeast scarce n next => Cursor.atLeast scarce n next.run

/-- The slices that are asked for on the way: where each starts, and its length in a machine word. -/
def asks : Script α → Cursor → List (Nat × Nat)
  | .done _, _ => []
  | .fail _, _ => []
  | .get truncated next, c =>
    match Cursor.get truncated c with
    | .ok (byte, c') => (next byte).asks c'
    | .error _ => []
  | .u8 truncated next, c =>
    (c.i, 1) :: match Cursor.take truncated 1 c with
      | .ok (byte :: _, c') => (next byte).asks c'
      | _ => []
  | .take truncated n next, c =>
    (c.i, n % wordSize) :: match Cursor.take truncated n c with
      | .ok (piece, c') => (next piece).asks c'
      | .error _ => []
  | .atLeast _ n next, c => if c.b.length - c.i < n then [] else next.asks c

theorem run_bind (s : Script α) (f : α → Script β) :
    (s.bind f).run = s.run >>= fun value => (f value).run := by
  induction s with
  | done value => rfl
  | fail message => rfl
  | get truncated next ih =>
    simp only [bind, run, ih, bind_assoc]
  | u8 truncated next ih =>
    simp only [bind, run, ih, bind_assoc]
    congr 1
    funext piece
    cases piece <;> rfl
  | take truncated n next ih =>
    simp only [bind, run, ih, bind_assoc]
  | atLeast scarce n next ih =>
    simp only [bind, run, ih]
    funext c
    by_cases few : c.b.length - c.i < n
    · simp [Cursor.atLeast, few, Bind.bind, StateT.bind, Except.bind]
    · simp [Cursor.atLeast, few, Bind.bind, StateT.bind]

end Script

/-- A cursor inside a string that the machine can hold. -/
structure Cursor.Inside (c : Cursor) : Prop where
  within : c.i ≤ c.b.length
  fits : c.b.length < wordSize

namespace Cursor

variable {c : Cursor}

theorem Inside.take {piece : Bytes} {c' : Cursor} (inside : c.Inside)
    (cut : take truncated n c = .ok (piece, c')) : c'.Inside ∧ c'.b = c.b := by
  unfold Cursor.take at cut
  dsimp only at cut
  split at cut
  case isTrue => cases cut
  case isFalse enough =>
    split at cut
    case isTrue => cases cut
    case isFalse =>
      cases cut
      exact ⟨⟨Nat.le_of_not_lt enough, inside.fits⟩, rfl⟩

theorem Inside.get {byte : UInt8} {c' : Cursor} (inside : c.Inside)
    (found : get truncated c = .ok (byte, c')) : c'.Inside ∧ c'.b = c.b := by
  unfold Cursor.get at found
  cases here : c.b[c.i]? with
  | none =>
    rw [here] at found
    cases found
  | some byte =>
    rw [here] at found
    cases found
    obtain ⟨bound, -⟩ := List.getElem?_eq_some_iff.mp here
    exact ⟨⟨bound, inside.fits⟩, rfl⟩

end Cursor

namespace Script

variable {α : Type} {c : Cursor}

end Script

/-- A reader whose steps are known. -/
class Scripted {α : Type} (m : Read α) where
  script : Script α
  run_script : script.run = m

namespace Scripted

variable {α β : Type}

instance pure (value : α) : Scripted (Pure.pure value : Read α) := ⟨.done value, rfl⟩

instance fail (message : String) : Scripted (Cursor.fail message : Read α) := ⟨.fail message, rfl⟩

instance get (truncated : String) : Scripted (Cursor.get truncated) where
  script := .get truncated .done
  run_script := by simp [Script.run]

instance take (truncated : String) (n : Nat) : Scripted (Cursor.take truncated n) where
  script := .take truncated n .done
  run_script := by simp [Script.run]

instance bind (m : Read α) (f : α → Read β) [Scripted m] [∀ value, Scripted (f value)] :
    Scripted (m >>= f) where
  script := (script m).bind fun value => script (f value)
  run_script := by simp only [Script.run_bind, run_script]

instance ite (p : Prop) [Decidable p] (m m' : Read α) [Scripted m] [Scripted m'] :
    Scripted (if p then m else m') where
  script := if p then script m else script m'
  run_script := by split <;> exact run_script

instance atLeast (scarce : String) (n : Nat) (m : Read α) [Scripted m] :
    Scripted (Cursor.atLeast scarce n m) where
  script := .atLeast scarce n (script m)
  run_script := by rw [Script.run, run_script]

instance times (m : Read α) [Scripted m] : (n : Nat) → Scripted (Cursor.times m n)
  | 0 => pure []
  | n + 1 =>
    have := times m n
    inferInstanceAs (Scripted do
      let head ← m
      let tail ← Cursor.times m n
      return head :: tail)

def asks (m : Read α) [Scripted m] (data : Bytes) : List (Nat × Nat) := (script m).asks ⟨data, 0⟩

/-- The length check of a slice decides what it would without a machine word. -/
def Checked (data : Bytes) (ask : Nat × Nat) : Prop :=
  data.length < (ask.1 + ask.2) % wordSize ↔ data.length < ask.1 + ask.2

end Scripted

end Base
