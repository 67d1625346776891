import LxmfChat.Base.Checked
import Mathlib.Data.Int.Bitwise

/-! Signed 64-bit integers: operations that must not overflow, and operations on bits. -/

namespace Base

namespace Checked

variable {α β σ : Type}

def each (n : Nat) (body : σ → Fin n → Checked σ) (start : σ) : Checked σ :=
  (List.finRange n).foldlM body start

def eachDown (n : Nat) (body : σ → Fin n → Checked σ) (start : σ) : Checked σ :=
  each n (fun s i => body s i.rev) start

theorem Returns.each {n : Nat} {body : σ → Fin n → Checked σ} {start : σ} {I : Nat → σ → Prop}
    (first : I 0 start)
    (round : ∀ (i : Fin n) (s : σ), I i s → Returns (body s i) (I (i + 1))) :
    Returns (Checked.each n body start) (I n) := by
  rw [Checked.each]
  -- The invariant is shifted along with the indices, so the bound and the body stay general.
  induction n generalizing start I with
  | zero => exact .ok first
  | succ n ih =>
    rw [List.finRange_succ, List.foldlM_cons]
    refine (round 0 start first).bind fun next holds => ?_
    rw [List.foldlM_map]
    exact ih (I := fun k => I (k + 1)) holds fun i s before => round i.succ s before

theorem Returns.eachLast {n : Nat} {body : σ → Fin (n + 1) → Checked σ} {start : σ}
    {I : Nat → σ → Prop} {post : σ → Prop} (first : I 0 start)
    (round : ∀ (i : Fin (n + 1)) (s : σ), (i : Nat) < n → I i s → Returns (body s i) (I (i + 1)))
    (last : ∀ s, I n s → Returns (body s (Fin.last n)) post) :
    Returns (Checked.each (n + 1) body start) post := by
  have rounds : Returns (Checked.each (n + 1) body start)
      (fun s => if n + 1 ≤ n then I (n + 1) s else post s) := by
    refine Returns.each (I := fun k s => if k ≤ n then I k s else post s)
      (by rwa [if_pos (Nat.zero_le n)]) fun i s before => ?_
    rw [if_pos (Nat.le_of_lt_succ i.isLt)] at before
    by_cases inside : (i : Nat) < n
    · exact (round i s inside before).mono fun next holds => by rwa [if_pos (Nat.succ_le_of_lt inside)]
    · obtain rfl : i = Fin.last n := Fin.ext (by rw [Fin.val_last]; omega)
      exact (last s before).mono fun next holds => by rwa [if_neg (by rw [Fin.val_last]; omega)]
  exact rounds.mono fun s holds => by rwa [if_neg (by omega)] at holds

theorem Returns.eachDown {n : Nat} {body : σ → Fin n → Checked σ} {start : σ}
    {I : Nat → σ → Prop} (first : I n start)
    (round : ∀ (i : Fin n) (s : σ), I (i + 1) s → Returns (body s i) (I i)) :
    Returns (Checked.eachDown n body start) (I 0) := by
  have rounds : Returns (Checked.each n (fun s i => body s i.rev) start) (I (n - n)) := by
    refine Returns.each (I := fun k => I (n - k)) first fun i s before => ?_
    have left : n - (i : Nat) = (i.rev : Nat) + 1 := by
      rw [Fin.val_rev]
      omega
    rw [left] at before
    rw [show n - ((i : Nat) + 1) = (i.rev : Nat) by rw [Fin.val_rev]]
    exact round i.rev s before
  rwa [Nat.sub_self] at rounds

end Checked

namespace I64

/-- The integer is one of the machine's. -/
def Fits (v : Int) : Prop := -2 ^ 63 ≤ v ∧ v < 2 ^ 63

instance (v : Int) : Decidable (Fits v) := inferInstanceAs (Decidable (_ ∧ _))

/-- The result of an operation, which panics if it is none of the machine's integers. -/
def fitting (message : String) (v : Int) : Checked Int :=
  if Fits v then .ok v else Checked.crash message

def add (a b : Int) : Checked Int := fitting "attempt to add with overflow" (a + b)

def sub (a b : Int) : Checked Int := fitting "attempt to subtract with overflow" (a - b)

def mul (a b : Int) : Checked Int := fitting "attempt to multiply with overflow" (a * b)

def shl (a : Int) (n : Nat) : Checked Int := fitting "attempt to shift left with overflow" (a * 2 ^ n)

def shr (a : Int) (n : Nat) : Int := a >>> n

theorem shr_eq (a : Int) (n : Nat) : shr a n = a / 2 ^ n := by
  rw [shr, Int.shiftRight_eq_div_pow]
  norm_cast

theorem fitting_ok {message : String} {v : Int} (fits : Fits v) : fitting message v = .ok v :=
  if_pos fits

theorem add_ok {a b : Int} (fits : Fits (a + b)) : add a b = .ok (a + b) := fitting_ok fits

theorem sub_ok {a b : Int} (fits : Fits (a - b)) : sub a b = .ok (a - b) := fitting_ok fits

theorem mul_ok {a b : Int} (fits : Fits (a * b)) : mul a b = .ok (a * b) := fitting_ok fits

theorem shl_ok {a : Int} {n : Nat} (fits : Fits (a * 2 ^ n)) : shl a n = .ok (a * 2 ^ n) :=
  fitting_ok fits

theorem zero_land (x : Int) : Int.land 0 x = 0 := by
  cases x with
  | ofNat n => exact congrArg Int.ofNat (Nat.zero_and n)
  | negSucc n => exact congrArg Int.ofNat (Nat.eq_of_testBit_eq fun i => by simp [Nat.testBit_ldiff])

theorem neg_one_land (x : Int) : Int.land (-1) x = x := by
  cases x with
  | ofNat n => exact congrArg Int.ofNat (Nat.eq_of_testBit_eq fun i => by simp [Nat.testBit_ldiff])
  | negSucc n => exact congrArg Int.negSucc (Nat.zero_or n)

theorem xor_zero (x : Int) : Int.xor x 0 = x := by
  cases x with
  | ofNat n => exact congrArg Int.ofNat (Nat.xor_zero n)
  | negSucc n => exact congrArg Int.negSucc (Nat.xor_zero n)

theorem xor_xor_left (x y : Int) : Int.xor x (Int.xor x y) = y := by
  cases x <;> cases y <;> simp [Int.xor]

theorem xor_xor_right (x y : Int) : Int.xor y (Int.xor x y) = x := by
  cases x <;> cases y <;> simp [Int.xor, Nat.xor_left_comm]

theorem ldiff_mask (n k : Nat) : Nat.ldiff (2 ^ k - 1) n = 2 ^ k - (n % 2 ^ k + 1) := by
  have below : n % 2 ^ k < 2 ^ k := Nat.mod_lt _ (Nat.two_pow_pos k)
  refine Nat.eq_of_testBit_eq fun i => ?_
  rw [Nat.testBit_ldiff, Nat.testBit_two_pow_sub_one, Nat.testBit_two_pow_sub_succ below,
    Nat.testBit_mod_two_pow]
  by_cases low : i < k <;> simp [low]

theorem land_mask (x : Int) (k : Nat) : Int.land x ((2 ^ k - 1 : Nat) : Int) = x % 2 ^ k := by
  cases x with
  | ofNat n =>
    show ((n &&& (2 ^ k - 1) : Nat) : Int) = (n : Int) % 2 ^ k
    rw [Nat.and_two_pow_sub_one_eq_mod]
    norm_cast
  | negSucc n =>
    show (Nat.ldiff (2 ^ k - 1) n : Int) = Int.negSucc n % 2 ^ k
    have below : n % 2 ^ k < 2 ^ k := Nat.mod_lt _ (Nat.two_pow_pos k)
    have positive : (0 : Int) < 2 ^ k := Int.pow_pos (by decide)
    rw [ldiff_mask, Int.negSucc_emod n positive, Nat.cast_sub below]
    push_cast
    ring

end I64

end Base
