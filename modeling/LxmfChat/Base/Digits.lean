import LxmfChat.Base.Bytes
import Mathlib.Algebra.BigOperators.Fin
import Mathlib.Algebra.BigOperators.Intervals
import Mathlib.Algebra.BigOperators.Ring.Finset
import Mathlib.Algebra.Order.BigOperators.Group.Finset
import Mathlib.Algebra.Order.Ring.Abs
import Mathlib.Tactic.Linarith

/-! Numbers as vectors of digits that may be negative or too large, and as little-endian bytes. -/

namespace Base

open Finset (range sum_range_succ sum_range_succ')

variable {n : Nat}

def put (v : Vector Int n) (i : Fin n) (x : Int) : Vector Int n := v.set i x

def digit (v : Vector Int n) (i : Nat) : Int := if inside : i < n then v[i] else 0

def front (W : Int) (v : Vector Int n) (k : Nat) : Int := ∑ i ∈ range k, digit v i * W ^ i

def value (W : Int) (v : Vector Int n) : Int := front W v n

variable {W : Int} {v : Vector Int n}

theorem get_eq_digit (v : Vector Int n) (i : Fin n) : v.get i = digit v i := by
  rw [digit, dif_pos i.isLt]
  rfl

@[simp] theorem front_zero : front W v 0 = 0 := rfl

theorem front_succ (W : Int) (v : Vector Int n) (k : Nat) :
    front W v (k + 1) = front W v k + digit v k * W ^ k :=
  sum_range_succ _ _

theorem front_add (W : Int) (v : Vector Int n) (k m : Nat) :
    front W v (k + m) = front W v k + W ^ k * ∑ i ∈ range m, digit v (i + k) * W ^ i := by
  rw [front, Finset.sum_range_add, ← front, Finset.mul_sum]
  congr 1
  refine Finset.sum_congr rfl fun i _ => ?_
  rw [Nat.add_comm, pow_add]
  ring

theorem digit_put (v : Vector Int n) (i : Fin n) (x : Int) (j : Nat) :
    digit (put v i x) j = if j = i then x else digit v j := by
  rw [digit, put]
  split_ifs with inside same same
  · rw [Vector.getElem_set, if_pos same.symm]
  · rw [Vector.getElem_set, if_neg (Ne.symm same), digit, dif_pos inside]
  · exact absurd (same ▸ i.isLt) inside
  · rw [digit, dif_neg inside]

@[simp] theorem digit_put_self (v : Vector Int n) (i : Fin n) (x : Int) :
    digit (put v i x) i = x := by
  rw [digit_put, if_pos rfl]

theorem digit_put_of_ne {i : Fin n} {j : Nat} (other : j ≠ i) (x : Int) :
    digit (put v i x) j = digit v j := by
  rw [digit_put, if_neg other]

theorem digit_ofFn (f : Fin n → Int) (i : Fin n) : digit (Vector.ofFn f) i = f i := by
  rw [digit, dif_pos i.isLt, Vector.getElem_ofFn]

@[simp] theorem digit_replicate (x : Int) (i : Nat) :
    digit (Vector.replicate n x) i = if i < n then x else 0 := by
  rw [digit]
  split_ifs <;> simp

@[simp] theorem front_replicate_zero (k : Nat) : front W (Vector.replicate n 0) k = 0 :=
  Finset.sum_eq_zero fun i _ => by rw [digit_replicate, ite_self, zero_mul]

theorem front_put (W : Int) (v : Vector Int n) (i : Fin n) (x : Int) (k : Nat) :
    front W (put v i x) k
      = front W v k + if (i : Nat) < k then (x - digit v i) * W ^ (i : Nat) else 0 := by
  induction k with
  | zero => simp
  | succ k ih =>
    rw [front_succ, front_succ, ih, digit_put]
    rcases Nat.lt_trichotomy i k with below | same | above
    · rw [if_pos below, if_neg (by omega), if_pos (by omega)]
      ring
    · rw [if_neg (by omega), if_pos same.symm, if_pos (by omega), ← same]
      ring
    · rw [if_neg (by omega), if_neg (by omega), if_neg (by omega)]
      ring

theorem value_put (W : Int) (v : Vector Int n) (i : Fin n) (x : Int) :
    value W (put v i x) = value W v + (x - digit v i) * W ^ (i : Nat) := by
  rw [value, front_put, if_pos i.isLt, value]

theorem front_congr {m : Nat} {w : Vector Int m} {k : Nat}
    (same : ∀ i < k, digit v i = digit w i) : front W v k = front W w k :=
  Finset.sum_congr rfl fun i inside => by rw [same i (Finset.mem_range.mp inside)]

theorem front_nonneg (base : 0 ≤ W) {k : Nat} (digits : ∀ i < k, 0 ≤ digit v i) :
    0 ≤ front W v k :=
  Finset.sum_nonneg fun i inside =>
    Int.mul_nonneg (digits i (Finset.mem_range.mp inside)) (Int.pow_nonneg base)

theorem front_lt (base : 0 < W) {k : Nat} (digits : ∀ i < k, digit v i < W) :
    front W v k < W ^ k := by
  induction k with
  | zero => simp
  | succ k ih =>
    have lower := ih fun i inside => digits i (Nat.lt_succ_of_lt inside)
    have place : 0 < W ^ k := Int.pow_pos base
    have top : digit v k ≤ W - 1 := Int.le_sub_one_of_lt (digits k (Nat.lt_succ_self k))
    have product : digit v k * W ^ k ≤ (W - 1) * W ^ k :=
      Int.mul_le_mul_of_nonneg_right top place.le
    rw [front_succ, pow_succ]
    linarith

theorem sub_one_mul_abs_front_le (base : 1 ≤ W) {M : Int} {k : Nat}
    (digits : ∀ i < k, |digit v i| ≤ M) : (W - 1) * |front W v k| ≤ M * (W ^ k - 1) := by
  induction k with
  | zero => simp
  | succ k ih =>
    have lower := ih fun i inside => digits i (Nat.lt_succ_of_lt inside)
    have place : 0 < W ^ k := Int.pow_pos (by omega)
    have top : |digit v k * W ^ k| ≤ M * W ^ k := by
      rw [abs_mul, abs_of_pos place]
      exact Int.mul_le_mul_of_nonneg_right (digits k (Nat.lt_succ_self k)) place.le
    rw [front_succ, pow_succ]
    calc (W - 1) * |front W v k + digit v k * W ^ k|
        ≤ (W - 1) * (|front W v k| + |digit v k * W ^ k|) :=
          Int.mul_le_mul_of_nonneg_left (abs_add_le _ _) (by omega)
      _ ≤ M * (W ^ k - 1) + (W - 1) * (M * W ^ k) := by
        rw [mul_add]
        exact add_le_add lower (Int.mul_le_mul_of_nonneg_left top (by omega))
      _ = M * (W ^ k * W - 1) := by ring

theorem abs_front_le (base : 2 ≤ W) {M : Int} {k : Nat} (digits : ∀ i < k, |digit v i| ≤ M)
    (bound : 0 ≤ M) : |front W v k| ≤ M * W ^ k := by
  have sum := sub_one_mul_abs_front_le (W := W) (by omega) digits
  have once : 1 * |front W v k| ≤ (W - 1) * |front W v k| :=
    Int.mul_le_mul_of_nonneg_right (by omega) (abs_nonneg _)
  linarith

def leNat (b : Bytes) : Nat := b.foldr (fun byte rest => byte.toNat + 256 * rest) 0

def leBytes : Nat → Nat → Bytes
  | 0, _ => []
  | width + 1, v => UInt8.ofNat v :: leBytes width (v / 256)

@[simp] theorem leNat_cons (byte : UInt8) (rest : Bytes) :
    leNat (byte :: rest) = byte.toNat + 256 * leNat rest := rfl

@[simp] theorem leBytes_length (width v : Nat) : (leBytes width v).length = width := by
  induction width generalizing v with
  | zero => rfl
  | succ width ih => simp [leBytes, ih]

theorem leNat_lt (b : Bytes) : leNat b < 256 ^ b.length := by
  induction b with
  | nil => simp [leNat]
  | cons byte rest ih =>
    have low := byte.toNat_lt
    rw [leNat_cons, List.length_cons, Nat.pow_succ]
    omega

theorem leNat_leBytes (width v : Nat) : leNat (leBytes width v) = v % 256 ^ width := by
  induction width generalizing v with
  | zero => simp [leBytes, leNat, Nat.mod_one]
  | succ width ih =>
    rw [leBytes, leNat_cons, ih, UInt8.toNat_ofNat', Nat.pow_succ' (n := width), Nat.mod_mul]

theorem leBytes_leNat (b : Bytes) : leBytes b.length (leNat b) = b := by
  induction b with
  | nil => rfl
  | cons byte rest ih =>
    have low := byte.toNat_lt
    rw [List.length_cons, leBytes, leNat_cons, Nat.add_mul_div_left _ _ (by decide),
      Nat.div_eq_of_lt low, Nat.zero_add, ih]
    congr 1
    exact UInt8.toNat_inj.mp (by rw [UInt8.toNat_ofNat']; omega)

theorem leNat_injective {a b : Bytes} (width : a.length = b.length) (same : leNat a = leNat b) :
    a = b := by
  rw [← leBytes_leNat a, ← leBytes_leNat b, width, same]

theorem getD_leBytes {width i : Nat} (inside : i < width) (v : Nat) :
    (leBytes width v).getD i 0 = UInt8.ofNat (v / 256 ^ i) := by
  induction width generalizing i v with
  | zero => exact absurd inside (Nat.not_lt_zero i)
  | succ width ih =>
    cases i with
    | zero => simp [leBytes]
    | succ i =>
      rw [leBytes, List.getD_cons_succ, ih (Nat.lt_of_succ_lt_succ inside), Nat.div_div_eq_div_mul,
        Nat.pow_succ']

theorem leNat_modify (f : UInt8 → UInt8) {b : Bytes} {i : Nat} (inside : i < b.length) :
    leNat (b.modify i f) + 256 ^ i * (b.getD i 0).toNat
      = leNat b + 256 ^ i * (f (b.getD i 0)).toNat := by
  induction b generalizing i with
  | nil => exact absurd inside (Nat.not_lt_zero i)
  | cons byte rest ih =>
    cases i with
    | zero =>
      simp only [List.modify_zero_cons, leNat_cons, List.getD_cons_zero, pow_zero]
      omega
    | succ i =>
      have later := ih (Nat.lt_of_succ_lt_succ inside)
      simp only [List.modify_succ_cons, leNat_cons, List.getD_cons_succ, pow_succ]
      linarith

theorem leNat_eq_sum (b : Bytes) :
    leNat b = ∑ k ∈ range b.length, (b.getD k 0).toNat * 256 ^ k := by
  induction b with
  | nil => rfl
  | cons byte rest ih =>
    rw [leNat_cons, ih, List.length_cons, sum_range_succ', Finset.mul_sum, Nat.add_comm]
    congr 1
    · refine Finset.sum_congr rfl fun k _ => ?_
      rw [List.getD_cons_succ, pow_succ]
      ring
    · simp

theorem testBit_leNat (b : Bytes) (i : Nat) :
    (leNat b).testBit i = (b.getD (i / 8) 0).toNat.testBit (i % 8) := by
  induction b generalizing i with
  | nil => simp [leNat]
  | cons byte rest ih =>
    have low : byte.toNat < 2 ^ 8 := byte.toNat_lt
    rw [leNat_cons, Nat.add_comm, show 256 = 2 ^ 8 from rfl, Nat.testBit_two_pow_mul_add _ low]
    split_ifs with inside
    · rw [Nat.div_eq_of_lt inside, Nat.mod_eq_of_lt inside, List.getD_cons_zero]
    · obtain ⟨j, rfl⟩ := Nat.exists_eq_add_of_le (Nat.not_lt.mp inside)
      rw [Nat.add_sub_cancel_left, ih, Nat.add_div_left _ (by decide), Nat.add_mod_left,
        List.getD_cons_succ]

theorem sum_pairs {R : Type*} [CommSemiring R] (f : Nat → R) (W : R) (k : Nat) :
    ∑ i ∈ range k, (f (2 * i) + f (2 * i + 1) * W) * (W ^ 2) ^ i
      = ∑ i ∈ range (2 * k), f i * W ^ i := by
  induction k with
  | zero => simp
  | succ k ih =>
    rw [sum_range_succ, ih, Nat.mul_succ, sum_range_succ, sum_range_succ]
    ring

theorem toNat_ofInt {x : Int} (low : 0 ≤ x) (high : x < 256) :
    ((UInt8.ofInt x).toNat : Int) = x := by
  rw [UInt8.ofInt, UInt8.toNat_ofNat']
  omega

theorem leNat_map (f : Fin n → UInt8) :
    leNat ((List.finRange n).map f) = ∑ i : Fin n, (f i).toNat * 256 ^ (i : Nat) := by
  induction n with
  | zero => rfl
  | succ n ih =>
    rw [List.finRange_succ, List.map_cons, List.map_map, leNat_cons, ih, Fin.sum_univ_succ,
      Finset.mul_sum]
    simp only [Function.comp_apply, Fin.val_succ, Fin.val_zero, pow_succ, pow_zero, mul_one]
    congr 1
    exact Finset.sum_congr rfl fun i _ => by ring

theorem leNat_pairs (low high : Fin n → UInt8) :
    leNat ((List.finRange n).flatMap fun i => [low i, high i])
      = ∑ i : Fin n, ((low i).toNat + (high i).toNat * 2 ^ 8) * (2 ^ 16) ^ (i : Nat) := by
  induction n with
  | zero => rfl
  | succ n ih =>
    rw [List.finRange_succ, List.flatMap_cons, List.flatMap_map, Fin.sum_univ_succ]
    simp only [List.cons_append, List.nil_append, leNat_cons, ih, Fin.val_succ, Fin.val_zero,
      pow_succ, pow_zero, ← Finset.sum_mul, ← mul_assoc]
    ring

/-- The bytes stand for the one number below the modulus that is congruent to the value. -/
def LeastRemainder (m : Nat) (v : Int) (b : Bytes) : Prop :=
  leNat b < m ∧ ∀ n < m, n = leNat b ↔ (n : Int) % m = v % m

theorem leastRemainder {m : Nat} (positive : 0 < m) {v : Int} {b : Bytes}
    (same : (leNat b : Int) = v % m) : LeastRemainder m v b := by
  have below : v % m < m := Int.emod_lt_of_pos v (by omega)
  refine ⟨by omega, fun n small => ?_⟩
  -- A number below the modulus is its own remainder.
  rw [Int.emod_eq_of_lt (by omega) (by omega), ← same, Int.natCast_inj]

end Base
