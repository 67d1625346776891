import LxmfChat.Reticulum.Curve.Carry

/-! Sums, differences and products of field elements do not overflow and are what they should be. -/

namespace LxmfChat

open Base Checked
open Finset (range)

namespace Gf

variable {a b o : Gf} {A B : Int} {j k : Nat} {f g : ZMod P25519}

theorem Bounded.mono (bounded : a.Bounded A) (larger : A ≤ B) : a.Bounded B :=
  fun i inside => (bounded i inside).trans larger

/--
The limbs stand for an element of the field.

A product needs limbs of at most nineteen bits, and leaves limbs of at most seventeen; the bound
counts in units of the latter.
-/
structure Stands (k : Nat) (o : Gf) (f : ZMod P25519) : Prop where
  bounded : o.Bounded (k * 2 ^ 17)
  element : o.toField = f

theorem Stands.mono (stands : Stands j a f) (larger : j ≤ k) : Stands k a f :=
  ⟨stands.bounded.mono (by omega), stands.element⟩

theorem Stands.of_limbs (limbs : ∀ i : Fin 16, |digit o i| ≤ 2 ^ 17) (element : o.toField = f) :
    Stands 1 o f := by
  refine ⟨fun i inside => ?_, element⟩
  rw [Nat.cast_one, one_mul]
  exact limbs ⟨i, inside⟩

theorem fill_returns {limb : Fin 16 → Checked Int} (f : Nat → Int)
    (computed : ∀ i : Fin 16, limb i = .ok (f i)) :
    (fill limb).Returns fun o => ∀ i < 16, digit o i = f i := by
  refine Returns.each (I := fun k o => ∀ i < k, digit o i = f i)
    (fun i done => absurd done (Nat.not_lt_zero i)) fun i s before => ?_
  rw [computed i, ok_bind]
  refine .ok fun j done => ?_
  rw [digit_put]
  split_ifs with same
  · rw [same]
  · exact before j (by omega)

theorem val_eq_sum {f : Nat → Int} (limbs : ∀ i < 16, digit o i = f i) :
    o.val = ∑ i ∈ range 16, f i * (2 ^ 16) ^ i := by
  rw [val, value, front]
  exact Finset.sum_congr rfl fun i inside => by rw [limbs i (Finset.mem_range.mp inside)]

theorem limbwise_returns {op : Int → Int → Checked Int} {s : Int} (unit : |s| = 1)
    (computes : ∀ x y, I64.Fits (x + s * y) → op x y = .ok (x + s * y)) (first : Stands j a f)
    (second : Stands k b g) (room : j + k ≤ 2 ^ 20) :
    (fill fun i => op (a.get i) (b.get i)).Returns fun o => Stands (j + k) o (f + s * g) := by
  have bounded : ∀ i < 16, |digit a i + s * digit b i| ≤ (j + k : Nat) * 2 ^ 17 := by
    intro i inside
    have sizes := add_le_add (first.bounded i inside) (second.bounded i inside)
    refine (abs_add_le _ _).trans ?_
    rwa [abs_mul, unit, one_mul, Nat.cast_add, add_mul]
  have limbs : ∀ i : Fin 16, op (a.get i) (b.get i) = .ok (digit a i + s * digit b i) := by
    intro i
    have bound := abs_le.mp (bounded i i.isLt)
    rw [get_eq_digit, get_eq_digit]
    exact computes _ _ ⟨by omega, by omega⟩
  refine (fill_returns (fun k => digit a k + s * digit b k) limbs).mono fun o digits => ⟨?_, ?_⟩
  · intro i inside
    rw [digits i inside]
    exact bounded i inside
  · have sum : o.val = a.val + s * b.val := by
      rw [val_eq_sum digits, val, val, value, value, front, front, Finset.mul_sum,
        ← Finset.sum_add_distrib]
      exact Finset.sum_congr rfl fun i _ => by ring
    rw [toField, sum, Int.cast_add, Int.cast_mul, ← toField, ← toField, first.element,
      second.element]

theorem add_returns (first : Stands j a f) (second : Stands k b g) (room : j + k ≤ 2 ^ 20) :
    (add a b).Returns fun o => Stands (j + k) o (f + g) := by
  have computes : ∀ x y, I64.Fits (x + 1 * y) → I64.add x y = .ok (x + 1 * y) := by
    intro x y
    rw [one_mul]
    exact I64.add_ok
  rw [add]
  simpa using limbwise_returns rfl computes first second room

theorem sub_returns (first : Stands j a f) (second : Stands k b g) (room : j + k ≤ 2 ^ 20) :
    (sub a b).Returns fun o => Stands (j + k) o (f - g) := by
  have computes : ∀ x y, I64.Fits (x + -1 * y) → I64.sub x y = .ok (x + -1 * y) := by
    intro x y
    rw [neg_one_mul, ← sub_eq_add_neg]
    exact I64.sub_ok
  rw [sub, sub_eq_add_neg]
  simpa using limbwise_returns rfl computes first second room

def upper (t : Vector Int 31) (k : Nat) : Int := ∑ i ∈ range k, digit t (i + 16) * (2 ^ 16) ^ i

theorem value_eq_upper (t : Vector Int 31) :
    value (2 ^ 16) t = front (2 ^ 16) t 16 + 2 ^ 256 * upper t 15 := by
  have parts := front_add (2 ^ 16) t 16 15
  rwa [← pow_mul] at parts

/-- Half way through folding the upper half into the lower. -/
structure Folding (t : Vector Int 31) (k : Nat) (t' : Vector Int 31) : Prop where
  small : ∀ i < 16, |digit t' i| ≤ 39 * 2 ^ 43
  later : ∀ i, k ≤ i → digit t' i = digit t i
  same : front (2 ^ 16) t' 16 = front (2 ^ 16) t 16 + 38 * upper t k

theorem fold_returns {t : Vector Int 31} (small : ∀ k, |digit t k| ≤ 2 ^ 43) :
    (each 15 foldLimb t).Returns (Folding t 15) := by
  refine Returns.each (I := Folding t) ⟨?_, fun i _ => rfl, ?_⟩ fun i s before => ?_
  · exact fun i _ => (small i).trans (by norm_num)
  · rw [upper, Finset.sum_range_zero, mul_zero, add_zero]
  · have low := small i
    have high := small (i + 16)
    rw [abs_le] at low high
    rw [foldLimb]
    simp only [get_eq_digit, before.later i (Nat.le_refl _),
      before.later (i + 16) (Nat.le_add_right _ _)]
    rw [I64.mul_ok ⟨by omega, by omega⟩, ok_bind, I64.add_ok ⟨by omega, by omega⟩, ok_bind]
    refine .ok ⟨fun k inside => ?_, fun k later => ?_, ?_⟩
    · rw [digit_put]
      split_ifs
      · rw [abs_le]
        omega
      · exact before.small k inside
    · rw [digit_put_of_ne (by dsimp only; omega)]
      exact before.later k (by omega)
    · rw [front_put, if_pos (by dsimp only; omega), before.same, before.later i (Nat.le_refl _),
        upper, upper, Finset.sum_range_succ]
      ring

theorem rows_return (first : a.Bounded (2 ^ 19)) (second : b.Bounded (2 ^ 19)) :
    (addProduct a b (by decide) (Vector.replicate 31 0)).Returns fun t =>
      (∀ k, |digit t k| ≤ 2 ^ 43) ∧ value (2 ^ 16) t = a.val * b.val := by
  have products : ∀ i < 16, ∀ j < 16, |digit a i * digit b j| ≤ 2 ^ 38 := by
    intro i inside j inside'
    rw [abs_mul]
    calc |digit a i| * |digit b j| ≤ 2 ^ 19 * 2 ^ 19 :=
          mul_le_mul (first i inside) (second j inside') (abs_nonneg _) (by norm_num)
      _ = 2 ^ 38 := by norm_num
  have start : ∀ k, |digit (Vector.replicate 31 0) k| ≤ 0 := by
    intro k
    rw [digit_replicate, ite_self, abs_zero]
  refine (addProduct_returns (W := 2 ^ 16) products start (by norm_num) (by norm_num)).mono fun t product =>
    ⟨fun k => (product.1 k).trans (by norm_num), ?_⟩
  rw [product.2, value, front_replicate_zero, zero_add]
  rfl

theorem car25519_twice_returns (bounded : o.Bounded (2 ^ 50)) :
    ((car25519 o) >>= car25519).Returns fun o' =>
      o'.toField = o.toField ∧ ∃ o₁ q, Carried o₁ o' q ∧ |q| ≤ 1 := by
  refine (car25519_returns (bounded.mono (by norm_num))).bind fun o₁ carried₁ => ?_
  obtain ⟨q₁, carried₁⟩ := carried₁
  have size := carried₁.quotient_le bounded (by norm_num)
  have bounded₁ := carried₁.bounded size (by norm_num)
  refine (car25519_returns (bounded₁.mono (by norm_num))).mono fun o₂ carried₂ => ?_
  obtain ⟨q₂, carried₂⟩ := carried₂
  -- What the first pass leaves is so small that the second carries out at most one.
  have little := carried₁.again (size.trans (by norm_num)) carried₂
  exact ⟨carried₂.toField.trans carried₁.toField, o₁, q₂, carried₂, little⟩

theorem carry_twice_returns (bounded : o.Bounded (2 ^ 50)) :
    ((car25519 o) >>= car25519).Returns fun o' => Stands 1 o' o.toField := by
  refine (car25519_twice_returns bounded).mono fun o₂ carried => ?_
  obtain ⟨same, o₁, q, carried, little⟩ := carried
  refine ⟨fun i inside => ?_, same⟩
  rw [abs_le] at little ⊢
  rcases Nat.eq_zero_or_pos i with rfl | positive
  · have first := carried.first
    omega
  · have rest := carried.rest i positive inside
    omega

theorem mul_returns (first : Stands j a f) (second : Stands k b g) (small : j ≤ 4) (small' : k ≤ 4) :
    (mul a b).Returns fun o => Stands 1 o (f * g) := by
  have bounded : a.Bounded (2 ^ 19) := first.bounded.mono (by omega)
  have bounded' : b.Bounded (2 ^ 19) := second.bounded.mono (by omega)
  rw [mul]
  refine (rows_return bounded bounded').bind fun t rows => ?_
  obtain ⟨limbs, product⟩ := rows
  refine (fold_returns limbs).bind fun t' folding => ?_
  have lower : ∀ i < 16, digit (Vector.ofFn fun i : Fin 16 => t'.get ⟨i, by omega⟩) i
      = digit t' i := by
    intro i inside
    rw [digit_ofFn _ ⟨i, inside⟩, get_eq_digit]
  refine (carry_twice_returns fun i inside => ?_).mono fun o carried => ⟨carried.bounded, ?_⟩
  · rw [lower i inside]
    exact (folding.small i inside).trans (by norm_num)
  · -- The upper half counts 2^256 times, which is thirty-eight in the field.
    have folded : Gf.val (Vector.ofFn fun i : Fin 16 => t'.get ⟨i, by omega⟩)
        = a.val * b.val + upper t 15 * (38 - 2 ^ 256) := by
      rw [val, value, front_congr lower, folding.same, ← product, value_eq_upper]
      ring
    rw [carried.element, toField, folded, Int.cast_add, Int.cast_mul, Int.cast_mul, cast_wrap, mul_zero,
      add_zero, ← toField, ← toField, first.element, second.element]

theorem sqr_returns (stands : Stands k a f) (small : k ≤ 4) :
    (sqr a).Returns fun o => Stands 1 o (f ^ 2) := by
  rw [pow_two]
  exact mul_returns stands stands small small

theorem power_returns (stands : Stands k a f) (small : k ≤ 4) {rounds : Nat} {skipped : Nat → Bool}
    {exponent : Nat} (top : exponent / 2 ^ rounds = 1)
    (bits : ∀ n < rounds, exponent / 2 ^ n % 2 = if skipped n then 0 else 1) :
    (power rounds skipped a).Returns fun o => Stands 4 o (f ^ exponent) := by
  have chain : (power rounds skipped a).Returns fun o => Stands 4 o (f ^ (exponent / 2 ^ 0)) := by
    refine Returns.eachDown (I := fun n o => Stands 4 o (f ^ (exponent / 2 ^ n))) ?_
      fun i c before => ?_
    · rw [top, pow_one]
      exact stands.mono small
    · -- The bits so far are shifted by one place, and the next bit is added.
      have shifted : exponent / 2 ^ (i : Nat)
          = exponent / 2 ^ ((i : Nat) + 1) * 2 + if skipped i then 0 else 1 := by
        rw [← bits i i.isLt, pow_succ, ← Nat.div_div_eq_div_mul]
        omega
      refine (sqr_returns before le_rfl).bind fun c' square => ?_
      rw [shifted, pow_add, pow_mul]
      split_ifs
      · rw [pow_zero, mul_one]
        exact .ok (square.mono (by decide))
      · rw [pow_one]
        exact (mul_returns square stands (by decide) small).mono fun o product =>
          product.mono (by decide)
  rwa [pow_zero, Nat.div_one] at chain

theorem inv25519_returns (stands : Stands k a f) (small : k ≤ 4) :
    (inv25519 a).Returns fun o => Stands 4 o (f ^ (P25519 - 2)) := by
  refine power_returns stands small (by decide) ?_
  have bits : ∀ n : Fin 254, (P25519 - 2) / 2 ^ (n : Nat) % 2
      = if ((n : Nat) == 2 || (n : Nat) == 4) = true then 0 else 1 := by
    decide +kernel
  exact fun n inside => bits ⟨n, inside⟩

theorem pow2523_returns (stands : Stands k a f) (small : k ≤ 4) :
    (pow2523 a).Returns fun o => Stands 4 o (f ^ (2 ^ 252 - 3)) := by
  refine power_returns stands small (by decide) ?_
  have bits : ∀ n : Fin 251, (2 ^ 252 - 3) / 2 ^ (n : Nat) % 2
      = if ((n : Nat) == 1) = true then 0 else 1 := by
    decide +kernel
  exact fun n inside => bits ⟨n, inside⟩

theorem ofFn_get (o : Gf) : (Vector.ofFn fun i => o.get i) = o := by
  refine Vector.ext fun i inside => ?_
  rw [Vector.getElem_ofFn]
  rfl

theorem sel25519_ok (p q : Gf) (swap : Bool) :
    sel25519 p q (if swap then 1 else 0) = .ok (if swap then (q, p) else (p, q)) := by
  cases swap with
  | true =>
    rw [sel25519, if_pos rfl, I64.sub_ok ⟨by decide, by decide⟩, ok_bind,
      show Int.lnot (1 - 1) = -1 from rfl]
    simp only [I64.neg_one_land, I64.xor_xor_left, I64.xor_xor_right, ofFn_get, pure_eq_ok, if_true]
  | false =>
    rw [sel25519, if_neg Bool.false_ne_true, I64.sub_ok ⟨by decide, by decide⟩, ok_bind,
      show Int.lnot (0 - 1) = 0 from rfl]
    simp only [I64.zero_land, I64.xor_zero, ofFn_get, pure_eq_ok, Bool.false_eq_true, if_false]

def limbOf (n : BytesN 32) (i : Nat) : Int :=
  (n.val.getD (2 * i) 0).toNat + (n.val.getD (2 * i + 1) 0).toNat * 2 ^ 8

theorem limbOf_bounds (n : BytesN 32) (i : Nat) : 0 ≤ limbOf n i ∧ limbOf n i < 2 ^ 16 := by
  have low := (n.val.getD (2 * i) 0).toNat_lt
  have high := (n.val.getD (2 * i + 1) 0).toNat_lt
  rw [limbOf]
  omega

theorem readLimb_ok (n : BytesN 32) (i : Fin 16) : readLimb n i = .ok (limbOf n i) := by
  have low := (n.val.getD (2 * i) 0).toNat_lt
  have high := (n.val.getD (2 * i + 1) 0).toNat_lt
  rw [readLimb, I64.shl_ok ⟨by omega, by omega⟩, ok_bind, I64.add_ok ⟨by omega, by omega⟩, limbOf]

theorem sum_limbs (n : BytesN 32) :
    ∑ i ∈ range 16, limbOf n i * (2 ^ 16) ^ i = (leNat n.val : Int) := by
  have pairs := sum_pairs (fun k => ((n.val.getD k 0).toNat : Int)) (2 ^ 8) 16
  rw [show ((2 : Int) ^ 8) ^ 2 = 2 ^ 16 by norm_num] at pairs
  refine pairs.trans ?_
  rw [leNat_eq_sum, n.property]
  push_cast
  rfl

theorem unpack25519_returns (n : BytesN 32) :
    (unpack25519 n).Returns fun o => Stands 1 o ((leNat n.val % 2 ^ 255 : Nat) : ZMod P25519) := by
  rw [unpack25519]
  refine (fill_returns (limbOf n) (readLimb_ok n)).bind fun o digits => ?_
  have total : o.val = leNat n.val := (val_eq_sum digits).trans (sum_limbs n)
  have mask : Int.land (o.get 15) 0x7fff = limbOf n 15 % 2 ^ 15 := by
    rw [get_eq_digit, ← digits 15 (by decide)]
    exact I64.land_mask _ 15
  rw [mask]
  have last := limbOf_bounds n 15
  have limbs : ∀ i < 16, 0 ≤ digit (put o 15 (limbOf n 15 % 2 ^ 15)) i ∧
      digit (put o 15 (limbOf n 15 % 2 ^ 15)) i < 2 ^ 16 := by
    intro i inside
    rw [digit_put]
    split_ifs
    · omega
    · rw [digits i inside]
      exact limbOf_bounds n i
  refine .ok ⟨fun i inside => ?_, ?_⟩
  · have limb := limbs i inside
    rw [abs_le]
    omega
  · rw [toField, ← Int.cast_natCast (leNat n.val % 2 ^ 255)]
    congr 1
    -- The highest bit is taken off, and what is left is below its place.
    have low := front_nonneg (W := 2 ^ 16) (by norm_num) fun i inside => (limbs i inside).1
    have high : front (2 ^ 16) (put o 15 (limbOf n 15 % 2 ^ 15)) 15 < (2 ^ 16) ^ 15 :=
      front_lt (by norm_num) fun i inside => (limbs i (by omega)).2
    have top : front (2 ^ 16) (put o 15 (limbOf n 15 % 2 ^ 15)) 16 = _ := front_succ _ _ 15
    have change := value_put (2 ^ 16) o 15 (limbOf n 15 % 2 ^ 15)
    rw [show ((15 : Fin 16) : Nat) = 15 from rfl, digits 15 (by decide),
      show value (2 ^ 16) o = leNat n.val from total] at change
    rw [show digit (put o 15 (limbOf n 15 % 2 ^ 15)) 15 = limbOf n 15 % 2 ^ 15 from
      digit_put_self o 15 _] at top
    rw [show ((2 : Int) ^ 16) ^ 15 = 2 ^ 240 by norm_num] at high top change
    rw [val, change]
    rw [value] at change
    omega

end Gf

end LxmfChat
