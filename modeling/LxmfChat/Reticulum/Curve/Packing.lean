import LxmfChat.Reticulum.Curve.Arithmetic

/-! Packing: an element has one encoding, the bytes of its least representative. -/

namespace LxmfChat

open Base Checked

instance : NeZero P25519 := ⟨by decide⟩

def encodeElement (f : ZMod P25519) : BytesN 32 := ⟨leBytes 32 f.val, leBytes_length _ _⟩

theorem leNat_encodeElement (f : ZMod P25519) : leNat (encodeElement f).val = f.val := by
  have below : P25519 < 256 ^ 32 := by decide
  rw [encodeElement, leNat_leBytes, Nat.mod_eq_of_lt (f.val_lt.trans below)]

theorem encodeElement_injective : Function.Injective encodeElement := by
  intro f g same
  refine ZMod.val_injective P25519 ?_
  rw [← leNat_encodeElement, ← leNat_encodeElement, same]

namespace Gf

/-- All limbs are digits of sixteen bits. -/
def Digits (o : Gf) : Prop := ∀ i < 16, 0 ≤ digit o i ∧ digit o i < 2 ^ 16

variable {n t m : Gf}

theorem Digits.val_bounds (digits : t.Digits) : 0 ≤ t.val ∧ t.val < 2 ^ 256 := by
  have low := front_nonneg (W := 2 ^ 16) (by norm_num) fun i inside => (digits i inside).1
  have high := front_lt (W := 2 ^ 16) (by norm_num) fun i inside => (digits i inside).2
  exact ⟨low, by rwa [← pow_mul] at high⟩

theorem carry_thrice_returns (bounded : n.Bounded (2 ^ 50)) :
    ((car25519 n) >>= fun n => car25519 n >>= car25519).Returns fun t =>
      t.Digits ∧ t.toField = n.toField := by
  rw [← bind_assoc]
  refine (car25519_twice_returns bounded).bind fun o₂ carried₂ => ?_
  obtain ⟨same, o₁, q₂, carried₂, little⟩ := carried₂
  have bounded₂ := carried₂.bounded (M := 2 ^ 16) (little.trans (by norm_num)) le_rfl
  refine (car25519_returns (bounded₂.mono (by norm_num))).mono fun o₃ carried₃ => ?_
  obtain ⟨q₃, carried₃⟩ := carried₃
  exact ⟨fun i inside => carried₂.digits little carried₃ inside, carried₃.toField.trans same⟩

def prime : Gf :=
  #v[0xffed, 0xffff, 0xffff, 0xffff, 0xffff, 0xffff, 0xffff, 0xffff, 0xffff, 0xffff, 0xffff, 0xffff,
    0xffff, 0xffff, 0xffff, 0x7fff]

theorem prime_val : prime.val = P25519 := by decide +kernel

theorem prime_digits : prime.Digits := by
  intro i inside
  revert i
  decide

theorem borrow_eq {x : Int} (low : -2 ^ 16 ≤ x) (high : x < 2 ^ 16) :
    Int.land (I64.shr x 16) 1 = -(x / 2 ^ 16) := by
  rw [I64.shr_eq]
  refine (I64.land_mask _ 1).trans ?_
  omega

/-- Half way through subtracting: up to a limb it is done, but for what that limb has to borrow. -/
structure Borrowing (t : Gf) (k : Nat) (m : Gf) : Prop where
  done : ∀ i < k, 0 ≤ digit m i ∧ digit m i < 2 ^ 16
  here : -2 ^ 16 ≤ digit m k ∧ digit m k < 2 ^ 16
  same : front (2 ^ 16) m (k + 1) = front (2 ^ 16) t (k + 1) - front (2 ^ 16) prime (k + 1)

theorem Borrowing.next (digits : t.Digits) {k : Nat} (below here : Fin 16) (place : (below : Nat) = k)
    (place' : (here : Nat) = k + 1) (borrowing : Borrowing t k m) :
    Borrowing t (k + 1) (put (put m here (digit t (k + 1) - digit prime (k + 1)
      - -(digit m k / 2 ^ 16))) below (digit m k % 2 ^ 16)) := by
  have range := borrowing.here
  have minuend := digits (k + 1) (by omega)
  have subtrahend := prime_digits (k + 1) (by omega)
  have same := borrowing.same
  refine ⟨fun i inside => ?_, ?_, ?_⟩
  · rw [digit_put, digit_put]
    split_ifs
    · omega
    · omega
    · exact borrowing.done i (by omega)
  · rw [digit_put, digit_put, if_neg (by omega), if_pos place'.symm]
    omega
  · -- What the limb gains is what the next one pays.
    have cut : digit m k % 2 ^ 16 = digit m k - 2 ^ 16 * (digit m k / 2 ^ 16) := by omega
    rw [front_put, if_pos (by omega), front_put, if_pos (by omega), digit_put_of_ne (by omega), place,
      place', front_succ _ m (k + 1), front_succ _ t (k + 1), front_succ _ prime (k + 1), same, cut,
      pow_succ]
    ring

theorem digit_prime_middle : ∀ k : Fin 14, digit prime (k + 1) = 0xffff := by decide

theorem borrowLimb_returns (digits : t.Digits) (k : Fin 14) (borrowing : Borrowing t k m) :
    (borrowLimb t m k).Returns (Borrowing t (k + 1)) := by
  have range := borrowing.here
  have minuend := digits (k + 1) (by omega)
  have next := borrowing.next digits ⟨k, by omega⟩ ⟨k + 1, by omega⟩ rfl rfl
  rw [digit_prime_middle] at next
  rw [borrowLimb]
  simp only [get_eq_digit, borrow_eq range.1 range.2]
  rw [I64.sub_ok ⟨by omega, by omega⟩, ok_bind, I64.sub_ok ⟨by omega, by omega⟩, ok_bind,
    digit_put_of_ne (by simp)]
  exact .ok ((I64.land_mask (digit m k) 16).symm ▸ next)

theorem Borrowing.last (borrowing : Borrowing t 15 m) :
    m.val = t.val - P25519 ∧ (digit m 15 < 0 ↔ t.val < P25519) := by
  have same : m.val = t.val - prime.val := borrowing.same
  have low := front_nonneg (W := 2 ^ 16) (by norm_num) fun i inside => (borrowing.done i inside).1
  have high := front_lt (W := 2 ^ 16) (by norm_num) fun i inside => (borrowing.done i inside).2
  have top : m.val = front (2 ^ 16) m 15 + digit m 15 * (2 ^ 16) ^ 15 := front_succ _ _ 15
  rw [prime_val] at same
  rw [show ((2 : Int) ^ 16) ^ 15 = 2 ^ 240 by norm_num] at high top
  refine ⟨same, ?_, ?_⟩ <;> intro negative <;> omega

theorem Borrowing.start (digits : t.Digits) :
    Borrowing t 0 (put zero 0 (digit t 0 - 0xffed)) := by
  have first := digits 0 (by decide)
  have limb : digit (put zero 0 (digit t 0 - 0xffed)) 0 = digit t 0 - 0xffed := digit_put_self _ 0 _
  refine ⟨fun i inside => absurd inside (Nat.not_lt_zero i), ?_, ?_⟩
  · rw [limb]
    omega
  · rw [front_succ, front_succ, front_succ, limb, show digit prime 0 = 0xffed by decide]
    simp only [front_zero]
    ring

theorem reduceOnce_returns (digits : t.Digits) :
    (reduceOnce t).Returns fun t' =>
      t'.Digits ∧ t'.val = if t.val < P25519 then t.val else t.val - P25519 := by
  have first := digits 0 (by decide)
  have last := digits 15 (by decide)
  rw [reduceOnce, get_eq_digit, show ((0 : Fin 16) : Nat) = 0 from rfl,
    I64.sub_ok ⟨by omega, by omega⟩, ok_bind]
  refine (Returns.each (Borrowing.start digits) fun k m => borrowLimb_returns digits k).bind
    fun m borrowing => ?_
  have range := borrowing.here
  have done : Borrowing t 15 (put (put m 15 (digit t 15 - 0x7fff - -(digit m 14 / 2 ^ 16))) 14
      (digit m 14 % 2 ^ 16)) := by
    have next := borrowing.next digits (k := 14) 14 15 rfl rfl
    rwa [show digit prime (14 + 1) = 0x7fff by decide] at next
  simp only [get_eq_digit, show ((14 : Fin 16) : Nat) = 14 from rfl,
    show ((15 : Fin 16) : Nat) = 15 from rfl, borrow_eq range.1 range.2]
  rw [I64.sub_ok ⟨by omega, by omega⟩, ok_bind, I64.sub_ok ⟨by omega, by omega⟩, ok_bind]
  generalize digit t 15 - 0x7fff - -(digit m 14 / 2 ^ 16) = x at done ⊢
  have top : digit (put m 15 x) 15 = x := digit_put_self m 15 x
  have top' : digit (put (put m 15 x) 14 (digit m 14 % 2 ^ 16)) 15 = x := by
    rw [digit_put_of_ne (by decide), top]
  have here := done.here
  have enough := done.last
  have flag : 1 - -(x / 2 ^ 16) = if decide (0 ≤ x) = true then 1 else 0 := by
    rw [top'] at here
    split_ifs with positive <;> rw [decide_eq_true_eq] at positive <;> omega
  rw [top'] at here enough
  rw [top, borrow_eq here.1 here.2, I64.sub_ok ⟨by omega, by omega⟩, ok_bind, flag, sel25519_ok, ok_bind,
    digit_put_of_ne (by decide), show Int.land (digit m 14) 0xffff = digit m 14 % 2 ^ 16 from
      I64.land_mask _ 16]
  refine .ok ?_
  by_cases negative : x < 0
  · rw [if_pos (enough.2.mp negative), if_neg (by simpa using negative)]
    exact ⟨digits, rfl⟩
  · rw [if_neg (mt enough.2.mpr negative), if_pos (by simpa using negative)]
    refine ⟨fun i inside => ?_, enough.1⟩
    rcases Nat.lt_or_eq_of_le (Nat.le_of_lt_succ inside) with below | rfl
    · exact done.done i below
    · rw [top']
      omega

theorem leNat_limbBytes (digits : t.Digits) : (leNat (limbBytes t).val : Int) = t.val := by
  rw [limbBytes, leNat_pairs, val, value, front, Finset.sum_range]
  push_cast
  refine Finset.sum_congr rfl fun i _ => ?_
  have range := digits i i.isLt
  have low : Int.land (digit t i) 0xff = digit t i % 2 ^ 8 := I64.land_mask _ 8
  rw [get_eq_digit, I64.shr_eq, low, toNat_ofInt (by omega) (by omega),
    toNat_ofInt (by omega) (by omega)]
  congr 1
  omega

theorem reduceTwice_returns (digits : t.Digits) :
    (each 2 (fun t _ => reduceOnce t) t).Returns fun t' =>
      t'.Digits ∧ t'.val < P25519 ∧ t'.toField = t.toField := by
  -- Two subtractions suffice, as digits stand for less than twice the prime and thirty-eight.
  have rounds : (each 2 (fun t _ => reduceOnce t) t).Returns fun t' => t'.Digits ∧
      (t'.val < P25519 ∨ t'.val < 2 ^ 256 - (2 : Nat) * P25519) ∧ t'.toField = t.toField := by
    refine Returns.each (I := fun k (t' : Gf) => t'.Digits ∧
      (t'.val < P25519 ∨ t'.val < 2 ^ 256 - k * P25519) ∧ t'.toField = t.toField) ?_
      fun k t' before => ?_
    · exact ⟨digits, .inr (by simpa using digits.val_bounds.2), rfl⟩
    · obtain ⟨digits', small, same⟩ := before
      refine (reduceOnce_returns digits').mono fun t'' reduced => ?_
      obtain ⟨digits'', value⟩ := reduced
      refine ⟨digits'', ?_, ?_⟩
      · push_cast
        rw [add_mul, one_mul]
        split_ifs at value <;> omega
      · rw [← same, toField, value]
        split_ifs
        · rfl
        · rw [Int.cast_sub, Int.cast_natCast, ZMod.natCast_self, sub_zero, toField]
  refine rounds.mono fun t' reduced => ⟨reduced.1, ?_, reduced.2.2⟩
  have small := reduced.2.1
  rw [P25519] at small ⊢
  omega

theorem limbBytes_eq (digits : t.Digits) (least : t.val < P25519) :
    limbBytes t = encodeElement t.toField := by
  have total := leNat_limbBytes digits
  have element : t.toField = (leNat (limbBytes t).val : ZMod P25519) := by
    rw [toField, ← total, Int.cast_natCast]
  have written := leBytes_leNat (limbBytes t).val
  rw [(limbBytes t).property] at written
  refine Subtype.ext (written.symm.trans (congrArg (leBytes 32) ?_))
  rw [element, ZMod.val_natCast]
  exact (Nat.mod_eq_of_lt (by omega)).symm

theorem pack25519_ok (bounded : n.Bounded (2 ^ 50)) : pack25519 n = .ok (encodeElement n.toField) := by
  have passes : pack25519 n = (car25519 n >>= fun n => car25519 n >>= car25519) >>= fun t =>
      each 2 (fun t _ => reduceOnce t) t >>= fun t => .ok (limbBytes t) := by
    rw [pack25519]
    simp only [bind_assoc, pure_eq_ok]
  rw [passes]
  refine ((carry_thrice_returns bounded).bind fun t carried => ?_).eq_ok
  refine (reduceTwice_returns carried.1).bind fun t' reduced => .ok ?_
  rw [limbBytes_eq reduced.1 reduced.2.1, reduced.2.2, carried.2]

theorem Stands.pack {k : Nat} {f : ZMod P25519} (stands : Stands k n f) (small : k ≤ 4) :
    pack25519 n = .ok (encodeElement f) := by
  rw [pack25519_ok (stands.bounded.mono (by omega)), stands.element]

end Gf

end LxmfChat
