import LxmfChat.Reticulum.Curve.Field
import Mathlib.Data.ZMod.Basic
import Mathlib.Tactic.NormNum

/-! Carrying: the limbs come down to sixteen bits while the element stays the same. -/

namespace LxmfChat

open Base Checked

def P25519 : Nat := 2 ^ 255 - 19

namespace Gf

def val (o : Gf) : Int := value (2 ^ 16) o

def toField (o : Gf) : ZMod P25519 := (o.val : ZMod P25519)

/-- Every limb is within a bound. -/
def Bounded (M : Int) (o : Gf) : Prop := ∀ i < 16, |digit o i| ≤ M

def weight (i : Fin 16) : Int := if i = 15 then 38 else 1

variable {o o' : Gf}

theorem spill_ok {i : Fin 16} {c : Int} (small : |c - 1| ≤ 2 ^ 50) :
    spill i c = .ok (weight i * (c - 1)) := by
  rw [abs_le] at small
  rw [spill, weight]
  split_ifs
  · rw [I64.sub_ok ⟨by omega, by omega⟩, ok_bind, I64.mul_ok ⟨by omega, by omega⟩]
  · rw [I64.sub_ok ⟨by omega, by omega⟩, one_mul]

theorem succ_ne (i : Fin 16) : ((i + 1 : Fin 16) : Nat) ≠ i := by
  revert i
  decide

/-- What a round of carrying leaves: the limb's low bits, and the rest in the next limb. -/
def Spilled (o : Gf) (i : Fin 16) (o' : Gf) : Prop :=
  ∀ j, digit o' j =
    if j = i then digit o i % 2 ^ 16
    else if j = (i + 1 : Fin 16) then digit o j + weight i * (digit o i / 2 ^ 16)
    else digit o j

theorem carryLimb_returns {i : Fin 16} (here : |digit o i| ≤ 2 ^ 62)
    (there : |digit o (i + 1 : Fin 16)| ≤ 2 ^ 61) : (carryLimb o i).Returns (Spilled o i) := by
  have next : ∀ i : Fin 16, (if i < 15 then i + 1 else 0) = i + 1 := by decide
  have other := succ_ne i
  have factor : weight i = 38 ∨ weight i = 1 := by
    rw [weight]
    split_ifs <;> simp
  rw [abs_le] at here there
  rw [carryLimb]
  simp only [next, get_eq_digit, digit_put_self, digit_put_of_ne other,
    digit_put_of_ne other.symm, I64.shr_eq]
  -- The limb is raised by one unit of the next, so that the quotient is one too large.
  have quotient : (digit o i + 2 ^ 16) / 2 ^ 16 - 1 = digit o i / 2 ^ 16 := by omega
  have product : weight i * (digit o i / 2 ^ 16) ≤ 2 ^ 61 ∧ -2 ^ 61 ≤ weight i * (digit o i / 2 ^ 16) := by
    rcases factor with factor | factor <;> rw [factor] <;> omega
  rw [I64.add_ok ⟨by omega, by omega⟩, ok_bind,
    spill_ok (by rw [quotient, abs_le]; omega), ok_bind, quotient,
    I64.add_ok ⟨by omega, by omega⟩, ok_bind, I64.shl_ok ⟨by omega, by omega⟩, ok_bind,
    I64.sub_ok ⟨by omega, by omega⟩, ok_bind]
  refine .ok fun j => ?_
  simp only [digit_put]
  split_ifs with same same'
  · omega
  · rw [same']
  · rfl

theorem Spilled.val {i : Fin 16} (digits : Spilled o i o') :
    o'.val = o.val + if i = 15 then (digit o i / 2 ^ 16) * (38 - 2 ^ 256) else 0 := by
  have other := succ_ne i
  have same : o'.val = Gf.val (put (put o (i + 1) (digit o (i + 1 : Fin 16)
      + weight i * (digit o i / 2 ^ 16))) i (digit o i % 2 ^ 16)) := by
    refine front_congr fun j _ => ?_
    rw [digits j, digit_put, digit_put]
    split_ifs with here there
    · rfl
    · rw [there]
    · rfl
  rw [same, Gf.val, value_put, value_put, digit_put_of_ne other.symm, ← Gf.val]
  have parts : digit o i = 2 ^ 16 * (digit o i / 2 ^ 16) + digit o i % 2 ^ 16 :=
    (Int.mul_ediv_add_emod _ _).symm
  have low : digit o i % 2 ^ 16 - digit o i = -(2 ^ 16 * (digit o i / 2 ^ 16)) := by omega
  rw [low, weight]
  split_ifs with last
  · subst last
    rw [show ((15 + 1 : Fin 16) : Nat) = 0 from rfl, show ((15 : Fin 16) : Nat) = 15 from rfl]
    ring
  · rw [Fin.val_add_one_of_lt (lt_of_le_of_ne (Fin.le_last i) last), pow_succ]
    ring

/--
The limbs are what is left after carrying once.

They have sixteen bits, but for what left the last limb and came back to the first.
-/
structure Carried (o o' : Gf) (q : Int) : Prop where
  same : o'.val = o.val + q * (38 - 2 ^ 256)
  first : 0 ≤ digit o' 0 - 38 * q ∧ digit o' 0 - 38 * q < 2 ^ 16
  rest : ∀ i, 0 < i → i < 16 → 0 ≤ digit o' i ∧ digit o' i < 2 ^ 16

/-- Half way through carrying: so many limbs are done. -/
structure Carrying (o : Gf) (k : Nat) (o' : Gf) : Prop where
  same : o'.val = o.val
  done : ∀ i < k, 0 ≤ digit o' i ∧ digit o' i < 2 ^ 16
  here : |digit o' k| ≤ 2 ^ 62
  later : ∀ i, k < i → digit o' i = digit o i

theorem Carrying.round {i : Fin 16} (bounded : o.Bounded (2 ^ 61)) (below : (i : Nat) < 15)
    {s : Gf} (carrying : Carrying o i s) : (carryLimb s i).Returns (Carrying o (i + 1)) := by
  have next : ((i + 1 : Fin 16) : Nat) = i + 1 :=
    Fin.val_add_one_of_lt (Fin.lt_def.mpr below)
  have there : digit s (i + 1 : Fin 16) = digit o (i + 1 : Nat) := by
    rw [next]
    exact carrying.later _ (Nat.lt_succ_self _)
  have bound := bounded (i + 1) (by omega)
  refine (carryLimb_returns carrying.here (there ▸ bound)).mono fun o' digits => ?_
  have last : i ≠ 15 := by
    rintro rfl
    exact absurd below (by decide)
  have here := carrying.here
  rw [abs_le] at bound here
  refine ⟨?_, ?_, ?_, ?_⟩
  · rw [digits.val, if_neg last, add_zero, carrying.same]
  · intro j done
    rw [digits j, next]
    split_ifs with same same'
    · omega
    · omega
    · exact carrying.done j (by omega)
  · rw [digits, if_neg (by omega), if_pos next.symm, carrying.later (i + 1) (Nat.lt_succ_self i),
      weight, if_neg last, abs_le]
    omega
  · intro j later
    rw [digits, if_neg (by omega), if_neg (by rw [next]; omega)]
    exact carrying.later j (by omega)

theorem Carrying.last {s : Gf} (carrying : Carrying o 15 s) :
    (carryLimb s 15).Returns fun o' => ∃ q, Carried o o' q := by
  have first := carrying.done 0 (by decide)
  refine (carryLimb_returns (o := s) (i := 15) carrying.here ?_).mono fun o' digits => ?_
  · rw [show ((15 + 1 : Fin 16) : Nat) = 0 from rfl, abs_le]
    omega
  · refine ⟨digit s 15 / 2 ^ 16, ?_, ?_, ?_⟩
    · rw [digits.val, if_pos rfl, carrying.same]
      rfl
    · have zeroth : digit o' 0 = digit s 0 + 38 * (digit s 15 / 2 ^ 16) := digits 0
      rw [zeroth, add_sub_cancel_right]
      exact first
    · intro i positive inside
      rw [digits, show ((15 : Fin 16) : Nat) = 15 from rfl, show ((15 + 1 : Fin 16) : Nat) = 0 from rfl]
      split_ifs with same same'
      · omega
      · omega
      · exact carrying.done i (by omega)

theorem car25519_returns (bounded : o.Bounded (2 ^ 61)) :
    (car25519 o).Returns fun o' => ∃ q, Carried o o' q := by
  refine Returns.eachLast (I := Carrying o) ?_
    (fun i s below carrying => carrying.round bounded below) (fun s carrying => carrying.last)
  have bound := bounded 0 (by decide)
  refine ⟨rfl, fun i done => absurd done (Nat.not_lt_zero i), ?_, fun i _ => rfl⟩
  rw [abs_le] at bound ⊢
  omega

theorem cast_wrap : ((38 - 2 ^ 256 : Int) : ZMod P25519) = 0 := by
  rw [ZMod.intCast_zmod_eq_zero_iff_dvd, P25519]
  exact ⟨-2, by norm_num⟩

namespace Carried

variable {q : Int}

theorem toField (carried : Carried o o' q) : o'.toField = o.toField := by
  rw [Gf.toField, carried.same, Int.cast_add, Int.cast_mul, cast_wrap, mul_zero, add_zero, Gf.toField]

theorem exchange (carried : Carried o o' q) {x : Int} (low : 0 ≤ x) (high : x < 2 ^ 16) :
    0 ≤ o'.val - digit o' 0 + x ∧ o'.val - digit o' 0 + x < 2 ^ 256 := by
  have exchanged : Gf.val (put o' 0 x) = o'.val - digit o' 0 + x := by
    rw [Gf.val, value_put, ← Gf.val]
    simp only [Fin.val_zero, pow_zero]
    ring
  have digits : ∀ i < 16, 0 ≤ digit (put o' 0 x) i ∧ digit (put o' 0 x) i < 2 ^ 16 := by
    intro i inside
    rw [digit_put]
    split_ifs with same
    · exact ⟨low, high⟩
    · exact carried.rest i (Nat.pos_of_ne_zero same) inside
  have nonneg := front_nonneg (W := 2 ^ 16) (by norm_num) fun i inside => (digits i inside).1
  have below := front_lt (W := 2 ^ 16) (by norm_num) fun i inside => (digits i inside).2
  rw [← value, ← Gf.val, exchanged] at nonneg below
  exact ⟨nonneg, by rwa [← pow_mul] at below⟩

theorem remainder (carried : Carried o o' q) : 0 ≤ o'.val - 38 * q ∧ o'.val - 38 * q < 2 ^ 256 := by
  have exchanged := carried.exchange carried.first.1 carried.first.2
  omega

theorem quotient (carried : Carried o o' q) : q * 2 ^ 256 ≤ o.val ∧ o.val < (q + 1) * 2 ^ 256 := by
  have remainder := carried.remainder
  have same := carried.same
  omega

theorem bounded (carried : Carried o o' q) {M : Int} (small : |q| ≤ M) (room : 2 ^ 16 ≤ M) :
    o'.Bounded (39 * M) := by
  intro i inside
  have first := carried.first
  rw [abs_le] at small ⊢
  rcases Nat.eq_zero_or_pos i with rfl | positive
  · omega
  · have rest := carried.rest i positive inside
    omega

theorem quotient_le (carried : Carried o o' q) {M : Int} (bounded : o.Bounded M) (some : 0 ≤ M) :
    |q| ≤ M + 1 := by
  have size : |o.val| ≤ M * (2 ^ 16) ^ 16 := abs_front_le (by norm_num) bounded some
  rw [← pow_mul, abs_le] at size
  have quotient := carried.quotient
  rw [abs_le]
  omega

theorem again (carried : Carried o o' q) (small : |q| ≤ 2 ^ 60) {o'' : Gf} {q' : Int}
    (carried' : Carried o' o'' q') : |q'| ≤ 1 := by
  have remainder := carried.remainder
  have quotient := carried'.quotient
  rw [abs_le] at small ⊢
  omega

theorem digits (carried : Carried o o' q) (small : |q| ≤ 1) {o'' : Gf} {q' : Int}
    (carried' : Carried o' o'' q') {i : Nat} (inside : i < 16) :
    0 ≤ digit o'' i ∧ digit o'' i < 2 ^ 16 := by
  rcases Nat.eq_zero_or_pos i with rfl | positive
  · -- What comes back is as near to a multiple of 2^256 as what came back before, so it has room.
    have remainder := carried.remainder
    have quotient := carried'.quotient
    have same := carried'.same
    have first := carried'.first
    have least := carried'.exchange le_rfl (by norm_num)
    have most := carried'.exchange (x := 2 ^ 16 - 1) (by norm_num) (by norm_num)
    rw [abs_le] at small
    omega
  · exact carried'.rest i positive inside

end Carried

end Gf

end LxmfChat
