import LxmfChat.Reticulum.Curve.Points

/-! Points in thirty-two bytes: how they are packed, and how they are found again. -/

namespace LxmfChat.Ed25519

open Base Checked
open Gf (pack25519 add_returns sub_returns mul_returns sqr_returns inv25519_returns pow2523_returns
  unpack25519_returns)
open Edwards (Point Extended)

variable {p : ExtendedPoint} {P Q : Point curve} {a b x : Gf} {j k : Nat} {f g u v : ZMod P25519}

/-- The second coordinate of a point, and the parity of its first in the highest bit. -/
def encodePoint (P : Point curve) : BytesN 32 :=
  ⟨leBytes 32 (P.y.val + 2 ^ 255 * (P.x.val % 2)), leBytes_length _ _⟩

theorem val_lt (f : ZMod P25519) : f.val < 2 ^ 255 := by
  have below : P25519 < 2 ^ 255 := by decide
  exact f.val_lt.trans below

theorem leNat_encodePoint (P : Point curve) :
    leNat (encodePoint P).val = P.y.val + 2 ^ 255 * (P.x.val % 2) := by
  have below := val_lt P.y
  refine (leNat_leBytes 32 _).trans (Nat.mod_eq_of_lt ?_)
  omega

theorem par25519_of_pack (packed : pack25519 a = .ok (encodeElement f)) :
    par25519 a = .ok (UInt8.ofNat (f.val % 2)) := by
  have lowest : (encodeElement f).val.getD 0 0 = UInt8.ofNat f.val := rfl
  rw [par25519, packed, ok_bind, lowest]
  refine congrArg Except.ok (UInt8.toNat_inj.mp ?_)
  rw [UInt8.toNat_and, UInt8.toNat_ofNat', UInt8.toNat_ofNat', UInt8.toNat_one, Nat.and_one_is_mod]
  omega

theorem par25519_ok (stands : Gf.Stands k a f) (small : k ≤ 4) :
    par25519 a = .ok (UInt8.ofNat (f.val % 2)) :=
  par25519_of_pack (stands.pack small)

theorem toNat_xor_sign {top : UInt8} {parity : Nat} (free : top.toNat < 128) (bit : parity < 2) :
    (top ^^^ (UInt8.ofNat parity <<< 7)).toNat = top.toNat + 128 * parity := by
  have check : ∀ t : Fin 128, ∀ s : Fin 2,
      (UInt8.ofNat t ^^^ (UInt8.ofNat s <<< 7)).toNat = (t : Nat) + 128 * s := by
    decide +kernel
  have checked := check ⟨top.toNat, free⟩ ⟨parity, bit⟩
  rwa [UInt8.ofNat_toNat] at checked

theorem mul_pow_inverse (nonzero : f ≠ 0) : f * f ^ (P25519 - 2) = 1 := by
  rw [← pow_succ', show P25519 - 2 + 1 = P25519 - 1 by decide]
  exact ZMod.pow_card_sub_one_eq_one nonzero

theorem packPoint_ok (point : IsPoint p P) : packPoint p = .ok (encodePoint P) := by
  obtain ⟨e, coordinates, represents⟩ := point
  have inverse := mul_pow_inverse represents.z_ne
  rw [packPoint]
  refine Returns.eq_ok ?_
  refine (inv25519_returns coordinates.z (by decide)).bind fun zi isInverse => ?_
  refine (mul_returns coordinates.x isInverse (by decide) (by decide)).bind fun tx isX => ?_
  refine (mul_returns coordinates.y isInverse (by decide) (by decide)).bind fun ty isY => ?_
  rw [represents.x, mul_assoc, inverse, mul_one] at isX
  rw [represents.y, mul_assoc, inverse, mul_one] at isY
  rw [isY.pack (by decide), ok_bind, par25519_ok isX (by decide), ok_bind]
  refine .ok (Subtype.ext (leNat_injective ?_ ?_))
  · rw [List.length_modify, (encodeElement P.y).property, (encodePoint P).property]
  · have below := val_lt P.y
    have top : ((encodeElement P.y).val.getD 31 0).toNat = P.y.val / 256 ^ 31 := by
      refine (congrArg UInt8.toNat (getD_leBytes (by decide) P.y.val)).trans ?_
      rw [UInt8.toNat_ofNat']
      omega
    have changed := leNat_modify (· ^^^ (UInt8.ofNat (P.x.val % 2) <<< 7)) (b := (encodeElement P.y).val)
      (i := 31) (by rw [(encodeElement P.y).property]; decide)
    rw [toNat_xor_sign (by omega) (by omega), leNat_encodeElement] at changed
    rw [leNat_encodePoint]
    dsimp only
    omega

theorem parity_neg (nonzero : f ≠ 0) : (-f).val % 2 ≠ f.val % 2 := by
  have odd : P25519 % 2 = 1 := by decide
  have below := f.val_lt
  rw [ZMod.neg_val, if_neg nonzero]
  omega

theorem denominator_ne_zero (y : ZMod P25519) : 1 + d * y ^ 2 ≠ 0 := by
  intro zero
  have root : i ^ 2 = -1 := curve.root
  have nonzero : y ≠ 0 := by
    rintro rfl
    exact one_ne_zero (by linear_combination zero)
  refine not_isSquare_d ⟨i / y, ?_⟩
  field_simp
  linear_combination zero - root

theorem sq_x_mul (P : Point curve) : P.x ^ 2 * (1 + d * P.y ^ 2) = P.y ^ 2 - 1 := by
  have on : -P.x ^ 2 + P.y ^ 2 = 1 + d * P.x ^ 2 * P.y ^ 2 := P.on
  linear_combination -on

theorem eq_of_parity (square : f ^ 2 = g ^ 2) (parity : f.val % 2 = g.val % 2) : f = g := by
  rcases sq_eq_sq_iff_eq_or_eq_neg.mp square with same | opposite
  · exact same
  · by_cases zero : g = 0
    · rw [opposite, zero, neg_zero]
    · rw [opposite] at parity
      exact absurd parity (parity_neg zero)

theorem encodePoint_injective : Function.Injective encodePoint := by
  intro P Q same
  have total := congrArg (fun b : BytesN 32 => leNat b.val) same
  simp only [leNat_encodePoint] at total
  have below := val_lt P.y
  have below' := val_lt Q.y
  have y : P.y = Q.y := ZMod.val_injective P25519 (by omega)
  have square : P.x ^ 2 = Q.x ^ 2 := by
    refine mul_right_cancel₀ (denominator_ne_zero P.y) ?_
    rw [sq_x_mul, y, sq_x_mul]
  exact Point.ext (eq_of_parity square (by omega)) y

def candidate (u v : ZMod P25519) : ZMod P25519 :=
  ((v ^ 2) ^ 2 * v ^ 2 * u * v) ^ (2 ^ 252 - 3) * u * v * v * v

theorem rootCandidate_returns (num : Gf.Stands j a u) (den : Gf.Stands k b v) (small : j ≤ 4)
    (small' : k ≤ 4) : (rootCandidate a b).Returns fun x => Gf.Stands 1 x (candidate u v) := by
  rw [rootCandidate]
  refine (sqr_returns den small').bind fun den2 is2 => ?_
  refine (sqr_returns is2 (by decide)).bind fun den4 is4 => ?_
  refine (mul_returns is4 is2 (by decide) (by decide)).bind fun den6 is6 => ?_
  refine (mul_returns is6 num (by decide) small).bind fun t is => ?_
  refine (mul_returns is den (by decide) small').bind fun t is => ?_
  refine (pow2523_returns is (by decide)).bind fun t is => ?_
  refine (mul_returns is num (by decide) small).bind fun t is => ?_
  refine (mul_returns is den (by decide) small').bind fun t is => ?_
  refine (mul_returns is den (by decide) small').bind fun t is => ?_
  exact mul_returns is den (by decide) small'

theorem candidate_sq (square : u = v * f ^ 2) :
    candidate u v ^ 2 * v = u ∨ candidate u v ^ 2 * v = -u := by
  have half : 4 * (2 ^ 252 - 3) + 2 = P25519 / 2 := by decide
  rw [candidate]
  -- The exponent is kept from being computed with.
  generalize 2 ^ 252 - 3 = e at half
  have power : ((v ^ 2) ^ 2 * v ^ 2 * u * v) ^ e = (f * v ^ 4) ^ (2 * e) := by
    rw [pow_mul, square]
    congr 1
    ring
  have total : ((f * v ^ 4) ^ (2 * e) * u * v * v * v) ^ 2 * v = u * (f * v ^ 4) ^ (P25519 / 2) := by
    rw [← half, pow_add, show 4 * e = 2 * e + 2 * e by omega, pow_add]
    generalize (f * v ^ 4) ^ (2 * e) = w
    linear_combination (w ^ 2 * u * v ^ 7) * square
  rw [power, total]
  by_cases zero : f * v ^ 4 = 0
  · have nothing : u = 0 := by
      rcases mul_eq_zero.mp zero with none | none
      · rw [square, none, zero_pow two_ne_zero, mul_zero]
      · rw [square, eq_zero_of_pow_eq_zero none, zero_mul]
    left
    rw [nothing, zero_mul]
  · rcases ZMod.pow_div_two_eq_neg_one_or_one P25519 zero with one | minus
    · left
      rw [one, mul_one]
    · right
      rw [minus, mul_neg_one]

theorem neq25519_of_pack (packed : pack25519 a = .ok (encodeElement f))
    (packed' : pack25519 b = .ok (encodeElement g)) : neq25519 a b = .ok (decide (f ≠ g)) := by
  rw [neq25519, packed, ok_bind, packed', ok_bind]
  refine congrArg Except.ok (decide_eq_decide.mpr ?_)
  rw [Ne, Ne, encodeElement_injective.eq_iff]

theorem neq25519_ok (first : Gf.Stands j a f) (second : Gf.Stands k b g) (small : j ≤ 4)
    (small' : k ≤ 4) : neq25519 a b = .ok (decide (f ≠ g)) :=
  neq25519_of_pack (first.pack small) (second.pack small')

theorem leastRemainder_encodeElement (n : Gf) :
    LeastRemainder P25519 n.val (encodeElement n.toField).val := by
  refine leastRemainder (by decide) ?_
  rw [leNat_encodeElement, Gf.toField, ZMod.val_intCast]

/--
Packing gives the one number below the prime that the limbs are congruent to.

So packed elements are the same exactly if the elements are, which is how they are compared.
-/
theorem pack25519_canonical {a b : Gf} (small : ∀ i < 16, |digit a i| < 2 ^ 50)
    (small' : ∀ i < 16, |digit b i| < 2 ^ 50) :
    (∃ packed, pack25519 a = .ok packed ∧ LeastRemainder P25519 (value (2 ^ 16) a) packed.val)
    ∧ (value (2 ^ 16) a % P25519 = value (2 ^ 16) b % P25519 ↔ pack25519 a = pack25519 b)
    ∧ neq25519 a b = .ok (decide (value (2 ^ 16) a % P25519 ≠ value (2 ^ 16) b % P25519))
    ∧ par25519 a = .ok (UInt8.ofNat ((value (2 ^ 16) a % P25519).toNat % 2)) := by
  have packed := Gf.pack25519_ok fun i inside => (small i inside).le
  have packed' := Gf.pack25519_ok fun i inside => (small' i inside).le
  have same : value (2 ^ 16) a % P25519 = value (2 ^ 16) b % P25519 ↔ a.toField = b.toField :=
    (ZMod.intCast_eq_intCast_iff' _ _ P25519).symm
  refine ⟨⟨_, packed, leastRemainder_encodeElement a⟩, ?_, ?_, ?_⟩
  · rw [same, packed, packed', Except.ok.injEq, encodeElement_injective.eq_iff]
  · rw [neq25519_of_pack packed packed']
    exact congrArg Except.ok (decide_eq_decide.mpr (not_congr same.symm))
  · have least : (a.toField.val : Int) = value (2 ^ 16) a % P25519 := ZMod.val_intCast _
    rw [par25519_of_pack packed, ← least, Int.toNat_natCast]

/-- Limbs that make the prime are packed like those of zero. -/
theorem pack25519_canonical_prime :
    let prime : Gf := #v[-19, 0, 0, 0, 0, 0, 0, 0, 0, 0, 0, 0, 0, 0, 0, 0x8000]
    (∀ i < 16, |digit prime i| < 2 ^ 50) ∧ (∀ i < 16, |digit GF0 i| < 2 ^ 50)
    ∧ pack25519 prime = pack25519 GF0 := by
  intro prime
  have small : ∀ i < 16, |digit prime i| < 2 ^ 50 := by decide
  have small' : ∀ i < 16, |digit GF0 i| < 2 ^ 50 := by decide
  exact ⟨small, small', (pack25519_canonical small small').2.1.mp (by decide)⟩

theorem isNoRoot_ok (root : Gf.Stands 1 x f) (num : Gf.Stands j a u) (den : Gf.Stands k b v)
    (small : j ≤ 4) (small' : k ≤ 4) : isNoRoot x a b = .ok (decide (f ^ 2 * v ≠ u)) := by
  rw [isNoRoot]
  refine Returns.eq_ok ?_
  refine (sqr_returns root (by decide)).bind fun chk is => ?_
  refine (mul_returns is den (by decide) small').bind fun chk is => ?_
  exact ⟨_, neq25519_ok is num (by decide) small, rfl⟩

def corrected (u v f : ZMod P25519) : ZMod P25519 := if f ^ 2 * v = u then f else f * i

theorem correctRoot_returns (root : Gf.Stands 1 x f) (num : Gf.Stands j a u) (den : Gf.Stands k b v)
    (small : j ≤ 4) (small' : k ≤ 4) :
    (correctRoot x a b).Returns fun x => Gf.Stands 1 x (corrected u v f) := by
  rw [correctRoot, isNoRoot_ok root num den small small', ok_bind, corrected]
  by_cases square : f ^ 2 * v = u
  · rw [if_pos square, if_neg (by simpa using square)]
    exact .ok root
  · rw [if_neg square, if_pos (by simpa using square)]
    exact mul_returns root stands_I (by decide) (by decide)

theorem corrected_sq (square : u = v * f ^ 2) : corrected u v (candidate u v) ^ 2 * v = u := by
  have root : i ^ 2 = -1 := curve.root
  rw [corrected]
  split_ifs with found
  · exact found
  · have opposite := (candidate_sq square).resolve_left found
    linear_combination (candidate u v ^ 2 * v) * root - opposite

def signOf (pk : BytesN 32) : UInt8 := pk.val.getD 31 0 >>> 7

theorem signOf_encodePoint (P : Point curve) : signOf (encodePoint P) = UInt8.ofNat (P.x.val % 2) := by
  have below := val_lt P.y
  have top : (encodePoint P).val.getD 31 0
      = UInt8.ofNat ((P.y.val + 2 ^ 255 * (P.x.val % 2)) / 256 ^ 31) := getD_leBytes (by decide) _
  rw [signOf, top]
  refine UInt8.toNat_inj.mp ?_
  rw [UInt8.toNat_shiftRight, UInt8.toNat_ofNat', UInt8.toNat_ofNat', Nat.shiftRight_eq_div_pow,
    show UInt8.toNat 7 % 8 = 7 from rfl]
  omega

def negated (f : ZMod P25519) (pk : BytesN 32) : ZMod P25519 :=
  if UInt8.ofNat (f.val % 2) = signOf pk then -f else f

theorem chooseSign_returns (root : Gf.Stands 1 x f) (pk : BytesN 32) :
    (chooseSign x pk).Returns fun x => Gf.Stands 2 x (negated f pk) := by
  rw [chooseSign, par25519_ok root (by decide), ok_bind, negated, ← signOf]
  split_ifs
  · rw [← zero_sub]
    exact sub_returns stands_GF0 root (by decide)
  · exact .ok (root.mono (by decide))

theorem negated_sq (f : ZMod P25519) (pk : BytesN 32) : negated f pk ^ 2 = f ^ 2 := by
  rw [negated]
  split_ifs
  · rw [neg_sq]
  · rfl

theorem negated_encodePoint (square : f ^ 2 = P.x ^ 2) : negated f (encodePoint P) = -P.x := by
  have bits : UInt8.ofNat (f.val % 2) = UInt8.ofNat (P.x.val % 2) ↔ f.val % 2 = P.x.val % 2 := by
    rw [← UInt8.toNat_inj, UInt8.toNat_ofNat', UInt8.toNat_ofNat']
    omega
  rw [negated, signOf_encodePoint]
  split_ifs with parity
  · rw [eq_of_parity square (bits.mp parity)]
  · rcases sq_eq_sq_iff_eq_or_eq_neg.mp square with same | opposite
    · exact absurd (by rw [same]) parity
    · exact opposite

/--
What is unpacked.

It is a point of the curve, and if the bytes encode a point it is the negative of that.
-/
structure Unpacked (pk : BytesN 32) (result : Option ExtendedPoint) : Prop where
  sound : ∀ r, result = some r → ∃ Q, IsPoint r Q
  complete : ∀ P, encodePoint P = pk → ∃ r, result = some r ∧ IsPoint r (-P)

theorem isPoint_of_square {y t : Gf} {yf : ZMod P25519} (isX : Gf.Stands 2 x f) (isY : Gf.Stands 1 y yf)
    (isT : Gf.Stands 1 t (f * yf)) (square : f ^ 2 * (1 + d * yf ^ 2) = yf ^ 2 - 1) :
    ∃ on, IsPoint { x, y, z := GF1, t } { x := f, y := yf, on } := by
  have on : -f ^ 2 + yf ^ 2 = 1 + d * f ^ 2 * yf ^ 2 := by linear_combination -square
  refine ⟨on, { x := f, y := yf, z := 1, t := f * yf }, ⟨isX, isY.mono (by decide),
    stands_GF1.mono (by decide), isT.mono (by decide)⟩, one_ne_zero, ?_, ?_, ?_⟩
  · exact (mul_one f).symm
  · exact (mul_one yf).symm
  · exact (mul_one (f * yf)).symm

theorem natCast_encodePoint (P : Point curve) :
    ((leNat (encodePoint P).val % 2 ^ 255 : Nat) : ZMod P25519) = P.y := by
  have below := val_lt P.y
  rw [leNat_encodePoint, Nat.add_mul_mod_self_left, Nat.mod_eq_of_lt below, ZMod.natCast_zmod_val]

/-- Unpacking finds the negative of the point that is packed, if one is. -/
theorem unpackneg_returns (pk : BytesN 32) : (unpackneg pk).Returns (Unpacked pk) := by
  rw [unpackneg]
  refine (unpack25519_returns pk).bind fun y isY => ?_
  have packed : ∀ P, encodePoint P = pk → ((leNat pk.val % 2 ^ 255 : Nat) : ZMod P25519) = P.y := by
    rintro P rfl
    exact natCast_encodePoint P
  generalize ((leNat pk.val % 2 ^ 255 : Nat) : ZMod P25519) = yf at isY packed
  refine (sqr_returns isY (by decide)).bind fun num0 is0 => ?_
  refine (mul_returns is0 stands_D (by decide) (by decide)).bind fun den0 isDen0 => ?_
  rw [mul_comm] at isDen0
  refine (sub_returns is0 stands_GF1 (by decide)).bind fun num isNum => ?_
  refine (add_returns stands_GF1 isDen0 (by decide)).bind fun den isDen => ?_
  refine (rootCandidate_returns isNum isDen (by decide) (by decide)).bind fun x isX => ?_
  refine (correctRoot_returns isX isNum isDen (by decide) (by decide)).bind fun x isX => ?_
  rw [isNoRoot_ok isX isNum isDen (by decide) (by decide), ok_bind]
  have found : ∀ P, encodePoint P = pk →
      corrected (yf ^ 2 - 1) (1 + d * yf ^ 2) (candidate (yf ^ 2 - 1) (1 + d * yf ^ 2)) ^ 2
        * (1 + d * yf ^ 2) = yf ^ 2 - 1 := by
    intro P same
    refine corrected_sq (f := P.x) ?_
    rw [packed P same, ← sq_x_mul P, mul_comm]
  generalize corrected _ _ _ = w at isX found ⊢
  by_cases root : w ^ 2 * (1 + d * yf ^ 2) = yf ^ 2 - 1
  · rw [if_neg (by simpa using root)]
    refine (chooseSign_returns isX pk).bind fun x isX => ?_
    refine (mul_returns isX isY (by decide) (by decide)).bind fun t isT => .ok ?_
    have square : negated w pk ^ 2 * (1 + d * yf ^ 2) = yf ^ 2 - 1 := by rw [negated_sq, root]
    obtain ⟨on, point⟩ := isPoint_of_square isX isY isT square
    refine ⟨fun r same => ?_, fun P same => ⟨_, rfl, ?_⟩⟩
    · obtain rfl := Option.some.inj same
      exact ⟨_, point⟩
    · -- The root is the first coordinate up to sign, and the sign is chosen against the packed one.
      have coordinate : w ^ 2 = P.x ^ 2 := by
        refine mul_right_cancel₀ (denominator_ne_zero yf) ?_
        rw [root, packed P same, sq_x_mul]
      have opposite : negated w pk = -P.x := by
        rw [← same]
        exact negated_encodePoint coordinate
      convert point using 1
      exact Point.ext opposite.symm (packed P same).symm
  · rw [if_pos (by simpa using root)]
    refine .ok ⟨fun r absent => ?_, fun P same => absurd (found P same) root⟩
    cases absent

end LxmfChat.Ed25519
