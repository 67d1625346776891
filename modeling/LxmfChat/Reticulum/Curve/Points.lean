import LxmfChat.Reticulum.Curve.Ed25519

/-! The software's points are those of the curve: sums and multiples. -/

namespace LxmfChat.Ed25519

open Base Checked
open Gf (add_returns sub_returns mul_returns sel25519_ok)
open Edwards (Point Extended)

theorem stands_GF0 : Gf.Stands 1 GF0 0 := .of_limbs (by decide) (by decide +kernel)

theorem stands_GF1 : Gf.Stands 1 GF1 1 := .of_limbs (by decide) (by decide +kernel)

theorem stands_D : Gf.Stands 1 D d := .of_limbs (by decide) (by decide +kernel)

theorem stands_D2 : Gf.Stands 1 D2 (2 * d) := .of_limbs (by decide) (by decide +kernel)

theorem stands_X : Gf.Stands 1 X base.x := .of_limbs (by decide) (by decide +kernel)

theorem stands_Y : Gf.Stands 1 Y base.y := .of_limbs (by decide) (by decide +kernel)

theorem stands_I : Gf.Stands 1 I i := .of_limbs (by decide) (by decide +kernel)

/-- The limbs of the four coordinates stand for elements of the field. -/
structure Coordinates (p : ExtendedPoint) (e : Extended (ZMod P25519)) : Prop where
  x : Gf.Stands 2 p.x e.x
  y : Gf.Stands 2 p.y e.y
  z : Gf.Stands 2 p.z e.z
  t : Gf.Stands 2 p.t e.t

/-- The limbs stand for a point of the curve. -/
def IsPoint (p : ExtendedPoint) (P : Point curve) : Prop := ∃ e, Coordinates p e ∧ e.Represents P

variable {p q : ExtendedPoint} {e f : Extended (ZMod P25519)} {P Q : Point curve}

theorem pointAdd_coordinates (first : Coordinates p e) (second : Coordinates q f) :
    (pointAdd p q).Returns fun r => Coordinates r (e.add (2 * d) f) := by
  rw [pointAdd]
  refine (sub_returns first.y first.x (by decide)).bind fun left isLeft => ?_
  refine (sub_returns second.y second.x (by decide)).bind fun right isRight => ?_
  refine (mul_returns isLeft isRight (by decide) (by decide)).bind fun a isA => ?_
  refine (add_returns first.x first.y (by decide)).bind fun left isLeft => ?_
  refine (add_returns second.x second.y (by decide)).bind fun right isRight => ?_
  refine (mul_returns isLeft isRight (by decide) (by decide)).bind fun b isB => ?_
  refine (mul_returns first.t second.t (by decide) (by decide)).bind fun tt isTt => ?_
  refine (mul_returns isTt stands_D2 (by decide) (by decide)).bind fun c isC => ?_
  refine (mul_returns first.z second.z (by decide) (by decide)).bind fun zz isZz => ?_
  refine (add_returns isZz isZz (by decide)).bind fun d' isD => ?_
  refine (sub_returns isB isA (by decide)).bind fun e' isE => ?_
  refine (sub_returns isD isC (by decide)).bind fun f' isF => ?_
  refine (add_returns isD isC (by decide)).bind fun g isG => ?_
  refine (add_returns isB isA (by decide)).bind fun h isH => ?_
  refine (mul_returns isE isF (by decide) (by decide)).bind fun x isX => ?_
  refine (mul_returns isH isG (by decide) (by decide)).bind fun y isY => ?_
  refine (mul_returns isG isF (by decide) (by decide)).bind fun z isZ => ?_
  refine (mul_returns isE isH (by decide) (by decide)).bind fun t isT => .ok ?_
  exact ⟨isX.mono (by decide), isY.mono (by decide), isZ.mono (by decide), isT.mono (by decide)⟩

theorem pointAdd_returns (first : IsPoint p P) (second : IsPoint q Q) :
    (pointAdd p q).Returns fun r => IsPoint r (P + Q) := by
  obtain ⟨e, coordinates, represents⟩ := first
  obtain ⟨f, coordinates', represents'⟩ := second
  exact (pointAdd_coordinates coordinates coordinates').mono fun r sum =>
    ⟨_, sum, represents.add represents' rfl⟩

theorem cswap_ok (p q : ExtendedPoint) (swap : Bool) :
    cswap p q (if swap then 1 else 0) = .ok (if swap then (q, p) else (p, q)) := by
  rw [cswap]
  simp only [sel25519_ok, ok_bind]
  cases swap <;> rfl

/-- The points of the ladder: a multiple and the next one. -/
structure Rungs (Q : Point curve) (n : Nat) (state : ExtendedPoint × ExtendedPoint) : Prop where
  lower : IsPoint state.1 (n • Q)
  upper : IsPoint state.2 ((n + 1) • Q)

theorem scalarRound_returns {s : BytesN 32} {state : ExtendedPoint × ExtendedPoint} {n : Nat}
    (rungs : Rungs Q n state) (i : Fin 256) :
    (scalarRound s state i).Returns (Rungs Q (2 * n + ((leNat s.val).testBit i).toNat)) := by
  rw [scalarRound, bitAt_eq, cswap_ok, ok_bind]
  cases (leNat s.val).testBit i with
  | false =>
    refine (pointAdd_returns rungs.upper rungs.lower).bind fun q isQ => ?_
    refine (pointAdd_returns rungs.lower rungs.lower).bind fun p isP => ?_
    rw [← add_nsmul] at isP isQ
    rw [show n + n = 2 * n by omega] at isP
    rw [show n + 1 + n = 2 * n + 1 by omega] at isQ
    exact ⟨_, cswap_ok p q false, isP, isQ⟩
  | true =>
    refine (pointAdd_returns rungs.lower rungs.upper).bind fun q isQ => ?_
    refine (pointAdd_returns rungs.upper rungs.upper).bind fun p isP => ?_
    rw [← add_nsmul] at isP isQ
    rw [show n + 1 + (n + 1) = 2 * n + 1 + 1 by omega] at isP
    rw [show n + (n + 1) = 2 * n + 1 by omega] at isQ
    exact ⟨_, cswap_ok p q true, isQ, isP⟩

theorem isPoint_zero : IsPoint { x := GF0, y := GF1, z := GF1, t := GF0 } 0 :=
  ⟨.zero, ⟨stands_GF0.mono (by decide), stands_GF1.mono (by decide), stands_GF1.mono (by decide),
    stands_GF0.mono (by decide)⟩, Extended.represents_zero⟩

theorem scalarmult_returns (point : IsPoint q Q) (s : BytesN 32) :
    (scalarmult q s).Returns fun p => IsPoint p (leNat s.val • Q) := by
  have fits : leNat s.val < 2 ^ 256 := by
    have fits := leNat_lt s.val
    rwa [s.property] at fits
  have start : Rungs Q (leNat s.val / 2 ^ 256) ({ x := GF0, y := GF1, z := GF1, t := GF0 }, q) := by
    rw [Nat.div_eq_of_lt fits]
    exact ⟨(zero_nsmul Q).symm ▸ isPoint_zero, (one_nsmul Q).symm ▸ point⟩
  -- The bits that are done are the quotient by the place of the last of them.
  have rounds := Returns.eachDown (I := fun t => Rungs Q (leNat s.val / 2 ^ t)) start
    fun i state rungs => scalarRound_returns (s := s) rungs i |>.mono fun state' rungs' => by
      have next : leNat s.val / 2 ^ (i : Nat)
          = 2 * (leNat s.val / 2 ^ ((i : Nat) + 1)) + ((leNat s.val).testBit i).toNat := by
        rw [Nat.toNat_testBit, pow_succ, ← Nat.div_div_eq_div_mul]
        omega
      rwa [next]
  rw [scalarmult]
  refine rounds.bind fun state rungs => .ok ?_
  have lower := rungs.lower
  rwa [pow_zero, Nat.div_one] at lower

theorem scalarbase_returns (s : BytesN 32) :
    (scalarbase s).Returns fun p => IsPoint p (leNat s.val • base) := by
  rw [scalarbase]
  refine (mul_returns stands_X stands_Y (by decide) (by decide)).bind fun t isT => ?_
  refine scalarmult_returns ⟨extendedBase, ⟨stands_X.mono (by decide), stands_Y.mono (by decide),
    stands_GF1.mono (by decide), isT.mono (by decide)⟩, represents_base⟩ s

end LxmfChat.Ed25519
