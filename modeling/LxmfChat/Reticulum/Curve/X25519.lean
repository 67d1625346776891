import LxmfChat.Base.Montgomery
import LxmfChat.Reticulum.Curve.Edwards25519
import LxmfChat.Reticulum.Curve.Packing

/-! X25519 in software computes the function of RFC 7748. -/

namespace LxmfChat

open Base Checked

/-- The scalar with its lowest three bits and its highest bit cleared, and the next bit set. -/
def clamp (scalar : BytesN 32) : BytesN 32 :=
  ⟨(scalar.val.modify 0 (· &&& 248)).modify 31 fun b => (b &&& 127) ||| 64, by
    rw [List.length_modify, List.length_modify, scalar.property]⟩

def bitAt (z : BytesN 32) (i : Nat) : Int :=
  ((z.val.getD (i / 8) 0 >>> UInt8.ofNat (i % 8)) &&& 1).toNat

structure Ladder where
  a : Gf
  b : Gf
  c : Gf
  d : Gf

namespace Ladder

open Gf

def sel (s : Ladder) (r : Int) : Checked Ladder := do
  let ab ← sel25519 s.a s.b r
  let cd ← sel25519 s.c s.d r
  return { a := ab.1, b := ab.2, c := cd.1, d := cd.2 }

def step (x : Gf) (s : Ladder) : Checked Ladder := do
  let e1 ← add s.a s.c
  let a ← sub s.a s.c
  let c ← add s.b s.d
  let b ← sub s.b s.d
  let d ← sqr e1
  let f ← sqr a
  let a ← mul c a
  let c ← mul b e1
  let e2 ← add a c
  let a ← sub a c
  let b ← sqr a
  let c ← sub d f
  let a ← mul c GF_121665
  let a ← add a d
  let c ← mul c a
  let a ← mul d f
  let d ← mul b x
  let b ← sqr e2
  return { a, b, c, d }

def round (z : BytesN 32) (x : Gf) (s : Ladder) (i : Fin 255) : Checked Ladder := do
  let r := bitAt z i
  let s ← s.sel r
  let s ← s.step x
  s.sel r

/-- All bits of the scalar, from the highest to the lowest, and the division at the end. -/
def multiple (z : BytesN 32) (x : Gf) : Checked (BytesN 32) := do
  let s ← eachDown 255 (round z x) { a := put zero 0 1, b := x, c := zero, d := put zero 0 1 }
  let cinv ← inv25519 s.c
  let out ← mul s.a cinv
  pack25519 out

end Ladder

def x25519 (scalar point : BytesN 32) : Checked (BytesN 32) := do
  let z := clamp scalar
  let x ← Gf.unpack25519 point
  Ladder.multiple z x

def basepoint : BytesN 32 := ⟨9 :: List.replicate 31 0, rfl⟩

def x25519Base (scalar : BytesN 32) : Checked (BytesN 32) := x25519 scalar basepoint

theorem bitAt_eq (z : BytesN 32) (i : Nat) :
    bitAt z i = if (leNat z.val).testBit i then 1 else 0 := by
  have shift : (UInt8.ofNat (i % 8)).toNat % 8 = i % 8 := by
    rw [UInt8.toNat_ofNat']
    omega
  rw [bitAt, UInt8.toNat_and, UInt8.toNat_shiftRight, shift, UInt8.toNat_one, Nat.and_one_is_mod,
    Nat.shiftRight_eq_div_pow, ← Nat.toNat_testBit, ← testBit_leNat]
  cases (leNat z.val).testBit i <;> rfl

def decodeScalar25519 (v : Nat) : Nat := 2 ^ 254 + 2 ^ 3 * (v % 2 ^ 254 / 2 ^ 3)

theorem getD_clamp (scalar : BytesN 32) (j : Nat) :
    (clamp scalar).val.getD j 0 =
      if j = 31 then (scalar.val.getD j 0 &&& 127) ||| 64
      else if j = 0 then scalar.val.getD j 0 &&& 248
      else scalar.val.getD j 0 := by
  have width := scalar.property
  rw [clamp, List.getD_eq_getElem?_getD, List.getElem?_modify, List.getElem?_modify,
    List.getD_eq_getElem?_getD]
  by_cases inside : j < scalar.val.length
  · rw [List.getElem?_eq_getElem inside]
    simp only [Option.map_eq_map, Option.map_some, Option.getD_some, eq_comm (b := j)]
    split_ifs with last first first
    · omega
    · rfl
    · rfl
    · rfl
  · rw [List.getElem?_eq_none (by omega), if_neg (by omega), if_neg (by omega)]
    rfl

theorem testBit_decodeScalar25519 (v i : Nat) :
    (decodeScalar25519 v).testBit i
      = (decide (254 = i) || decide (3 ≤ i) && (decide (i < 254) && v.testBit i)) := by
  have low : 2 ^ 3 * (v % 2 ^ 254 / 2 ^ 3) < 2 ^ 254 := by omega
  have disjoint := Nat.two_pow_add_eq_or_of_lt low 1
  rw [Nat.mul_one] at disjoint
  rw [decodeScalar25519, disjoint, Nat.testBit_or, Nat.testBit_two_pow, Nat.testBit_two_pow_mul,
    Nat.testBit_div_two_pow, Nat.testBit_mod_two_pow]
  by_cases high : 3 ≤ i
  · rw [Nat.sub_add_cancel high]
  · simp [high]

theorem leNat_clamp (scalar : BytesN 32) :
    leNat (clamp scalar).val = decodeScalar25519 (leNat scalar.val) := by
  refine Nat.eq_of_testBit_eq fun i => ?_
  rw [testBit_leNat, testBit_decodeScalar25519, testBit_leNat, getD_clamp]
  have beyond : 32 ≤ i / 8 → (scalar.val.getD (i / 8) 0).toNat.testBit (i % 8) = false := by
    intro outside
    rw [List.getD_eq_default _ _ (by rwa [scalar.property]), UInt8.toNat_zero, Nat.zero_testBit]
  have low : ∀ r < 8, Nat.testBit 248 r = decide (3 ≤ r) := by decide
  have high : ∀ r < 8, Nat.testBit 127 r = decide (r < 7) := by decide
  have top : ∀ r < 8, Nat.testBit 64 r = decide (r = 6) := by decide
  have inside : i % 8 < 8 := Nat.mod_lt i (by decide)
  -- The bits of the last byte, of the first one and of the others each have their reason.
  rw [Bool.eq_iff_iff]
  split_ifs with last first
  · rw [UInt8.toNat_or, UInt8.toNat_and, Nat.testBit_or, Nat.testBit_and,
      show UInt8.toNat 127 = 127 from rfl, show UInt8.toNat 64 = 64 from rfl, high _ inside,
      top _ inside]
    cases (scalar.val.getD (i / 8) 0).toNat.testBit (i % 8) <;> simp <;> omega
  · rw [UInt8.toNat_and, Nat.testBit_and, show UInt8.toNat 248 = 248 from rfl, low _ inside]
    cases (scalar.val.getD (i / 8) 0).toNat.testBit (i % 8) <;> simp <;> omega
  · cases bit : (scalar.val.getD (i / 8) 0).toNat.testBit (i % 8) with
    | false =>
      simp
      omega
    | true =>
      have within : ¬ 32 ≤ i / 8 := fun outside => by rw [beyond outside] at bit; cases bit
      simp
      omega

namespace Ladder

open Base.Montgomery Gf

variable {s : Ladder} {p : Pair (ZMod P25519)}

structure Stands (s : Ladder) (p : Pair (ZMod P25519)) : Prop where
  a : Gf.Stands 1 s.a p.x₂
  b : Gf.Stands 1 s.b p.x₃
  c : Gf.Stands 1 s.c p.z₂
  d : Gf.Stands 1 s.d p.z₃

theorem sel_returns (stands : s.Stands p) (swap : Bool) :
    (s.sel (if swap then 1 else 0)).Returns fun s => s.Stands (p.cswap swap) := by
  rw [sel, sel25519_ok, ok_bind, sel25519_ok, ok_bind]
  refine .ok ?_
  cases swap with
  | true => exact ⟨stands.b, stands.a, stands.d, stands.c⟩
  | false => exact stands

theorem stands_121665 : Gf.Stands 1 GF_121665 121665 := .of_limbs (by decide) (by decide +kernel)

theorem stands_zero : Gf.Stands 1 zero 0 := .of_limbs (by decide) (by decide +kernel)

theorem stands_one : Gf.Stands 1 (put zero 0 1) 1 := .of_limbs (by decide) (by decide +kernel)

theorem step_returns {x : Gf} {u : ZMod P25519} (point : Gf.Stands 1 x u) (stands : s.Stands p) :
    (s.step x).Returns fun s => s.Stands (p.advance u 121665) := by
  rw [step]
  refine (add_returns stands.a stands.c (by decide)).bind fun A isA => ?_
  refine (sub_returns stands.a stands.c (by decide)).bind fun B isB => ?_
  refine (add_returns stands.b stands.d (by decide)).bind fun C isC => ?_
  refine (sub_returns stands.b stands.d (by decide)).bind fun D isD => ?_
  refine (sqr_returns isA (by decide)).bind fun AA isAA => ?_
  refine (sqr_returns isB (by decide)).bind fun BB isBB => ?_
  refine (mul_returns isC isB (by decide) (by decide)).bind fun CB isCB => ?_
  refine (mul_returns isD isA (by decide) (by decide)).bind fun DA isDA => ?_
  refine (add_returns isCB isDA (by decide)).bind fun sum isSum => ?_
  refine (sub_returns isCB isDA (by decide)).bind fun difference isDifference => ?_
  refine (sqr_returns isDifference (by decide)).bind fun square isSquare => ?_
  refine (sub_returns isAA isBB (by decide)).bind fun E isE => ?_
  refine (mul_returns isE stands_121665 (by decide) (by decide)).bind fun scaled isScaled => ?_
  refine (add_returns isScaled isAA (by decide)).bind fun factor isFactor => ?_
  refine (mul_returns isE isFactor (by decide) (by decide)).bind fun z₂ isZ₂ => ?_
  refine (mul_returns isAA isBB (by decide) (by decide)).bind fun x₂ isX₂ => ?_
  refine (mul_returns isSquare point (by decide) (by decide)).bind fun z₃ isZ₃ => ?_
  refine (sqr_returns isSum (by decide)).bind fun x₃ isX₃ => .ok ⟨isX₂, ?_, ?_, ?_⟩
  · convert isX₃ using 1
    dsimp only [Pair.advance]
    ring
  · convert isZ₂ using 1
    dsimp only [Pair.advance]
    ring
  · convert isZ₃ using 1
    dsimp only [Pair.advance]
    ring

theorem round_returns {x : Gf} {u : ZMod P25519} (point : Gf.Stands 1 x u) (z : BytesN 32)
    (i : Fin 255) {r : State (ZMod P25519)} (stands : s.Stands r.settled) :
    (s.round z x i).Returns fun s =>
      s.Stands (Montgomery.step u 121665 ((leNat z.val).testBit i) r).settled := by
  rw [round, bitAt_eq, settled_step]
  refine (sel_returns stands _).bind fun s' stands' => ?_
  refine (step_returns point stands').bind fun s'' stands'' => ?_
  exact sel_returns stands'' _

theorem rounds_return {x : Gf} {u : ZMod P25519} (point : Gf.Stands 1 x u) (z : BytesN 32) :
    (eachDown 255 (round z x) { a := put zero 0 1, b := x, c := zero, d := put zero 0 1 }).Returns
      fun s => s.Stands (run u 121665 (leNat z.val) 255 ⟨⟨1, 0, u, 1⟩, false⟩).settled := by
  -- The bits that are left lead from the state of the RFC's ladder to its result.
  let Leads (t : Nat) (s : Ladder) : Prop := ∃ r : State (ZMod P25519), s.Stands r.settled ∧
    run u 121665 (leNat z.val) t r = run u 121665 (leNat z.val) 255 ⟨⟨1, 0, u, 1⟩, false⟩
  have start : Leads 255 { a := put zero 0 1, b := x, c := zero, d := put zero 0 1 } :=
    ⟨⟨⟨1, 0, u, 1⟩, false⟩, ⟨stands_one, point, stands_zero, stands_one⟩, rfl⟩
  have rounds := Returns.eachDown (I := Leads) start fun i s before => by
    obtain ⟨r, stands, rest⟩ := before
    exact (round_returns point z i stands).mono fun s' stands' => ⟨_, stands', rest⟩
  refine rounds.mono fun s done => ?_
  obtain ⟨r, stands, result⟩ := done
  rw [← result]
  exact stands

theorem multiple_ok {x : Gf} {u : ZMod P25519} (point : Gf.Stands 1 x u) (z : BytesN 32) :
    multiple z x = .ok (encodeElement (ladder 121665 255 (P25519 - 2) (leNat z.val) u)) := by
  rw [multiple, ladder, ← State.settled]
  refine ((rounds_return point z).bind fun s stands => ?_).eq_ok
  refine (inv25519_returns stands.c (by decide)).bind fun inverse isInverse => ?_
  refine (mul_returns stands.a isInverse (by decide) (by decide)).bind fun out isOut => ?_
  exact ⟨_, isOut.pack (by decide), rfl⟩

end Ladder

/--
Software X25519 is the function of RFC 7748.

No operation overflows, and the result is the canonical encoding.
-/
theorem x25519_eq_ladder (scalar point : BytesN 32) :
    x25519 scalar point = .ok (encodeElement (Montgomery.ladder 121665 255 (P25519 - 2)
      (decodeScalar25519 (leNat scalar.val)) ((leNat point.val % 2 ^ 255 : Nat) : ZMod P25519))) := by
  rw [x25519, ← leNat_clamp]
  refine ((Gf.unpack25519_returns point).bind fun x isX => ?_).eq_ok
  exact ⟨_, Ladder.multiple_ok isX (clamp scalar), rfl⟩

theorem x25519Base_ok (scalar : BytesN 32) :
    x25519Base scalar = .ok (encodeElement (Montgomery.ladder 121665 255 (P25519 - 2)
      (decodeScalar25519 (leNat scalar.val)) 9)) := by
  have nine : ((leNat basepoint.val % 2 ^ 255 : Nat) : ZMod P25519) = 9 := by
    rw [show leNat basepoint.val % 2 ^ 255 = 9 by decide]
    norm_cast
  rw [x25519Base, x25519, ← leNat_clamp]
  refine ((Gf.unpack25519_returns basepoint).bind fun x isX => ?_).eq_ok
  rw [nine] at isX
  exact ⟨_, Ladder.multiple_ok isX (clamp scalar), rfl⟩

end LxmfChat
