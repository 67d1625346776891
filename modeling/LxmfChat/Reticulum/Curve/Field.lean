import LxmfChat.Base.Schoolbook

/-! The integers modulo 2^255 - 19 as the software computes with them. -/

namespace LxmfChat

open Base Checked

/-- A field element: sixteen limbs of sixteen bits, which may be negative or too large. -/
abbrev Gf := Vector Int 16

/-- There are limbs, so that numerals stand for their indices. -/
instance neZero_limbs : NeZero 16 := ⟨by decide⟩

namespace Gf

def zero : Gf := Vector.replicate 16 0

def GF_121665 : Gf := #v[0xDB41, 1, 0, 0, 0, 0, 0, 0, 0, 0, 0, 0, 0, 0, 0, 0]

def spill (i : Fin 16) (c : Int) : Checked Int :=
  if i = 15 then do I64.mul 38 (← I64.sub c 1) else I64.sub c 1

/-- One limb is brought down to sixteen bits, and what is beyond goes to the next limb. -/
def carryLimb (o : Gf) (i : Fin 16) : Checked Gf := do
  let o := put o i (← I64.add (o.get i) (2 ^ 16))
  let c := I64.shr (o.get i) 16
  let idx := if i < 15 then i + 1 else 0
  let o := put o idx (← I64.add (o.get idx) (← spill i c))
  return put o i (← I64.sub (o.get i) (← I64.shl c 16))

def car25519 (o : Gf) : Checked Gf := each 16 carryLimb o

def sel25519 (p q : Gf) (b : Int) : Checked (Gf × Gf) := do
  let c := Int.lnot (← I64.sub b 1)
  let t (i : Fin 16) := Int.land c (Int.xor (p.get i) (q.get i))
  return (Vector.ofFn fun i => Int.xor (p.get i) (t i), Vector.ofFn fun i => Int.xor (q.get i) (t i))

def fill (limb : Fin 16 → Checked Int) : Checked Gf :=
  each 16 (fun o i => do return put o i (← limb i)) zero

def add (a b : Gf) : Checked Gf := fill fun i => I64.add (a.get i) (b.get i)

def sub (a b : Gf) : Checked Gf := fill fun i => I64.sub (a.get i) (b.get i)

def foldLimb (t : Vector Int 31) (i : Fin 15) : Checked (Vector Int 31) := do
  let low : Fin 31 := ⟨i, by omega⟩
  let high : Fin 31 := ⟨i + 16, by omega⟩
  return put t low (← I64.add (t.get low) (← I64.mul 38 (t.get high)))

def mul (a b : Gf) : Checked Gf := do
  let t ← addProduct a b (by decide) (Vector.replicate 31 0)
  let t ← each 15 foldLimb t
  let o : Gf := Vector.ofFn fun i => t.get ⟨i, by omega⟩
  car25519 (← car25519 o)

def sqr (a : Gf) : Checked Gf := mul a a

/-- Square again and again, and multiply in the input every time that is not skipped. -/
def power (rounds : Nat) (skipped : Nat → Bool) (input : Gf) : Checked Gf :=
  eachDown rounds (fun c a => do
    let c ← sqr c
    if skipped a then return c else mul c input) input

def inv25519 (input : Gf) : Checked Gf := power 254 (fun a => a == 2 || a == 4) input

def pow2523 (input : Gf) : Checked Gf := power 251 (fun a => a == 1) input

def readLimb (n : BytesN 32) (i : Fin 16) : Checked Int := do
  let high ← I64.shl (n.val.getD (2 * i + 1) 0).toNat 8
  I64.add (n.val.getD (2 * i) 0).toNat high

def unpack25519 (n : BytesN 32) : Checked Gf := do
  let o ← fill (readLimb n)
  return put o 15 (Int.land (o.get 15) 0x7fff)

/-- One limb less the prime's and what the limb before borrows, which then is cut. -/
def borrowLimb (t m : Gf) (k : Fin 14) : Checked Gf := do
  let i : Fin 16 := ⟨k + 1, by omega⟩
  let before : Fin 16 := ⟨k, by omega⟩
  let borrow := Int.land (I64.shr (m.get before) 16) 1
  let m := put m i (← I64.sub (← I64.sub (t.get i) 0xffff) borrow)
  return put m before (Int.land (m.get before) 0xffff)

def reduceOnce (t : Gf) : Checked Gf := do
  let m := put zero 0 (← I64.sub (t.get 0) 0xffed)
  let m ← each 14 (borrowLimb t) m
  let borrow := Int.land (I64.shr (m.get 14) 16) 1
  let m := put m 15 (← I64.sub (← I64.sub (t.get 15) 0x7fff) borrow)
  let b := Int.land (I64.shr (m.get 15) 16) 1
  let m := put m 14 (Int.land (m.get 14) 0xffff)
  return (← sel25519 t m (← I64.sub 1 b)).1

def limbBytes (t : Gf) : BytesN 32 :=
  ⟨(List.finRange 16).flatMap fun i =>
    [UInt8.ofInt (Int.land (t.get i) 0xff), UInt8.ofInt (I64.shr (t.get i) 8)], by simp⟩

def pack25519 (n : Gf) : Checked (BytesN 32) := do
  let t ← car25519 (← car25519 (← car25519 n))
  let t ← each 2 (fun t _ => reduceOnce t) t
  return limbBytes t

end Gf

end LxmfChat
