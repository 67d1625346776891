import LxmfChat.Reticulum.Curve.Sha512
import LxmfChat.Reticulum.Curve.X25519

/-! Ed25519 in software: points, scalars, signing and verifying. -/

namespace LxmfChat.Ed25519

open Base Checked Gf Sha512

def GF0 : Gf := zero

def GF1 : Gf := #v[1, 0, 0, 0, 0, 0, 0, 0, 0, 0, 0, 0, 0, 0, 0, 0]

/-- The curve's coefficient. -/
def D : Gf :=
  #v[0x78a3, 0x1359, 0x4dca, 0x75eb, 0xd8ab, 0x4141, 0x0a4d, 0x0070, 0xe898, 0x7779, 0x4079, 0x8cc7,
    0xfe73, 0x2b6f, 0x6cee, 0x5203]

/-- Twice the coefficient. -/
def D2 : Gf :=
  #v[0xf159, 0x26b2, 0x9b94, 0xebd6, 0xb156, 0x8283, 0x149a, 0x00e0, 0xd130, 0xeef3, 0x80f2, 0x198e,
    0xfce7, 0x56df, 0xd9dc, 0x2406]

/-- The base point's first coordinate. -/
def X : Gf :=
  #v[0xd51a, 0x8f25, 0x2d60, 0xc956, 0xa7b2, 0x9525, 0xc760, 0x692c, 0xdc5c, 0xfdd6, 0xe231, 0xc0a4,
    0x53fe, 0xcd6e, 0x36d3, 0x2169]

/-- The base point's second coordinate. -/
def Y : Gf :=
  #v[0x6658, 0x6666, 0x6666, 0x6666, 0x6666, 0x6666, 0x6666, 0x6666, 0x6666, 0x6666, 0x6666, 0x6666,
    0x6666, 0x6666, 0x6666, 0x6666]

/-- A square root of minus one. -/
def I : Gf :=
  #v[0xa0b0, 0x4a0e, 0x1b27, 0xc4ee, 0xe478, 0xad2f, 0x1806, 0x2f43, 0xd7a7, 0x3dfb, 0x0099, 0x2b4d,
    0xdf0b, 0x4fc1, 0x2480, 0x2b83]

/-- The order of the base point, the lowest byte first. -/
def L : Vector Int 32 :=
  #v[0xed, 0xd3, 0xf5, 0x5c, 0x1a, 0x63, 0x12, 0x58, 0xd6, 0x9c, 0xf7, 0xa2, 0xde, 0xf9, 0xde, 0x14,
    0, 0, 0, 0, 0, 0, 0, 0, 0, 0, 0, 0, 0, 0, 0, 0x10]

abbrev ExtendedPoint := Edwards.Extended Gf

def pointAdd (p q : ExtendedPoint) : Checked ExtendedPoint := do
  let a ← mul (← sub p.y p.x) (← sub q.y q.x)
  let b ← mul (← add p.x p.y) (← add q.x q.y)
  let c ← mul (← mul p.t q.t) D2
  let zz ← mul p.z q.z
  let d ← add zz zz
  let e ← sub b a
  let f ← sub d c
  let g ← add d c
  let h ← add b a
  let x ← mul e f
  let y ← mul h g
  let z ← mul g f
  let t ← mul e h
  return { x, y, z, t }

def cswap (p q : ExtendedPoint) (b : Int) : Checked (ExtendedPoint × ExtendedPoint) := do
  let x ← sel25519 p.x q.x b
  let y ← sel25519 p.y q.y b
  let z ← sel25519 p.z q.z b
  let t ← sel25519 p.t q.t b
  return ({ x := x.1, y := y.1, z := z.1, t := t.1 }, { x := x.2, y := y.2, z := z.2, t := t.2 })

def par25519 (a : Gf) : Checked UInt8 := do
  let packed ← pack25519 a
  return packed.val.getD 0 0 &&& 1

def neq25519 (a b : Gf) : Checked Bool := do
  let packed ← pack25519 a
  let packed' ← pack25519 b
  return packed ≠ packed'

def packPoint (p : ExtendedPoint) : Checked (BytesN 32) := do
  let zi ← inv25519 p.z
  let tx ← mul p.x zi
  let ty ← mul p.y zi
  let r ← pack25519 ty
  let sign ← par25519 tx
  return ⟨r.val.modify 31 (· ^^^ (sign <<< 7)), by rw [List.length_modify, r.property]⟩

def scalarRound (s : BytesN 32) (state : ExtendedPoint × ExtendedPoint) (i : Fin 256) :
    Checked (ExtendedPoint × ExtendedPoint) := do
  let b := bitAt s i
  let swapped ← cswap state.1 state.2 b
  let q ← pointAdd swapped.2 swapped.1
  let p ← pointAdd swapped.1 swapped.1
  cswap p q b

def scalarmult (q : ExtendedPoint) (s : BytesN 32) : Checked ExtendedPoint := do
  let p : ExtendedPoint := { x := GF0, y := GF1, z := GF1, t := GF0 }
  let result ← eachDown 256 (scalarRound s) (p, q)
  return result.1

def scalarbase (s : BytesN 32) : Checked ExtendedPoint := do
  let t ← mul X Y
  scalarmult { x := X, y := Y, z := GF1, t } s

def rootCandidate (num den : Gf) : Checked Gf := do
  let den2 ← sqr den
  let den4 ← sqr den2
  let den6 ← mul den4 den2
  let t ← mul den6 num
  let t ← mul t den
  let t ← pow2523 t
  let t ← mul t num
  let t ← mul t den
  let t ← mul t den
  mul t den

def isNoRoot (x num den : Gf) : Checked Bool := do
  let chk ← sqr x
  let chk ← mul chk den
  neq25519 chk num

def correctRoot (x num den : Gf) : Checked Gf := do
  if ← isNoRoot x num den then mul x I else return x

def chooseSign (x : Gf) (p : BytesN 32) : Checked Gf := do
  if (← par25519 x) = p.val.getD 31 0 >>> 7 then sub GF0 x else return x

/-- The negative of the point that the bytes stand for, if they stand for one. -/
def unpackneg (p : BytesN 32) : Checked (Option ExtendedPoint) := do
  let y ← unpack25519 p
  let num0 ← sqr y
  let den0 ← mul num0 D
  let num ← sub num0 GF1
  let den ← add GF1 den0
  let x ← rootCandidate num den
  let x ← correctRoot x num den
  if ← isNoRoot x num den then
    return none
  else
    let x ← chooseSign x p
    let t ← mul x y
    return some { x, y, z := GF1, t }

/-- One byte of a multiple of the order is subtracted, and the sum is brought into range. -/
def subtractByte (i : Fin 64) (start : Nat) (room : start + 20 ≤ 64) (state : Vector Int 64 × Int)
    (m : Fin 20) : Checked (Vector Int 64 × Int) := do
  let x := state.1
  let carry := state.2
  let j : Fin 64 := ⟨start + m, by omega⟩
  let product ← I64.mul (← I64.mul 16 (x.get i)) (L.get ⟨m, by omega⟩)
  let x := put x j (← I64.add (x.get j) (← I64.sub carry product))
  let carry := I64.shr (← I64.add (x.get j) 128) 8
  return (put x j (← I64.sub (x.get j) (← I64.shl carry 8)), carry)

def clearByte (x : Vector Int 64) (k : Fin 32) : Checked (Vector Int 64) := do
  let i : Fin 64 := ⟨k + 32, by omega⟩
  let cleared ← each 20 (subtractByte i k (by omega)) (x, 0)
  let top : Fin 64 := ⟨k + 20, by omega⟩
  let x := put cleared.1 top (← I64.add (cleared.1.get top) cleared.2)
  return put x i 0

/-- The multiple of the order that the highest byte asks for is subtracted, byte by byte. -/
def subtractOrder (state : Vector Int 64 × Int) (k : Fin 32) : Checked (Vector Int 64 × Int) := do
  let x := state.1
  let carry := state.2
  let j : Fin 64 := ⟨k, by omega⟩
  let product ← I64.mul (I64.shr (x.get 31) 4) (L.get k)
  let x := put x j (← I64.add (x.get j) (← I64.sub carry product))
  return (put x j (Int.land (x.get j) 255), I64.shr (x.get j) 8)

def addBack (carry : Int) (x : Vector Int 64) (k : Fin 32) : Checked (Vector Int 64) := do
  let j : Fin 64 := ⟨k, by omega⟩
  return put x j (← I64.sub (x.get j) (← I64.mul carry (L.get k)))

def carryByte (x : Vector Int 64) (k : Fin 32) : Checked (Vector Int 64) := do
  let i : Fin 64 := ⟨k, by omega⟩
  let next : Fin 64 := ⟨k + 1, by omega⟩
  return put x next (← I64.add (x.get next) (I64.shr (x.get i) 8))

def lowBytes (x : Vector Int 64) : BytesN 32 :=
  ⟨(List.finRange 32).map fun (k : Fin 32) => UInt8.ofInt (Int.land (x.get ⟨k, by omega⟩) 255), by simp⟩

def modl (x : Vector Int 64) : Checked (BytesN 32) := do
  let x ← eachDown 32 clearByte x
  let reduced ← each 32 subtractOrder (x, 0)
  let x ← each 32 (addBack reduced.2) reduced.1
  -- A limb is read as a byte when its carry goes on, and not changed after that.
  let x ← each 32 carryByte x
  return lowBytes x

def limbs (n : Nat) (b : Bytes) : Vector Int n := Vector.ofFn fun i => (b.getD i 0).toNat

def reduce (h : BytesN 64) : Checked (BytesN 32) := modl (limbs 64 h.val)

def secretScalar (seed : BytesN 32) : BytesN 32 :=
  clamp (BytesN.ofBytes 32 (sha512 seed.val).val)

def publicKey (seed : BytesN 32) : Checked (BytesN 32) := do
  packPoint (← scalarbase (secretScalar seed))

def sign (seed public_key : BytesN 32) (message : Bytes) : Checked (BytesN 64) := do
  let d := sha512 seed.val
  let a := secretScalar seed
  let r ← reduce (sha512 (d.val.drop 32 ++ message))
  let big_r ← packPoint (← scalarbase r)
  let h ← reduce (sha512 (big_r.val ++ public_key.val ++ message))
  let x ← addProduct (limbs 32 h.val) (limbs 32 a.val) (by decide) (limbs 64 r.val)
  let s ← modl x
  return ⟨big_r.val ++ s.val, by rw [List.length_append, big_r.property, s.property]⟩

def verify (public_key : BytesN 32) (message : Bytes) (signature : BytesN 64) : Checked Bool := do
  match ← unpackneg public_key with
  | none => return false
  | some q =>
    let h ← reduce (sha512 (signature.val.take 32 ++ public_key.val ++ message))
    let p ← scalarmult q h
    let s : BytesN 32 := BytesN.ofBytes 32 (signature.val.drop 32)
    let sb ← scalarbase s
    let p ← pointAdd p sb
    let t ← packPoint p
    return t.val = signature.val.take 32

end LxmfChat.Ed25519
