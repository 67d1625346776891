import LxmfChat.Base.Bytes

/-! Bit patterns of IEEE double-precision numbers, as far as conversions produce them. -/

namespace Base

abbrev Double := BytesN 8

/-- The double nearest to a natural number, ties to even. -/
def Double.bitsOfNat (n : Nat) : Nat :=
  if n = 0 then 0
  else
    let exponent := n.log2
    if exponent ≤ 52 then (exponent + 1023) * 2 ^ 52 + (n * 2 ^ (52 - exponent) - 2 ^ 52)
    else
      let unit := 2 ^ (exponent - 52)
      let kept := n / unit
      let rest := n % unit
      -- A carry out of the mantissa raises the exponent by one, as it should.
      let up := if unit < 2 * rest ∨ (2 * rest = unit ∧ kept % 2 = 1) then 1 else 0
      (exponent + 1023) * 2 ^ 52 + (kept - 2 ^ 52) + up

def Double.ofNat (n : Nat) : Double := ⟨beBytes 8 (Double.bitsOfNat n), by simp⟩

/-- The double of the same value as a single-precision bit pattern; a NaN becomes quiet. -/
def Double.widenBits (single : Nat) : Nat :=
  let sign := single / 2 ^ 31 % 2
  let exponent := single / 2 ^ 23 % 2 ^ 8
  let mantissa := single % 2 ^ 23
  sign * 2 ^ 63 +
    if exponent = 255 then
      2047 * 2 ^ 52 + if mantissa = 0 then 0 else (mantissa * 2 ^ 29) ||| 2 ^ 51
    else if exponent = 0 then
      -- The smallest singles have no leading one of their own and get one here.
      if mantissa = 0 then 0
      else (mantissa.log2 + 874) * 2 ^ 52 + (mantissa * 2 ^ (52 - mantissa.log2) - 2 ^ 52)
    else (exponent + 896) * 2 ^ 52 + mantissa * 2 ^ 29

def Double.widen (single : Bytes) : Double := ⟨beBytes 8 (Double.widenBits (beNat single)), by simp⟩

def Double.ofInt (n : Int) : Double :=
  ⟨beBytes 8 ((if n < 0 then 2 ^ 63 else 0) + Double.bitsOfNat n.natAbs), by simp⟩

namespace Double

def sign (f : Double) : Nat := beNat f.val / 2 ^ 63

def exponent (f : Double) : Nat := beNat f.val / 2 ^ 52 % 2 ^ 11

def mantissa (f : Double) : Nat := beNat f.val % 2 ^ 52

def isFinite (f : Double) : Bool := f.exponent ≠ 2047

def isPositive (f : Double) : Bool := f.isFinite && f.sign = 0 && beNat f.val ≠ 0

/-- Cut a double to an unsigned machine integer, which never leaves the integer's range. -/
def toU64 (f : Double) : Nat :=
  -- What is not a number becomes zero, and so does everything below one.
  if f.exponent = 2047 ∧ f.mantissa ≠ 0 then 0
  else if f.sign = 1 then 0
  else if f.exponent = 2047 then 2 ^ 64 - 1
  else if f.exponent < 1023 then 0
  else min (2 ^ 64 - 1) ((2 ^ 52 + f.mantissa) * 2 ^ (f.exponent - 1023) / 2 ^ 52)

end Double

/-- The cut of a count, of a negative number, of one too large and of what is no number. -/
example : (Double.ofNat 1700000000).toU64 = 1700000000 ∧ (Double.ofInt (-5)).toU64 = 0
    ∧ (Double.ofNat (2 ^ 70)).toU64 = 2 ^ 64 - 1
    ∧ Double.toU64 (BytesN.ofBytes 8 [0x7f, 0xf8]) = 0 := by
  decide +kernel

/-- One and a half, the smallest single, and a count past the mantissa's width. -/
example : Double.bitsOfNat 3 = 0x4008000000000000 ∧ Double.widenBits 0x3fc00000 = 0x3ff8000000000000
    ∧ Double.widenBits 1 = 0x36a0000000000000 ∧ Double.bitsOfNat (2 ^ 53 + 1) = 0x4340000000000000 := by
  decide +kernel

end Base
