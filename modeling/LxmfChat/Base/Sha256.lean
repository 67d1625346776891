import Mathlib.Data.Nat.NthRoot.Defs
import LxmfChat.Base.Bytes

/-! SHA-256 as the standard defines it, and what hashing block by block gives. -/

namespace Base.Sha256

structure State where
  a : UInt32
  b : UInt32
  c : UInt32
  d : UInt32
  e : UInt32
  f : UInt32
  g : UInt32
  h : UInt32
deriving DecidableEq

def primes : List Nat :=
  [2, 3, 5, 7, 11, 13, 17, 19, 23, 29, 31, 37, 41, 43, 47, 53, 59, 61, 67, 71, 73, 79, 83, 89, 97,
    101, 103, 107, 109, 113, 127, 131, 137, 139, 149, 151, 157, 163, 167, 173, 179, 181, 191, 193,
    197, 199, 211, 223, 227, 229, 233, 239, 241, 251, 257, 263, 269, 271, 277, 281, 283, 293, 307,
    311]

def rootBits (degree radicand : Nat) : UInt32 :=
  UInt32.ofNat (Nat.nthRoot degree (radicand * 2 ^ (32 * degree)))

/-- The words that hashing starts from: bits of square roots of primes. -/
def initial : State where
  a := rootBits 2 2
  b := rootBits 2 3
  c := rootBits 2 5
  d := rootBits 2 7
  e := rootBits 2 11
  f := rootBits 2 13
  g := rootBits 2 17
  h := rootBits 2 19

def constants : List UInt32 := primes.map (rootBits 3)

def rotateRight (x : UInt32) (n : Nat) : UInt32 := UInt32.ofBitVec (x.toBitVec.rotateRight n)

def choose (x y z : UInt32) : UInt32 := (x &&& y) ^^^ (~~~x &&& z)

def majority (x y z : UInt32) : UInt32 := (x &&& y) ^^^ (x &&& z) ^^^ (y &&& z)

def bigSigma0 (x : UInt32) : UInt32 := rotateRight x 2 ^^^ rotateRight x 13 ^^^ rotateRight x 22

def bigSigma1 (x : UInt32) : UInt32 := rotateRight x 6 ^^^ rotateRight x 11 ^^^ rotateRight x 25

def smallSigma0 (x : UInt32) : UInt32 := rotateRight x 7 ^^^ rotateRight x 18 ^^^ (x >>> 3)

def smallSigma1 (x : UInt32) : UInt32 := rotateRight x 17 ^^^ rotateRight x 19 ^^^ (x >>> 10)

def words (block : BytesN 64) : List UInt32 :=
  (chunksExact 4 block.val).map fun b => UInt32.ofNat (beNat b.val)

def nextWord (w : List UInt32) : UInt32 :=
  smallSigma1 (w.getD (w.length - 2) 0) + w.getD (w.length - 7) 0
    + smallSigma0 (w.getD (w.length - 15) 0) + w.getD (w.length - 16) 0

def extend (w : List UInt32) : Nat → List UInt32
  | 0 => w
  | more + 1 => extend w more ++ [nextWord (extend w more)]

@[simp] theorem length_extend (w : List UInt32) (more : Nat) :
    (extend w more).length = w.length + more := by
  induction more with
  | zero => rfl
  | succ more ih => simp [extend, ih, Nat.add_assoc]

def schedule (block : BytesN 64) : List UInt32 := extend (words block) 48

def round (s : State) (mixed : UInt32 × UInt32) : State :=
  let t1 := s.h + bigSigma1 s.e + choose s.e s.f s.g + mixed.1 + mixed.2
  let t2 := bigSigma0 s.a + majority s.a s.b s.c
  { a := t1 + t2, b := s.a, c := s.b, d := s.c, e := s.d + t1, f := s.e, g := s.f, h := s.g }

def State.add (s t : State) : State where
  a := s.a + t.a
  b := s.b + t.b
  c := s.c + t.c
  d := s.d + t.d
  e := s.e + t.e
  f := s.f + t.f
  g := s.g + t.g
  h := s.h + t.h

def compress (s : State) (block : BytesN 64) : State :=
  s.add ((constants.zip (schedule block)).foldl round s)

def absorb (s : State) (b : Bytes) : State := (chunksExact 64 b).foldl compress s

/-- What is appended to a message: a one, zeros to fill the last block, and the length in bits. -/
def padding (length : Nat) : Bytes :=
  0x80 :: (List.replicate ((119 - length % 64) % 64) 0 ++ beBytes 8 (length * 8))

def State.words (s : State) : List UInt32 := [s.a, s.b, s.c, s.d, s.e, s.f, s.g, s.h]

def wordBytes (w : List UInt32) : Bytes := w.flatMap fun x => beBytes 4 x.toNat

@[simp] theorem wordBytes_length (w : List UInt32) : (wordBytes w).length = 4 * w.length := by
  induction w with
  | nil => rfl
  | cons x rest ih =>
    simp only [wordBytes, List.flatMap_cons, List.length_append, beBytes_length,
      List.length_cons] at ih ⊢
    omega

theorem State.length_wordBytes (s : State) : (wordBytes s.words).length = 32 :=
  wordBytes_length s.words

def hash (message : Bytes) : BytesN 32 :=
  ⟨wordBytes (absorb initial (message ++ padding message.length)).words, State.length_wordBytes _⟩

-- The digest of the empty message, as the standard's test vectors give it.
example : (hash []).val.take 4 = [0xe3, 0xb0, 0xc4, 0x42] := by decide +kernel

theorem absorb_append (s : State) {front : Bytes} (whole : 64 ∣ front.length) (rest : Bytes) :
    absorb s (front ++ rest) = absorb (absorb s front) rest := by
  rw [absorb, chunksExact_append (by decide) whole, List.foldl_append]
  rfl

theorem absorb_block (s : State) (block : BytesN 64) : absorb s block.val = compress s block := by
  rw [absorb, chunksExact_self (by decide)]
  rfl

theorem length_padded {tail : Bytes} {length : Nat} (whole : 64 ∣ length)
    (short : tail.length < 56) : (tail ++ padding (length + tail.length)).length = 64 := by
  have low : (length + tail.length) % 64 = tail.length := by omega
  simp only [padding, List.length_append, List.length_cons, List.length_replicate, beBytes_length,
    low]
  omega

theorem absorb_padded {front tail : Bytes} (whole : 64 ∣ front.length)
    (short : tail.length < 56) :
    absorb initial ((front ++ tail) ++ padding (front ++ tail).length)
      = compress (absorb initial front)
          ⟨tail ++ padding (front.length + tail.length), length_padded whole short⟩ := by
  rw [← absorb_block, List.append_assoc, absorb_append initial whole, List.length_append]

/-- The string starts with this many zero bits. -/
def ZeroBits (count : Nat) (b : Bytes) : Prop :=
  count ≤ 8 * b.length ∧ beNat b < 2 ^ (8 * b.length - count)

theorem beNat_wordBytes_cons (x : UInt32) (rest : List UInt32) :
    beNat (wordBytes (x :: rest)) = x.toNat * 2 ^ (32 * rest.length) + beNat (wordBytes rest) := by
  have width : (256 : Nat) ^ (4 * rest.length) = 2 ^ (32 * rest.length) := by
    rw [show (256 : Nat) = 2 ^ 8 from rfl, ← Nat.pow_mul]
    congr 1
    omega
  rw [wordBytes, List.flatMap_cons, beNat_append, ← wordBytes,
    beNat_beBytes_of_lt x.toNat_lt, wordBytes_length, width]

theorem beNat_wordBytes_lt (w : List UInt32) : beNat (wordBytes w) < 2 ^ (32 * w.length) := by
  induction w with
  | nil => decide
  | cons x rest ih =>
    have word := x.toNat_lt
    rw [beNat_wordBytes_cons, List.length_cons, Nat.mul_add, Nat.pow_add]
    -- One more in front is all the room that the rest may need.
    have room : (x.toNat + 1) * 2 ^ (32 * rest.length) ≤ 2 ^ 32 * 2 ^ (32 * rest.length) :=
      Nat.mul_le_mul_right _ word
    rw [Nat.add_mul] at room
    omega

theorem zeroBits_zero_cons (count : Nat) (rest : List UInt32) :
    ZeroBits count (wordBytes (0 :: rest)) ↔ ZeroBits (count - 32) (wordBytes rest) := by
  have below := beNat_wordBytes_lt rest
  simp only [ZeroBits, beNat_wordBytes_cons, wordBytes_length, List.length_cons, UInt32.toNat_zero,
    Nat.zero_mul, Nat.zero_add]
  by_cases few : count ≤ 32
  · -- All the zeros asked for are in the first word.
    have wide : 2 ^ (32 * rest.length) ≤ 2 ^ (8 * (4 * (rest.length + 1)) - count) :=
      Nat.pow_le_pow_right (by decide) (by omega)
    have whole : 8 * (4 * rest.length) - (count - 32) = 32 * rest.length := by omega
    rw [whole]
    constructor
    · intro _
      exact ⟨by omega, below⟩
    · intro _
      exact ⟨by omega, Nat.lt_of_lt_of_le below wide⟩
  · have same : 8 * (4 * (rest.length + 1)) - count = 8 * (4 * rest.length) - (count - 32) := by
      omega
    rw [same]
    constructor
    · rintro ⟨fits, low⟩
      exact ⟨by omega, low⟩
    · rintro ⟨fits, low⟩
      exact ⟨by omega, low⟩

theorem zeroBits_cons (count : Nat) {x : UInt32} (nonzero : x ≠ 0) (rest : List UInt32) :
    ZeroBits count (wordBytes (x :: rest)) ↔ count ≤ 31 - x.toNat.log2 := by
  have positive : x.toNat ≠ 0 := by
    intro zero
    exact nonzero (UInt32.toNat_inj.mp zero)
  have high : x.toNat.log2 < 32 := (Nat.log2_lt positive).mpr x.toNat_lt
  have least : 2 ^ x.toNat.log2 ≤ x.toNat := Nat.log2_self_le positive
  have below := beNat_wordBytes_lt rest
  simp only [ZeroBits, beNat_wordBytes_cons, wordBytes_length, List.length_cons]
  constructor
  · rintro ⟨fits, low⟩
    -- The highest one of the word alone must lie below the bound.
    have top : 2 ^ (x.toNat.log2 + 32 * rest.length) < 2 ^ (8 * (4 * (rest.length + 1)) - count) :=
      calc 2 ^ (x.toNat.log2 + 32 * rest.length)
          = 2 ^ x.toNat.log2 * 2 ^ (32 * rest.length) := Nat.pow_add _ _ _
        _ ≤ x.toNat * 2 ^ (32 * rest.length) := Nat.mul_le_mul_right _ least
        _ ≤ x.toNat * 2 ^ (32 * rest.length) + beNat (wordBytes rest) := Nat.le_add_right _ _
        _ < 2 ^ (8 * (4 * (rest.length + 1)) - count) := low
    have order := (Nat.pow_lt_pow_iff_right (by decide)).mp top
    omega
  · intro few
    refine ⟨by omega, ?_⟩
    have most : x.toNat + 1 ≤ 2 ^ (32 - count) :=
      Nat.le_trans (Nat.lt_log2_self (n := x.toNat)) (Nat.pow_le_pow_right (by decide) (by omega))
    calc x.toNat * 2 ^ (32 * rest.length) + beNat (wordBytes rest)
        < x.toNat * 2 ^ (32 * rest.length) + 2 ^ (32 * rest.length) := by omega
      _ = (x.toNat + 1) * 2 ^ (32 * rest.length) := by rw [Nat.add_mul, Nat.one_mul]
      _ ≤ 2 ^ (32 - count) * 2 ^ (32 * rest.length) := Nat.mul_le_mul_right _ most
      _ = 2 ^ (8 * (4 * (rest.length + 1)) - count) := by
        rw [← Nat.pow_add]
        congr 1
        omega

end Base.Sha256
