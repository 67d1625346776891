import LxmfChat.Base.Bytes

/-! Text as sequences of Unicode scalar values, and the bytes it is written in. -/

namespace Base

abbrev Text := List Char

def utf8Encode (text : Text) : Bytes := text.flatMap String.utf8EncodeChar

def replacementChar : Char := Char.ofNat 0xFFFD

def isContinuation (byte : UInt8) : Bool := byte &&& 0xC0 == 0x80

/-- The second bytes a three-byte character may have: no overlong form and no surrogate. -/
def secondOfThree (first second : UInt8) : Bool :=
  if first = 0xE0 then 0xA0 ≤ second && second ≤ 0xBF
  else if first = 0xED then 0x80 ≤ second && second ≤ 0x9F
  else 0x80 ≤ second && second ≤ 0xBF

/-- The second bytes a four-byte character may have: no overlong form and nothing past the end. -/
def secondOfFour (first second : UInt8) : Bool :=
  if first = 0xF0 then 0x90 ≤ second && second ≤ 0xBF
  else if first = 0xF4 then 0x80 ≤ second && second ≤ 0x8F
  else 0x80 ≤ second && second ≤ 0xBF

def payload (byte : UInt8) : Nat := byte.toNat % 64

/--
The character at the front of a string, and how many bytes it takes after its first.

Bytes that are no character are replaced as far as they could have become one.
-/
def utf8Front (first : UInt8) (rest : Bytes) : Char × Nat :=
  let second := rest.getD 0 0
  let third := rest.getD 1 0
  let fourth := rest.getD 2 0
  if first < 0x80 then (Char.ofNat first.toNat, 0)
  else if 0xC2 ≤ first ∧ first ≤ 0xDF then
    if isContinuation second then
      (Char.ofNat (first.toNat % 32 * 64 + payload second), 1)
    else (replacementChar, 0)
  else if 0xE0 ≤ first ∧ first ≤ 0xEF then
    if !secondOfThree first second then (replacementChar, 0)
    else if !isContinuation third then (replacementChar, 1)
    else (Char.ofNat ((first.toNat % 16 * 64 + payload second) * 64 + payload third), 2)
  else if 0xF0 ≤ first ∧ first ≤ 0xF4 then
    if !secondOfFour first second then (replacementChar, 0)
    else if !isContinuation third then (replacementChar, 1)
    else if !isContinuation fourth then (replacementChar, 2)
    else
      (Char.ofNat (((first.toNat % 8 * 64 + payload second) * 64 + payload third) * 64
        + payload fourth), 3)
  else (replacementChar, 0)

def utf8Chars : Nat → Bytes → Text
  | fuel + 1, first :: rest =>
    let (char, more) := utf8Front first rest
    char :: utf8Chars fuel (rest.drop more)
  | _, _ => []

def utf8Lossy (data : Bytes) : Text := utf8Chars data.length data

/-- A truncated character is replaced once, an impossible byte on its own. -/
example : utf8Lossy [0xE2, 0x82, 0x41, 0xC3, 0xA9, 0xFF]
    = [replacementChar, 'A', Char.ofNat 0xE9, replacementChar] := by
  decide

theorem isContinuation_ofNat (n : Nat) : isContinuation (UInt8.ofNat (n % 64 + 128)) = true := by
  have every : ∀ m < 64, isContinuation (UInt8.ofNat (m + 128)) = true := by decide
  exact every _ (Nat.mod_lt _ (by decide))

theorem payload_ofNat (n : Nat) : payload (UInt8.ofNat (n % 64 + 128)) = n % 64 := by
  rw [payload, toNat_ofNat_of_lt (by omega)]
  omega

theorem utf8Front_one {first : UInt8} (rest : Bytes) (small : first.toNat < 0x80) :
    utf8Front first rest = (Char.ofNat first.toNat, 0) := by
  simp only [utf8Front, UInt8.lt_iff_toNat_lt, UInt8.le_iff_toNat_le, UInt8.reduceToNat]
  rw [if_pos small]

theorem utf8Front_two {first second : UInt8} (rest : Bytes)
    (lead : 0xC2 ≤ first.toNat ∧ first.toNat ≤ 0xDF) (next : isContinuation second = true) :
    utf8Front first (second :: rest)
      = (Char.ofNat (first.toNat % 32 * 64 + payload second), 1) := by
  simp only [utf8Front, List.getD_cons_zero, UInt8.lt_iff_toNat_lt, UInt8.le_iff_toNat_le,
    UInt8.reduceToNat]
  rw [if_neg (by omega), if_pos lead, if_pos next]

theorem utf8Front_three {first second third : UInt8} (rest : Bytes)
    (lead : 0xE0 ≤ first.toNat ∧ first.toNat ≤ 0xEF) (next : secondOfThree first second = true)
    (last : isContinuation third = true) :
    utf8Front first (second :: third :: rest)
      = (Char.ofNat ((first.toNat % 16 * 64 + payload second) * 64 + payload third), 2) := by
  simp only [utf8Front, List.getD_cons_zero, List.getD_cons_succ, UInt8.lt_iff_toNat_lt,
    UInt8.le_iff_toNat_le, UInt8.reduceToNat, next, last]
  rw [if_neg (by omega), if_neg (by omega), if_pos lead]
  rfl

theorem utf8Front_four {first second third fourth : UInt8} (rest : Bytes)
    (lead : 0xF0 ≤ first.toNat ∧ first.toNat ≤ 0xF4) (next : secondOfFour first second = true)
    (inner : isContinuation third = true) (last : isContinuation fourth = true) :
    utf8Front first (second :: third :: fourth :: rest)
      = (Char.ofNat (((first.toNat % 8 * 64 + payload second) * 64 + payload third) * 64
          + payload fourth), 3) := by
  simp only [utf8Front, List.getD_cons_zero, List.getD_cons_succ, UInt8.lt_iff_toNat_lt,
    UInt8.le_iff_toNat_le, UInt8.reduceToNat, next, inner, last]
  rw [if_neg (by omega), if_neg (by omega), if_neg (by omega), if_pos lead]
  rfl

theorem secondOfThree_ofNat {a b : Nat} (lead : a < 16) (cont : b < 64)
    (overlong : a = 0 → 32 ≤ b) (surrogate : a = 13 → b < 32) :
    secondOfThree (UInt8.ofNat (a + 224)) (UInt8.ofNat (b + 128)) = true := by
  have every : ∀ a < 16, ∀ b < 64, (a = 0 → 32 ≤ b) → (a = 13 → b < 32) →
      secondOfThree (UInt8.ofNat (a + 224)) (UInt8.ofNat (b + 128)) = true := by decide +kernel
  exact every a lead b cont overlong surrogate

theorem secondOfFour_ofNat {a b : Nat} (lead : a < 5) (cont : b < 64)
    (overlong : a = 0 → 16 ≤ b) (beyond : a = 4 → b < 16) :
    secondOfFour (UInt8.ofNat (a + 240)) (UInt8.ofNat (b + 128)) = true := by
  have every : ∀ a < 5, ∀ b < 64, (a = 0 → 16 ≤ b) → (a = 4 → b < 16) →
      secondOfFour (UInt8.ofNat (a + 240)) (UInt8.ofNat (b + 128)) = true := by decide +kernel
  exact every a lead b cont overlong beyond

theorem utf8Front_encode (c : Char) (rest : Bytes) :
    ∃ first more, String.utf8EncodeChar c = first :: more
      ∧ utf8Front first (more ++ rest) = (c, more.length) := by
  have same : Char.ofNat c.val.toNat = c := Char.ofNat_toNat c
  have valid : c.val.toNat < 0xd800 ∨ 0xdfff < c.val.toNat ∧ c.val.toNat < 0x110000 := c.valid
  -- The cases are the writer's four lengths; in each the reader's tests follow from the range.
  fun_cases String.utf8EncodeChar c with
  | case1 v one =>
    have lead := toNat_ofNat_of_lt (v := v) (by omega)
    refine ⟨_, _, rfl, (utf8Front_one _ (by omega)).trans ?_⟩
    rw [lead, same]
    rfl
  | case2 v notOne two =>
    have lead := toNat_ofNat_of_lt (v := v / 64 % 32 + 192) (by omega)
    refine ⟨_, _, rfl, (utf8Front_two _ (by omega) (isContinuation_ofNat v)).trans ?_⟩
    have value : (v / 64 % 32 + 192) % 32 * 64 + v % 64 = v := by omega
    rw [lead, payload_ofNat, value, same]
    rfl
  | case3 v notOne notTwo three =>
    have lead := toNat_ofNat_of_lt (v := v / 4096 % 16 + 224) (by omega)
    refine ⟨_, _, rfl, (utf8Front_three _ (by omega) (secondOfThree_ofNat (by omega) (by omega)
      (by omega) (by omega)) (isContinuation_ofNat v)).trans ?_⟩
    have value : ((v / 4096 % 16 + 224) % 16 * 64 + v / 64 % 64) * 64 + v % 64 = v := by omega
    rw [lead, payload_ofNat, payload_ofNat, value, same]
    rfl
  | case4 v notOne notTwo notThree =>
    have lead := toNat_ofNat_of_lt (v := v / 262144 % 8 + 240) (by omega)
    refine ⟨_, _, rfl, (utf8Front_four _ (by omega) (secondOfFour_ofNat (by omega) (by omega)
      (by omega) (by omega)) (isContinuation_ofNat (v / 64)) (isContinuation_ofNat v)).trans ?_⟩
    have value : (((v / 262144 % 8 + 240) % 8 * 64 + v / 4096 % 64) * 64
        + v / 64 % 64) * 64 + v % 64 = v := by omega
    rw [lead, payload_ofNat, payload_ofNat, payload_ofNat, value, same]
    rfl

theorem utf8Encode_cons (c : Char) (text : Text) :
    utf8Encode (c :: text) = String.utf8EncodeChar c ++ utf8Encode text := rfl

theorem utf8Encode_append (front rest : Text) :
    utf8Encode (front ++ rest) = utf8Encode front ++ utf8Encode rest :=
  List.flatMap_append

theorem utf8EncodeChar_cases (c : Char) :
    (∃ b, String.utf8EncodeChar c = [b] ∧ b.toNat = c.toNat ∧ c.toNat < 128)
    ∨ 128 ≤ c.toNat ∧ ∃ lead tail, String.utf8EncodeChar c = lead :: tail ∧ 192 ≤ lead.toNat
      ∧ ∀ b ∈ tail, 128 ≤ b.toNat := by
  have valid : c.val.toNat < 0xd800 ∨ 0xdfff < c.val.toNat ∧ c.val.toNat < 0x110000 := c.valid
  have same : c.toNat = c.val.toNat := rfl
  have follows : ∀ n : Nat, 128 ≤ (UInt8.ofNat (n % 64 + 128)).toNat := fun n => by
    rw [toNat_ofNat_of_lt (by omega)]
    omega
  -- The cases are the writer's four lengths.
  fun_cases String.utf8EncodeChar c with
  | case1 v one =>
    exact .inl ⟨_, rfl, toNat_ofNat_of_lt (by omega), by omega⟩
  | case2 v notOne two =>
    refine .inr ⟨by omega, _, _, rfl, ?_, by simpa using follows v⟩
    rw [toNat_ofNat_of_lt (by omega)]
    omega
  | case3 v notOne notTwo three =>
    refine .inr ⟨by omega, _, _, rfl, ?_, by simpa using ⟨follows (v / 64), follows v⟩⟩
    rw [toNat_ofNat_of_lt (by omega)]
    omega
  | case4 v notOne notTwo notThree =>
    refine .inr ⟨by omega, _, _, rfl, ?_,
      by simpa using ⟨follows (v / 4096), follows (v / 64), follows v⟩⟩
    rw [toNat_ofNat_of_lt (by omega)]
    omega

theorem toNat_of_mem_encode {c : Char} {b : UInt8} (there : b ∈ String.utf8EncodeChar c) :
    b.toNat = c.toNat ∨ 128 ≤ b.toNat ∧ 128 ≤ c.toNat := by
  rcases utf8EncodeChar_cases c with ⟨b', bytes, same, -⟩ | ⟨large, lead, tail, bytes, high, follows⟩
  · rw [bytes, List.mem_singleton] at there
    exact .inl (there ▸ same)
  · rw [bytes, List.mem_cons] at there
    rcases there with rfl | there
    · exact .inr ⟨by omega, large⟩
    · exact .inr ⟨follows b there, large⟩

theorem utf8Chars_encode (text : Text) (fuel : Nat) (enough : (utf8Encode text).length ≤ fuel) :
    utf8Chars fuel (utf8Encode text) = text := by
  -- Each character takes at least one byte, so the steps never run out.
  induction text generalizing fuel with
  | nil => cases fuel <;> rfl
  | cons c text ih =>
    obtain ⟨first, more, bytes, front⟩ := utf8Front_encode c (utf8Encode text)
    have whole : utf8Encode (c :: text) = first :: (more ++ utf8Encode text) := by
      rw [utf8Encode_cons, bytes, List.cons_append]
    rw [whole] at enough ⊢
    obtain ⟨fuel, rfl⟩ : ∃ n, fuel = n + 1 := ⟨fuel - 1, by simp at enough; omega⟩
    simp only [utf8Chars, front, List.drop_left]
    rw [ih fuel (by simp at enough; omega)]

theorem utf8Lossy_encode (text : Text) : utf8Lossy (utf8Encode text) = text :=
  utf8Chars_encode text _ le_rfl

end Base
