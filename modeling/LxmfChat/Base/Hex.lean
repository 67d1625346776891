import LxmfChat.Base.Strings

/-! Bytes in hexadecimal, and reading them back two digits at a time. -/

namespace Base

def hexDigit (n : Nat) : Char :=
  if n < 10 then Char.ofNat ('0'.toNat + n) else Char.ofNat ('a'.toNat + (n - 10))

def hex (bytes : Bytes) : Text :=
  bytes.flatMap fun byte => [hexDigit (byte.toNat / 16), hexDigit (byte.toNat % 16)]

def fromHex : Text → Option Bytes
  | [] => some []
  | [_] => none
  | a :: b :: rest =>
    match digitValue a, digitValue b with
    | some x, some y => (fromHex rest).map (UInt8.ofNat (x * 16 + y) :: ·)
    | _, _ => none

def hexPairs (text : Text) : Nat → Nat → Checked (Option Bytes)
  | 0, _ => .ok (some [])
  | n + 1, i => do
    match fromStrRadix 16 256 (← strSlice text i (i + 2)) with
    | none => return none
    | some byte => return (← hexPairs text n (i + 2)).map (UInt8.ofNat byte :: ·)

theorem digitValue_hexDigit {n : Nat} (small : n < 16) : digitValue (hexDigit n) = some n := by
  have all : ∀ k < 16, digitValue (hexDigit k) = some k := by decide
  exact all n small

theorem digitValue_bounds {c : Char} {n : Nat} (value : digitValue c = some n) :
    n < 16 ∧ 48 ≤ c.toNat ∧ c.toNat < 128 := by
  rw [digitValue] at value
  simp only [Char.le_def, UInt32.le_iff_toNat_le] at value
  change (if 48 ≤ c.toNat ∧ c.toNat ≤ 57 then some (c.toNat - 48)
    else if 97 ≤ c.toNat ∧ c.toNat ≤ 102 then some (c.toNat - 87)
    else if 65 ≤ c.toNat ∧ c.toNat ≤ 70 then some (c.toNat - 55)
    else none) = some n at value
  split at value
  · cases value
    omega
  split at value
  · cases value
    omega
  split at value
  · cases value
    omega
  · cases value

/-- A character that takes one byte and is not taken for a sign. -/
def Plain (c : Char) : Prop := c.utf8Size = 1 ∧ c ≠ '+'

theorem plain_of_digit {c : Char} (digit : (digitValue c).isSome = true) : Plain c := by
  obtain ⟨n, value⟩ := Option.isSome_iff_exists.mp digit
  refine ⟨Char.utf8Size_eq_one_iff.mpr ?_, ?_⟩
  · rw [UInt32.le_iff_toNat_le]
    exact Nat.le_of_lt_succ (digitValue_bounds value).2.2
  · rintro rfl
    exact absurd digit (by decide)

theorem isWhitespace_of_digit {c : Char} (digit : (digitValue c).isSome = true) :
    isWhitespace c = false := by
  obtain ⟨n, value⟩ := Option.isSome_iff_exists.mp digit
  obtain ⟨-, above, below⟩ := digitValue_bounds value
  simp only [isWhitespace, Bool.or_eq_false_iff, Bool.and_eq_false_iff, decide_eq_false_iff_not]
  omega

theorem byteLength_plain {text : Text} (plain : ∀ c ∈ text, Plain c) :
    byteLength text = text.length := by
  induction text with
  | nil => rfl
  | cons c text ih =>
    rw [byteLength_cons, (plain c List.mem_cons_self).1, List.length_cons,
      ih fun d there => plain d (List.mem_cons_of_mem c there), Nat.add_comm]

theorem fromStrRadix_pair {a : Char} (signless : a ≠ '+') (b : Char) :
    fromStrRadix 16 256 [a, b] =
      (digitValue a).bind fun x => (digitValue b).map fun y => x * 16 + y := by
  rw [fromStrRadix, if_neg signless, digitsValue]
  cases high : digitValue a with
  | none => rfl
  | some x =>
    have small := (digitValue_bounds high).1
    simp only [Option.filter_some, small, decide_true, if_true, Option.bind_some]
    rw [if_pos (by omega), digitsValue]
    cases low : digitValue b with
    | none => rfl
    | some y =>
      have small' := (digitValue_bounds low).1
      simp only [Option.filter_some, small', decide_true, if_true, Option.map_some]
      rw [if_pos (by omega), digitsValue]
      simp

theorem length_hex (bytes : Bytes) : (hex bytes).length = 2 * bytes.length := by
  induction bytes with
  | nil => rfl
  | cons byte bytes ih =>
    rw [hex, List.flatMap_cons, List.length_append, ← hex, ih]
    simp only [List.length_cons, List.length_nil]
    omega

theorem hexDigit_of_mem_hex {bytes : Bytes} {c : Char} (there : c ∈ hex bytes) :
    ∃ n < 16, hexDigit n = c := by
  obtain ⟨byte, -, either⟩ := List.mem_flatMap.mp there
  have small := byte.toNat_lt
  simp only [List.mem_cons, List.not_mem_nil, or_false] at either
  rcases either with rfl | rfl
  · exact ⟨_, by omega, rfl⟩
  · exact ⟨_, by omega, rfl⟩

theorem digit_of_mem_hex {bytes : Bytes} {c : Char} (there : c ∈ hex bytes) :
    (digitValue c).isSome = true := by
  obtain ⟨n, small, rfl⟩ := hexDigit_of_mem_hex there
  rw [digitValue_hexDigit small]
  rfl

theorem trim_hex (bytes : Bytes) : trim (hex bytes) = hex bytes :=
  trim_eq fun _ there => isWhitespace_of_digit (digit_of_mem_hex there)

theorem fromHex_hex (bytes : Bytes) : fromHex (hex bytes) = some bytes := by
  induction bytes with
  | nil => rfl
  | cons byte bytes ih =>
    have small := byte.toNat_lt
    have whole : byte.toNat / 16 * 16 + byte.toNat % 16 = byte.toNat := Nat.div_add_mod' _ _
    rw [hex, List.flatMap_cons, ← hex, List.cons_append, List.cons_append, List.nil_append, fromHex,
      digitValue_hexDigit (by omega), digitValue_hexDigit (by omega)]
    simp only [ih, whole, Option.map_some, UInt8.ofNat_toNat]

theorem digits_of_fromHex {text : Text} {bytes : Bytes} (read : fromHex text = some bytes) :
    text.length = 2 * bytes.length ∧ ∀ c ∈ text, (digitValue c).isSome = true := by
  induction text using fromHex.induct generalizing bytes with
  | case1 =>
    cases read
    exact ⟨rfl, nofun⟩
  | case2 => cases read
  | case3 a b rest x y low high ih =>
    rw [fromHex, high, low] at read
    obtain ⟨tail, later, rfl⟩ := Option.map_eq_some_iff.mp read
    obtain ⟨long, digits⟩ := ih later
    refine ⟨by simp only [List.length_cons, long]; omega, fun c there => ?_⟩
    rcases List.mem_cons.mp there with rfl | there
    · rw [high]
      rfl
    rcases List.mem_cons.mp there with rfl | there
    · rw [low]
      rfl
    · exact digits c there
  | case4 a b rest bad =>
    rw [fromHex] at read
    split at read
    · exact absurd ‹_› (bad _ _ ‹_›)
    · cases read

theorem exists_fromHex {text : Text} {n : Nat} (long : text.length = 2 * n)
    (digits : ∀ c ∈ text, (digitValue c).isSome = true) : ∃ bytes, fromHex text = some bytes := by
  induction n generalizing text with
  | zero =>
    rw [List.length_eq_zero_iff.mp (by omega : text.length = 0)]
    exact ⟨[], rfl⟩
  | succ n ih =>
    match text, long with
    | a :: b :: rest, long =>
      obtain ⟨x, high⟩ := Option.isSome_iff_exists.mp (digits a (by simp))
      obtain ⟨y, low⟩ := Option.isSome_iff_exists.mp (digits b (by simp))
      obtain ⟨bytes, later⟩ := ih (by simp at long; omega : rest.length = 2 * n) fun c there =>
        digits c (by simp [there])
      simp only [fromHex, high, low, later]
      exact ⟨_, rfl⟩

theorem hexPairs_eq (front rest : Text) (plain : ∀ c ∈ rest, Plain c) {n : Nat}
    (long : rest.length = 2 * n) :
    hexPairs (front ++ rest) n (byteLength front) = .ok (fromHex rest) := by
  induction n generalizing front rest with
  | zero =>
    rw [List.length_eq_zero_iff.mp (by omega : rest.length = 0)]
    rfl
  | succ n ih =>
    match rest, long with
    | a :: b :: rest, long =>
      have pa := plain a (by simp)
      have pb := plain b (by simp)
      have two : byteLength [a, b] = 2 := by simp [byteLength, pa.1, pb.1]
      have cut := strSlice_eq front [a, b] rest rfl (Nat.add_comm _ _)
      have next := ih (front ++ [a, b]) rest (fun c there => plain c (by simp [there]))
        (by simp only [List.length_cons] at long; omega)
      rw [two] at cut
      rw [byteLength_append, two, List.append_assoc] at next
      simp only [List.cons_append, List.nil_append] at cut next
      rw [hexPairs, cut, Checked.ok_bind, fromStrRadix_pair pa.2, fromHex]
      cases digitValue a with
      | none => rfl
      | some x =>
        cases digitValue b with
        | none => rfl
        | some y =>
          simp only [Option.bind_some, Option.map_some, next]
          rfl

theorem hexPairs_hex (bytes : Bytes) : hexPairs (hex bytes) bytes.length 0 = .ok (some bytes) := by
  rw [← fromHex_hex bytes]
  exact hexPairs_eq [] (hex bytes) (fun c there => plain_of_digit (digit_of_mem_hex there))
    (length_hex bytes)

end Base
