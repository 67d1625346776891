import LxmfChat.App.Addresses
import LxmfChat.Base.Loops
import Mathlib.Data.List.Forall2
import Mathlib.Data.List.SplitBy

/-! The addresses that a message names: runs of digits that are just long enough. -/

namespace LxmfChat

open Base Checked Micron

def isHexByte (b : UInt8) : Bool :=
  (0x30 ≤ b && b ≤ 0x39) || (0x41 ≤ b && b ≤ 0x46) || (0x61 ≤ b && b ≤ 0x66)

def hexEnd (bytes : Bytes) : Nat → Checked Nat :=
  loop (fun i => i < bytes.length && isHexByte (bytes.getD i 0)) (fun i => .ok (.yield (i + 1)))
    (bytes.length + 1)

def extractNext (text : Text) : Nat × List (BytesN 16) → Checked (ForInStep (Nat × List (BytesN 16)))
  | (start, out) => do
    if isHexByte ((utf8Encode text).getD start 0) then
      let i ← hexEnd (utf8Encode text) start
      if i - start = 2 * 16 then
        match ← parseAddr (← strSlice text start i) with
        | some a => return .yield (i, out ++ [a])
        | none => return .yield (i, out)
      else return .yield (i, out)
    else return .yield (start + 1, out)

def extractAddresses (text : Text) : Checked (List (BytesN 16)) := do
  let last ← loop (fun s => s.1 < (utf8Encode text).length) (extractNext text)
    ((utf8Encode text).length + 1) (0, [])
  return last.2

/--
The longest runs of digits in a text that are as long as an address.

The text is split wherever a digit and another character meet.
-/
def addressRuns (text : Text) : List Text :=
  (text.splitBy fun c d => isAsciiHexdigit c == isAsciiHexdigit d).filter fun run =>
    run.all isAsciiHexdigit && run.length == 32

variable {text front rest run : Text} {c : Char}

theorem isHexByte_of_mem {b : UInt8} (there : b ∈ String.utf8EncodeChar c) :
    isHexByte b = isAsciiHexdigit c := by
  have sizes := toNat_of_mem_encode there
  rw [isHexByte, isAsciiHexdigit]
  simp only [UInt8.le_iff_toNat_le, Char.le_def, UInt32.le_iff_toNat_le]
  -- Either both are the same number, or both are above every digit.
  change (decide (48 ≤ b.toNat) && decide (b.toNat ≤ 57) || decide (65 ≤ b.toNat) && decide (b.toNat ≤ 70)
    || decide (97 ≤ b.toNat) && decide (b.toNat ≤ 102)) = (decide (48 ≤ c.toNat) && decide (c.toNat ≤ 57)
    || decide (65 ≤ c.toNat) && decide (c.toNat ≤ 70) || decide (97 ≤ c.toNat) && decide (c.toNat ≤ 102))
  rcases sizes with same | ⟨large, large'⟩
  · rw [same]
  · rw [Bool.eq_iff_iff]
    simp only [Bool.or_eq_true, Bool.and_eq_true, decide_eq_true_eq]
    omega

theorem takeWhile_utf8Encode (text : Text) :
    (utf8Encode text).takeWhile isHexByte = utf8Encode (text.takeWhile isAsciiHexdigit) := by
  induction text with
  | nil => rfl
  | cons c text ih =>
    -- All bytes of a character are digits, or none is.
    rw [utf8Encode_cons]
    cases digit : isAsciiHexdigit c with
    | true =>
      rw [List.takeWhile_append_of_pos fun b there => (isHexByte_of_mem there).trans digit, ih,
        List.takeWhile_cons_of_pos digit, utf8Encode_cons]
    | false =>
      obtain ⟨first, more, bytes, -⟩ := utf8Front_encode c []
      have other : isHexByte first = false := (isHexByte_of_mem (by simp [bytes])).trans digit
      rw [bytes, List.cons_append, List.takeWhile_cons_of_neg (by simp [other]),
        List.takeWhile_cons_of_neg (by simp [digit])]
      rfl

theorem byteLength_run (digits : ∀ c ∈ run, isAsciiHexdigit c = true) :
    byteLength run = run.length :=
  byteLength_plain fun c there => plain_of_digit (isAsciiHexdigit_eq c ▸ digits c there)

theorem hexEnd_eq (bytes : Bytes) (i : Nat) :
    hexEnd bytes i = .ok (i + ((bytes.drop i).takeWhile isHexByte).length) := by
  have general : ∀ steps i, bytes.length - i < steps →
      loop (fun i => i < bytes.length && isHexByte (bytes.getD i 0)) (fun i => .ok (.yield (i + 1)))
        steps i = .ok (i + ((bytes.drop i).takeWhile isHexByte).length) := by
    intro steps i enough
    -- There are more steps than bytes from the position on, so they never run out.
    induction steps generalizing i with
    | zero => omega
    | succ steps ih =>
      rw [loop]
      by_cases inside : i < bytes.length
      · rw [List.drop_eq_getElem_cons inside, List.takeWhile_cons]
        have first : bytes.getD i 0 = bytes[i] := by simp [inside]
        cases digit : isHexByte bytes[i] with
        | true =>
          simp only [inside, first, digit, decide_true, Bool.and_true, if_true, ok_bind]
          rw [ih (i + 1) (by omega), List.length_cons]
          congr 1
          omega
        | false =>
          simp [inside, digit]
      · simp [inside, List.drop_eq_nil_of_le (Nat.le_of_not_lt inside)]
  exact general _ _ (by omega)

theorem addressRuns_append
    (apart : ∀ c ∈ front.getLast?, ∀ d ∈ rest.head?, isAsciiHexdigit c ≠ isAsciiHexdigit d) :
    addressRuns (front ++ rest) = addressRuns front ++ addressRuns rest := by
  rw [addressRuns, List.splitBy_append fun c last d first => by simpa using apart c last d first,
    List.filter_append]
  rfl

theorem addressRuns_of_other (other : ∀ c ∈ text, isAsciiHexdigit c = false) :
    addressRuns text = [] := by
  refine List.filter_eq_nil_iff.mpr fun piece there => ?_
  obtain ⟨c, inside⟩ := List.exists_mem_of_ne_nil piece (List.ne_nil_of_mem_splitBy there)
  have within : c ∈ text := by
    rw [← List.flatten_splitBy (fun c d => isAsciiHexdigit c == isAsciiHexdigit d) text]
    exact List.mem_flatten_of_mem there inside
  have stops : ¬ ∀ d ∈ piece, isAsciiHexdigit d = true := fun digits => by
    simpa [other c within] using digits c inside
  simp [stops]

theorem addressRuns_of_digits (digits : ∀ c ∈ run, isAsciiHexdigit c = true) :
    addressRuns run = if run.length = 32 then [run] else [] := by
  by_cases nonempty : run = []
  · subst nonempty
    rfl
  have same : run.IsChain fun c d => (isAsciiHexdigit c == isAsciiHexdigit d) = true :=
    List.Pairwise.isChain (List.pairwise_of_forall_mem_list fun c first d second => by
      simp [digits c first, digits d second])
  rw [addressRuns, List.splitBy_of_isChain nonempty same]
  simp [List.filter_cons, List.all_eq_true.mpr digits]

theorem head_dropWhile {p : Char → Bool} (first : c ∈ (text.dropWhile p).head?) : p c = false := by
  have stop := List.head?_dropWhile_not p text
  rwa [Option.mem_def.mp first] at stop

theorem addressRuns_cons (other : isAsciiHexdigit c = false) (rest : Text) :
    addressRuns (c :: rest) = addressRuns rest := by
  -- What follows starts with other characters too, up to the next digit.
  set gap := rest.takeWhile fun d => !isAsciiHexdigit d
  set later := rest.dropWhile fun d => !isAsciiHexdigit d
  have whole : gap ++ later = rest := List.takeWhile_append_dropWhile
  have others : ∀ d ∈ gap, isAsciiHexdigit d = false := fun d there => by
    simpa using List.all_eq_true.mp List.all_takeWhile d there
  have next : ∀ d ∈ later.head?, isAsciiHexdigit d = true := fun d there => by
    simpa using head_dropWhile there
  have skip : ∀ block : Text, (∀ d ∈ block, isAsciiHexdigit d = false) →
      addressRuns (block ++ later) = addressRuns later := fun block other => by
    rw [addressRuns_append fun d last e first => ?_, addressRuns_of_other other, List.nil_append]
    rw [other d (List.mem_of_getLast? last), next e first]
    decide
  rw [← whole, ← List.cons_append, skip gap others, skip (c :: gap) ?_]
  simpa [other] using others

/-- How far a text is scanned: the bytes before the rest that are still looked at are no digits. -/
structure Scanning (text : Text) (i : Nat) (out : List (BytesN 16)) (pending : Bytes)
    (front rest : Text) (done : List Text) : Prop where
  whole : text = front ++ rest
  position : i + pending.length = byteLength front
  bytes : (utf8Encode text).drop i = pending ++ utf8Encode rest
  others : ∀ b ∈ pending, isHexByte b = false
  runs : addressRuns text = done ++ addressRuns rest
  taken : List.Forall₂ Encodes done out

namespace Scanning

variable {i : Nat} {out : List (BytesN 16)} {pending : Bytes} {done : List Text} {b : UInt8}

theorem start (text : Text) : Scanning text 0 [] [] [] text [] :=
  ⟨rfl, rfl, rfl, nofun, rfl, .nil⟩

theorem pass (scanning : Scanning text i out (b :: pending) front rest done) :
    Scanning text (i + 1) out pending front rest done where
  whole := scanning.whole
  position := by
    have position := scanning.position
    rw [List.length_cons] at position
    omega
  bytes := by
    rw [← List.drop_drop, scanning.bytes]
    rfl
  others b there := scanning.others b (List.mem_cons_of_mem _ there)
  runs := scanning.runs
  taken := scanning.taken

theorem enter (scanning : Scanning text i out [] front (c :: rest) done)
    (other : isAsciiHexdigit c = false) :
    Scanning text i out (String.utf8EncodeChar c) (front ++ [c]) rest done where
  whole := by
    rw [scanning.whole, List.append_assoc]
    rfl
  position := by
    rw [byteLength_append, ← scanning.position, String.length_utf8EncodeChar]
    simp
  bytes := scanning.bytes
  others b there := (isHexByte_of_mem there).trans other
  runs := by rw [scanning.runs, addressRuns_cons other]
  taken := scanning.taken

theorem take (scanning : Scanning text i out [] front (run ++ rest) done)
    (digits : ∀ c ∈ run, isAsciiHexdigit c = true)
    (stop : ∀ c ∈ rest.head?, isAsciiHexdigit c = false) {found : List (BytesN 16)}
    (new : List.Forall₂ Encodes (addressRuns run) found) :
    Scanning text (i + run.length) (out ++ found) [] (front ++ run) rest (done ++ addressRuns run) where
  whole := by rw [scanning.whole, List.append_assoc]
  position := by rw [byteLength_append, ← scanning.position, byteLength_run digits]; simp
  bytes := by
    rw [← List.drop_drop, scanning.bytes, List.nil_append, List.nil_append, utf8Encode_append,
      ← byteLength_run digits, ← length_utf8Encode, List.drop_left]
  others := nofun
  runs := by
    -- The run ends where it does, so the text is split behind it.
    rw [scanning.runs, List.append_assoc, addressRuns_append fun c last d first => ?_]
    rw [digits c (List.mem_of_getLast? last), stop d first]
    decide
  taken := List.rel_append scanning.taken new

theorem slice (scanning : Scanning text i out [] front (run ++ rest) done)
    (digits : ∀ c ∈ run, isAsciiHexdigit c = true) :
    strSlice text i (i + run.length) = .ok run := by
  rw [scanning.whole]
  refine strSlice_eq front run rest scanning.position.symm ?_
  rw [byteLength_run digits, Nat.add_comm]

theorem first (scanning : Scanning text i out [] front (c :: rest) done) :
    isHexByte ((utf8Encode text).getD i 0) = isAsciiHexdigit c := by
  obtain ⟨lead, tail, bytes, -⟩ := utf8Front_encode c []
  rw [List.getD_eq_getElem?_getD, ← List.head?_drop, scanning.bytes, List.nil_append, utf8Encode_cons,
    bytes]
  exact isHexByte_of_mem (by simp [bytes])

theorem next_run (scanning : Scanning text i out [] front (c :: rest) done)
    (digit : isAsciiHexdigit c = true) :
    ∃ run later found, run ≠ [] ∧ Scanning text (i + run.length) (out ++ found) [] (front ++ run) later
        (done ++ addressRuns run)
      ∧ extractNext text (i, out) = .ok (.yield (i + run.length, out ++ found)) := by
  set run := (c :: rest).takeWhile isAsciiHexdigit
  set later := (c :: rest).dropWhile isAsciiHexdigit
  have whole : run ++ later = c :: rest := List.takeWhile_append_dropWhile
  have digits : ∀ d ∈ run, isAsciiHexdigit d = true := List.all_eq_true.mp List.all_takeWhile
  have stop : ∀ d ∈ later.head?, isAsciiHexdigit d = false := fun d there => head_dropWhile there
  have nonempty : run ≠ [] := by simp [run, digit]
  have ends : hexEnd (utf8Encode text) i = .ok (i + run.length) := by
    rw [hexEnd_eq, scanning.bytes, List.nil_append, takeWhile_utf8Encode, length_utf8Encode,
      byteLength_run digits]
  have first : isHexByte ((utf8Encode text).getD i 0) = true := by
    rw [scanning.first, digit]
  rw [← whole] at scanning
  -- A shorter or longer run is passed like an address, and nothing is taken.
  by_cases long : run.length = 32
  · obtain ⟨addr, read, encodes⟩ := parseAddr_digits long digits
    have new : List.Forall₂ Encodes (addressRuns run) [addr] := by
      rw [addressRuns_of_digits digits, if_pos long]
      exact .cons encodes .nil
    refine ⟨run, later, [addr], nonempty, scanning.take digits stop new, ?_⟩
    rw [extractNext, if_pos first, ends, ok_bind, if_pos (by omega), scanning.slice digits, ok_bind,
      read]
    rfl
  · have new : List.Forall₂ Encodes (addressRuns run) [] := by
      rw [addressRuns_of_digits digits, if_neg long]
      exact .nil
    refine ⟨run, later, [], nonempty, scanning.take digits stop new, ?_⟩
    rw [extractNext, if_pos first, ends, ok_bind, if_neg (by omega), List.append_nil]
    rfl

theorem next (scanning : Scanning text i out pending front rest done)
    (more : i < (utf8Encode text).length) :
    (extractNext text (i, out)).Returns fun
      | .yield (i', out') => i < i' ∧ ∃ pending front rest done,
        Scanning text i' out' pending front rest done
      | .done _ => False := by
  cases pending with
  | cons b pending =>
    -- The loop is inside a character of several bytes.
    have other : isHexByte ((utf8Encode text).getD i 0) = false := by
      rw [List.getD_eq_getElem?_getD, ← List.head?_drop, scanning.bytes]
      exact scanning.others b List.mem_cons_self
    rw [extractNext, if_neg (ne_true_of_eq_false other)]
    exact .ok ⟨Nat.lt_succ_self i, _, _, _, _, scanning.pass⟩
  | nil =>
    cases rest with
    | nil =>
      -- Nothing is left, which the loop has ruled out.
      have nothing := congrArg List.length scanning.bytes
      rw [List.length_drop] at nothing
      change _ = 0 at nothing
      omega
    | cons c rest =>
      cases digit : isAsciiHexdigit c with
      | false =>
        rw [extractNext, if_neg (ne_true_of_eq_false (scanning.first.trans digit))]
        obtain ⟨lead, tail, bytes, -⟩ := utf8Front_encode c []
        have entered := scanning.enter digit
        rw [bytes] at entered
        exact .ok ⟨Nat.lt_succ_self i, _, _, _, _, entered.pass⟩
      | true =>
        obtain ⟨run, later, found, nonempty, scanned, same⟩ := scanning.next_run digit
        rw [same]
        have long := List.length_pos_of_ne_nil nonempty
        exact .ok ⟨by omega, _, _, _, _, scanned⟩

theorem finish (scanning : Scanning text i out pending front rest done)
    (all : (utf8Encode text).length ≤ i) : List.Forall₂ Encodes (addressRuns text) out := by
  have nothing := scanning.bytes
  rw [List.drop_eq_nil_of_le all, List.nil_eq, List.append_eq_nil_iff, ← List.length_eq_zero_iff,
    ← List.length_eq_zero_iff, length_utf8Encode, byteLength_eq_zero] at nothing
  rw [scanning.runs, nothing.2]
  simpa [addressRuns] using scanning.taken

end Scanning

/--
Just the longest runs of 32 digits are taken for addresses, in their order, each as often as it occurs.

No text is cut inside a character.
-/
theorem extractAddresses_exact (text : Text) :
    ∃ addresses, extractAddresses text = .ok addresses
      ∧ List.Forall₂ Encodes (addressRuns text) addresses := by
  have scanned : (loop (fun s => s.1 < (utf8Encode text).length) (extractNext text)
      ((utf8Encode text).length + 1) (0, [])).Returns fun s =>
        List.Forall₂ Encodes (addressRuns text) s.2 := by
    refine .loop (fun s => ∃ pending front rest done, Scanning text s.1 s.2 pending front rest done)
      (fun s => (utf8Encode text).length - s.1) ?_ ?_ ⟨_, _, _, _, .start text⟩ (by simp)
    · rintro ⟨i, out⟩ ⟨pending, front, rest, done, scanning⟩ more
      simp only [decide_eq_true_eq] at more
      refine (scanning.next more).mono fun step kept => ?_
      cases step with
      | yield next => exact ⟨kept.2, by have := kept.1; simp only; omega⟩
      | done last => exact kept.elim
    · rintro ⟨i, out⟩ ⟨pending, front, rest, done, scanning⟩ stops
      simp only [decide_eq_false_iff_not] at stops
      exact scanning.finish (Nat.le_of_not_lt stops)
  obtain ⟨last, same, taken⟩ := scanned
  exact ⟨last.2, by rw [extractAddresses, same]; rfl, taken⟩

end LxmfChat
