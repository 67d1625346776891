import LxmfChat.Base.Checked
import LxmfChat.Base.Text

/-! Strings as a systems language has them: positions count bytes, and cuts are between characters. -/

namespace Base

variable {text rest : Text} {k limit : Nat} {c : Char}

def byteLength (text : Text) : Nat := (text.map Char.utf8Size).sum

@[simp] theorem byteLength_nil : byteLength [] = 0 := rfl

@[simp] theorem byteLength_cons (c : Char) (text : Text) :
    byteLength (c :: text) = c.utf8Size + byteLength text := by
  simp [byteLength]

@[simp] theorem byteLength_append (front rest : Text) :
    byteLength (front ++ rest) = byteLength front + byteLength rest := by
  simp [byteLength]

theorem length_utf8Encode (text : Text) : (utf8Encode text).length = byteLength text := by
  induction text with
  | nil => rfl
  | cons c text ih =>
    rw [utf8Encode_cons, List.length_append, ih, byteLength_cons, String.length_utf8EncodeChar]

theorem byteLength_eq_zero : byteLength text = 0 ↔ text = [] := by
  cases text with
  | nil => simp
  | cons c text =>
    have size := c.utf8Size_pos
    simp only [byteLength_cons, reduceCtorEq, iff_false]
    omega

def cutAt : Text → Nat → Option (Text × Text)
  | text, 0 => some ([], text)
  | [], _ + 1 => none
  | c :: rest, k + 1 =>
    if k + 1 < c.utf8Size then none
    else (cutAt rest (k + 1 - c.utf8Size)).map fun cut => (c :: cut.1, cut.2)

theorem cutAt_eq_some_iff {front : Text} :
    cutAt text k = some (front, rest) ↔ text = front ++ rest ∧ byteLength front = k := by
  induction text generalizing k front with
  | nil =>
    cases k with
    | zero =>
      simp only [cutAt, Option.some.injEq, Prod.mk.injEq, byteLength_eq_zero, List.nil_eq,
        List.append_eq_nil_iff]
      tauto
    | succ k =>
      simp only [cutAt, reduceCtorEq, List.nil_eq, List.append_eq_nil_iff, false_iff, not_and]
      rintro ⟨rfl, -⟩
      simp
  | cons c text ih =>
    have size := c.utf8Size_pos
    cases k with
    | zero =>
      simp only [cutAt, Option.some.injEq, Prod.mk.injEq, byteLength_eq_zero]
      constructor
      · rintro ⟨rfl, rfl⟩
        exact ⟨rfl, rfl⟩
      · rintro ⟨whole, rfl⟩
        exact ⟨rfl, whole⟩
    | succ k =>
      -- The first character is on the left of the cut, so the rest is cut that much earlier.
      rw [cutAt]
      cases front with
      | nil =>
        simp only [byteLength_nil, List.nil_append]
        split
        · simp
        · simp
      | cons d front =>
        rw [List.cons_append, List.cons.injEq, byteLength_cons]
        split
        case isTrue inside =>
          simp only [reduceCtorEq, false_iff]
          rintro ⟨⟨rfl, -⟩, total⟩
          omega
        case isFalse after =>
          rw [Option.map_eq_some_iff]
          constructor
          · rintro ⟨⟨front', rest'⟩, cut, same⟩
            simp only [Prod.mk.injEq, List.cons.injEq] at same
            obtain ⟨⟨rfl, rfl⟩, rfl⟩ := same
            obtain ⟨rfl, total⟩ := ih.mp cut
            exact ⟨⟨rfl, rfl⟩, by omega⟩
          · rintro ⟨⟨rfl, rfl⟩, total⟩
            exact ⟨(front, rest), ih.mpr ⟨rfl, by omega⟩, rfl⟩

def isCharBoundary (text : Text) (k : Nat) : Bool := (cutAt text k).isSome

theorem isCharBoundary_iff :
    isCharBoundary text k = true ↔ ∃ front, front <+: text ∧ byteLength front = k := by
  rw [isCharBoundary, Option.isSome_iff_exists]
  constructor
  · rintro ⟨⟨front, rest⟩, cut⟩
    obtain ⟨rfl, total⟩ := cutAt_eq_some_iff.mp cut
    exact ⟨front, List.prefix_append front rest, total⟩
  · rintro ⟨front, ⟨rest, rfl⟩, total⟩
    exact ⟨(front, rest), cutAt_eq_some_iff.mpr ⟨rfl, total⟩⟩

def strSlice (text : Text) (start stop : Nat) : Checked Text :=
  match cutAt text stop with
  | none => Checked.crash "byte index is not a char boundary"
  | some (front, _) =>
    match cutAt front start with
    | none => Checked.crash "byte index is not a char boundary"
    | some (_, piece) => .ok piece

theorem strSlice_eq (front piece rest : Text) {start stop : Nat} (left : byteLength front = start)
    (right : byteLength piece + start = stop) :
    strSlice (front ++ (piece ++ rest)) start stop = .ok piece := by
  have first : cutAt (front ++ (piece ++ rest)) stop = some (front ++ piece, rest) :=
    cutAt_eq_some_iff.mpr ⟨by simp, by rw [byteLength_append]; omega⟩
  have second : cutAt (front ++ piece) start = some (front, piece) :=
    cutAt_eq_some_iff.mpr ⟨rfl, left⟩
  simp only [strSlice, first, second]

def fitting : Nat → Text → Text
  | _, [] => []
  | limit, c :: rest =>
    if c.utf8Size ≤ limit then c :: fitting (limit - c.utf8Size) rest else []

theorem prefix_fitting_iff {front : Text} :
    front <+: fitting limit text ↔ front <+: text ∧ byteLength front ≤ limit := by
  induction text generalizing limit front with
  | nil =>
    simp only [fitting, List.prefix_nil]
    constructor
    · rintro rfl
      exact ⟨rfl, Nat.zero_le _⟩
    · exact And.left
  | cons c text ih =>
    cases front with
    | nil => simp
    | cons d front =>
      rw [fitting]
      split
      case isTrue room =>
        rw [List.cons_prefix_cons, List.cons_prefix_cons, ih, byteLength_cons]
        constructor
        · rintro ⟨rfl, inside, total⟩
          exact ⟨⟨rfl, inside⟩, by omega⟩
        · rintro ⟨⟨rfl, inside⟩, total⟩
          exact ⟨rfl, inside, by omega⟩
      case isFalse full =>
        rw [List.cons_prefix_cons, byteLength_cons]
        simp only [List.prefix_nil, reduceCtorEq, false_iff, not_and]
        rintro ⟨rfl, -⟩
        omega

theorem fitting_front (limit : Nat) (text : Text) : fitting limit text <+: text :=
  (prefix_fitting_iff.mp (List.prefix_refl _)).1

theorem byteLength_fitting_le (limit : Nat) (text : Text) :
    byteLength (fitting limit text) ≤ limit :=
  (prefix_fitting_iff.mp (List.prefix_refl _)).2

theorem eq_fitting {front : Text} (inside : front <+: text) (fits : byteLength front ≤ limit)
    (longest : byteLength (fitting limit text) ≤ byteLength front) :
    front = fitting limit text := by
  obtain ⟨more, whole⟩ := prefix_fitting_iff.mpr ⟨inside, fits⟩
  have none : byteLength more = 0 := by
    rw [← whole, byteLength_append] at longest
    omega
  rw [← whole, byteLength_eq_zero.mp none, List.append_nil]

theorem fitting_of_le (fits : byteLength text ≤ limit) : fitting limit text = text := by
  obtain ⟨more, whole⟩ := fitting_front limit text
  refine (eq_fitting (List.prefix_refl text) fits ?_).symm
  rw [← whole, byteLength_append, whole]
  omega

theorem fitting_eq_of_cutAt {front : Text} (cut : cutAt text k = some (front, rest)) :
    fitting k text = front := by
  obtain ⟨rfl, total⟩ := cutAt_eq_some_iff.mp cut
  have most := byteLength_fitting_le k (front ++ rest)
  exact (eq_fitting (List.prefix_append front rest) (by omega) (by omega)).symm

def truncate (text : Text) (limit : Nat) : Checked Text :=
  if byteLength text < limit then .ok text
  else
    match cutAt text limit with
    | some (front, _) => .ok front
    | none => Checked.crash "assertion failed: self.is_char_boundary(new_len)"

theorem truncate_eq (text : Text) (limit : Nat) :
    truncate text limit =
      if byteLength text < limit ∨ isCharBoundary text limit = true then .ok (fitting limit text)
      else Checked.crash "assertion failed: self.is_char_boundary(new_len)" := by
  rw [truncate]
  split
  case isTrue short => rw [if_pos (.inl short), fitting_of_le (by omega)]
  case isFalse long =>
    cases cut : cutAt text limit with
    | none => simp [isCharBoundary, cut, long]
    | some pieces => simp [isCharBoundary, cut, fitting_eq_of_cutAt cut]

def isWhitespace (c : Char) : Bool :=
  let n := c.toNat
  (0x09 ≤ n && n ≤ 0x0d) || n = 0x20 || n = 0x85 || n = 0xa0 || n = 0x1680
    || (0x2000 ≤ n && n ≤ 0x200a) || n = 0x2028 || n = 0x2029 || n = 0x202f || n = 0x205f
    || n = 0x3000

def trim (text : Text) : Text :=
  ((text.dropWhile isWhitespace).reverse.dropWhile isWhitespace).reverse

theorem trim_eq (solid : ∀ c ∈ text, isWhitespace c = false) : trim text = text := by
  have stays : ∀ t : Text, (∀ c ∈ t, isWhitespace c = false) → t.dropWhile isWhitespace = t := by
    intro t solid
    cases t with
    | nil => rfl
    | cons c t => exact List.dropWhile_cons_of_neg (by simp [solid c List.mem_cons_self])
  rw [trim, stays text solid, stays _ (by simpa using solid), List.reverse_reverse]

theorem mem_of_mem_trim (there : c ∈ trim text) : c ∈ text := by
  have inner := (List.dropWhile_sublist _).subset (List.mem_reverse.mp there)
  exact (List.dropWhile_sublist _).subset (List.mem_reverse.mp inner)

theorem head?_trim (solid : isWhitespace c = false) (rest : Text) :
    (trim (c :: rest)).head? = some c := by
  -- From the other end only what follows the character can go.
  have stays : ∀ tail : Text, ((tail ++ [c]).dropWhile isWhitespace).getLast? = some c := by
    intro tail
    induction tail with
    | nil => simp [solid]
    | cons d tail ih =>
      rw [List.cons_append, List.dropWhile_cons]
      split
      · exact ih
      · rw [← List.cons_append, List.getLast?_concat]
  rw [trim, List.dropWhile_cons_of_neg (by simp [solid]), List.reverse_cons, List.head?_reverse]
  exact stays rest.reverse

def splitOnce (c : Char) : Text → Option (Text × Text)
  | [] => none
  | d :: rest =>
    if d = c then some ([], rest) else (splitOnce c rest).map fun pieces => (d :: pieces.1, pieces.2)

def stripPrefix : Text → Text → Option Text
  | [], text => some text
  | _ :: _, [] => none
  | c :: front, d :: rest => if c = d then stripPrefix front rest else none

/-- A line that a line feed has ended, from its last character on; a carriage return goes with it. -/
def endLine : Text → Text
  | '\r' :: held => held.reverse
  | held => held.reverse

/-- The lines of a text, with what the current one holds so far from its last character on. -/
def linesFrom : Text → Text → List Text
  | held, [] => if held.isEmpty then [] else [held.reverse]
  | held, c :: rest => if c = '\n' then endLine held :: linesFrom [] rest else linesFrom (c :: held) rest

def lines (text : Text) : List Text := linesFrom [] text

theorem linesFrom_of_notMem {held : Text} (unbroken : '\n' ∉ text) (nonempty : held ++ text ≠ []) :
    linesFrom held text = [held.reverse ++ text] := by
  induction text generalizing held with
  | nil =>
    rw [List.append_nil] at nonempty ⊢
    rw [linesFrom, if_neg (by simpa using nonempty)]
  | cons c text ih =>
    have other : c ≠ '\n' := fun same => unbroken (same ▸ List.mem_cons_self)
    rw [linesFrom, if_neg other, ih (fun there => unbroken (List.mem_cons_of_mem c there)) (by simp)]
    simp

/-- Both kinds of line ends are taken off, and a last line needs none. -/
example : lines ['a', '\r', '\n', '\n', 'b', '\r'] = [['a'], [], ['b', '\r']] := by decide

def digitValue (c : Char) : Option Nat :=
  if '0' ≤ c ∧ c ≤ '9' then some (c.toNat - 48)
  else if 'a' ≤ c ∧ c ≤ 'f' then some (c.toNat - 87)
  else if 'A' ≤ c ∧ c ≤ 'F' then some (c.toNat - 55)
  else none

/-- The value of digits after a value, if all are digits and the limit is not reached. -/
def digitsValue (radix limit : Nat) : Nat → Text → Option Nat
  | value, [] => some value
  | value, c :: rest =>
    match (digitValue c).filter (· < radix) with
    | none => none
    | some digit =>
      if value * radix + digit < limit then digitsValue radix limit (value * radix + digit) rest
      else none

def fromStrRadix (radix limit : Nat) : Text → Option Nat
  | [] => none
  | c :: rest =>
    if c = '+' then if rest.isEmpty then none else digitsValue radix limit 0 rest
    else digitsValue radix limit 0 (c :: rest)

/-- A plus sign is taken and a minus sign is not. -/
example : fromStrRadix 16 256 ['+', 'f'] = some 15 ∧ fromStrRadix 16 256 ['-', 'f'] = none := by
  decide

end Base
