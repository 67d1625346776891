import LxmfChat.Micron.Documents

/-! A text with a backslash before every character is shown as it is. -/

namespace LxmfChat.Micron

open Base Checked

def escape (text : Text) : Text := text.flatMap fun c => ['\x5c', c]

@[simp] theorem escape_cons (c : Char) (text : Text) :
    escape (c :: text) = '\x5c' :: c :: escape text := rfl

theorem length_escape (text : Text) : (escape text).length = 2 * text.length := by
  induction text with
  | nil => rfl
  | cons c text ih =>
    simp only [escape_cons, List.length_cons, ih]
    omega

theorem newline_notMem_escape {text : Text} (unbroken : '\n' ∉ text) : '\n' ∉ escape text := by
  induction text with
  | nil => simp [escape]
  | cons c text ih =>
    simp only [List.mem_cons, not_or] at unbroken
    simpa [unbroken.1] using ih unbroken.2

@[simp] theorem escape_append (front rest : Text) :
    escape (front ++ rest) = escape front ++ escape rest :=
  List.flatMap_append

def Scan.after (st : ScanState) (doc : Document) (done : Text) : Scan where
  i := 2 * done.length
  seg := done
  -- The first character captures the formatting.
  segBold := if done.isEmpty then none else some st.bold
  segAlign := if done.isEmpty then none else some st.align
  st := st
  doc := doc

theorem scanChar_escape (heading : Nat) (st : ScanState) (doc : Document) (done rest : Text)
    (c : Char) :
    scanChar (escape (done ++ c :: rest)) heading (.after st doc done) =
      .ok (.after st doc (done ++ [c])) := by
  have width := length_escape done
  have first : index (escape (done ++ c :: rest)) (2 * done.length) = .ok '\x5c' := by
    simp [index, ← width]
  have second : index (escape (done ++ c :: rest)) (2 * done.length + 1) = .ok c := by
    simp [index, ← width]
  have more : 2 * done.length + 1 < (escape (done ++ c :: rest)).length := by
    rw [length_escape, List.length_append, List.length_cons]
    omega
  have moved : { (Scan.after st doc done).pushSegChar c with i := 2 * done.length + 2 } =
      Scan.after st doc (done ++ [c]) := by
    rw [Scan.after, Scan.after, Scan.mk.injEq]
    cases done <;> simp [Scan.pushSegChar, Nat.mul_add]
  rw [scanChar, show (Scan.after st doc done).i = 2 * done.length from rfl, first, ok_bind]
  simp only [more, if_true, second, ok_bind, pure_eq_ok, moved]

theorem scanInline_escape (heading : Nat) (st : ScanState) (doc : Document) (text : Text) :
    scanInline (escape text) heading st doc =
      .ok (((Scan.after st doc text).flushSeg heading).st,
        ((Scan.after st doc text).flushSeg heading).doc) := by
  -- After a number of rounds that many characters of the text are taken.
  let I (s : Scan) : Prop := ∃ done rest, text = done ++ rest ∧ s = .after st doc done
  have run : Checked.loop (fun s : Scan => decide (s.i < (escape text).length))
      (fun s => do return .yield (← scanChar (escape text) heading s)) ((escape text).length + 1)
      { st, doc } = .ok (.after st doc text) := by
    refine Returns.eq_ok
      (Returns.loop I (fun s => (escape text).length - s.i) ?_ ?_ ⟨[], text, rfl, rfl⟩ (by omega))
    · rintro s ⟨done, rest, rfl, rfl⟩ more
      have inside : 2 * done.length < (escape (done ++ rest)).length := of_decide_eq_true more
      cases rest with
      | nil => simp [length_escape] at inside
      | cons c rest =>
        rw [scanChar_escape]
        refine .ok ⟨⟨done ++ [c], rest, by simp, rfl⟩, Nat.sub_lt_sub_left inside ?_⟩
        simp [Scan.after]
    · rintro s ⟨done, rest, rfl, rfl⟩ last
      have outside : ¬ 2 * done.length < (escape (done ++ rest)).length := of_decide_eq_false last
      rw [length_escape, List.length_append] at outside
      rw [List.length_eq_zero_iff.mp (by omega : rest.length = 0), List.append_nil]
  rw [scanInline, run]
  rfl

theorem parseLine_backslash (rest : Text) (doc : Document) :
    parseLine ('\x5c' :: rest) {} doc = scanInline ('\x5c' :: rest) 0 {} doc := by
  have shown : trim ('\x5c' :: rest) ≠ ['\x60', '='] := by
    intro same
    have head := head?_trim (c := '\x5c') (by decide) rest
    rw [same] at head
    exact absurd head (by decide)
  rw [parseLine, if_neg shown]
  rfl

/-- An escaped text is one line of a page, and nothing else. -/
theorem parse_escape {text : Text} (visible : trim text ≠ []) (unbroken : '\n' ∉ text)
    (fits : byteLength (escape text) ≤ MAX_INPUT_BYTES) :
    parse (escape text) = .ok { lines := [⟨text, .regular, .left, .text⟩] } := by
  cases text with
  | nil => exact absurd rfl visible
  | cons c text =>
    have one : lines (escape (c :: text)) = [escape (c :: text)] :=
      linesFrom_of_notMem (newline_notMem_escape unbroken) (by simp)
    rw [parse, truncateUtf8_eq, fitting_of_le fits, ok_bind, one, parseLines, if_neg (by decide)]
    rw [escape_cons, parseLine_backslash, ← escape_cons, scanInline_escape, ok_bind]
    have pushed : ((Scan.after {} {} (c :: text)).flushSeg 0).doc =
        { lines := [⟨c :: text, .regular, .left, .text⟩] } := by
      rw [Scan.flushSeg, if_neg (by simpa [Scan.after] using visible)]
      rfl
    rw [pushed]
    rfl

/-- Every character that means something can be shown. -/
theorem parse_escape_marks :
    trim ['>', '\x60', '!', '['] ≠ [] ∧
      parse (escape ['>', '\x60', '!', '[']) =
        .ok { lines := [⟨['>', '\x60', '!', '['], .regular, .left, .text⟩] } :=
  ⟨by decide, parse_escape (by decide) (by decide) (by decide)⟩

end LxmfChat.Micron
