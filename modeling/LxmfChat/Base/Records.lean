import LxmfChat.Base.Loops

/-! Lists of records that stand one after the other in a byte string, whole or torn. -/

namespace Base.Checked

variable {α : Type}

def readRecord (next : Bytes → Nat → Checked (Option (α × Nat))) (buf : Bytes) (s : List α × Nat) :
    Checked (ForInStep (List α × Nat)) := do
  match ← next buf s.2 with
  | some (record, i) => return .yield (s.1 ++ [record], i)
  | none => return .done s

def readRecords (header : Nat) (next : Bytes → Nat → Checked (Option (α × Nat))) (buf : Bytes) :
    Checked (List α) := do
  let read ← loop (fun s => s.2 + header ≤ buf.length) (readRecord next buf) (buf.length + 1) ([], 0)
  return read.1

/-- Reading one record undoes writing it, and notices when the end of it is missing. -/
structure RecordCodec (header : Nat) (next : Bytes → Nat → Checked (Option (α × Nat)))
    (encode : α → Bytes) (valid : α → Prop) : Prop where
  some_header : 0 < header
  wide : ∀ a, header ≤ (encode a).length
  whole : ∀ a, valid a → ∀ front rest, next (front ++ (encode a ++ rest)) front.length =
    .ok (some (a, (front ++ encode a).length))
  torn : ∀ a, valid a → ∀ front piece, piece <+: encode a → header ≤ piece.length →
    piece.length < (encode a).length → next (front ++ piece) front.length = .ok none

def contained (encode : α → Bytes) : Nat → List α → List α
  | _, [] => []
  | k, a :: as =>
    if (encode a).length ≤ k then a :: contained encode (k - (encode a).length) as else []

theorem prefix_contained_iff {encode : α → Bytes} {front records : List α} {k : Nat} :
    front <+: contained encode k records
      ↔ front <+: records ∧ (front.flatMap encode).length ≤ k := by
  induction records generalizing front k with
  | nil =>
    rw [contained, List.prefix_nil]
    exact ⟨fun same => by simp [same], fun both => both.1⟩
  | cons a as ih =>
    rw [contained]
    cases front with
    | nil => simp
    | cons b bs =>
      split
      case isTrue fits =>
        rw [List.cons_prefix_cons, List.cons_prefix_cons, ih, List.flatMap_cons, List.length_append]
        constructor
        · rintro ⟨rfl, inside, rest⟩
          exact ⟨⟨rfl, inside⟩, by omega⟩
        · rintro ⟨⟨rfl, inside⟩, rest⟩
          exact ⟨rfl, inside, by omega⟩
      case isFalse long =>
        rw [List.cons_prefix_cons, List.flatMap_cons, List.length_append]
        refine iff_of_false (by simp) ?_
        rintro ⟨⟨rfl, -⟩, rest⟩
        omega

variable {header : Nat} {next : Bytes → Nat → Checked (Option (α × Nat))} {encode : α → Bytes}
  {valid : α → Prop}

/-- From wherever the loop stands, it reads the records that are all there. -/
theorem RecordCodec.loop_eq (codec : RecordCodec header next encode valid) {records : List α}
    (fine : ∀ a ∈ records, valid a) (k : Nat) {buf : Bytes} (front : Bytes) (out : List α) {steps : Nat}
    (split : buf = front ++ (records.flatMap encode).take k)
    (enough : ((records.flatMap encode).take k).length < steps) :
    ∃ i, loop (fun s => s.2 + header ≤ buf.length) (readRecord next buf) steps (out, front.length) =
      .ok (out ++ contained encode k records, i) := by
  induction records generalizing front out k steps with
  | nil =>
    obtain ⟨steps, rfl⟩ := Nat.exists_eq_succ_of_ne_zero (Nat.ne_zero_of_lt enough)
    rw [List.flatMap_nil, List.take_nil, List.append_nil] at split
    refine ⟨front.length, ?_⟩
    rw [split, loop, if_neg (by simpa using Nat.ne_of_gt codec.some_header), contained, List.append_nil]
    rfl
  | cons a as ih =>
    have wide := codec.wide a
    have some_header := codec.some_header
    obtain ⟨steps, rfl⟩ := Nat.exists_eq_succ_of_ne_zero (Nat.ne_zero_of_lt enough)
    rw [List.flatMap_cons, List.take_append] at split enough
    rw [contained]
    by_cases fits : (encode a).length ≤ k
    · -- The whole record is there, and the loop goes on behind it.
      rw [List.take_of_length_le fits] at split enough
      rw [List.length_append] at enough
      have left : ((as.flatMap encode).take (k - (encode a).length)).length < steps := by omega
      have more := ih (fun b there => fine b (List.mem_cons_of_mem a there)) (k - (encode a).length)
        (front ++ encode a) (out ++ [a]) (split.trans (List.append_assoc ..).symm) left
      rw [loop, if_pos (by simp [split]; omega), readRecord, if_pos fits, split,
        codec.whole a (fine a List.mem_cons_self), ok_bind, ← split]
      simpa using more
    · -- The record is torn, with its header or within it, and the loop ends either way.
      rw [Nat.sub_eq_zero_of_le (Nat.le_of_not_le fits), List.take_zero, List.append_nil] at split
      have short : ((encode a).take k).length < (encode a).length := by
        rw [List.length_take]
        omega
      rw [loop, if_neg fits, List.append_nil]
      refine ⟨front.length, ?_⟩
      split
      case isTrue goes =>
        rw [readRecord, split, codec.torn a (fine a List.mem_cons_self) front _
          (List.take_prefix k _) (by simp [split] at goes ⊢; omega) short]
        rfl
      case isFalse => rfl

theorem RecordCodec.readRecords_take (codec : RecordCodec header next encode valid)
    {records : List α} (fine : ∀ a ∈ records, valid a) (k : Nat) :
    readRecords header next ((records.flatMap encode).take k) = .ok (contained encode k records) := by
  obtain ⟨i, read⟩ := codec.loop_eq fine k [] [] (List.nil_append _).symm (Nat.lt_succ_self _)
  rw [readRecords, show (0 : Nat) = ([] : Bytes).length from rfl, read]
  rfl

theorem RecordCodec.readRecords_eq (codec : RecordCodec header next encode valid)
    {records : List α} (fine : ∀ a ∈ records, valid a) :
    readRecords header next (records.flatMap encode) = .ok records := by
  have whole : records <+: contained encode (records.flatMap encode).length records :=
    prefix_contained_iff.mpr ⟨List.prefix_rfl, le_rfl⟩
  have inside := (prefix_contained_iff.mp (List.prefix_rfl (l := contained encode
    (records.flatMap encode).length records))).1
  have read := codec.readRecords_take fine (records.flatMap encode).length
  rwa [List.take_length, inside.eq_of_length_le whole.length_le] at read

theorem slice_append {items front piece rest : List α} {start stop : Nat}
    (split : items = front ++ (piece ++ rest)) (left : front.length = start)
    (right : start + piece.length = stop) : slice items start stop = .ok piece := by
  subst split left right
  rw [slice_ok (Nat.le_add_right _ _) (by simp), List.drop_left, Nat.add_sub_cancel_left,
    List.take_left]

theorem lastPiece_eq {buf front rest : Bytes} {i n : Nat} (record : Bytes → α)
    (split : buf = front ++ rest) (here : front.length = i) :
    (if i + n > buf.length then return none
      else do
        let piece ← slice buf i (i + n)
        return some (record piece, i + n) : Checked (Option (α × Nat))) =
      .ok (if rest.length < n then none else some (record (rest.take n), i + n)) := by
  have long : buf.length = i + rest.length := by rw [split, List.length_append, here]
  by_cases short : rest.length < n
  · rw [if_pos (by omega), if_pos short]
    rfl
  · rw [if_neg (by omega), if_neg short, slice_ok (Nat.le_add_right ..) (by omega), split, ← here,
      List.drop_left, Nat.add_sub_cancel_left]
    rfl

theorem prefix_append_of_le {piece first second : List α} (inside : piece <+: first ++ second)
    (long : first.length ≤ piece.length) : ∃ part, piece = first ++ part ∧ part <+: second := by
  obtain ⟨part, rfl⟩ := List.prefix_of_prefix_length_le (List.prefix_append first second) inside long
  exact ⟨part, rfl, (List.prefix_append_right_inj first).mp inside⟩

theorem RecordCodec.of_body {head body : α → Bytes} (some_header : 0 < header)
    (wide : ∀ a, header ≤ (head a).length)
    (reads : ∀ a, valid a → ∃ record : Bytes → α, record (body a) = a ∧ ∀ front rest,
      next (front ++ (head a ++ rest)) front.length =
        .ok (if rest.length < (body a).length then none
          else some (record (rest.take (body a).length),
            front.length + (head a).length + (body a).length)))
    (cut : ∀ a, valid a → ∀ front piece, piece <+: head a → header ≤ piece.length →
      piece.length < (head a).length → next (front ++ piece) front.length = .ok none) :
    RecordCodec header next (fun a => head a ++ body a) valid where
  some_header := some_header
  wide a := by
    rw [List.length_append]
    exact (wide a).trans (Nat.le_add_right ..)
  whole a fine front rest := by
    obtain ⟨record, same, read⟩ := reads a fine
    rw [List.append_assoc, read, List.take_left, same, if_neg (by simp)]
    simp [Nat.add_assoc]
  torn a fine front piece inside long torn := by
    by_cases past : (head a).length ≤ piece.length
    · -- Only the body is torn, and its length is known.
      obtain ⟨record, -, read⟩ := reads a fine
      obtain ⟨part, rfl, -⟩ := prefix_append_of_le inside past
      rw [List.length_append, List.length_append] at torn
      rw [read, if_pos (by omega)]
    · have inside' := List.prefix_of_prefix_length_le inside (List.prefix_append (head a) _)
        (Nat.le_of_not_le past)
      exact cut a fine front piece inside' long (Nat.lt_of_not_le past)

end Base.Checked
