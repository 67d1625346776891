import Mathlib.Tactic.Ring
import Mathlib.Data.List.Basic

/-! Byte strings: fixed-width arrays, big-endian integers, and splitting into chunks. -/

namespace Base

variable {n : Nat} {α : Type*}

abbrev Bytes := List UInt8

abbrev BytesN (n : Nat) := { b : Bytes // b.length = n }

/-- The first bytes of a string as a fixed-width array, zero-filled when the string is shorter. -/
def BytesN.ofBytes (n : Nat) (b : Bytes) : BytesN n :=
  ⟨(b ++ List.replicate n 0).take n, by simp⟩

def BytesN.slice (b : Bytes) (start n : Nat) (within : start + n ≤ b.length) : BytesN n :=
  ⟨(b.drop start).take n, by rw [List.length_take, List.length_drop]; omega⟩

/-- Whether an array is in a list. -/
instance BytesN.decidableMem {n : Nat} (b : BytesN n) (items : List (BytesN n)) :
    Decidable (b ∈ items) :=
  List.instDecidableMemOfLawfulBEq b items

theorem take_drop_append (data : Bytes) (start width : Nat) :
    (data.drop start).take width ++ data.drop (start + width) = data.drop start := by
  rw [← List.drop_drop]
  exact List.take_append_drop width (data.drop start)

@[simp] theorem BytesN.length_val (b : BytesN n) : b.val.length = n := b.property

theorem BytesN.ofBytes_val_take {b : Bytes} (enough : n ≤ b.length) :
    (BytesN.ofBytes n b).val = b.take n := by
  simp [BytesN.ofBytes, List.take_append_of_le_length enough]

theorem BytesN.ofBytes_val {b : Bytes} (width : b.length = n) : (BytesN.ofBytes n b).val = b := by
  rw [BytesN.ofBytes_val_take (by omega), List.take_of_length_le (by omega)]

@[simp] theorem BytesN.ofBytes_self (b : BytesN n) : BytesN.ofBytes n b.val = b :=
  Subtype.ext (BytesN.ofBytes_val b.property)

@[simp] theorem BytesN.ofBytes_append (b : BytesN n) (rest : Bytes) :
    BytesN.ofBytes n (b.val ++ rest) = b := by
  apply Subtype.ext
  rw [BytesN.ofBytes_val_take (by simp [b.property]), List.take_append_of_le_length
    (by simp [b.property]), List.take_of_length_le (by simp [b.property])]

@[simp] theorem BytesN.drop_append (b : BytesN n) (rest : Bytes) :
    (b.val ++ rest).drop n = rest := by
  simp [b.property]

@[simp] theorem BytesN.take_append (b : BytesN n) (rest : Bytes) :
    (b.val ++ rest).take n = b.val := by
  rw [List.take_append_of_le_length (by simp [b.property]),
    List.take_of_length_le (by simp [b.property])]

theorem BytesN.slice_eq {start : Nat} {data front rest : Bytes} (b : BytesN n)
    (split : data = front ++ (b.val ++ rest)) (place : front.length = start)
    (within : start + n ≤ data.length) : BytesN.slice data start n within = b := by
  subst split place
  apply Subtype.ext
  rw [BytesN.slice]
  simp only [List.drop_left, BytesN.take_append]

theorem toNat_ofNat_of_lt {v : Nat} (small : v < 256) : (UInt8.ofNat v).toNat = v := by
  rw [UInt8.toNat_ofNat']
  exact Nat.mod_eq_of_lt small

def beBytes : Nat → Nat → Bytes
  | 0, _ => []
  | width + 1, value => UInt8.ofNat (value / 256 ^ width) :: beBytes width value

def beNat (b : Bytes) : Nat := b.foldl (fun value byte => value * 256 + byte.toNat) 0

@[simp] theorem beBytes_length (width value : Nat) : (beBytes width value).length = width := by
  induction width with
  | zero => rfl
  | succ width ih => simp [beBytes, ih]

theorem beNat_foldl (b : Bytes) (start : Nat) :
    b.foldl (fun value byte => value * 256 + byte.toNat) start
      = start * 256 ^ b.length + beNat b := by
  -- The accumulator changes at every digit, so it stays quantified over.
  induction b generalizing start with
  | nil => simp [beNat]
  | cons byte rest ih =>
    simp only [beNat, List.foldl_cons, List.length_cons]
    rw [ih, ih (0 * 256 + byte.toNat)]
    ring

theorem beNat_cons (byte : UInt8) (rest : Bytes) :
    beNat (byte :: rest) = byte.toNat * 256 ^ rest.length + beNat rest := by
  simpa [beNat] using beNat_foldl rest byte.toNat

theorem beNat_append (b rest : Bytes) :
    beNat (b ++ rest) = beNat b * 256 ^ rest.length + beNat rest := by
  rw [beNat, List.foldl_append, ← beNat, beNat_foldl]

theorem beNat_lt (b : Bytes) : beNat b < 256 ^ b.length := by
  induction b with
  | nil => simp [beNat]
  | cons byte rest ih =>
    have digit : byte.toNat * 256 ^ rest.length ≤ 255 * 256 ^ rest.length :=
      Nat.mul_le_mul_right _ (Nat.le_of_lt_succ byte.toNat_lt)
    rw [beNat_cons, List.length_cons, Nat.pow_succ]
    omega

theorem beNat_beBytes (width value : Nat) :
    beNat (beBytes width value) = value % 256 ^ width := by
  induction width with
  | zero => simp [beBytes, beNat, Nat.mod_one]
  | succ width ih =>
    rw [beBytes, beNat_cons, ih, beBytes_length, UInt8.toNat_ofNat']
    -- The quotient's low digit and the remainder make up the longer remainder.
    rw [Nat.pow_succ (n := 256), Nat.mod_mul (a := 256 ^ width)]
    ring

theorem beNat_beBytes_of_lt {width value : Nat} (fits : value < 256 ^ width) :
    beNat (beBytes width value) = value := by
  rw [beNat_beBytes, Nat.mod_eq_of_lt fits]

def chunks {α : Type*} (size : Nat) (items : List α) : List (List α) :=
  (List.range ((items.length + size - 1) / size)).map fun i => (items.drop (i * size)).take size

@[simp] theorem chunks_length (size : Nat) (items : List α) :
    (chunks size items).length = (items.length + size - 1) / size := by
  simp [chunks]

theorem length_le_of_mem_chunks {size : Nat} {items piece : List α}
    (among : piece ∈ chunks size items) : piece.length ≤ size := by
  obtain ⟨i, -, rfl⟩ := List.mem_map.mp among
  rw [List.length_take]
  omega

theorem length_of_getElem_chunks {size i : Nat} {items piece : List α}
    (found : (chunks size items)[i]? = some piece) (followed : i + 1 < (chunks size items).length) :
    piece.length = size := by
  rw [chunks_length] at followed
  have positive : 0 < size := by
    by_contra none
    rw [Nat.eq_zero_of_not_pos none, Nat.div_zero] at followed
    omega
  -- The next piece starts inside the string, so this one is cut in full.
  have room : (i + 2) * size ≤ items.length + size - 1 :=
    (Nat.le_div_iff_mul_le positive).mp followed
  rw [Nat.add_mul] at room
  rw [chunks, List.getElem?_map, Option.map_eq_some_iff] at found
  obtain ⟨j, index, rfl⟩ := found
  obtain ⟨inside, rfl⟩ := List.getElem?_eq_some_iff.mp index
  rw [List.getElem_range, List.length_take, List.length_drop]
  omega

theorem eq_of_flatten_eq {pieces others : List (List α)} (count : pieces.length = others.length)
    (sizes : ∀ i, i + 1 < pieces.length →
      pieces[i]?.map List.length = others[i]?.map List.length)
    (joined : pieces.flatten = others.flatten) : pieces = others := by
  induction pieces generalizing others with
  | nil => exact (List.eq_nil_of_length_eq_zero count.symm).symm
  | cons piece pieces ih =>
    obtain ⟨other, others, rfl⟩ := List.exists_cons_of_length_eq_add_one count.symm
    simp only [List.length_cons, Nat.add_right_cancel_iff] at count
    simp only [List.flatten_cons] at joined
    cases pieces with
    | nil =>
      -- The last piece is whatever is left of the string.
      obtain rfl := List.eq_nil_of_length_eq_zero count.symm
      simpa using joined
    | cons next pieces =>
      have first := sizes 0 (by simp)
      simp only [List.getElem?_cons_zero, Option.map_some, Option.some.injEq] at first
      obtain ⟨same, rest⟩ := List.append_inj joined first
      rw [same, ih count ?_ rest]
      intro i before
      have later := sizes (i + 1) (by simpa using before)
      simpa only [List.getElem?_cons_succ] using later

theorem flatten_range_pieces (size : Nat) (items : List α) (count : Nat) :
    ((List.range count).map fun i => (items.drop (i * size)).take size).flatten
      = items.take (count * size) := by
  induction count with
  | zero => simp
  | succ count ih =>
    rw [List.range_succ, List.map_append, List.flatten_append, ih]
    simp only [List.map_cons, List.map_nil, List.flatten_cons, List.flatten_nil, List.append_nil]
    rw [Nat.succ_mul, List.take_add]

theorem chunks_flatten {size : Nat} (positive : 0 < size) (items : List α) :
    (chunks size items).flatten = items := by
  rw [chunks, flatten_range_pieces]
  apply List.take_of_length_le
  -- Rounding the count up leaves no tail uncovered.
  have covered := Nat.lt_div_mul_add (a := items.length + size - 1) positive
  omega

def chunksExact (size : Nat) (b : Bytes) : List (BytesN size) :=
  (List.range (b.length / size)).map fun i => BytesN.ofBytes size (b.drop (i * size))

theorem chunksExact_append {size : Nat} (positive : 0 < size) {b : Bytes}
    (whole : size ∣ b.length) (rest : Bytes) :
    chunksExact size (b ++ rest) = chunksExact size b ++ chunksExact size rest := by
  obtain ⟨count, length⟩ := whole
  have front : b.length / size = count := by
    rw [length]
    exact Nat.mul_div_cancel_left count positive
  have total : (b ++ rest).length / size = count + rest.length / size := by
    rw [List.length_append, length, Nat.mul_add_div positive]
  rw [chunksExact, total, List.range_add, List.map_append, List.map_map, chunksExact, front,
    chunksExact]
  congr 1
  · apply List.map_congr_left
    intro i before
    -- The piece ends before the rest begins.
    have ends : size ≤ b.length - i * size := by
      have room : (i + 1) * size ≤ count * size :=
        Nat.mul_le_mul_right size (List.mem_range.mp before)
      rw [Nat.add_mul, Nat.mul_comm count] at room
      omega
    apply Subtype.ext
    rw [BytesN.ofBytes_val_take (by rw [List.length_drop, List.length_append]; omega),
      BytesN.ofBytes_val_take (by rw [List.length_drop]; exact ends),
      List.drop_append_of_le_length (by omega),
      List.take_append_of_le_length (by rw [List.length_drop]; exact ends)]
  · apply List.map_congr_left
    intro i _
    have past : (count + i) * size = b.length + i * size := by
      rw [length, Nat.add_mul, Nat.mul_comm size]
    simp only [Function.comp_apply, past, List.drop_append]
    rw [List.drop_of_length_le (by omega), List.nil_append]
    congr 2
    omega

theorem chunksExact_self {size : Nat} (positive : 0 < size) (b : BytesN size) :
    chunksExact size b.val = [b] := by
  simp [chunksExact, Nat.div_self positive]

def quads : Bytes → List (BytesN 4)
  | a :: b :: c :: d :: rest => ⟨[a, b, c, d], rfl⟩ :: quads rest
  | _ => []

theorem quads_flatMap (groups : List (BytesN 4)) : quads (groups.flatMap (·.val)) = groups := by
  induction groups with
  | nil => rfl
  | cons group rest ih =>
    obtain ⟨bytes, width⟩ := group
    -- A group of width four is four named bytes.
    match bytes, width with
    | [a, b, c, d], _ => simpa [quads] using ih

theorem quads_length (b : Bytes) : (quads b).length = b.length / 4 := by
  induction b using quads.induct with
  | case1 a b c d rest ih => simp only [quads, List.length_cons, ih]; omega
  | case2 b short =>
    -- Anything without four leading bytes has fewer than four.
    have few : b.length < 4 := by
      match b, short with
      | [], _ | [_], _ | [_, _], _ | [_, _, _], _ => simp
      | a :: b :: c :: d :: rest, short => exact absurd rfl (short a b c d rest)
    rw [quads.eq_2 b short]
    simp only [List.length_nil]
    omega

@[simp] theorem flatMap_quads_length (groups : List (BytesN 4)) :
    (groups.flatMap (·.val)).length = 4 * groups.length := by
  induction groups with
  | nil => rfl
  | cons group rest ih =>
    rw [List.flatMap_cons, List.length_append, ih, group.property, List.length_cons]
    omega

end Base
