import LxmfChat.Lxmf.Msgpack
import Mathlib.Tactic.Positivity
import Mathlib.Tactic.Zify

/-! Every value a program can hold is read back from its encoding, whatever follows it. -/

namespace LxmfChat

open Base

variable {k : Int} {m : Fields}

/-- An integer of sixty-four bits. -/
def InI64 (n : Int) : Prop := -2 ^ 63 ≤ n ∧ n < 2 ^ 63

instance (n : Int) : Decidable (InI64 n) := inferInstanceAs (Decidable (_ ∧ _))

/--
A value as the types of the library allow, without string-keyed maps.

Integers have sixty-four bits, and the keys of a map are in ascending order, each once.
-/
inductive Value.Plain : Value → Prop
  | nil : Plain .nil
  | bool (b : Bool) : Plain (.bool b)
  | int {n : Int} (range : InI64 n) : Plain (.int n)
  | f64 (f : Double) : Plain (.f64 f)
  | str (s : Text) : Plain (.str s)
  | bin (b : Bytes) : Plain (.bin b)
  | array {a : List Value} (each : ∀ v ∈ a, Plain v) : Plain (.array a)
  | map {m : Fields} (keys : ∀ e ∈ m, InI64 e.1) (each : ∀ e ∈ m, Plain e.2)
      (ascending : m.Pairwise fun e f => e.1 < f.1) : Plain (.map m)

namespace Msgpack

theorem signed_wrap {bits : Nat} {n : Int} (positive : 0 < bits) (low : -2 ^ (bits - 1) ≤ n)
    (high : n < 2 ^ (bits - 1)) : signed bits (wrap bits n) = n := by
  obtain ⟨bits, rfl⟩ : ∃ k, bits = k + 1 := ⟨bits - 1, by omega⟩
  rw [Nat.add_sub_cancel] at low high
  have double : (2 : Int) ^ (bits + 1) = 2 * 2 ^ bits := by rw [pow_succ]; ring
  have small : (0 : Int) < 2 ^ bits := by positivity
  rw [signed, wrap, Nat.add_sub_cancel]
  by_cases nonneg : 0 ≤ n
  · -- A nonnegative integer is its own pattern.
    rw [Int.emod_eq_of_lt nonneg (by omega)]
    rw [if_pos (by zify; rw [Int.toNat_of_nonneg nonneg]; exact high), Int.toNat_of_nonneg nonneg]
  · -- A negative one stands above the middle.
    have pattern : n % 2 ^ (bits + 1) = n + 2 ^ (bits + 1) := by
      rw [← Int.add_emod_right]
      exact Int.emod_eq_of_lt (by omega) (by omega)
    have lifted : ((n + 2 ^ (bits + 1)).toNat : Int) = n + 2 ^ (bits + 1) :=
      Int.toNat_of_nonneg (by omega)
    rw [pattern, if_neg (by zify; rw [lifted]; omega), lifted]
    ring

theorem wrap_lt (bits : Nat) (n : Int) : wrap bits n < 2 ^ bits := by
  have positive : (0 : Int) < 2 ^ bits := by positivity
  have range := Int.emod_lt_of_pos n positive
  have nonneg := Int.emod_nonneg n positive.ne'
  rw [wrap]
  zify
  rw [Int.toNat_of_nonneg nonneg]
  exact range

theorem reads_writeU (depth : Nat) {n : Nat} (range : n < 2 ^ 63) :
    Reads (value (depth + 1)) (writeU n) (.int n) := by
  rw [writeU]
  -- Each width has its own marker, so the cases follow the writer's.
  split_ifs with fix one two four
  · have byte := toNat_ofNat_of_lt (v := n) (by omega)
    have small : UInt8.ofNat n ≤ 0x7f := by
      rw [UInt8.le_iff_toNat_le, byte]
      exact Nat.le_of_lt_succ fix
    refine @Reads.bind _ _ _ _ [UInt8.ofNat n] [] _ _ (reads_u8 _) ?_
    rw [if_pos small, byte]
    exact Reads.pure _
  · exact (reads_u8 0xcc).bind ((reads_u8AsUsize (by omega)).map fun v => Value.int v)
  · exact (reads_u8 0xcd).bind ((Reads.beBytes unexpectedEnd (by omega)).map fun v => Value.int v)
  · exact (reads_u8 0xce).bind ((Reads.beBytes unexpectedEnd (by omega)).map fun v => Value.int v)
  · have plain : signed 64 n = n := if_pos range
    have body := (Reads.beBytes unexpectedEnd (n := 8) (v := n) (by omega)).map fun v =>
      Value.int (signed 64 v)
    rw [plain] at body
    exact (reads_u8 0xcf).bind body

theorem reads_int (depth : Nat) {n : Int} (range : InI64 n) :
    Reads (value (depth + 1)) (writeI n) (.int n) := by
  obtain ⟨low, high⟩ := range
  rw [writeI]
  split_ifs with nonneg fix one two four
  · have natural := reads_writeU depth (n := n.toNat) (by omega)
    rwa [Int.toNat_of_nonneg nonneg] at natural
  · -- The marker is the integer itself, in eight bits.
    have byte := toNat_ofNat_of_lt (wrap_lt 8 n)
    have pattern : wrap 8 n = (n + 256).toNat := by
      rw [wrap]
      omega
    have large : ¬ UInt8.ofNat (wrap 8 n) ≤ 0x7f := by
      rw [UInt8.le_iff_toNat_le, byte, pattern]
      change ¬ _ ≤ 127
      omega
    have negative : 0xe0 ≤ UInt8.ofNat (wrap 8 n) := by
      rw [UInt8.le_iff_toNat_le, byte, pattern]
      change 224 ≤ _
      omega
    refine @Reads.bind _ _ _ _ [UInt8.ofNat (wrap 8 n)] [] _ _ (reads_u8 _) ?_
    rw [if_neg large, if_pos negative, byte, signed_wrap (by decide) (by omega) (by omega)]
    exact Reads.pure _
  · have body := (reads_u8AsUsize (wrap_lt 8 n)).map fun v => Value.int (signed 8 v)
    rw [signed_wrap (by decide) (by omega) (by omega)] at body
    exact (reads_u8 0xd0).bind body
  · have body := (Reads.beBytes unexpectedEnd (n := 2) (wrap_lt 16 n)).map fun v =>
      Value.int (signed 16 v)
    rw [signed_wrap (by decide) (by omega) (by omega)] at body
    exact (reads_u8 0xd1).bind body
  · have body := (Reads.beBytes unexpectedEnd (n := 4) (wrap_lt 32 n)).map fun v =>
      Value.int (signed 32 v)
    rw [signed_wrap (by decide) (by omega) (by omega)] at body
    exact (reads_u8 0xd2).bind body
  · have body := (Reads.beBytes unexpectedEnd (n := 8) (wrap_lt 64 n)).map fun v =>
      Value.int (signed 64 v)
    rw [signed_wrap (by decide) (by omega) (by omega)] at body
    exact (reads_u8 0xd3).bind body

private theorem fixstr_marker : ∀ {n : Nat}, n < 32 →
    ¬ (0xa0 ||| UInt8.ofNat n : UInt8) ≤ 0x7f ∧ ¬ 0xe0 ≤ (0xa0 ||| UInt8.ofNat n : UInt8)
      ∧ ¬ (0xa0 ||| UInt8.ofNat n : UInt8) ≤ 0x8f ∧ ¬ (0xa0 ||| UInt8.ofNat n : UInt8) ≤ 0x9f
      ∧ (0xa0 ||| UInt8.ofNat n : UInt8) ≤ 0xbf
      ∧ ((0xa0 ||| UInt8.ofNat n : UInt8) &&& 0x1f).toNat = n := by
  decide

theorem reads_str (depth : Nat) {s : Text} (fits : (utf8Encode s).length < wordSize) :
    Reads (value (depth + 1)) (encode (.str s)) (.str s) := by
  have body : Reads (strN (utf8Encode s).length) (utf8Encode s) (.str s) := by
    have text := (Reads.take unexpectedEnd (utf8Encode s)).map fun b => Value.str (utf8Lossy b)
    rwa [utf8Lossy_encode] at text
  rw [encode, writeStr, strHead]
  split_ifs with fix one two
  · refine (reads_u8 _).bind ?_
    obtain ⟨fixint, negative, fixmap, fixarray, fixstr, count⟩ := fixstr_marker fix
    rw [if_neg fixint, if_neg negative, if_neg fixmap, if_neg fixarray, if_pos fixstr, count]
    exact body
  · exact (reads_u8 0xd9).bind ((reads_u8AsUsize (by omega)).bind body)
  · exact (reads_u8 0xda).bind ((Reads.beBytes _ (by omega)).bind body)
  · exact (reads_u8 0xdb).bind ((Reads.beBytes _ fits).bind body)

theorem insertKey_of_lt {v : Value} (above : ∀ e ∈ m, e.1 < k) :
    insertKey k v m = m ++ [(k, v)] := by
  induction m with
  | nil => rfl
  | cons e rest ih =>
    have first := above e List.mem_cons_self
    rw [insertKey, if_neg (by omega), if_neg (by omega),
      ih fun other there => above other (List.mem_cons_of_mem e there)]
    rfl

theorem foldl_insertKey {acc : Fields} (ascending : (acc ++ m).Pairwise fun e f => e.1 < f.1) :
    m.foldl (fun acc e => insertKey e.1 e.2 acc) acc = acc ++ m := by
  -- What has been collected grows with every entry, so it stays quantified over.
  induction m generalizing acc with
  | nil => simp
  | cons e rest ih =>
    have above : ∀ f ∈ acc, f.1 < e.1 := fun f there =>
      (List.pairwise_append.mp ascending).2.2 f there e List.mem_cons_self
    rw [List.foldl_cons, insertKey_of_lt above, ih (by simpa using ascending)]
    simp

theorem reads_mapEntries {depth : Nat} (acc : Fields)
    (keys : ∀ e ∈ m, Reads (value depth) (writeI e.1) (.int e.1))
    (each : ∀ e ∈ m, Reads (value depth) (encode e.2) e.2) :
    Reads (mapEntries (value depth) m.length acc) (encode.entries m)
      (m.foldl (fun acc e => insertKey e.1 e.2 acc) acc) := by
  induction m generalizing acc with
  | nil => exact Reads.pure acc
  | cons e rest ih =>
    obtain ⟨k, v⟩ := e
    have key := keys (k, v) List.mem_cons_self
    have val := each (k, v) List.mem_cons_self
    have tail := ih (insertKey k v acc) (fun e there => keys e (List.mem_cons_of_mem _ there))
      fun e there => each e (List.mem_cons_of_mem _ there)
    rw [encode.entries, List.append_assoc]
    exact key.bind (val.bind tail)

private theorem fixmap_marker : ∀ {n : Nat}, n < 16 →
    ¬ (0x80 ||| UInt8.ofNat n : UInt8) ≤ 0x7f ∧ ¬ 0xe0 ≤ (0x80 ||| UInt8.ofNat n : UInt8)
      ∧ (0x80 ||| UInt8.ofNat n : UInt8) ≤ 0x8f
      ∧ ((0x80 ||| UInt8.ofNat n : UInt8) &&& 0x0f).toNat = n := by
  decide

theorem reads_map {depth : Nat} (fits : m.length < wordSize)
    (ascending : m.Pairwise fun e f => e.1 < f.1)
    (keys : ∀ e ∈ m, Reads (value depth) (writeI e.1) (.int e.1))
    (each : ∀ e ∈ m, Reads (value depth) (encode e.2) e.2) :
    Reads (value (depth + 1)) (encode (.map m)) (.map m) := by
  have body : Reads (map (value depth) m.length) (encode.entries m) (.map m) := by
    have whole := (reads_mapEntries [] keys each).map Value.map
    rwa [foldl_insertKey (by simpa using ascending), List.nil_append] at whole
  rw [encode, mapHead, countHead]
  split_ifs with short middle
  · refine (reads_u8 _).bind ?_
    obtain ⟨fixint, negative, fixmap, count⟩ := fixmap_marker short
    rw [if_neg fixint, if_neg negative, if_pos fixmap, count]
    exact body
  · exact (reads_u8 0xde).bind ((Reads.beBytes _ (by omega)).bind body)
  · exact (reads_u8 0xdf).bind ((Reads.beBytes _ fits).bind body)

theorem countHead_length_pos (fixed short long : UInt8) (n : Nat) :
    0 < (countHead fixed short long n).length := by
  rw [countHead]
  split_ifs <;> simp

theorem length_entries :
    m.length ≤ (encode.entries m).length
      ∧ ∀ e ∈ m, (encode e.2).length ≤ (encode.entries m).length := by
  induction m with
  | nil => exact ⟨le_rfl, fun _ there => nomatch there⟩
  | cons e rest ih =>
    have positive := encode_length_pos e.2
    have whole : (encode.entries (e :: rest)).length
        = (writeI e.1).length + (encode e.2).length + (encode.entries rest).length := by
      rw [encode.entries, List.length_append, List.length_append]
    refine ⟨by rw [whole, List.length_cons]; omega, fun other there => ?_⟩
    rcases List.mem_cons.mp there with rfl | later
    · omega
    · have within := ih.2 other later
      omega

theorem length_element_le {a : List Value} {v : Value} (element : v ∈ a) :
    (encode v).length ≤ (a.flatMap encode).length :=
  (List.sublist_flatten_of_mem (List.mem_map_of_mem element)).length_le.trans_eq
    (by rw [List.flatMap_def])

theorem exists_succ_of_encode_le {v : Value} {depth : Nat} (enough : (encode v).length ≤ depth) :
    ∃ d, depth = d + 1 := by
  have positive := encode_length_pos v
  exact ⟨depth - 1, by omega⟩

theorem reads_encode {v : Value} (plain : v.Plain) :
    ∀ depth, (encode v).length ≤ depth → (encode v).length < wordSize →
      Reads (value depth) (encode v) v := by
  -- What an array or a map holds is shorter than it, so one level less is depth enough.
  induction plain with
  | nil =>
    intro depth enough _
    obtain ⟨depth, rfl⟩ := exists_succ_of_encode_le enough
    exact (reads_u8 0xc0).bind (Reads.pure Value.nil)
  | bool b =>
    intro depth enough _
    obtain ⟨depth, rfl⟩ := exists_succ_of_encode_le enough
    cases b with
    | false => exact (reads_u8 0xc2).bind (Reads.pure (Value.bool false))
    | true => exact (reads_u8 0xc3).bind (Reads.pure (Value.bool true))
  | int range =>
    intro depth enough _
    obtain ⟨depth, rfl⟩ := exists_succ_of_encode_le enough
    exact reads_int depth range
  | f64 f =>
    intro depth enough _
    obtain ⟨depth, rfl⟩ := exists_succ_of_encode_le enough
    exact reads_f64 depth f
  | str s =>
    intro depth enough fits
    obtain ⟨depth, rfl⟩ := exists_succ_of_encode_le enough
    refine reads_str depth ?_
    rw [encode, writeStr, List.length_append] at fits
    omega
  | bin b =>
    intro depth enough fits
    obtain ⟨depth, rfl⟩ := exists_succ_of_encode_le enough
    refine reads_bin depth ?_
    rw [encode, List.length_append] at fits
    omega
  | @array a each ih =>
    intro depth enough fits
    obtain ⟨depth, rfl⟩ := exists_succ_of_encode_le enough
    have head := countHead_length_pos 0x90 0xdc 0xdd a.length
    rw [encode, items_eq_flatMap, arrayHead, List.length_append] at enough fits
    have count := length_le_items a
    refine reads_array (by omega) fun v element => ?_
    have within := length_element_le element
    exact ih v element depth (by omega) (by omega)
  | @map m keys each ascending ih =>
    intro depth enough fits
    obtain ⟨depth, rfl⟩ := exists_succ_of_encode_le enough
    have head := countHead_length_pos 0x80 0xde 0xdf m.length
    rw [encode, mapHead, List.length_append] at enough fits
    obtain ⟨count, within⟩ := length_entries (m := m)
    refine reads_map (by omega) ascending (fun e entry => ?_) fun e entry => ?_
    · -- There is at least one entry, so at least one level is left for its key.
      have positive := encode_length_pos e.2
      have shorter := within e entry
      obtain ⟨depth, rfl⟩ : ∃ n, depth = n + 1 := ⟨depth - 1, by omega⟩
      exact reads_int depth (keys e entry)
    · have shorter := within e entry
      exact ih e entry depth (by omega) (by omega)

theorem decode_encode {v : Value} (plain : v.Plain) (fits : (encode v).length < wordSize) :
    decode (encode v) = .ok v :=
  (reads_encode plain _ le_rfl fits).parse fits

/--
Every value without a string-keyed map is read back from its encoding, whatever follows it.

Every length is one of a machine word, that of the whole encoding too, and the decoder stops
right behind the encoding.
-/
theorem msgpack_round_trip {v : Value} (plain : v.Plain) (fits : (encode v).length < wordSize)
    (rest : Bytes) :
    decode (encode v ++ rest) = .ok v
    ∧ value (encode v ++ rest).length ⟨encode v ++ rest, 0⟩
      = .ok (v, ⟨encode v ++ rest, (encode v).length⟩) := by
  -- What follows only makes the input longer, so there is more depth than is needed.
  have enough : (encode v).length ≤ (encode v ++ rest).length := by simp
  have reads := reads_encode plain _ enough fits
  exact ⟨reads.parse_append fits rest, reads.front fits rest⟩

/-- A map inside an array is read back in front of other bytes. -/
theorem msgpack_round_trip_nested :
    decode (encode (.array [.map [(-1, .bin [7])], .nil]) ++ [0xc1]) = .ok
      (.array [.map [(-1, .bin [7])], .nil]) := by
  have entry : (Value.map [(-1, .bin [7])]).Plain := by
    apply Value.Plain.map
    · simp [InI64]
    · simp [Value.Plain.bin]
    · simp
  have plain : (Value.array [.map [(-1, .bin [7])], .nil]).Plain := by
    apply Value.Plain.array
    simp [entry, Value.Plain.nil]
  exact (msgpack_round_trip plain (by decide) [0xc1]).1

theorem inI64_signed {bits v : Nat} (positive : 0 < bits) (narrow : bits ≤ 64)
    (fits : v < 2 ^ bits) : InI64 (signed bits v) := by
  obtain ⟨bits, rfl⟩ : ∃ k, bits = k + 1 := ⟨bits - 1, by omega⟩
  have double : (2 : Int) ^ (bits + 1) = 2 * 2 ^ bits := by rw [pow_succ]; ring
  have wide : (2 : Int) ^ bits ≤ 2 ^ 63 := pow_le_pow_right₀ (by decide) (by omega)
  have below : (v : Int) < 2 ^ (bits + 1) := by exact_mod_cast fits
  rw [signed, Nat.add_sub_cancel, InI64]
  split_ifs with lower
  · have small : (v : Int) < 2 ^ bits := by exact_mod_cast lower
    omega
  · have large : (2 : Int) ^ bits ≤ v := by exact_mod_cast Nat.le_of_not_lt lower
    omega

theorem inI64_natCast {v : Nat} (fits : v < 2 ^ 63) : InI64 v := by
  rw [InI64]
  omega

theorem yields_u8AsUsize : Yields (· < 256) u8AsUsize :=
  Yields.bind (P := fun _ => True) (fun _ _ _ _ => trivial) fun byte _ => Yields.pure byte.toNat_lt

theorem yields_be (n : Nat) : Yields (· < 256 ^ n) (be n) :=
  (Yields.take unexpectedEnd n).bind fun digits short =>
    Yields.pure ((beNat_lt digits).trans_le (Nat.pow_le_pow_right (by decide) short))

theorem mem_insertKey {v : Value} {e : Int × Value} (there : e ∈ insertKey k v m) :
    e = (k, v) ∨ e ∈ m := by
  induction m with
  | nil => exact .inl (List.mem_singleton.mp there)
  | cons first rest ih =>
    rw [insertKey] at there
    split_ifs at there with before same
    · exact (List.mem_cons.mp there).imp id id
    · exact (List.mem_cons.mp there).imp id (List.mem_cons_of_mem first)
    · rcases List.mem_cons.mp there with rfl | later
      · exact .inr List.mem_cons_self
      · exact (ih later).imp id (List.mem_cons_of_mem first)

theorem pairwise_insertKey {v : Value} (ascending : m.Pairwise fun e f => e.1 < f.1) :
    (insertKey k v m).Pairwise fun e f => e.1 < f.1 := by
  induction m with
  | nil => exact List.pairwise_singleton _ _
  | cons first rest ih =>
    obtain ⟨least, tail⟩ := List.pairwise_cons.mp ascending
    rw [insertKey]
    split_ifs with before same
    · refine List.pairwise_cons.mpr ⟨fun e there => ?_, ascending⟩
      rcases List.mem_cons.mp there with rfl | later
      · exact before
      · exact before.trans (least e later)
    · subst same
      exact List.pairwise_cons.mpr ⟨least, tail⟩
    · refine List.pairwise_cons.mpr ⟨fun e there => ?_, ih tail⟩
      rcases mem_insertKey there with rfl | later
      · exact lt_of_le_of_ne (not_lt.mp before) (Ne.symm same)
      · exact least e later

theorem plain_insertKey {v : Value} (key : InI64 k) (plain : v.Plain)
    (fields : (Value.map m).Plain) : (Value.map (insertKey k v m)).Plain := by
  cases fields with
  | map keys each ascending =>
    refine .map (fun e there => ?_) (fun e there => ?_) (pairwise_insertKey ascending)
    · rcases mem_insertKey there with rfl | old
      · exact key
      · exact keys e old
    · rcases mem_insertKey there with rfl | old
      · exact plain
      · exact each e old

/-- A value with no other value inside it. -/
def Leaf : Value → Prop
  | .array _ | .map _ | .strMap _ => False
  | _ => True

section Closed

variable {P : Nat → Value → Prop} {depth : Nat}

theorem yields_mapEntries {value : Read Value}
    (yields : Yields (fun v => v.Plain ∧ P depth v) value) (n : Nat) :
    ∀ m : Fields, (Value.map m).Plain → (∀ e ∈ m, P depth e.2) →
      Yields (fun m => (Value.map m).Plain ∧ ∀ e ∈ m, P depth e.2) (mapEntries value n m) := by
  induction n with
  | zero =>
    intro m plain each
    exact Yields.pure ⟨plain, each⟩
  | succ n ih =>
    intro m plain each
    refine yields.bind fun key isKey => ?_
    cases isKey.1 with
    | int range =>
      refine yields.bind fun v isValue => ih _ (plain_insertKey range isValue.1 plain) ?_
      intro e there
      rcases mem_insertKey there with rfl | old
      · exact isValue.2
      · exact each e old
    | nil | bool | f64 | str | bin | array | map => exact Yields.fail _

theorem yields_binN (n : Nat) : Yields (fun v => v.Plain ∧ Leaf v) (binN n) :=
  (Yields.take unexpectedEnd n).bind fun piece _ => Yields.pure ⟨.bin piece, trivial⟩

theorem yields_strN (n : Nat) : Yields (fun v => v.Plain ∧ Leaf v) (strN n) :=
  (Yields.take unexpectedEnd n).bind fun piece _ =>
    Yields.pure ⟨.str (utf8Lossy piece), trivial⟩

variable (leaf : ∀ {n : Nat} {v : Value}, Leaf v → P (n + 1) v)
  (arrays : ∀ {n : Nat} {a : List Value}, (∀ v ∈ a, P n v) → P (n + 1) (.array a))
  (maps : ∀ {n : Nat} {m : Fields}, (∀ e ∈ m, P n e.2) → P (n + 1) (.map m))
include leaf arrays maps

/--
Everything the decoder yields is a value a program can hold, and has every property of values
that passes from the elements to the whole.
-/
theorem yields_value_of (depth : Nat) : Yields (fun v => v.Plain ∧ P depth v) (value depth) := by
  induction depth with
  | zero => exact Yields.fail _
  | succ depth ih =>
    refine Yields.bind (P := fun _ => True) (fun _ _ _ _ => trivial) fun c _ => ?_
    have byte := c.toNat_lt
    have atom {v : Value} (plain : v.Plain) (inside : Leaf v) :
        Yields (fun v => v.Plain ∧ P (depth + 1) v) (pure v) := Yields.pure ⟨plain, leaf inside⟩
    have string (n : Nat) : Yields (fun v => v.Plain ∧ P (depth + 1) v) (strN n) :=
      (yields_strN n).imp fun v is => ⟨is.1, leaf is.2⟩
    have binary (n : Nat) : Yields (fun v => v.Plain ∧ P (depth + 1) v) (binN n) :=
      (yields_binN n).imp fun v is => ⟨is.1, leaf is.2⟩
    have array (n : Nat) : Yields (fun v => v.Plain ∧ P (depth + 1) v) (array (value depth) n) :=
      ((ih.times n).bind fun a each => Yields.pure
        ⟨.array fun v there => (each v there).1, arrays fun v there => (each v there).2⟩).atLeast _ n
    have map (n : Nat) : Yields (fun v => v.Plain ∧ P (depth + 1) v) (map (value depth) n) :=
      (yields_mapEntries ih n [] (.map nofun nofun .nil) nofun).bind fun m is =>
        Yields.pure ⟨is.1, maps is.2⟩
    -- One case for each marker, in the decoder's order.
    refine .ite (atom (.int (inI64_natCast (by omega))) trivial) ?_
    refine .ite (atom (.int (inI64_signed (by decide) (by decide) byte)) trivial) ?_
    refine .ite (map _) ?_
    refine .ite (array _) ?_
    refine .ite (string _) ?_
    refine .ite (atom .nil trivial) ?_
    refine .ite (atom (.bool false) trivial) ?_
    refine .ite (atom (.bool true) trivial) ?_
    refine .ite (yields_u8AsUsize.bind fun n _ => binary n) ?_
    refine .ite ((yields_be 2).bind fun n _ => binary n) ?_
    refine .ite ((yields_be 4).bind fun n _ => binary n) ?_
    refine .ite ((Yields.take unexpectedEnd 4).bind fun b _ => atom (.f64 _) trivial) ?_
    refine .ite ((Yields.take unexpectedEnd 8).bind fun b _ => atom (.f64 _) trivial) ?_
    refine .ite (yields_u8AsUsize.bind fun n small =>
      atom (.int (inI64_natCast (by omega))) trivial) ?_
    refine .ite ((yields_be 2).bind fun n small =>
      atom (.int (inI64_natCast (by omega))) trivial) ?_
    refine .ite ((yields_be 4).bind fun n small =>
      atom (.int (inI64_natCast (by omega))) trivial) ?_
    refine .ite ((yields_be 8).bind fun n small =>
      atom (.int (inI64_signed (by decide) (by decide) small)) trivial) ?_
    refine .ite (yields_u8AsUsize.bind fun n small =>
      atom (.int (inI64_signed (by decide) (by decide) small)) trivial) ?_
    refine .ite ((yields_be 2).bind fun n small =>
      atom (.int (inI64_signed (by decide) (by decide) small)) trivial) ?_
    refine .ite ((yields_be 4).bind fun n small =>
      atom (.int (inI64_signed (by decide) (by decide) small)) trivial) ?_
    refine .ite ((yields_be 8).bind fun n small =>
      atom (.int (inI64_signed (by decide) (by decide) small)) trivial) ?_
    refine .ite (yields_u8AsUsize.bind fun n _ => string n) ?_
    refine .ite ((yields_be 2).bind fun n _ => string n) ?_
    refine .ite ((yields_be 4).bind fun n _ => string n) ?_
    refine .ite ((yields_be 2).bind fun n _ => array n) ?_
    refine .ite ((yields_be 4).bind fun n _ => array n) ?_
    refine .ite ((yields_be 2).bind fun n _ => map n) ?_
    refine .ite ((yields_be 4).bind fun n _ => map n) ?_
    exact Yields.fail _

end Closed

theorem yields_value (depth : Nat) : Yields Value.Plain (value depth) :=
  (yields_value_of (P := fun _ _ => True) (fun _ => trivial) (fun _ => trivial)
    (fun _ => trivial) depth).imp fun _ is => is.1

theorem yields_of_decode {P : Value → Prop} {data : Bytes} {v : Value}
    (yields : Yields P (value data.length)) (decoded : decode data = .ok v) : P v := by
  rw [decode, Cursor.parse] at decoded
  split at decoded
  case h_1 found c read =>
    cases decoded
    exact yields _ _ _ read
  case h_2 => cases decoded

theorem plain_of_decode {data : Bytes} {v : Value} (decoded : decode data = .ok v) : v.Plain :=
  yields_of_decode (yields_value data.length) decoded

end Msgpack

end LxmfChat
