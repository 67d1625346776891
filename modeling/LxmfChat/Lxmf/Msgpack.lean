import LxmfChat.Base.Cursor
import LxmfChat.Base.Double
import LxmfChat.Base.Text

/-! The MessagePack codec of the message library, with the types its messages use. -/

namespace LxmfChat

open Base

inductive Value
  | nil
  | bool (b : Bool)
  | int (n : Int)
  | f64 (f : Double)
  | str (s : Text)
  | bin (b : Bytes)
  | array (a : List Value)
  /-- Integer keys, in ascending order and each once. -/
  | map (m : List (Int × Value))
  /-- String keys, in the author's order; the decoder never produces one. -/
  | strMap (m : List (Text × Value))

abbrev Fields := List (Int × Value)

namespace Msgpack

def wrap (bits : Nat) (n : Int) : Nat := (n % 2 ^ bits).toNat

def signed (bits v : Nat) : Int := if v < 2 ^ (bits - 1) then v else v - 2 ^ bits

def writeU (n : Nat) : Bytes :=
  if n < 0x80 then [UInt8.ofNat n]
  else if n ≤ 0xff then [0xcc, UInt8.ofNat n]
  else if n ≤ 0xffff then 0xcd :: beBytes 2 n
  else if n ≤ 0xffffffff then 0xce :: beBytes 4 n
  else 0xcf :: beBytes 8 n

def writeI (n : Int) : Bytes :=
  if 0 ≤ n then writeU n.toNat
  else if -32 ≤ n then [UInt8.ofNat (wrap 8 n)]
  else if -128 ≤ n then [0xd0, UInt8.ofNat (wrap 8 n)]
  else if -32768 ≤ n then 0xd1 :: beBytes 2 (wrap 16 n)
  else if -2147483648 ≤ n then 0xd2 :: beBytes 4 (wrap 32 n)
  else 0xd3 :: beBytes 8 (wrap 64 n)

def strHead (n : Nat) : Bytes :=
  if n < 32 then [0xa0 ||| UInt8.ofNat n]
  else if n ≤ 0xff then [0xd9, UInt8.ofNat n]
  else if n ≤ 0xffff then 0xda :: beBytes 2 n
  else 0xdb :: beBytes 4 n

def binHead (n : Nat) : Bytes :=
  if n ≤ 0xff then [0xc4, UInt8.ofNat n]
  else if n ≤ 0xffff then 0xc5 :: beBytes 2 n
  else 0xc6 :: beBytes 4 n

/-- The head of an array or a map: a marker with a small count in it, or a longer form. -/
def countHead (fixed short long : UInt8) (n : Nat) : Bytes :=
  if n < 16 then [fixed ||| UInt8.ofNat n]
  else if n ≤ 0xffff then short :: beBytes 2 n
  else long :: beBytes 4 n

def arrayHead : Nat → Bytes := countHead 0x90 0xdc 0xdd

def mapHead : Nat → Bytes := countHead 0x80 0xde 0xdf

def writeStr (s : Text) : Bytes := strHead (utf8Encode s).length ++ utf8Encode s

def encode : Value → Bytes
  | .nil => [0xc0]
  | .bool b => [if b then 0xc3 else 0xc2]
  | .int n => writeI n
  | .f64 f => 0xcb :: f.val
  | .str s => writeStr s
  | .bin b => binHead b.length ++ b
  | .array a => arrayHead a.length ++ items a
  | .map m => mapHead m.length ++ entries m
  | .strMap m => mapHead m.length ++ strEntries m
where
  items : List Value → Bytes
    | [] => []
    | v :: rest => encode v ++ items rest
  entries : List (Int × Value) → Bytes
    | [] => []
    | (k, v) :: rest => writeI k ++ encode v ++ entries rest
  strEntries : List (Text × Value) → Bytes
    | [] => []
    | (k, v) :: rest => writeStr k ++ encode v ++ strEntries rest

def unexpectedEnd : String := "unexpected end of msgpack input"

def take (n : Nat) : Read Bytes := Cursor.take unexpectedEnd n

def u8 : Read UInt8 := do
  match ← take 1 with
  | byte :: _ => return byte
  | [] => Cursor.crash "index out of bounds"

def u8AsUsize : Read Nat := do
  return (← u8).toNat

def be (n : Nat) : Read Nat := do
  return beNat (← take n)

def strN (n : Nat) : Read Value := do
  return .str (utf8Lossy (← take n))

def binN (n : Nat) : Read Value := do
  return .bin (← take n)

/-- An array of the given length; a length that cannot fit the input is refused at once. -/
def array (value : Read Value) (n : Nat) : Read Value :=
  Cursor.atLeast "msgpack array length exceeds remaining input" n do
    return .array (← Cursor.times value n)

/-- Put a value under a key, in the place the order of the keys gives it. -/
def insertKey (k : Int) (v : Value) : Fields → Fields
  | [] => [(k, v)]
  | (k', v') :: rest =>
    if k < k' then (k, v) :: (k', v') :: rest
    else if k = k' then (k, v) :: rest
    else (k', v') :: insertKey k v rest

/-- The entries of a map, a later one replacing an earlier one of the same key. -/
def mapEntries (value : Read Value) : Nat → Fields → Read Fields
  | 0, m => pure m
  | n + 1, m => do
    match ← value with
    | .int k => mapEntries value n (insertKey k (← value) m)
    | _ => Cursor.fail "non-integer map key"

def map (value : Read Value) (n : Nat) : Read Value := do
  return .map (← mapEntries value n [])

/--
The next value, nested at most as deep as allowed.

A value nested as deep as the input is long has no byte left to start with, so the input's
length is depth enough.
-/
def value : Nat → Read Value
  | 0 => Cursor.fail unexpectedEnd
  | depth + 1 => do
    let c ← u8
    if c ≤ 0x7f then return .int c.toNat
    else if 0xe0 ≤ c then return .int (signed 8 c.toNat)
    else if c ≤ 0x8f then map (value depth) (c &&& 0x0f).toNat
    else if c ≤ 0x9f then array (value depth) (c &&& 0x0f).toNat
    else if c ≤ 0xbf then strN (c &&& 0x1f).toNat
    else if c = 0xc0 then return .nil
    else if c = 0xc2 then return .bool false
    else if c = 0xc3 then return .bool true
    else if c = 0xc4 then do binN (← u8AsUsize)
    else if c = 0xc5 then do binN (← be 2)
    else if c = 0xc6 then do binN (← be 4)
    else if c = 0xca then return .f64 (Double.widen (← take 4))
    else if c = 0xcb then return .f64 (BytesN.ofBytes 8 (← take 8))
    else if c = 0xcc then return .int (← u8AsUsize)
    else if c = 0xcd then return .int (← be 2)
    else if c = 0xce then return .int (← be 4)
    else if c = 0xcf then return .int (signed 64 (← be 8))
    else if c = 0xd0 then return .int (signed 8 (← u8AsUsize))
    else if c = 0xd1 then return .int (signed 16 (← be 2))
    else if c = 0xd2 then return .int (signed 32 (← be 4))
    else if c = 0xd3 then return .int (signed 64 (← be 8))
    else if c = 0xd9 then do strN (← u8AsUsize)
    else if c = 0xda then do strN (← be 2)
    else if c = 0xdb then do strN (← be 4)
    else if c = 0xdc then do array (value depth) (← be 2)
    else if c = 0xdd then do array (value depth) (← be 4)
    else if c = 0xde then do map (value depth) (← be 2)
    else if c = 0xdf then do map (value depth) (← be 4)
    else Cursor.fail "unsupported msgpack type"

def decode (data : Bytes) : Except Fault Value := Cursor.parse (value data.length) data

theorem reads_u8 (byte : UInt8) : Reads u8 [byte] byte := by
  have whole := (Reads.take unexpectedEnd [byte]).bind (f := fun piece =>
    match piece with
    | byte :: _ => pure byte
    | [] => Cursor.crash "index out of bounds") (Reads.pure byte)
  exact whole

theorem reads_u8AsUsize {v : Nat} (small : v < 256) : Reads u8AsUsize [UInt8.ofNat v] v := by
  have byte := (reads_u8 (UInt8.ofNat v)).map UInt8.toNat
  rwa [toNat_ofNat_of_lt small] at byte

theorem reads_bin (depth : Nat) {b : Bytes} (fits : b.length < wordSize) :
    Reads (value (depth + 1)) (encode (.bin b)) (.bin b) := by
  have body : Reads (binN b.length) b (.bin b) := (Reads.take unexpectedEnd b).map Value.bin
  rw [encode, binHead]
  -- Each width of the length has its own marker, so the cases follow the writer's.
  split_ifs with short middle
  · exact (reads_u8 0xc4).bind ((reads_u8AsUsize (by omega)).bind body)
  · exact (reads_u8 0xc5).bind ((Reads.beBytes _ (by omega)).bind body)
  · exact (reads_u8 0xc6).bind ((Reads.beBytes _ fits).bind body)

theorem reads_f64 (depth : Nat) (f : Double) :
    Reads (value (depth + 1)) (encode (.f64 f)) (.f64 f) := by
  have body := (Reads.take unexpectedEnd f.val).map fun b => Value.f64 (BytesN.ofBytes 8 b)
  rw [BytesN.length_val, BytesN.ofBytes_self] at body
  exact (reads_u8 0xcb).bind body

private theorem fixarray_marker : ∀ {n : Nat}, n < 16 →
    ¬ (0x90 ||| UInt8.ofNat n : UInt8) ≤ 0x7f ∧ ¬ 0xe0 ≤ (0x90 ||| UInt8.ofNat n : UInt8)
      ∧ ¬ (0x90 ||| UInt8.ofNat n : UInt8) ≤ 0x8f ∧ (0x90 ||| UInt8.ofNat n : UInt8) ≤ 0x9f
      ∧ ((0x90 ||| UInt8.ofNat n : UInt8) &&& 0x0f).toNat = n := by
  decide

theorem binHead_length_le (n : Nat) : (binHead n).length ≤ 5 := by
  rw [binHead]
  split_ifs <;> simp

theorem encode_length_pos (v : Value) : 0 < (encode v).length := by
  cases v with
  | int n =>
    rw [encode, writeI, writeU]
    split_ifs <;> simp
  | str s =>
    rw [encode, writeStr, strHead]
    split_ifs <;> simp
  | bin b =>
    rw [encode, binHead]
    split_ifs <;> simp
  | array a =>
    rw [encode, arrayHead, countHead]
    split_ifs <;> simp
  | map m =>
    rw [encode, mapHead, countHead]
    split_ifs <;> simp
  | strMap m =>
    rw [encode, mapHead, countHead]
    split_ifs <;> simp
  | nil | bool b | f64 f => simp [encode]

theorem items_eq_flatMap (a : List Value) : encode.items a = a.flatMap encode := by
  induction a with
  | nil => rfl
  | cons v rest ih => rw [encode.items, ih, List.flatMap_cons]

theorem length_le_items (a : List Value) : a.length ≤ (a.flatMap encode).length := by
  induction a with
  | nil => simp
  | cons v rest ih =>
    have positive := encode_length_pos v
    rw [List.flatMap_cons, List.length_append, List.length_cons]
    omega

theorem reads_array {depth : Nat} {a : List Value} (fits : a.length < wordSize)
    (each : ∀ v ∈ a, Reads (value depth) (encode v) v) :
    Reads (value (depth + 1)) (encode (.array a)) (.array a) := by
  have pairs : ∀ item ∈ a.map fun v => (encode v, v), Reads (value depth) item.1 item.2 := by
    intro item there
    obtain ⟨v, element, rfl⟩ := List.mem_map.mp there
    exact each v element
  have elements := Reads.times pairs
  simp only [List.length_map, List.flatMap_map, List.map_map] at elements
  have body : Reads (array (value depth) a.length) (a.flatMap encode) (.array a) := by
    have whole := elements.map Value.array
    simp only [Function.comp_def, List.map_id'] at whole
    exact whole.atLeast _ (length_le_items a)
  rw [encode, items_eq_flatMap, arrayHead, countHead]
  split_ifs with short middle
  · refine (reads_u8 _).bind ?_
    obtain ⟨fixint, negative, fixmap, fixarray, count⟩ := fixarray_marker short
    rw [if_neg fixint, if_neg negative, if_neg fixmap, if_pos fixarray, count]
    exact body
  · exact (reads_u8 0xdc).bind ((Reads.beBytes _ (by omega)).bind body)
  · exact (reads_u8 0xdd).bind ((Reads.beBytes _ fits).bind body)

end Msgpack

end LxmfChat
