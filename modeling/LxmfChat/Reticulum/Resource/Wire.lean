import LxmfChat.Base.Cursor
import LxmfChat.Reticulum.Crypto

/-! The minimal umsgpack reader and writer behind resource advertisements and hashmap updates. -/

namespace LxmfChat

open Base

def MAX_TRANSFER_BYTES : Nat := 256 * 1024

def RESOURCE_SDU : Nat := 464

def MAPHASH_LEN : Nat := 4

def RANDOM_HASH_SIZE : Nat := 4

def HASHMAP_NOT_EXHAUSTED : UInt8 := 0x00

def HASHMAP_EXHAUSTED : UInt8 := 0xff

def HASHMAP_MAX_LEN : Nat := 74

def WINDOW_START : Nat := 4

def WINDOW_MAX : Nat := 75

def DECOMPRESSED_MAX : Nat := 256 * 1024

abbrev MapHash := BytesN 4

namespace Reader

def u8 : Read UInt8 := Cursor.get "msgpack truncated"

def u8AsUsize : Read Nat := do
  return (← u8).toNat

def take (n : Nat) : Read Bytes := Cursor.take "msgpack truncated" n

def be (n : Nat) : Read Nat := do
  return beNat (← take n)

def mapLen : Read Nat := do
  let m ← u8
  if 0x80 ≤ m ∧ m ≤ 0x8f then return (m &&& 0x0f).toNat
  else if m = 0xde then be 2
  else if m = 0xdf then be 4
  else Cursor.fail "expected msgpack map"

def arrayLen : Read Nat := do
  let m ← u8
  if 0x90 ≤ m ∧ m ≤ 0x9f then return (m &&& 0x0f).toNat
  else if m = 0xdc then be 2
  else if m = 0xdd then be 4
  else Cursor.fail "expected msgpack array"

def strKey : Read Bytes := do
  let m ← u8
  let len ←
    if 0xa0 ≤ m ∧ m ≤ 0xbf then pure (m &&& 0x1f).toNat
    else if m = 0xd9 then u8AsUsize
    else if m = 0xda then be 2
    else if m = 0xdb then be 4
    else Cursor.fail "expected msgpack string key"
  take len

/-- A binary value, also when it is encoded as a short string. -/
def bin : Read Bytes := do
  let m ← u8
  let len ←
    if m = 0xc4 then u8AsUsize
    else if m = 0xc5 then be 2
    else if m = 0xc6 then be 4
    else if 0xa0 ≤ m ∧ m ≤ 0xbf then pure (m &&& 0x1f).toNat
    else Cursor.fail "expected msgpack bin"
  take len

/-- An unsigned integer, small negatives read as zero. -/
def uint : Read Nat := do
  let m ← u8
  if m ≤ 0x7f then return m.toNat
  else if m = 0xcc then u8AsUsize
  else if m = 0xcd then be 2
  else if m = 0xce then be 4
  else if m = 0xcf then be 8
  else if 0xe0 ≤ m then return 0
  else Cursor.fail "expected msgpack uint"

def skipValue : Read Unit := do
  let m ← u8
  if m ≤ 0x7f ∨ 0xe0 ≤ m ∨ m = 0xc0 ∨ m = 0xc2 ∨ m = 0xc3 then return ()
  else if m = 0xcc ∨ m = 0xd0 then do let _ ← u8
  else if m = 0xcd ∨ m = 0xd1 then do let _ ← be 2
  else if m = 0xce ∨ m = 0xd2 then do let _ ← be 4
  else if m = 0xcf ∨ m = 0xd3 then do let _ ← be 8
  else if m = 0xca then do let _ ← take 4
  else if m = 0xcb then do let _ ← take 8
  else if 0xa0 ≤ m ∧ m ≤ 0xbf then do let _ ← take (m &&& 0x1f).toNat
  else if m = 0xd9 then do let _ ← take (← u8AsUsize)
  else if m = 0xda then do let _ ← take (← be 2)
  else if m = 0xdb then do let _ ← take (← be 4)
  else if m = 0xc4 then do let _ ← take (← u8AsUsize)
  else if m = 0xc5 then do let _ ← take (← be 2)
  else if m = 0xc6 then do let _ ← take (← be 4)
  else Cursor.fail "unsupported msgpack value in advertisement"

end Reader

/-- The fields of an advertisement the receiver needs. -/
structure Advertisement where
  hash : FullHash
  randomHash : Bytes
  parts : Nat
  hashmap : Bytes
  totalSegments : Nat
  compressed : Bool
  encrypted : Bool
deriving DecidableEq

structure AdvFields where
  hash : Option Bytes := none
  randomHash : Option Bytes := none
  hashmap : Option Bytes := none
  parts : Option Nat := none
  totalSegments : Nat := 1
  flags : Nat := 0

def AdvFields.readEntry (fields : AdvFields) : Read AdvFields := do
  let key ← Reader.strKey
  if key = [0x68] then return { fields with hash := some (← Reader.bin) }
  else if key = [0x72] then return { fields with randomHash := some (← Reader.bin) }
  else if key = [0x6d] then return { fields with hashmap := some (← Reader.bin) }
  else if key = [0x6e] then return { fields with parts := some (← Reader.uint) }
  else if key = [0x6c] then return { fields with totalSegments := ← Reader.uint }
  else if key = [0x66] then return { fields with flags := ← Reader.uint }
  else do
    -- t, d, o, i and q are present but unused here.
    Reader.skipValue
    return fields

def AdvFields.readEntries : Nat → AdvFields → Read AdvFields
  | 0, fields => pure fields
  | n + 1, fields => do readEntries n (← fields.readEntry)

def okOr {α : Type} (field : Option α) (message : String) : Except Fault α :=
  match field with
  | some value => .ok value
  | none => .error (.err message)

/-- The advertisement its collected fields make, the part count cut to a machine word. -/
def AdvFields.toAdvertisement (fields : AdvFields) : Except Fault Advertisement := do
  let hash ← okOr fields.hash "advertisement missing hash"
  if hash.length ≠ 32 then .error (.err "advertisement hash wrong length")
  else
    let randomHash ← okOr fields.randomHash "advertisement missing random hash"
    let parts ← okOr fields.parts "advertisement missing part count"
    let hashmap ← okOr fields.hashmap "advertisement missing hashmap"
    return {
      hash := BytesN.ofBytes 32 hash
      randomHash := randomHash
      parts := parts % wordSize
      hashmap := hashmap
      totalSegments := fields.totalSegments
      encrypted := (fields.flags &&& 0x01) == 0x01
      compressed := ((fields.flags >>> 1) &&& 0x01) == 0x01 }

def parseAdvertisement (data : Bytes) : Except Fault Advertisement := do
  let fields ← Cursor.parse (do AdvFields.readEntries (← Reader.mapLen) {}) data
  fields.toAdvertisement

/-- The page number, cut to a machine word, and the map-hash bytes of a hashmap update. -/
def readHashmapUpdate : Read (Nat × Bytes) := do
  let n ← Reader.arrayLen
  if n < 2 then Cursor.fail "hashmap update too short"
  else
    let page ← Reader.uint
    let bytes ← Reader.bin
    return (page % wordSize, bytes)

def parseHashmapUpdate (data : Bytes) : Except Fault (Nat × Bytes) :=
  Cursor.parse readHashmapUpdate data

def advUint (v : Nat) : Bytes :=
  if v < 128 then [UInt8.ofNat v]
  else if v ≤ 255 then [0xcc, UInt8.ofNat v]
  else if v ≤ 65535 then 0xcd :: beBytes 2 v
  else 0xce :: beBytes 4 v

def advBin (b : Bytes) : Bytes :=
  if b.length ≤ 255 then 0xc4 :: UInt8.ofNat b.length :: b
  else 0xc5 :: (beBytes 2 b.length ++ b)

def advKey (k : UInt8) : Bytes := [0xa1, k]

end LxmfChat
