import LxmfChat.Base.Slots
import LxmfChat.Reticulum.Resource.Wire

/-! The receiving half of a resource transfer: windowed requests and hashmap paging. -/

namespace LxmfChat

open Base

/--
State of an in-progress resource download.

Map-hashes and parts are two columns of one table, so they have the same length.
-/
structure ResourceReceiver where
  hash : FullHash
  randomHash : Bytes
  mapHashes : List (Option MapHash)
  hashmapHeight : Nat
  parts : List (Option Bytes)
  received : Nat
  consecutive : Nat
  window : Nat
  outstanding : Nat
  waitingForHmu : Bool
  encrypted : Bool
  compressed : Bool
  sized : mapHashes.length = parts.length
deriving DecidableEq

/-- The key of a part: the first four bytes of the hash of the part and the resource's salt. -/
def partMapHash (crypto : Crypto) (salt part : Bytes) : MapHash :=
  BytesN.ofBytes 4 (fullHash crypto (part ++ salt)).val

namespace ResourceReceiver

def inAdv (adv : Advertisement) : Nat := min (adv.hashmap.length / MAPHASH_LEN) adv.parts

def initial (adv : Advertisement) : ResourceReceiver where
  hash := adv.hash
  randomHash := adv.randomHash
  mapHashes := ((quads adv.hashmap).take (inAdv adv)).map some
    ++ List.replicate (adv.parts - inAdv adv) none
  hashmapHeight := inAdv adv
  parts := List.replicate adv.parts none
  received := 0
  consecutive := 0
  window := WINDOW_START
  outstanding := 0
  waitingForHmu := false
  encrypted := adv.encrypted
  compressed := adv.compressed
  sized := by
    simp only [List.length_append, List.length_map, List.length_take, List.length_replicate,
      quads_length, inAdv, MAPHASH_LEN]
    omega

def ofAdvertisement (adv : Advertisement) : Except Fault ResourceReceiver :=
  if 1 < adv.totalSegments then .error (.err "multi-segment resource not supported")
  else if adv.parts = 0 then .error (.err "resource advertisement has no parts")
  else if MAX_TRANSFER_BYTES / RESOURCE_SDU + 1 < adv.parts then
    .error (.err "resource too large")
  else if inAdv adv = 0 then .error (.err "resource advertisement hashmap empty")
  else .ok (initial adv)

def accept (advPlaintext : Bytes) : Except Fault ResourceReceiver := do
  ofAdvertisement (← parseAdvertisement advPlaintext)

def part (rx : ResourceReceiver) (i : Nat) : Option Bytes := slot rx.parts i

def mapHash (rx : ResourceReceiver) (i : Nat) : Option MapHash := slot rx.mapHashes i

def isComplete (rx : ResourceReceiver) : Bool := rx.received == rx.parts.length

def windowIndices (rx : ResourceReceiver) : List Nat :=
  List.range' rx.consecutive
    (min (rx.consecutive + rx.window) rx.parts.length - rx.consecutive)

/--
Collect the map-hashes of the missing parts at these indices.

The walk stops at the first missing part whose map-hash is unknown.
The flag says whether it met one.
-/
def collectRequested (rx : ResourceReceiver) : List Nat → List MapHash × Bool
  | [] => ([], false)
  | i :: rest =>
    if (rx.part i).isSome then rx.collectRequested rest
    else
      match rx.mapHash i with
      | some h =>
        let (requested, exhausted) := rx.collectRequested rest
        (h :: requested, exhausted)
      | none => ([], true)

def nextRequest (rx : ResourceReceiver) : Except Fault (Option Bytes × ResourceReceiver) :=
  if rx.isComplete || rx.waitingForHmu then .ok (none, rx)
  else
    let (requested, exhausted) := rx.collectRequested rx.windowIndices
    let rx := { rx with outstanding := requested.length }
    if requested.isEmpty && !exhausted then .ok (none, rx)
    else if exhausted then
      match rx.mapHashes[rx.hashmapHeight - 1]? with
      | some (some last) =>
        .ok (some (HASHMAP_EXHAUSTED :: (last.val ++ rx.hash.val ++ requested.flatMap (·.val))),
          { rx with waitingForHmu := true })
      | some none => .error (.panic "known prefix")
      | none => .error (.panic "index out of bounds")
    else
      .ok (some (HASHMAP_NOT_EXHAUSTED :: (rx.hash.val ++ requested.flatMap (·.val))), rx)

/--
Fill unknown map-hashes from an index on, counting those filled.

The walk ends at the table's end, long before the index could leave a machine word.
-/
def fillPage : Nat → List MapHash → List (Option MapHash) × Nat → List (Option MapHash) × Nat
  | _, [], table => table
  | i, chunk :: rest, (hashes, height) =>
    if hashes.length ≤ i then (hashes, height)
    else if slot hashes i = none then
      fillPage (i + 1) rest (hashes.set i (some chunk), height + 1)
    else fillPage (i + 1) rest (hashes, height)

@[simp] theorem fillPage_length (i : Nat) (page : List MapHash)
    (table : List (Option MapHash) × Nat) :
    (fillPage i page table).1.length = table.1.length := by
  induction page generalizing i table with
  | nil => rfl
  | cons chunk rest ih =>
    simp only [fillPage]
    split_ifs
    · rfl
    · rw [ih, List.length_set]
    · rw [ih]

def applyPage (rx : ResourceReceiver) (page : Nat) (bytes : Bytes) : ResourceReceiver :=
  let base := page * HASHMAP_MAX_LEN % wordSize
  let table := fillPage base (quads bytes) (rx.mapHashes, rx.hashmapHeight)
  { rx with
    mapHashes := table.1
    hashmapHeight := table.2
    waitingForHmu := false
    sized := by rw [fillPage_length]; exact rx.sized }

/-- Ingest a hashmap update: the resource hash, then the page number and its map-hashes. -/
def receiveHashmapUpdate (rx : ResourceReceiver) (plaintext : Bytes) :
    Except Fault ResourceReceiver :=
  if plaintext.length < 32 ∨ plaintext.take 32 ≠ rx.hash.val then
    .error (.err "hashmap update for a different resource")
  else do
    let (page, bytes) ← parseHashmapUpdate (plaintext.drop 32)
    return rx.applyPage page bytes

/-- How many parts have arrived without a gap, counted on from a part already reached. -/
def advance (parts : List (Option Bytes)) (consecutive : Nat) : Nat :=
  consecutive + leading (parts.drop consecutive)

def storePart (rx : ResourceReceiver) (i : Nat) (data : Bytes) : ResourceReceiver :=
  { rx with
    parts := rx.parts.set i (some data)
    received := rx.received + 1
    outstanding := rx.outstanding - 1
    consecutive := advance (rx.parts.set i (some data)) rx.consecutive
    sized := by rw [List.length_set]; exact rx.sized }

/--
Ingest a raw part, matched by its map-hash within the current window.

True once the current window is fully received, which is the time to send the next request.
-/
def receivePart (crypto : Crypto) (rx : ResourceReceiver) (partData : Bytes) :
    Bool × ResourceReceiver :=
  let h := partMapHash crypto rx.randomHash partData
  match rx.windowIndices.find? (fun i => rx.mapHash i = some h ∧ rx.part i = none) with
  | some i =>
    let rx := rx.storePart i partData
    if rx.outstanding = 0 then (true, { rx with window := min (rx.window + 1) WINDOW_MAX })
    else (false, rx)
  | none => (false, rx)

def concat (rx : ResourceReceiver) : Bytes := rx.parts.flatMap (·.getD [])

def decompressBz2 (bz2Read : Nat → Bytes → Option Bytes) (data : Bytes) : Except String Bytes :=
  match bz2Read (DECOMPRESSED_MAX + 1) data with
  | some out =>
    if DECOMPRESSED_MAX < out.length then .error "decompressed resource too large" else .ok out
  | none => .error "resource bz2 decompression failed"

/-- Strip the random prefix, decompress, check the resource hash, and build the proof. -/
def finish (crypto : Crypto) (bz2Read : Nat → Bytes → Option Bytes) (rx : ResourceReceiver)
    (streamPlaintext : Bytes) : Except String (Bytes × Bytes) := do
  if streamPlaintext.length < RANDOM_HASH_SIZE then
    .error "resource stream shorter than random prefix"
  else
    let payload ←
      if rx.compressed then decompressBz2 bz2Read (streamPlaintext.drop RANDOM_HASH_SIZE)
      else .ok (streamPlaintext.drop RANDOM_HASH_SIZE)
    if fullHash crypto (payload ++ rx.randomHash) ≠ rx.hash then
      .error "resource hash mismatch"
    else
      return (payload, rx.hash.val ++ (fullHash crypto (payload ++ rx.hash.val)).val)

end ResourceReceiver

end LxmfChat
