import Mathlib.Data.List.GetD
import Mathlib.Tactic.IntervalCases
import LxmfChat.Base.Checked
import LxmfChat.Base.Sha256
import LxmfChat.Lxmf.Message

/-! The proof-of-work stamp: the vendored compression, the workblock and the search. -/

namespace LxmfChat

open Base

variable {expandRounds fuel : Nat} {found : UInt64}

def WORKBLOCK_EXPAND_ROUNDS_PN : Nat := 1000

def STAMP_SIZE : Nat := 32

namespace Stamp

def H0 : Vector UInt32 8 :=
  #v[0x6a09e667, 0xbb67ae85, 0x3c6ef372, 0xa54ff53a, 0x510e527f, 0x9b05688c, 0x1f83d9ab,
    0x5be0cd19]

def K : List UInt32 :=
  [0x428a2f98, 0x71374491, 0xb5c0fbcf, 0xe9b5dba5, 0x3956c25b, 0x59f111f1, 0x923f82a4, 0xab1c5ed5,
    0xd807aa98, 0x12835b01, 0x243185be, 0x550c7dc3, 0x72be5d74, 0x80deb1fe, 0x9bdc06a7, 0xc19bf174,
    0xe49b69c1, 0xefbe4786, 0x0fc19dc6, 0x240ca1cc, 0x2de92c6f, 0x4a7484aa, 0x5cb0a9dc, 0x76f988da,
    0x983e5152, 0xa831c66d, 0xb00327c8, 0xbf597fc7, 0xc6e00bf3, 0xd5a79147, 0x06ca6351, 0x14292967,
    0x27b70a85, 0x2e1b2138, 0x4d2c6dfc, 0x53380d13, 0x650a7354, 0x766a0abb, 0x81c2c92e, 0x92722c85,
    0xa2bfe8a1, 0xa81a664b, 0xc24b8b70, 0xc76c51a3, 0xd192e819, 0xd6990624, 0xf40e3585, 0x106aa070,
    0x19a4c116, 0x1e376c08, 0x2748774c, 0x34b0bcb5, 0x391c0cb3, 0x4ed8aa4a, 0x5b9cca4f, 0x682e6ff3,
    0x748f82ee, 0x78a5636f, 0x84c87814, 0x8cc70208, 0x90befffa, 0xa4506ceb, 0xbef9a3f7, 0xc67178f2]

def blockWord (block : BytesN 64) (i : Nat) : UInt32 :=
  UInt32.ofNat (beNat [block.val.getD (4 * i) 0, block.val.getD (4 * i + 1) 0,
    block.val.getD (4 * i + 2) 0, block.val.getD (4 * i + 3) 0])

def laterWord (w : List UInt32) (i : Nat) : UInt32 :=
  let s0 := Sha256.rotateRight (w.getD (i - 15) 0) 7 ^^^ Sha256.rotateRight (w.getD (i - 15) 0) 18
    ^^^ (w.getD (i - 15) 0 >>> 3)
  let s1 := Sha256.rotateRight (w.getD (i - 2) 0) 17 ^^^ Sha256.rotateRight (w.getD (i - 2) 0) 19
    ^^^ (w.getD (i - 2) 0 >>> 10)
  w.getD (i - 16) 0 + s0 + w.getD (i - 7) 0 + s1

def schedule (block : BytesN 64) : List UInt32 :=
  let w := (List.range 16).foldl (fun w i => w.set i (blockWord block i)) (List.replicate 64 0)
  (List.range' 16 48).foldl (fun w i => w.set i (laterWord w i)) w

def round (h : Vector UInt32 8) (k w : UInt32) : Vector UInt32 8 :=
  let s1 := Sha256.rotateRight h[4] 6 ^^^ Sha256.rotateRight h[4] 11 ^^^ Sha256.rotateRight h[4] 25
  let ch := (h[4] &&& h[5]) ^^^ (~~~h[4] &&& h[6])
  let t1 := h[7] + s1 + ch + k + w
  let s0 := Sha256.rotateRight h[0] 2 ^^^ Sha256.rotateRight h[0] 13 ^^^ Sha256.rotateRight h[0] 22
  let maj := (h[0] &&& h[1]) ^^^ (h[0] &&& h[2]) ^^^ (h[1] &&& h[2])
  let t2 := s0 + maj
  #v[t1 + t2, h[0], h[1], h[2], h[3] + t1, h[4], h[5], h[6]]

def compress (state : Vector UInt32 8) (block : BytesN 64) : Vector UInt32 8 :=
  let w := schedule block
  let h := (List.range 64).foldl (fun h i => round h (K.getD i 0) (w.getD i 0)) state
  Vector.zipWith (· + ·) state h

def leadingZeros (w : UInt32) : Nat := if w = 0 then 32 else 31 - w.toNat.log2

/-- The leading zeros of the words together: counting ends at the first that is not zero. -/
def digestLeadingZeros : List UInt32 → Nat
  | [] => 0
  | w :: rest => if w = 0 then 32 + digestLeadingZeros rest else leadingZeros w

def ofVector (v : Vector UInt32 8) : Sha256.State where
  a := v[0]
  b := v[1]
  c := v[2]
  d := v[3]
  e := v[4]
  f := v[5]
  g := v[6]
  h := v[7]

theorem ofVector_H0 : ofVector H0 = Sha256.initial := by decide +kernel

theorem K_eq : K = Sha256.constants := by decide +kernel

theorem foldl_set_range (f : Nat → UInt32) (total count : Nat) (inside : count ≤ total) :
    (List.range count).foldl (fun w i => w.set i (f i)) (List.replicate total 0)
      = (List.range count).map f ++ List.replicate (total - count) 0 := by
  induction count with
  | zero => simp
  | succ count ih =>
    -- The next place is the first of those still empty.
    have more : total - count = total - (count + 1) + 1 := by omega
    rw [List.range_succ, List.foldl_append, ih (by omega), more, List.replicate_succ]
    simp

theorem take_four {b : Bytes} {n : Nat} (inside : n + 3 < b.length) :
    (b.drop n).take 4
      = [b.getD n 0, b.getD (n + 1) 0, b.getD (n + 2) 0, b.getD (n + 3) 0] := by
  rw [List.drop_eq_getElem_cons (by omega), List.drop_eq_getElem_cons (by omega),
    List.drop_eq_getElem_cons (by omega), List.drop_eq_getElem_cons (by omega),
    List.getD_eq_getElem _ _ (by omega), List.getD_eq_getElem _ _ (by omega),
    List.getD_eq_getElem _ _ (by omega), List.getD_eq_getElem _ _ inside]
  rfl

theorem map_blockWord (block : BytesN 64) :
    (List.range 16).map (blockWord block) = Sha256.words block := by
  rw [Sha256.words, chunksExact, BytesN.length_val, List.map_map]
  apply List.map_congr_left
  intro i below
  have inside := List.mem_range.mp below
  have long : 4 * i + 3 < block.val.length := by
    rw [BytesN.length_val]
    omega
  rw [Function.comp_apply, BytesN.ofBytes_val_take (by rw [List.length_drop]; omega),
    Nat.mul_comm, take_four long]
  rfl

theorem laterWord_append {w : List UInt32} (enough : 16 ≤ w.length) (rest : List UInt32) :
    laterWord (w ++ rest) w.length = Sha256.nextWord w := by
  have front : ∀ k, 0 < k → k ≤ 16 → (w ++ rest).getD (w.length - k) 0
      = w.getD (w.length - k) 0 := by
    intro k positive small
    exact List.getD_append _ _ _ _ (by omega)
  simp only [laterWord, Sha256.nextWord, front 15 (by decide) (by decide),
    front 2 (by decide) (by decide), front 16 (by decide) (by decide),
    front 7 (by decide) (by decide)]
  -- The two differ in the order of the additions only.
  simp only [Sha256.smallSigma0, Sha256.smallSigma1]
  ac_rfl

theorem foldl_set_later {w : List UInt32} (start : w.length = 16) (count : Nat)
    (inside : count ≤ 48) :
    (List.range' 16 count).foldl (fun w i => w.set i (laterWord w i)) (w ++ List.replicate 48 0)
      = Sha256.extend w count ++ List.replicate (48 - count) 0 := by
  induction count with
  | zero => rfl
  | succ count ih =>
    have more : 48 - count = 48 - (count + 1) + 1 := by omega
    have place : 16 + count = (Sha256.extend w count).length := by
      rw [Sha256.length_extend, start]
    rw [List.range'_1_concat, List.foldl_append, ih (by omega), List.foldl_cons, List.foldl_nil,
      place, laterWord_append (by omega), more, List.replicate_succ, Sha256.extend]
    simp

theorem schedule_eq (block : BytesN 64) : schedule block = Sha256.schedule block := by
  have start : (Sha256.words block).length = 16 := by
    rw [← map_blockWord, List.length_map, List.length_range]
  rw [schedule, foldl_set_range _ _ _ (by decide), map_blockWord,
    foldl_set_later start 48 (Nat.le_refl _), Sha256.schedule]
  simp

theorem ofVector_round (h : Vector UInt32 8) (k w : UInt32) :
    ofVector (round h k w) = Sha256.round (ofVector h) (k, w) := rfl

theorem zip_eq_map_range {ks ws : List UInt32} {n : Nat} (left : ks.length = n)
    (right : ws.length = n) :
    ks.zip ws = (List.range n).map fun i => (ks.getD i 0, ws.getD i 0) := by
  apply List.ext_getElem
  · simp [left, right]
  · intro i inside inside'
    have below : i < n := by simpa using inside'
    simp [List.getD_eq_getElem?_getD, left, right, below]

theorem ofVector_rounds (state : Vector UInt32 8) (ks ws : List UInt32) (count : Nat) :
    ofVector ((List.range count).foldl (fun h i => round h (ks.getD i 0) (ws.getD i 0)) state)
      = (List.range count).foldl (fun s i => Sha256.round s (ks.getD i 0, ws.getD i 0))
          (ofVector state) := by
  induction count with
  | zero => rfl
  | succ count ih =>
    rw [List.range_succ, List.foldl_append, List.foldl_append, List.foldl_cons, List.foldl_nil,
      List.foldl_cons, List.foldl_nil, ofVector_round, ih]

theorem ofVector_zipWith (s t : Vector UInt32 8) :
    ofVector (Vector.zipWith (· + ·) s t) = (ofVector s).add (ofVector t) := by
  simp [ofVector, Sha256.State.add]

theorem ofVector_compress (state : Vector UInt32 8) (block : BytesN 64) :
    ofVector (compress state block) = Sha256.compress (ofVector state) block := by
  have count : Sha256.constants.length = 64 := by
    rw [Sha256.constants, List.length_map]
    rfl
  have words : (Sha256.words block).length = 16 := by
    rw [← map_blockWord, List.length_map, List.length_range]
  have width : (Sha256.schedule block).length = 64 := by
    rw [Sha256.schedule, Sha256.length_extend, words]
  unfold compress
  dsimp only
  rw [ofVector_zipWith, ofVector_rounds, schedule_eq, K_eq, Sha256.compress,
    zip_eq_map_range count width, List.foldl_map]

theorem ofVector_foldl (state : Vector UInt32 8) (bytes : Bytes) :
    ofVector ((chunksExact 64 bytes).foldl compress state)
      = Sha256.absorb (ofVector state) bytes := by
  rw [Sha256.absorb]
  generalize chunksExact 64 bytes = blocks
  induction blocks generalizing state with
  | nil => rfl
  | cons block rest ih => rw [List.foldl_cons, List.foldl_cons, ih, ofVector_compress]

theorem le_digestLeadingZeros_iff (count : Nat) (w : List UInt32) :
    count ≤ digestLeadingZeros w ↔ Sha256.ZeroBits count (Sha256.wordBytes w) := by
  induction w generalizing count with
  | nil => simp [digestLeadingZeros, Sha256.ZeroBits, Sha256.wordBytes, beNat]
  | cons x rest ih =>
    by_cases zero : x = 0
    · rw [zero, Sha256.zeroBits_zero_cons, ← ih, digestLeadingZeros, if_pos rfl]
      omega
    · rw [Sha256.zeroBits_cons count zero, digestLeadingZeros, if_neg zero, leadingZeros,
        if_neg zero]

variable (crypto : Crypto)

def expansion (material : Bytes) (n : Nat) : BytesN 256 :=
  let salt := fullHash crypto (material ++ Msgpack.encode (.int n))
  crypto.hkdf 256 material salt.val []

def stampWorkblock (material : Bytes) (expandRounds : Nat) : Bytes :=
  (List.range expandRounds).flatMap fun n => (expansion crypto material n).val

def midstate (material : Bytes) (expandRounds : Nat) : Vector UInt32 8 :=
  (List.range expandRounds).foldl
    (fun state n => (chunksExact 64 (expansion crypto material n).val).foldl compress state) H0

theorem length_counter (counter : UInt64) :
    (beBytes 8 counter.toNat ++ List.replicate 24 0).length = STAMP_SIZE := by
  simp [STAMP_SIZE]

def attempt (counter : UInt64) : BytesN STAMP_SIZE :=
  ⟨beBytes 8 counter.toNat ++ List.replicate 24 0, length_counter counter⟩

def bitLen (expandRounds : Nat) : Nat := (expandRounds * 256 + STAMP_SIZE) % wordSize * 8

theorem length_lastBlock (expandRounds : Nat) (counter : UInt64) :
    ((attempt counter).val
      ++ 0x80 :: (List.replicate 23 0 ++ beBytes 8 (bitLen expandRounds))).length = 64 := by
  simp [STAMP_SIZE]

def lastBlock (expandRounds : Nat) (counter : UInt64) : BytesN 64 :=
  ⟨(attempt counter).val ++ 0x80 :: (List.replicate 23 0 ++ beBytes 8 (bitLen expandRounds)),
    length_lastBlock expandRounds counter⟩

def accepts (midstate : Vector UInt32 8) (cost expandRounds : Nat) (counter : UInt64) : Bool :=
  decide (cost ≤ digestLeadingZeros (compress midstate (lastBlock expandRounds counter)).toList)

/-- Count up, wrapping, until a counter is accepted; at most as often as the fuel says. -/
def search (accept : UInt64 → Bool) : Nat → UInt64 → Option UInt64
  | 0, _ => none
  | fuel + 1, counter => if accept counter then some counter else search accept fuel (counter + 1)

def generateStamp (material : Bytes) (cost expandRounds fuel : Nat) :
    Option (BytesN STAMP_SIZE) :=
  let midstate := midstate crypto material expandRounds
  (search (accepts midstate cost expandRounds) fuel 0).map attempt

@[simp] theorem stampWorkblock_length (material : Bytes) (expandRounds : Nat) :
    (stampWorkblock crypto material expandRounds).length = expandRounds * 256 := by
  induction expandRounds with
  | zero => rfl
  | succ rounds ih =>
    rw [stampWorkblock, List.range_succ, List.flatMap_append, List.length_append, ← stampWorkblock,
      ih]
    simp only [List.flatMap_cons, List.flatMap_nil, List.append_nil, BytesN.length_val]
    omega

theorem ofVector_midstate (material : Bytes) (expandRounds : Nat) :
    ofVector (midstate crypto material expandRounds)
      = Sha256.absorb Sha256.initial (stampWorkblock crypto material expandRounds) := by
  induction expandRounds with
  | zero => simp [midstate, stampWorkblock, Sha256.absorb, chunksExact, ofVector_H0]
  | succ rounds ih =>
    -- Every round adds four whole blocks, so the next one starts at a block.
    have whole : 64 ∣ (stampWorkblock crypto material rounds).length := by
      rw [stampWorkblock_length]
      omega
    have more : stampWorkblock crypto material (rounds + 1)
        = stampWorkblock crypto material rounds ++ (expansion crypto material rounds).val := by
      simp [stampWorkblock, List.range_succ]
    rw [midstate, List.range_succ, List.foldl_append, ← midstate, List.foldl_cons, List.foldl_nil,
      ofVector_foldl, ih, more, Sha256.absorb_append _ whole]

theorem words_ofVector (v : Vector UInt32 8) : (ofVector v).words = v.toList := by
  apply List.ext_getElem
  · simp [Sha256.State.words]
  · intro i inside inside'
    have below : i < 8 := inside
    rw [Vector.getElem_toList]
    interval_cases i <;> rfl

theorem wordBytes_attempt (material : Bytes) (fits : expandRounds * 256 + STAMP_SIZE < wordSize)
    (counter : UInt64) :
    Sha256.wordBytes
        (compress (midstate crypto material expandRounds) (lastBlock expandRounds counter)).toList
      = (Sha256.hash
          (stampWorkblock crypto material expandRounds ++ (attempt counter).val)).val := by
  have whole : 64 ∣ (stampWorkblock crypto material expandRounds).length := by
    rw [stampWorkblock_length]
    omega
  have short : (attempt counter).val.length < 56 := by
    rw [BytesN.length_val]
    decide
  -- The padding of the standard is the end of the last block.
  have last : lastBlock expandRounds counter
      = ⟨(attempt counter).val ++ Sha256.padding ((stampWorkblock crypto material
          expandRounds).length + (attempt counter).val.length), Sha256.length_padded whole short⟩ := by
    apply Subtype.ext
    have low : (expandRounds * 256 + STAMP_SIZE) % 64 = 32 := by
      rw [STAMP_SIZE]
      omega
    simp only [lastBlock, Sha256.padding, stampWorkblock_length, BytesN.length_val, low, bitLen,
      Nat.mod_eq_of_lt fits]
  rw [← words_ofVector, ofVector_compress, ofVector_midstate, last,
    ← Sha256.absorb_padded whole short]
  rfl

theorem accepts_iff (material : Bytes) (fits : expandRounds * 256 + STAMP_SIZE < wordSize)
    (cost : Nat) (counter : UInt64) :
    accepts (midstate crypto material expandRounds) cost expandRounds counter = true
      ↔ Sha256.ZeroBits cost (Sha256.hash
          (stampWorkblock crypto material expandRounds ++ (attempt counter).val)).val := by
  rw [accepts, decide_eq_true_iff, le_digestLeadingZeros_iff, wordBytes_attempt crypto material fits]

theorem search_accepts {accept : UInt64 → Bool} {counter : UInt64}
    (result : search accept fuel counter = some found) : accept found = true := by
  induction fuel generalizing counter with
  | zero => cases result
  | succ fuel ih =>
    rw [search] at result
    split at result
    · rename_i accepted
      obtain rfl := Option.some.inj result
      exact accepted
    · exact ih result

theorem search_ends {accept : UInt64 → Bool} (ahead : Nat) (counter : UInt64)
    (accepted : accept (counter + UInt64.ofNat ahead) = true) :
    ∃ fuel found, search accept fuel counter = some found := by
  induction ahead generalizing counter with
  | zero =>
    have here : accept counter = true := by simpa using accepted
    exact ⟨1, counter, by simp [search, here]⟩
  | succ ahead ih =>
    by_cases here : accept counter = true
    · exact ⟨1, counter, by simp [search, here]⟩
    · have next : counter + 1 + UInt64.ofNat ahead = counter + UInt64.ofNat (ahead + 1) := by
        rw [UInt64.ofNat_add, UInt64.add_assoc, UInt64.add_comm 1]
        rfl
      obtain ⟨fuel, found, result⟩ := ih (counter + 1) (by rw [next]; exact accepted)
      exact ⟨fuel + 1, found, by simp [search, here, result]⟩

theorem zeroBits_of_generateStamp {material : Bytes} {cost : Nat}
    (fits : expandRounds * 256 + STAMP_SIZE < wordSize) {stamp : BytesN STAMP_SIZE}
    (mined : generateStamp crypto material cost expandRounds fuel = some stamp) :
    Sha256.ZeroBits cost
      (Sha256.hash (stampWorkblock crypto material expandRounds ++ stamp.val)).val := by
  obtain ⟨counter, found, rfl⟩ := Option.map_eq_some_iff.mp mined
  exact (accepts_iff crypto material fits cost counter).mp (search_accepts found)

theorem generateStamp_terminates_iff (material : Bytes) (cost : Nat)
    (fits : expandRounds * 256 + STAMP_SIZE < wordSize) :
    (∃ fuel stamp, generateStamp crypto material cost expandRounds fuel = some stamp)
      ↔ ∃ counter, Sha256.ZeroBits cost (Sha256.hash
          (stampWorkblock crypto material expandRounds ++ (attempt counter).val)).val := by
  constructor
  · rintro ⟨fuel, stamp, mined⟩
    obtain ⟨counter, -, rfl⟩ := Option.map_eq_some_iff.mp mined
    exact ⟨counter, zeroBits_of_generateStamp crypto fits mined⟩
  · rintro ⟨counter, enough⟩
    -- Counting from zero comes to every counter.
    have reached : (0 : UInt64) + UInt64.ofNat counter.toNat = counter := by simp
    have accepted := (accepts_iff crypto material fits cost counter).mpr enough
    rw [← reached] at accepted
    obtain ⟨fuel, found, result⟩ := search_ends counter.toNat 0 accepted
    exact ⟨fuel, attempt found, Option.map_eq_some_iff.mpr ⟨found, result, rfl⟩⟩

theorem generateStamp_terminates_iff_free :
    ∃ fuel stamp, generateStamp Crypto.sample [] 0 1 fuel = some stamp := by
  refine (generateStamp_terminates_iff Crypto.sample [] 0 (by decide)).mpr ⟨0, Nat.zero_le _, ?_⟩
  exact beNat_lt _

theorem search_passes {accept : UInt64 → Bool} {counter : UInt64}
    (result : search accept fuel counter = some found) :
    ∃ passed : Nat, found = counter + UInt64.ofNat passed ∧
      ∀ k < passed, accept (counter + UInt64.ofNat k) = false := by
  -- The induction is on the fuel, with the counter at which the search stands.
  induction fuel generalizing counter with
  | zero => cases result
  | succ fuel ih =>
    rw [search] at result
    split at result
    case isTrue accepted =>
      obtain rfl := Option.some.inj result
      exact ⟨0, by simp, fun k none => absurd none (Nat.not_lt_zero k)⟩
    case isFalse refused =>
      obtain ⟨passed, reached, earlier⟩ := ih result
      have next : ∀ k, counter + 1 + UInt64.ofNat k = counter + UInt64.ofNat (k + 1) := by
        intro k
        rw [UInt64.ofNat_add, UInt64.add_assoc, UInt64.add_comm 1]
        rfl
      refine ⟨passed + 1, by rw [reached, next], fun k before => ?_⟩
      cases k with
      | zero => simpa using refused
      | succ k =>
        rw [← next]
        exact earlier k (by omega)

theorem search_least {accept : UInt64 → Bool} (result : search accept fuel 0 = some found)
    {smaller : UInt64} (less : smaller < found) : accept smaller = false := by
  obtain ⟨passed, reached, earlier⟩ := search_passes result
  -- However often the counter wrapped, the smaller ones came before.
  have short : found.toNat ≤ passed := by
    rw [reached, UInt64.zero_add, UInt64.toNat_ofNat']
    exact Nat.mod_le _ _
  have refused := earlier smaller.toNat (Nat.lt_of_lt_of_le (UInt64.lt_iff_toNat_lt.mp less) short)
  rwa [UInt64.zero_add, UInt64.ofNat_toNat] at refused

def workblockVec (material : Bytes) (expandRounds : Nat) : Checked Bytes :=
  if Checked.maxLength < expandRounds * 256 % wordSize then Checked.crash "capacity overflow"
  else (List.range expandRounds).foldlM
    (fun wb n => Checked.extend wb (expansion crypto material n).val) []

theorem foldlM_expansion {material workblock : Bytes} (built : (List.range expandRounds).foldlM
      (fun wb n => Checked.extend wb (expansion crypto material n).val) [] = .ok workblock) :
    workblock = stampWorkblock crypto material expandRounds ∧
      expandRounds * 256 ≤ Checked.maxLength := by
  induction expandRounds generalizing workblock with
  | zero =>
    cases built
    exact ⟨rfl, Nat.zero_le _⟩
  | succ rounds ih =>
    rw [List.range_succ, List.foldlM_append] at built
    cases before : (List.range rounds).foldlM
        (fun wb n => Checked.extend wb (expansion crypto material n).val) [] with
    | error fault =>
      rw [before] at built
      cases built
    | ok front =>
      obtain ⟨rfl, -⟩ := ih before
      rw [before, Checked.ok_bind, List.foldlM_cons, Checked.extend] at built
      split at built
      case isTrue => cases built
      case isFalse room =>
        cases built
        rw [stampWorkblock_length, BytesN.length_val] at room
        refine ⟨?_, by omega⟩
        simp [stampWorkblock, List.range_succ]

/--
Mining from the midstate finds the least stamp for the whole workblock.

A stamp is a counter with zeros after it. The digest of the workblock and the stamp starts with as
many zeros as were asked for, and that of no smaller counter does.
-/
theorem generateStamp_least {material workblock : Bytes} {cost expandRounds fuel : Nat}
    {stamp : BytesN STAMP_SIZE} (built : workblockVec crypto material expandRounds = .ok workblock)
    (mined : generateStamp crypto material cost expandRounds fuel = some stamp) :
    Sha256.ZeroBits cost (Sha256.hash (workblock ++ stamp.val)).val ∧
      ∃ counter : UInt64, stamp.val = beBytes 8 counter.toNat ++ List.replicate 24 0 ∧
        ∀ smaller < counter, ¬ Sha256.ZeroBits cost (Sha256.hash
          (workblock ++ (beBytes 8 smaller.toNat ++ List.replicate 24 0))).val := by
  rw [workblockVec] at built
  split at built
  case isTrue => cases built
  case isFalse =>
    obtain ⟨rfl, small⟩ := foldlM_expansion crypto built
    -- A workblock that fits a vector leaves the length word room for the stamp.
    have fits : expandRounds * 256 + STAMP_SIZE < wordSize := by
      rw [Checked.maxLength] at small
      rw [STAMP_SIZE, wordSize]
      omega
    refine ⟨zeroBits_of_generateStamp crypto fits mined, ?_⟩
    obtain ⟨counter, found, rfl⟩ := Option.map_eq_some_iff.mp mined
    refine ⟨counter, rfl, fun smaller less enough => ?_⟩
    have refused := search_least found less
    rw [(accepts_iff crypto material fits cost smaller).mpr enough] at refused
    cases refused

/-- Over an empty workblock the first counter already gives a zero. -/
theorem generateStamp_least_first :
    generateStamp Crypto.sample [] 1 0 1 = some (attempt 0) ∧
      Sha256.ZeroBits 1 (Sha256.hash ([] ++ (attempt 0).val)).val := by
  have mined : generateStamp Crypto.sample [] 1 0 1 = some (attempt 0) := by decide +kernel
  have built : workblockVec Crypto.sample [] 0 = .ok [] := rfl
  exact ⟨mined, (generateStamp_least Crypto.sample built mined).1⟩

end Stamp

namespace Message

variable (crypto : Crypto)

/--
Wrap a message for a propagation node, if mining the node's stamp ends within the fuel.

The stamp is mined over the hash of the encrypted message and appended to it.
-/
def packPropagationMined (recipient : PublicIdentity) (recipientDestHash : TruncatedHash)
    (plaintext : Bytes) (ratchet : Option KeyHalf) (eph : KeyHalf) (iv : Iv)
    (transferTimestamp : Double) (propagationCost fuel : Nat) : Option Bytes :=
  let lxmfData := recipientDestHash.val ++ recipient.encrypt crypto plaintext eph iv ratchet
  let envelope lxmfData :=
    Msgpack.encode (.array [.f64 transferTimestamp, .array [.bin lxmfData]])
  if 0 < propagationCost then
    let transientId := fullHash crypto lxmfData
    let stamp := Stamp.generateStamp crypto transientId.val propagationCost
      WORKBLOCK_EXPAND_ROUNDS_PN fuel
    stamp.map fun stamp => envelope (lxmfData ++ stamp.val)
  else some (envelope lxmfData)

theorem packPropagationMined_some {recipient : PublicIdentity} {recipientDestHash : TruncatedHash}
    {plaintext : Bytes} {ratchet : Option KeyHalf} {eph : KeyHalf} {iv : Iv}
    {transferTimestamp : Double} {propagationCost : Nat} {blob : Bytes}
    (packed : packPropagationMined crypto recipient recipientDestHash plaintext ratchet eph iv
      transferTimestamp propagationCost fuel = some blob) :
    ∃ stamp : BytesN STAMP_SIZE,
      blob = packPropagation crypto recipient recipientDestHash plaintext ratchet eph iv
        transferTimestamp propagationCost stamp ∧
      (0 < propagationCost → Stamp.generateStamp crypto (fullHash crypto (recipientDestHash.val
        ++ recipient.encrypt crypto plaintext eph iv ratchet)).val propagationCost
        WORKBLOCK_EXPAND_ROUNDS_PN fuel = some stamp) := by
  unfold packPropagationMined at packed
  dsimp only at packed
  split at packed
  · rename_i costs
    obtain ⟨stamp, mined, rfl⟩ := Option.map_eq_some_iff.mp packed
    refine ⟨stamp, ?_, fun _ => mined⟩
    simp only [packPropagation, if_pos costs]
  · -- A node that asks for no work gets no stamp, so any will do.
    rename_i free
    refine ⟨BytesN.ofBytes STAMP_SIZE [], ?_, fun costs => absurd costs free⟩
    simp only [packPropagation, if_neg free]
    exact (Option.some.inj packed).symm

end Message

end LxmfChat
