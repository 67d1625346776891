import LxmfChat.Reticulum.Resource.Sender

/-! What the sender writes, the receiver's minimal umsgpack reader reads back. -/

namespace LxmfChat

open Base

private theorem ofNat_le_fixint {v : Nat} (small : v < 128) : UInt8.ofNat v ≤ 0x7f := by
  rw [UInt8.le_iff_toNat_le, toNat_ofNat_of_lt (by omega)]
  change v ≤ 127
  omega

theorem reads_u8AsUsize {v : Nat} (small : v < 256) :
    Reads Reader.u8AsUsize [UInt8.ofNat v] v := by
  have byte := (Reads.get "msgpack truncated" (UInt8.ofNat v)).map UInt8.toNat
  rwa [toNat_ofNat_of_lt small] at byte

theorem reads_uint {v : Nat} (fits : v < wordSize) : Reads Reader.uint (advUint v) v := by
  -- Each width has its own marker, so the cases follow the writer's.
  unfold advUint
  split_ifs with fixint byte word
  · refine (Reads.get _ _).bind ?_
    rw [if_pos (ofNat_le_fixint fixint), toNat_ofNat_of_lt (by omega)]
    exact Reads.pure v
  · exact (Reads.get _ 0xcc).bind (reads_u8AsUsize (by omega))
  · exact (Reads.get _ 0xcd).bind (Reads.beBytes _ (by omega))
  · exact (Reads.get _ 0xce).bind (Reads.beBytes _ fits)

theorem reads_bin {b : Bytes} (fits : b.length < 65536) : Reads Reader.bin (advBin b) b := by
  unfold advBin
  split_ifs with short
  · exact (Reads.get _ 0xc4).bind
      ((reads_u8AsUsize (by omega)).bind (Reads.take _ b))
  · exact (Reads.get _ 0xc5).bind ((Reads.beBytes _ (by omega)).bind (Reads.take _ b))

theorem reads_strKey (k : UInt8) : Reads Reader.strKey (advKey k) [k] :=
  (Reads.get _ 0xa1).bind ((Reads.pure 1).bind (Reads.take _ [k]))

theorem reads_skipValue_uint (v : Nat) : Reads Reader.skipValue (advUint v) () := by
  unfold advUint
  split_ifs with fixint byte word
  · refine (Reads.get _ _).bind ?_
    rw [if_pos (.inl (ofNat_le_fixint fixint))]
    exact Reads.pure ()
  · exact (Reads.get _ 0xcc).bind ((Reads.get _ _).map fun _ => ())
  · exact (Reads.get _ 0xcd).bind ((Reads.be _ (beBytes_length 2 v)).map fun _ => ())
  · exact (Reads.get _ 0xce).bind ((Reads.be _ (beBytes_length 4 v)).map fun _ => ())

theorem reads_skipValue_bin {b : Bytes} (fits : b.length < 65536) :
    Reads Reader.skipValue (advBin b) () := by
  unfold advBin
  split_ifs with short
  · exact (Reads.get _ 0xc4).bind
      ((reads_u8AsUsize (by omega)).bind ((Reads.take _ b).map fun _ => ()))
  · exact (Reads.get _ 0xc5).bind
      ((Reads.beBytes _ (by omega)).bind ((Reads.take _ b).map fun _ => ()))

theorem reads_skipValue_nil : Reads Reader.skipValue [0xc0] () :=
  (Reads.get _ 0xc0).bind (Reads.pure ())

theorem reads_entry_skipped (fields : AdvFields) {k : UInt8} {value : Bytes}
    (unused : k ∉ [0x68, 0x72, 0x6d, 0x6e, 0x6c, 0x66])
    (skipped : Reads Reader.skipValue value ()) :
    Reads fields.readEntry (advKey k ++ value) fields := by
  simp only [List.mem_cons, List.not_mem_nil, or_false, not_or] at unused
  refine (reads_strKey k).bind ?_
  simp only [List.cons.injEq, and_true, unused, if_false]
  exact skipped.map fun _ => fields

theorem reads_entries {n : Nat} {fields next result : AdvFields} {key value rest : Bytes}
    (head : Reads fields.readEntry (key ++ value) next)
    (tail : Reads (AdvFields.readEntries n next) rest result) :
    Reads (AdvFields.readEntries (n + 1) fields) (key ++ (value ++ rest)) result := by
  rw [← List.append_assoc]
  exact head.bind tail

theorem advUint_length_le (v : Nat) : (advUint v).length ≤ 5 := by
  unfold advUint
  split_ifs <;> simp

theorem advBin_length_le (b : Bytes) : (advBin b).length ≤ b.length + 3 := by
  unfold advBin
  split_ifs
  · simp
  · simp
    omega

namespace ResourceSender

variable (tx : ResourceSender)

theorem pageBytes_length_le (page : Nat) : (tx.pageBytes page).length ≤ 296 := by
  simp only [pageBytes, flatMap_quads_length, HASHMAP_MAX_LEN, List.length_take]
  omega

theorem pageBytes_zero :
    tx.pageBytes 0 = (tx.mapHashes.take HASHMAP_MAX_LEN).flatMap (·.val) := by
  simp [pageBytes]

def advertised : Advertisement where
  hash := tx.hash
  randomHash := tx.randomHash.val
  parts := tx.parts.length
  hashmap := tx.pageBytes 0
  totalSegments := 1
  compressed := false
  encrypted := true

private def advFields : AdvFields where
  hash := some tx.hash.val
  randomHash := some tx.randomHash.val
  hashmap := some (tx.pageBytes 0)
  parts := some tx.parts.length
  totalSegments := 1
  flags := 1

private theorem reads_advertisement (countable : tx.parts.length < wordSize) :
    Reads (do AdvFields.readEntries (← Reader.mapLen) {}) tx.advertisement tx.advFields := by
  have page := tx.pageBytes_length_le 0
  have count : Reads Reader.mapLen [0x8b] 11 := (Reads.get _ 0x8b).bind (Reads.pure 11)
  simp only [advertisement, List.append_assoc]
  rw [← List.singleton_append]
  refine count.bind ?_
  -- Five of the entries are passed over, the other six each set one field.
  refine reads_entries (reads_entry_skipped _ (by decide) (reads_skipValue_uint _)) ?_
  refine reads_entries (reads_entry_skipped _ (by decide) (reads_skipValue_uint _)) ?_
  refine reads_entries ((reads_strKey 0x6e).bind ((reads_uint countable).map _)) ?_
  refine reads_entries ((reads_strKey 0x68).bind ((reads_bin (by simp)).map _)) ?_
  refine reads_entries ((reads_strKey 0x72).bind ((reads_bin (by simp)).map _)) ?_
  refine reads_entries (reads_entry_skipped _ (by decide) (reads_skipValue_bin (by simp))) ?_
  refine reads_entries (reads_entry_skipped _ (by decide) (reads_skipValue_uint _)) ?_
  refine reads_entries ((reads_strKey 0x6c).bind ((reads_uint (by decide)).map _)) ?_
  refine reads_entries (reads_entry_skipped _ (by decide) reads_skipValue_nil) ?_
  refine reads_entries ((reads_strKey 0x66).bind ((reads_uint (by decide)).map _)) ?_
  rw [← pageBytes_zero, ← List.append_nil (advBin _)]
  refine reads_entries ((reads_strKey 0x6d).bind ((reads_bin (by omega)).map _)) ?_
  exact Reads.pure _

theorem advertisement_length_le : tx.advertisement.length ≤ 415 := by
  have transfer := advUint_length_le tx.transferSize
  have data := advUint_length_le tx.dataSize
  have count := advUint_length_le tx.parts.length
  have one : (advUint 1).length = 1 := rfl
  have hash : (advBin tx.hash.val).length = 34 := by simp [advBin]
  have salt : (advBin tx.randomHash.val).length = 6 := by simp [advBin]
  have page := advBin_length_le (tx.pageBytes 0)
  have pageFits := tx.pageBytes_length_le 0
  simp only [advertisement, ← pageBytes_zero, List.length_cons,
    List.length_append, advKey, List.length_nil]
  omega

theorem parseAdvertisement_advertisement (countable : tx.parts.length < wordSize) :
    parseAdvertisement tx.advertisement = .ok tx.advertised := by
  have sure : AdvFields.toAdvertisement tx.advFields = .ok tx.advertised := by
    simp [AdvFields.toAdvertisement, advFields, advertised, okOr, Bind.bind, Except.bind,
      Pure.pure, Except.pure, Nat.mod_eq_of_lt countable]
  rw [parseAdvertisement, (tx.reads_advertisement countable).parse (tx.advertisement_length_le.trans_lt (by decide))]
  exact sure

private theorem reads_hmuPage {page : Nat} (fits : page < 65536) :
    Reads Reader.uint (hmuPage page) page := by
  unfold hmuPage
  split_ifs with fixint
  · have short := reads_uint (v := page) (by simp only [wordSize]; omega)
    rwa [advUint, if_pos fixint] at short
  · exact (Reads.get _ 0xcd).bind (Reads.beBytes _ (by omega))

theorem parseHashmapUpdate_hashmapUpdate {page : Nat} (fits : page < 65536) :
    parseHashmapUpdate ((tx.hashmapUpdate page).drop 32) = .ok (page, tx.pageBytes page) := by
  have small := tx.pageBytes_length_le page
  have body : (tx.hashmapUpdate page).drop 32
      = [0x92] ++ (hmuPage page ++ (advBin (tx.pageBytes page) ++ [])) := by
    simp [hashmapUpdate]
  have count : Reads Reader.arrayLen [0x92] 2 := (Reads.get _ 0x92).bind (Reads.pure 2)
  have hashes : Reads Reader.bin (advBin (tx.pageBytes page)) (tx.pageBytes page) :=
    reads_bin (by omega)
  have whole : Reads readHashmapUpdate ((tx.hashmapUpdate page).drop 32)
      (page % wordSize, tx.pageBytes page) := by
    rw [body]
    exact count.bind ((reads_hmuPage fits).bind (hashes.bind (Reads.pure _)))
  have short : ((tx.hashmapUpdate page).drop 32).length < wordSize := by
    have bin := advBin_length_le (tx.pageBytes page)
    have number : (hmuPage page).length ≤ 3 := by
      unfold hmuPage
      split_ifs <;> simp
    rw [body]
    simp only [List.length_append, List.length_cons, List.length_nil, wordSize]
    omega
  rw [parseHashmapUpdate, whole.parse short, Nat.mod_eq_of_lt (by simp only [wordSize]; omega)]

theorem hashmapUpdate_inj {page other : Nat} (fits : page < 65536) (fits' : other < 65536)
    (same : tx.hashmapUpdate page = tx.hashmapUpdate other) : page = other := by
  have read := tx.parseHashmapUpdate_hashmapUpdate fits
  rw [same, tx.parseHashmapUpdate_hashmapUpdate fits'] at read
  exact (congrArg Prod.fst (Except.ok.inj read)).symm

theorem handleRequest_serves (request : Bytes) :
    tx.handleRequest request = ([], none) ∨
      ∃ last body, tx.handleRequest request = tx.serve last body := by
  unfold handleRequest
  split
  · exact .inl rfl
  · split
    · split
      · exact .inl rfl
      · exact .inr ⟨_, _, rfl⟩
    · split
      · exact .inl rfl
      · exact .inr ⟨_, _, rfl⟩

theorem exists_partFor_of_handleRequest {request part : Bytes}
    (sent : part ∈ (tx.handleRequest request).1) : ∃ wanted, tx.partFor wanted = some part := by
  rcases tx.handleRequest_serves request with refused | ⟨last, body, served⟩
  · rw [refused] at sent
    cases sent
  · rw [served, serve] at sent
    split at sent
    · cases sent
    · obtain ⟨wanted, -, found⟩ := List.mem_filterMap.mp sent
      exact ⟨wanted, found⟩

theorem exists_nextPage_of_handleRequest {request update : Bytes}
    (sent : (tx.handleRequest request).2 = some update) :
    ∃ last, tx.nextPage last = some update := by
  rcases tx.handleRequest_serves request with refused | ⟨last, body, served⟩
  · rw [refused] at sent
    cases sent
  · rw [served, serve] at sent
    split at sent
    · cases sent
    · obtain ⟨h, -, found⟩ := Option.bind_eq_some_iff.mp sent
      exact ⟨h, found⟩

theorem exists_idx_of_nextPage {last : MapHash} {update : Bytes}
    (found : tx.nextPage last = some update) :
    ∃ idx, tx.mapHashes.idxOf? last = some idx ∧ (idx + 1) % HASHMAP_MAX_LEN = 0 ∧
      update = tx.hashmapUpdate ((idx + 1) / HASHMAP_MAX_LEN) := by
  simp only [nextPage, Option.bind_eq_bind, Option.bind_eq_some_iff] at found
  obtain ⟨idx, first, page⟩ := found
  split_ifs at page with boundary
  exact ⟨idx, first, by simpa using boundary, (Option.some.inj page).symm⟩

end ResourceSender

end LxmfChat
