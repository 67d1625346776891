import LxmfChat.App.Addresses
import LxmfChat.App.Inbox
import LxmfChat.Base.Records

/-! The lists that the application keeps over a restart, as they are stored. -/

namespace LxmfChat

open Base Checked

def withLength (text : Text) : Bytes := beBytes 4 (byteLength text) ++ utf8Encode text

def timeBytes (ts : UInt64) : Bytes := beBytes 8 ts.toNat

def readTime (bytes : Bytes) : UInt64 := .ofNat (beNat bytes)

abbrev FoundAddr := TruncatedHash × Text × UInt64

def foundBytes : FoundAddr → Bytes
  | (addr, sender, ts) => addr.val ++ (timeBytes ts ++ withLength sender)

def persistFoundAddrs (list : List FoundAddr) : Option Bytes :=
  if list.isEmpty then none else some (list.flatMap foundBytes)

def nextFound (buf : Bytes) (i : Nat) : Checked (Option (FoundAddr × Nat)) := do
  let addr ← copySlice 16 buf i (i + 16)
  let i := i + 16
  let ts8 ← slice buf i (i + 8)
  let i := i + 8
  let len4 ← slice buf i (i + 4)
  let i := i + 4
  let flen := beNat len4
  if i + flen > buf.length then return none
  else
    let sender ← slice buf i (i + flen)
    return some ((addr, utf8Lossy sender, readTime ts8), i + flen)

def loadFoundAddrs : Option Bytes → Checked (List FoundAddr)
  | none => return []
  | some buf => readRecords (16 + 12) nextFound buf

abbrev PendingMsg := Text × UInt64 × Text

def pendingBytes : PendingMsg → Bytes
  | (author, ts, text) => timeBytes ts ++ (withLength author ++ withLength text)

def serializePending (msgs : List PendingMsg) : Bytes := msgs.flatMap pendingBytes

def nextPending (buf : Bytes) (i : Nat) : Checked (Option (PendingMsg × Nat)) := do
  let ts ← slice buf i (i + 8)
  let i := i + 8
  let alen := beNat (← slice buf i (i + 4))
  let i := i + 4
  if i + alen + 4 > buf.length then return none
  else
    let author ← slice buf i (i + alen)
    let i := i + alen
    let tlen := beNat (← slice buf i (i + 4))
    let i := i + 4
    if i + tlen > buf.length then return none
    else
      let text ← slice buf i (i + tlen)
      return some ((utf8Lossy author, readTime ts, utf8Lossy text), i + tlen)

def deserializePending : Bytes → Checked (List PendingMsg) := readRecords 12 nextPending

structure KeptUpdate where
  displayTs : UInt64
  text : Text
  status : UInt8
deriving DecidableEq

def updateBytes (u : KeptUpdate) : Bytes :=
  timeBytes u.displayTs ++ (u.status :: withLength u.text)

def persistDeliveryUpdates (dict : Table Text Bytes) (peer : TruncatedHash)
    (updates : List KeptUpdate) : Table Text Bytes :=
  let dict := dict.erase (hex peer.val)
  if updates.isEmpty then dict else dict.insert (hex peer.val) (updates.flatMap updateBytes)

def nextUpdate (buf : Bytes) (i : Nat) : Checked (Option (KeptUpdate × Nat)) := do
  let ts8 ← slice buf i (i + 8)
  let i := i + 8
  let status ← index buf i
  let i := i + 1
  let l4 ← slice buf i (i + 4)
  let tlen := beNat l4
  let i := i + 4
  if i + tlen > buf.length then return none
  else
    let text ← slice buf i (i + tlen)
    return some (⟨readTime ts8, utf8Lossy text, status⟩, i + tlen)

def loadDeliveryEntry (map : Table TruncatedHash (List KeptUpdate)) (entry : Text × Bytes) :
    Checked (Table TruncatedHash (List KeptUpdate)) := do
  match ← parseAddr entry.1 with
  | none => return map
  | some dh =>
    let out ← readRecords 13 nextUpdate entry.2
    return if out.isEmpty then map else map.insert dh out

def loadDeliveryUpdates (dict : Table Text Bytes) (map : Table TruncatedHash (List KeptUpdate)) :
    Checked (Table TruncatedHash (List KeptUpdate)) :=
  dict.keys.foldlM (fun map key => loadDeliveryEntry map (key, (dict.lookup key).getD [])) map

theorem readTime_timeBytes (ts : UInt64) : readTime (timeBytes ts) = ts := by
  rw [readTime, timeBytes, beNat_beBytes_of_lt ts.toNat_lt, UInt64.ofNat_toNat]

theorem length_withLength (text : Text) : (withLength text).length = 4 + byteLength text := by
  rw [withLength, List.length_append, beBytes_length, length_utf8Encode]

/-- The texts that a length of 32 bits is enough for. -/
def Short (text : Text) : Prop := byteLength text < 2 ^ 32

@[simp] theorem length_timeBytes (ts : UInt64) : (timeBytes ts).length = 8 := beBytes_length ..

theorem nextFound_eq (front : Bytes) (addr : TruncatedHash) (ts : UInt64) {n : Nat}
    (short : n < 256 ^ 4) (rest : Bytes) :
    nextFound (front ++ (addr.val ++ (timeBytes ts ++ (beBytes 4 n ++ rest)))) front.length =
      .ok (if rest.length < n then none
        else some ((addr, utf8Lossy (rest.take n), ts), front.length + 16 + 8 + 4 + n)) := by
  generalize whole : front ++ (addr.val ++ (timeBytes ts ++ (beBytes 4 n ++ rest))) = buf
  have address : slice buf front.length (front.length + 16) = .ok addr.val :=
    slice_append whole.symm rfl (by simp)
  have time : slice buf (front.length + 16) (front.length + 16 + 8) = .ok (timeBytes ts) :=
    slice_append (show buf = (front ++ addr.val) ++ (_ ++ (beBytes 4 n ++ rest)) by simp [← whole])
      (by simp) (by simp)
  have size : slice buf (front.length + 16 + 8) (front.length + 16 + 8 + 4) = .ok (beBytes 4 n) :=
    slice_append (show buf = (front ++ addr.val ++ timeBytes ts) ++ (_ ++ rest) by simp [← whole])
      (by simp) (by simp)
  have last := lastPiece_eq (fun text => ((addr, utf8Lossy text, ts) : FoundAddr))
    (show buf = (front ++ addr.val ++ timeBytes ts ++ beBytes 4 n) ++ rest by simp [← whole])
    (show _ = front.length + 16 + 8 + 4 by simp) (n := n)
  simp only [nextFound, copySlice, address, copyFromSlice_ok addr.length_val, ok_bind, time, size,
    beNat_beBytes_of_lt short, readTime_timeBytes]
  exact last

theorem nextUpdate_eq (front : Bytes) (ts : UInt64) (status : UInt8) {n : Nat} (short : n < 256 ^ 4)
    (rest : Bytes) :
    nextUpdate (front ++ (timeBytes ts ++ (status :: (beBytes 4 n ++ rest)))) front.length =
      .ok (if rest.length < n then none
        else some (⟨ts, utf8Lossy (rest.take n), status⟩, front.length + 8 + 1 + 4 + n)) := by
  generalize whole : front ++ (timeBytes ts ++ (status :: (beBytes 4 n ++ rest))) = buf
  have time : slice buf front.length (front.length + 8) = .ok (timeBytes ts) :=
    slice_append whole.symm rfl (by simp)
  have code : index buf (front.length + 8) = .ok status := by
    rw [index, ← whole, List.getElem?_append_right (by omega), Nat.add_sub_cancel_left,
      List.getElem?_append_right (by simp), length_timeBytes]
    rfl
  have size : slice buf (front.length + 8 + 1) (front.length + 8 + 1 + 4) = .ok (beBytes 4 n) :=
    slice_append (show buf = (front ++ timeBytes ts ++ [status]) ++ (_ ++ rest) by simp [← whole])
      (by simp) (by simp)
  have last := lastPiece_eq (fun text => (⟨ts, utf8Lossy text, status⟩ : KeptUpdate))
    (show buf = (front ++ timeBytes ts ++ [status] ++ beBytes 4 n) ++ rest by simp [← whole])
    (show _ = front.length + 8 + 1 + 4 by simp) (n := n)
  simp only [nextUpdate, time, code, ok_bind, size, beNat_beBytes_of_lt short, readTime_timeBytes]
  exact last

theorem nextPending_short (front : Bytes) (ts : UInt64) {n : Nat} (short : n < 256 ^ 4) {rest : Bytes}
    (scarce : rest.length < n + 4) :
    nextPending (front ++ (timeBytes ts ++ (beBytes 4 n ++ rest))) front.length = .ok none := by
  generalize whole : front ++ (timeBytes ts ++ (beBytes 4 n ++ rest)) = buf
  have time : slice buf front.length (front.length + 8) = .ok (timeBytes ts) :=
    slice_append whole.symm rfl (by simp)
  have size : slice buf (front.length + 8) (front.length + 8 + 4) = .ok (beBytes 4 n) :=
    slice_append (show buf = (front ++ timeBytes ts) ++ (_ ++ rest) by simp [← whole])
      (by simp) (by simp)
  simp only [nextPending, time, ok_bind, size, beNat_beBytes_of_lt short]
  rw [if_pos (by simp [← whole]; omega)]
  rfl

theorem nextPending_eq (front : Bytes) (ts : UInt64) {author : Text} (short : Short author) {n : Nat}
    (short' : n < 256 ^ 4) (rest : Bytes) :
    nextPending (front ++ (timeBytes ts ++ (withLength author ++ (beBytes 4 n ++ rest))))
        front.length =
      .ok (if rest.length < n then none
        else some ((author, ts, utf8Lossy (rest.take n)),
          front.length + 8 + 4 + byteLength author + 4 + n)) := by
  generalize whole : front ++ (timeBytes ts ++ (withLength author ++ (beBytes 4 n ++ rest))) = buf
  rw [withLength] at whole
  have time : slice buf front.length (front.length + 8) = .ok (timeBytes ts) :=
    slice_append whole.symm rfl (by simp)
  have size : slice buf (front.length + 8) (front.length + 8 + 4) =
      .ok (beBytes 4 (byteLength author)) :=
    slice_append (show buf = (front ++ timeBytes ts) ++ (_ ++ (utf8Encode author ++
      (beBytes 4 n ++ rest))) by simp [← whole]) (by simp) (by simp)
  have name : slice buf (front.length + 8 + 4) (front.length + 8 + 4 + byteLength author) =
      .ok (utf8Encode author) :=
    slice_append (show buf = (front ++ timeBytes ts ++ beBytes 4 (byteLength author)) ++ (_ ++
      (beBytes 4 n ++ rest)) by simp [← whole]) (by simp) (by rw [length_utf8Encode])
  have size' : slice buf (front.length + 8 + 4 + byteLength author)
      (front.length + 8 + 4 + byteLength author + 4) = .ok (beBytes 4 n) :=
    slice_append (show buf = (front ++ timeBytes ts ++ beBytes 4 (byteLength author) ++
      utf8Encode author) ++ (_ ++ rest) by simp [← whole])
      (by simp [length_utf8Encode]; omega) (by simp)
  have last := lastPiece_eq (fun text => ((author, ts, utf8Lossy text) : PendingMsg))
    (show buf = (front ++ timeBytes ts ++ beBytes 4 (byteLength author) ++ utf8Encode author ++
      beBytes 4 n) ++ rest by simp [← whole])
    (show _ = front.length + 8 + 4 + byteLength author + 4 by
      simp [length_utf8Encode]; omega) (n := n)
  have room : ¬ front.length + 8 + 4 + byteLength author + 4 > buf.length := by
    simp only [← whole, List.length_append, length_timeBytes, beBytes_length, length_utf8Encode]
    omega
  have plain : beNat (beBytes 4 (byteLength author)) = byteLength author := beNat_beBytes_of_lt short
  simp only [nextPending, time, ok_bind, size, plain, if_neg room, name, size',
    beNat_beBytes_of_lt short', readTime_timeBytes, utf8Lossy_encode]
  exact last

theorem found_codec : RecordCodec (16 + 12) nextFound foundBytes fun f => Short f.2.1 := by
  have split : foundBytes = fun f =>
      (f.1.val ++ (timeBytes f.2.2 ++ beBytes 4 (byteLength f.2.1))) ++ utf8Encode f.2.1 := by
    funext ⟨addr, sender, ts⟩
    simp [foundBytes, withLength]
  rw [split]
  refine .of_body (by decide) (fun f => by simp) ?_ ?_
  · rintro ⟨addr, sender, ts⟩ short
    refine ⟨fun text => (addr, utf8Lossy text, ts), by simp [utf8Lossy_encode], fun front rest => ?_⟩
    have read := nextFound_eq front addr ts short rest
    simpa [length_utf8Encode, Nat.add_assoc] using read
  · intro f _ front piece _ long cut
    simp at long cut
    omega

theorem update_codec : RecordCodec 13 nextUpdate updateBytes fun u => Short u.text := by
  have split : updateBytes = fun u =>
      (timeBytes u.displayTs ++ (u.status :: beBytes 4 (byteLength u.text))) ++ utf8Encode u.text := by
    funext u
    simp [updateBytes, withLength]
  rw [split]
  refine .of_body (by decide) (fun u => by simp) ?_ ?_
  · intro u short
    refine ⟨fun text => ⟨u.displayTs, utf8Lossy text, u.status⟩, by simp [utf8Lossy_encode],
      fun front rest => ?_⟩
    have read := nextUpdate_eq front u.displayTs u.status short rest
    simpa [length_utf8Encode, Nat.add_assoc] using read
  · intro u _ front piece _ long cut
    simp at long cut
    omega

theorem pending_codec :
    RecordCodec 12 nextPending pendingBytes fun m => Short m.1 ∧ Short m.2.2 := by
  have split : pendingBytes = fun m =>
      (timeBytes m.2.1 ++ (withLength m.1 ++ beBytes 4 (byteLength m.2.2))) ++ utf8Encode m.2.2 := by
    funext ⟨author, ts, text⟩
    simp [pendingBytes, withLength]
  rw [split]
  refine .of_body (by decide) (fun m => by simp [length_withLength]; omega) ?_ ?_
  · rintro ⟨author, ts, text⟩ ⟨short, short'⟩
    refine ⟨fun text => (author, ts, utf8Lossy text), by simp [utf8Lossy_encode],
      fun front rest => ?_⟩
    have read := nextPending_eq front ts short short' rest
    rw [List.append_assoc, List.append_assoc, length_utf8Encode, read, List.length_append,
      List.length_append, length_timeBytes, length_withLength, beBytes_length]
    congr 5
    omega
  · -- The author may be torn too, or the length of the text.
    rintro ⟨author, ts, text⟩ ⟨short, -⟩ front piece inside long cut
    have split : timeBytes ts ++ (withLength author ++ beBytes 4 (byteLength text)) =
        (timeBytes ts ++ beBytes 4 (byteLength author)) ++
          (utf8Encode author ++ beBytes 4 (byteLength text)) := by simp [withLength]
    rw [split] at inside
    obtain ⟨part, rfl, -⟩ := prefix_append_of_le inside (by simpa using long)
    rw [List.append_assoc]
    refine nextPending_short front ts (n := byteLength author) short ?_
    simp only [List.length_append, length_timeBytes, length_withLength, beBytes_length] at cut
    omega

/-- The front of a list that the first bytes of the stored list hold all of. -/
def Wholly {α : Type} (encode : α → Bytes) (list : List α) (k : Nat) (front : List α) : Prop :=
  ∀ part, part <+: front ↔ part <+: list ∧ (part.flatMap encode).length ≤ k

theorem loadFoundAddrs_persist {found : List FoundAddr} (short : ∀ f ∈ found, Short f.2.1) :
    loadFoundAddrs (persistFoundAddrs found) = .ok found := by
  cases found with
  | nil => rfl
  | cons f found => exact found_codec.readRecords_eq short

theorem loadDeliveryUpdates_single (peer : TruncatedHash) {buf : Bytes} {out : List KeptUpdate}
    (read : readRecords 13 nextUpdate buf = .ok out) :
    loadDeliveryUpdates ((∅ : Table Text Bytes).insert (hex peer.val) buf) ∅ =
      .ok (if out.isEmpty then ∅ else (∅ : Table TruncatedHash _).insert peer out) := by
  have only : ((∅ : Table Text Bytes).insert (hex peer.val) buf).keys = [hex peer.val] := by
    rw [AList.keys_insert]
    rfl
  rw [loadDeliveryUpdates, only, List.foldlM_cons, loadDeliveryEntry, parseAddr_hex, ok_bind,
    AList.lookup_insert, Option.getD_some, read]
  rfl

/--
The lists that are kept come back as they were stored.

Of a list that was torn, the records come back that are all there, and no others.
-/
theorem records_come_back (found : List FoundAddr) (msgs : List PendingMsg)
    (updates : List KeptUpdate) (peer : TruncatedHash) (short : ∀ f ∈ found, Short f.2.1)
    (short' : ∀ m ∈ msgs, Short m.1 ∧ Short m.2.2) (short'' : ∀ u ∈ updates, Short u.text) :
    (loadFoundAddrs (persistFoundAddrs found) = .ok found
      ∧ deserializePending (serializePending msgs) = .ok msgs
      ∧ loadDeliveryUpdates (persistDeliveryUpdates ∅ peer updates) ∅ =
        .ok (if updates.isEmpty then ∅ else (∅ : Table TruncatedHash _).insert peer updates))
    ∧ ∀ k,
      (∃ front, loadFoundAddrs ((persistFoundAddrs found).map (List.take k)) = .ok front
        ∧ Wholly foundBytes found k front)
      ∧ (∃ front, deserializePending ((serializePending msgs).take k) = .ok front
        ∧ Wholly pendingBytes msgs k front)
      ∧ ∃ front, loadDeliveryUpdates ((∅ : Table Text Bytes).insert (hex peer.val)
          ((updates.flatMap updateBytes).take k)) ∅ =
        .ok (if front.isEmpty then ∅ else (∅ : Table TruncatedHash _).insert peer front)
        ∧ Wholly updateBytes updates k front := by
  refine ⟨⟨loadFoundAddrs_persist short, pending_codec.readRecords_eq short', ?_⟩, fun k => ⟨?_, ?_, ?_⟩⟩
  · cases updates with
    | nil => rfl
    | cons u updates =>
      rw [persistDeliveryUpdates]
      exact loadDeliveryUpdates_single peer (update_codec.readRecords_eq short'')
  · refine ⟨contained foundBytes k found, ?_, fun part => prefix_contained_iff⟩
    cases found with
    | nil => rfl
    | cons f found => exact found_codec.readRecords_take short k
  · exact ⟨_, pending_codec.readRecords_take short' k, fun part => prefix_contained_iff⟩
  · exact ⟨_, loadDeliveryUpdates_single peer (update_codec.readRecords_take short'' k),
      fun part => prefix_contained_iff⟩

/-- Texts with a character of two bytes come back. -/
theorem records_come_back_wide :
    byteLength ['é'] = 2
    ∧ loadFoundAddrs (persistFoundAddrs [(⟨List.replicate 16 7, rfl⟩, ['é'], 1)]) =
      .ok [(⟨List.replicate 16 7, rfl⟩, ['é'], 1)]
    ∧ deserializePending (serializePending [(['é'], 2, ['x']), (['y'], 3, ['é'])]) =
      .ok [(['é'], 2, ['x']), (['y'], 3, ['é'])] := by
  have small : ∀ c : Char, Short [c] := fun c => by
    have size := c.utf8Size_le_four
    simp only [Short, byteLength, List.map_cons, List.map_nil, List.sum_cons, List.sum_nil]
    omega
  have back := (records_come_back [(⟨List.replicate 16 7, rfl⟩, ['é'], 1)]
    [(['é'], 2, ['x']), (['y'], 3, ['é'])] [] ⟨List.replicate 16 7, rfl⟩
    (by simp [small]) (by simp [small]) (by simp)).1
  exact ⟨rfl, back.1, back.2.1⟩

end LxmfChat
