import LxmfChat.Reticulum.Resource.Receiver

/-! What each operation of the receiver does to its table, whatever bytes it is fed. -/

namespace LxmfChat

open Base

namespace ResourceReceiver

theorem slot_fillPage (i : Nat) (page : List MapHash) (hashes : List (Option MapHash))
    (height j : Nat) :
    slot (fillPage i page (hashes, height)).1 j
      = if slot hashes j = none ∧ i ≤ j ∧ j < hashes.length then page[j - i]?
        else slot hashes j := by
  -- The walk moves on by one slot per map-hash, so the start index stays quantified over.
  induction page generalizing i hashes height with
  | nil =>
    simp only [fillPage, List.getElem?_nil]
    split_ifs with empty
    · exact empty.1
    · rfl
  | cons chunk rest ih =>
    rw [fillPage]
    by_cases outside : hashes.length ≤ i
    · have beyond : ¬ (slot hashes j = none ∧ i ≤ j ∧ j < hashes.length) := by
        rintro ⟨-, low, high⟩
        omega
      rw [if_pos outside, if_neg beyond]
    rw [if_neg outside]
    by_cases here : i = j
    · -- The slot at hand takes the chunk at hand, and the rest of the page is past it.
      subst here
      by_cases empty : slot hashes i = none
      · rw [if_pos empty, ih, slot_set (by omega), if_pos rfl, if_neg (by simp),
          if_pos ⟨empty, Nat.le_refl i, by omega⟩]
        simp
      · rw [if_neg empty, ih, if_neg fun held => empty held.1, if_neg fun held => empty held.1]
    · -- Any other slot is left to the rest of the page.
      have table : slot (fillPage i (chunk :: rest) (hashes, height)).1 j
          = if slot hashes j = none ∧ i + 1 ≤ j ∧ j < hashes.length then rest[j - (i + 1)]?
            else slot hashes j := by
        rw [fillPage, if_neg outside]
        split_ifs with empty
        · rw [ih, slot_set (by omega), if_neg here, List.length_set, if_pos ‹_›]
        · rw [ih, slot_set (by omega), if_neg here, List.length_set, if_neg ‹_›]
        · rw [ih, if_pos ‹_›]
        · rw [ih, if_neg ‹_›]
      rw [fillPage, if_neg outside] at table
      rw [table]
      by_cases past : i < j
      · rw [show j - i = j - (i + 1) + 1 by omega, List.getElem?_cons_succ]
        simp only [show i + 1 ≤ j ↔ i ≤ j by omega]
      · have before (start : Nat) (later : j < start) :
            ¬ (slot hashes j = none ∧ start ≤ j ∧ j < hashes.length) := by
          rintro ⟨-, low, -⟩
          omega
        rw [if_neg (before (i + 1) (by omega)), if_neg (before i (by omega))]

theorem fillPage_height (i : Nat) (page : List MapHash) (hashes : List (Option MapHash))
    (height : Nat) :
    (fillPage i page (hashes, height)).2 + filled hashes
      = height + filled (fillPage i page (hashes, height)).1 := by
  induction page generalizing i hashes height with
  | nil => rfl
  | cons chunk rest ih =>
    simp only [fillPage]
    split_ifs with outside empty
    · rfl
    · have one := filled_set (a := chunk) (by omega : i < hashes.length) empty
      have rest := ih (i + 1) (hashes.set i (some chunk)) (height + 1)
      omega
    · exact ih (i + 1) hashes height

theorem le_fillPage_height (i : Nat) (page : List MapHash)
    (table : List (Option MapHash) × Nat) : table.2 ≤ (fillPage i page table).2 := by
  induction page generalizing i table with
  | nil => exact Nat.le_refl _
  | cons chunk rest ih =>
    rw [fillPage]
    split_ifs
    · exact Nat.le_refl _
    · exact Nat.le_trans (Nat.le_succ _) (ih (i + 1) (table.1.set i (some chunk), table.2 + 1))
    · exact ih (i + 1) table

/--
The bookkeeping that every operation keeps, whatever the other side sends.

Each counter is a count over the table it belongs to.
-/
structure Consistent (rx : ResourceReceiver) : Prop where
  received : rx.received = filled rx.parts
  consecutive : rx.consecutive = leading rx.parts
  height : rx.hashmapHeight = filled rx.mapHashes
  heightPositive : 0 < rx.hashmapHeight
  heldKnown : ∀ i, (rx.part i).isSome → (rx.mapHash i).isSome
  windowLow : WINDOW_START ≤ rx.window
  windowHigh : rx.window ≤ WINDOW_MAX
  nonempty : 0 < rx.parts.length
  bounded : rx.parts.length ≤ MAX_TRANSFER_BYTES / RESOURCE_SDU + 1

namespace Consistent

variable {rx : ResourceReceiver}

theorem height_le (book : rx.Consistent) : rx.hashmapHeight ≤ rx.parts.length := by
  rw [book.height, ← rx.sized]
  exact filled_le_length _

theorem isComplete_iff (book : rx.Consistent) :
    rx.isComplete = true ↔ ∀ i < rx.parts.length, (rx.part i).isSome := by
  rw [isComplete, beq_iff_eq, book.received, filled_eq_length_iff]
  rfl

theorem isComplete_iff_consecutive (book : rx.Consistent) :
    rx.isComplete = true ↔ rx.consecutive = rx.parts.length := by
  rw [book.isComplete_iff, book.consecutive]
  constructor
  · intro all
    exact Nat.le_antisymm (leading_le_length _) (le_leading all)
  · intro whole i inside
    exact isSome_of_lt_leading (by omega)

theorem part_consecutive (book : rx.Consistent) : rx.part rx.consecutive = none := by
  rw [book.consecutive]
  exact slot_leading _

theorem part_of_lt_consecutive (book : rx.Consistent) {i : Nat} (front : i < rx.consecutive) :
    (rx.part i).isSome := by
  rw [book.consecutive] at front
  exact isSome_of_lt_leading front

end Consistent

theorem mapHash_initial (adv : Advertisement) (i : Nat) :
    (initial adv).mapHash i = if i < inAdv adv then (quads adv.hashmap)[i]? else none := by
  simp only [mapHash, initial, slot_map_some_append]
  exact List.getElem?_take

theorem ofAdvertisement_ok_iff {adv : Advertisement} {rx : ResourceReceiver} :
    ofAdvertisement adv = .ok rx ↔ adv.totalSegments ≤ 1 ∧ 0 < adv.parts ∧
      adv.parts ≤ MAX_TRANSFER_BYTES / RESOURCE_SDU + 1 ∧ 0 < inAdv adv ∧ rx = initial adv := by
  unfold ofAdvertisement
  split_ifs with segments parts large empty
  all_goals simp only [false_iff, Except.ok.injEq]
  · omega
  · omega
  · omega
  · omega
  · constructor
    · rintro rfl
      exact ⟨by omega, by omega, by omega, by omega, rfl⟩
    · exact fun accepted => accepted.2.2.2.2.symm

theorem accept_ok_iff {plaintext : Bytes} {rx : ResourceReceiver} :
    accept plaintext = .ok rx ↔
      ∃ adv, parseAdvertisement plaintext = .ok adv ∧ ofAdvertisement adv = .ok rx := by
  unfold accept
  cases parsed : parseAdvertisement plaintext with
  | error fault => simp [Bind.bind, Except.bind]
  | ok adv => simp [Bind.bind, Except.bind]

theorem accept_consistent {plaintext : Bytes} {rx : ResourceReceiver}
    (accepted : accept plaintext = .ok rx) : rx.Consistent := by
  obtain ⟨adv, -, made⟩ := accept_ok_iff.mp accepted
  obtain ⟨-, some, small, known, rfl⟩ := ofAdvertisement_ok_iff.mp made
  exact {
    received := by simp [initial]
    consecutive := by simp [initial]
    height := by
      simp only [initial, filled_map_some_append, List.length_take, quads_length, inAdv,
        MAPHASH_LEN]
      omega
    heightPositive := known
    heldKnown := by simp [part, initial]
    windowLow := Nat.le_refl _
    windowHigh := (by decide : WINDOW_START ≤ WINDOW_MAX)
    nonempty := by simpa [initial] using some
    bounded := by simpa [initial] using small }

theorem collectRequested_append (rx : ResourceReceiver) (front rest : List Nat)
    (known : ∀ i ∈ front, (rx.part i).isSome ∨ (rx.mapHash i).isSome) :
    rx.collectRequested (front ++ rest)
      = ((front.filter fun i => (rx.part i).isNone).filterMap rx.mapHash
          ++ (rx.collectRequested rest).1,
        (rx.collectRequested rest).2) := by
  induction front with
  | nil => rfl
  | cons i front ih =>
    have tail := ih fun j later => known j (List.mem_cons_of_mem i later)
    rw [List.cons_append, collectRequested]
    by_cases held : (rx.part i).isSome
    · rw [if_pos held, tail,
        List.filter_cons_of_neg (by simp [Option.isSome_iff_ne_none.mp held])]
    · -- A part that is not held is known, so the walk does not stop here.
      obtain ⟨h, found⟩ := Option.isSome_iff_exists.mp
        ((known i List.mem_cons_self).resolve_left held)
      rw [if_neg held, List.filter_cons_of_pos (by simpa using held),
        List.filterMap_cons_some found]
      simp only [found, tail, List.cons_append]

theorem nextRequest_ok {rx next : ResourceReceiver} {request : Option Bytes}
    (asked : rx.nextRequest = .ok (request, next)) :
    ∃ outstanding waiting,
      next = { rx with outstanding := outstanding, waitingForHmu := waiting } := by
  unfold nextRequest at asked
  simp only at asked
  split_ifs at asked
  · exact ⟨rx.outstanding, rx.waitingForHmu, (congrArg Prod.snd (Except.ok.inj asked)).symm⟩
  · exact ⟨_, rx.waitingForHmu, (congrArg Prod.snd (Except.ok.inj asked)).symm⟩
  · split at asked
    · exact ⟨_, true, (congrArg Prod.snd (Except.ok.inj asked)).symm⟩
    · cases asked
    · cases asked
  · exact ⟨_, rx.waitingForHmu, (congrArg Prod.snd (Except.ok.inj asked)).symm⟩

theorem Consistent.nextRequest {rx next : ResourceReceiver} {request : Option Bytes}
    (book : rx.Consistent) (asked : rx.nextRequest = .ok (request, next)) :
    next.Consistent := by
  obtain ⟨outstanding, waiting, rfl⟩ := nextRequest_ok asked
  exact { book with }

theorem mapHash_applyPage (rx : ResourceReceiver) (page : Nat) (bytes : Bytes) (i : Nat) :
    (rx.applyPage page bytes).mapHash i
      = if rx.mapHash i = none ∧ page * HASHMAP_MAX_LEN % wordSize ≤ i ∧ i < rx.parts.length
        then (quads bytes)[i - page * HASHMAP_MAX_LEN % wordSize]?
        else rx.mapHash i := by
  change slot (fillPage _ (quads bytes) (rx.mapHashes, rx.hashmapHeight)).1 i = _
  rw [slot_fillPage, rx.sized]
  rfl

theorem Consistent.applyPage {rx : ResourceReceiver} (book : rx.Consistent) (page : Nat)
    (bytes : Bytes) : (rx.applyPage page bytes).Consistent := by
  have height := fillPage_height (page * HASHMAP_MAX_LEN % wordSize) (quads bytes)
    rx.mapHashes rx.hashmapHeight
  have counted := book.height
  exact {
    received := book.received
    consecutive := book.consecutive
    height := by simp only [ResourceReceiver.applyPage]; omega
    heightPositive := Nat.lt_of_lt_of_le book.heightPositive
      (le_fillPage_height _ _ (rx.mapHashes, rx.hashmapHeight))
    heldKnown := by
      intro i held
      have known := book.heldKnown i held
      rw [mapHash_applyPage, if_neg]
      · exact known
      · rintro ⟨unknown, -⟩
        rw [unknown] at known
        cases known
    windowLow := book.windowLow
    windowHigh := book.windowHigh
    nonempty := book.nonempty
    bounded := book.bounded }

theorem mem_windowIndices {rx : ResourceReceiver} {i : Nat} :
    i ∈ rx.windowIndices
      ↔ rx.consecutive ≤ i ∧ i < rx.consecutive + rx.window ∧ i < rx.parts.length := by
  rw [windowIndices, List.mem_range'_1]
  omega

/-- The receiver after a part has been stored, its window opened up if it was the last one. -/
def stored (rx : ResourceReceiver) (i : Nat) (data : Bytes) : ResourceReceiver :=
  { rx.storePart i data with
    window := if rx.outstanding ≤ 1 then min (rx.window + 1) WINDOW_MAX else rx.window }

theorem receivePart_cases (crypto : Crypto) (rx : ResourceReceiver) (data : Bytes) :
    (rx.receivePart crypto data = (false, rx) ∧
      ∀ i ∈ rx.windowIndices, rx.mapHash i = some (partMapHash crypto rx.randomHash data) →
        (rx.part i).isSome) ∨
    ∃ i ∈ rx.windowIndices, rx.mapHash i = some (partMapHash crypto rx.randomHash data) ∧
      rx.part i = none ∧
      rx.receivePart crypto data = (decide (rx.outstanding ≤ 1), rx.stored i data) := by
  rw [receivePart]
  cases found : rx.windowIndices.find? (fun i => rx.mapHash i
      = some (partMapHash crypto rx.randomHash data) ∧ rx.part i = none) with
  | none =>
    refine .inl ⟨rfl, ?_⟩
    intro i within known
    rw [List.find?_eq_none] at found
    have held := found i within
    simpa [known, Option.isSome_iff_ne_none] using held
  | some i =>
    have within := List.mem_of_find?_eq_some found
    have matches' := List.find?_some found
    simp only [decide_eq_true_eq] at matches'
    refine .inr ⟨i, within, matches'.1, matches'.2, ?_⟩
    -- The counter saturates, so it reaches zero from one and from zero alike.
    by_cases last : rx.outstanding ≤ 1
    · have none : rx.outstanding - 1 = 0 := by omega
      simp [stored, storePart, last, none]
    · have some : rx.outstanding - 1 ≠ 0 := by omega
      simp [stored, storePart, last, some]

theorem part_stored {rx : ResourceReceiver} {i : Nat} (data : Bytes)
    (inside : i < rx.parts.length) (j : Nat) :
    (rx.stored i data).part j = if i = j then some data else rx.part j :=
  slot_set inside

theorem Consistent.stored {rx : ResourceReceiver} (book : rx.Consistent) {i : Nat} (data : Bytes)
    (within : i ∈ rx.windowIndices) (known : (rx.mapHash i).isSome)
    (absent : rx.part i = none) : (rx.stored i data).Consistent := by
  obtain ⟨-, -, inside⟩ := mem_windowIndices.mp within
  have low := book.windowLow
  have high := book.windowHigh
  exact {
    received := by
      have one := filled_set (a := data) inside absent
      have counted := book.received
      simp only [ResourceReceiver.stored, storePart]
      omega
    consecutive := by
      -- The walk starts inside the front, so it ends where the front ends.
      refine add_leading_drop ?_
      rw [book.consecutive]
      exact leading_le_leading_set inside
    height := book.height
    heightPositive := book.heightPositive
    heldKnown := by
      intro j held
      rw [part_stored data inside] at held
      by_cases here : i = j
      · exact here ▸ known
      · exact book.heldKnown j (by rwa [if_neg here] at held)
    windowLow := by
      simp only [ResourceReceiver.stored]
      split_ifs <;> simp only [WINDOW_START, WINDOW_MAX] at * <;> omega
    windowHigh := by
      simp only [ResourceReceiver.stored]
      split_ifs <;> omega
    nonempty := by simpa [ResourceReceiver.stored, storePart] using book.nonempty
    bounded := by simpa [ResourceReceiver.stored, storePart] using book.bounded }

theorem Consistent.receivePart {rx : ResourceReceiver} (book : rx.Consistent) (crypto : Crypto)
    (data : Bytes) : (rx.receivePart crypto data).2.Consistent := by
  rcases receivePart_cases crypto rx data with ⟨ignored, -⟩ | ⟨i, within, known, absent, taken⟩
  · rw [ignored]
    exact book
  · rw [taken]
    exact book.stored data within (by rw [known]; rfl) absent

end ResourceReceiver

end LxmfChat
