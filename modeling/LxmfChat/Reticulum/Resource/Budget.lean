import LxmfChat.Reticulum.Resource.Bookkeeping
import LxmfChat.Reticulum.Resource.Exchange
import Mathlib.Algebra.Group.Action.Defs
import Mathlib.Algebra.Order.BigOperators.Group.List

/-! How many bytes a receiver holds, when the other side chooses the parts. -/

namespace LxmfChat

open Base
open Relation (ReflTransGen)

namespace ResourceReceiver

variable {crypto : Crypto} {limit : Nat} {rx next : ResourceReceiver}

/-- One receiver comes from another by a call that feeds it no part longer than the limit. -/
def Fed (crypto : Crypto) (limit : Nat) (rx next : ResourceReceiver) : Prop :=
  ∃ c, (∀ data, c = .receivePart data → data.length ≤ limit) ∧ rx.after crypto c = some next

theorem called_run_of_fed (run : ReflTransGen (Fed crypto limit) rx next) :
    ReflTransGen (Called crypto) rx next := by
  induction run with
  | refl => exact .refl
  | tail _ last ih =>
    obtain ⟨c, -, stepped⟩ := last
    exact ih.tail ⟨c, stepped⟩

/-- No part that is held is longer than the limit. -/
def Within (limit : Nat) (rx : ResourceReceiver) : Prop :=
  ∀ i data, rx.part i = some data → data.length ≤ limit

theorem Within.fed (within : rx.Within limit) (fed : Fed crypto limit rx next) :
    next.Within limit := by
  obtain ⟨c, short, stepped⟩ := fed
  intro j data held
  rcases after_cases stepped with
    ⟨outstanding, waiting, rfl⟩ | ⟨i, new, rfl, window, -, -, rfl⟩ | ⟨page, bytes, rfl⟩
  · exact within j data held
  · rw [part_stored new (mem_windowIndices.mp window).2.2] at held
    split_ifs at held with here
    · -- The slot was filled by this very call.
      obtain rfl := Option.some.inj held
      exact short _ rfl
    · exact within j data held
  · exact within j data held

theorem within_run {plaintext : Bytes} {start : ResourceReceiver}
    (accepted : accept plaintext = .ok start) (run : ReflTransGen (Fed crypto limit) start rx) :
    rx.Within limit := by
  refine reachable_of_keeps (I := Within limit) (fun _ _ within fed => within.fed fed) ?_ run
  -- A receiver that has just been set up holds nothing.
  obtain ⟨adv, -, made⟩ := accept_ok_iff.mp accepted
  obtain ⟨-, -, -, -, rfl⟩ := ofAdvertisement_ok_iff.mp made
  intro i data held
  simp [part, initial] at held

theorem concat_length_le (within : rx.Within limit) :
    rx.concat.length ≤ rx.parts.length * limit := by
  have each : ∀ size ∈ rx.parts.map (fun slot => (slot.getD []).length), size ≤ limit := by
    intro size among
    obtain ⟨slot, there, rfl⟩ := List.mem_map.mp among
    cases slot with
    | none => exact Nat.zero_le limit
    | some data =>
      obtain ⟨i, inside, value⟩ := List.getElem_of_mem there
      refine within i data ?_
      rw [part, slot, List.getElem?_eq_getElem inside, value]
      rfl
  have total := List.sum_le_card_nsmul _ limit each
  rw [List.length_map, smul_eq_mul] at total
  rw [concat, List.length_flatMap]
  exact total

end ResourceReceiver

section Uniform

variable (crypto : Crypto) (count : Nat) (block : Bytes)

def ResourceSender.uniform : ResourceSender where
  hash := BytesN.ofBytes 32 []
  expectedProof := BytesN.ofBytes 32 []
  randomHash := BytesN.ofBytes 4 []
  parts := List.replicate count block
  mapHashes := List.replicate count (partMapHash crypto (BytesN.ofBytes 4 []).val block)
  dataSize := 0
  transferSize := 0
  sized := by rw [List.length_replicate, List.length_replicate]

end Uniform

namespace Synced

open ResourceReceiver (Fed)

variable {crypto : Crypto} {limit count : Nat} {block : Bytes} {rx : ResourceReceiver}

theorem learns (crypto : Crypto) (limit : Nat) {tx : ResourceSender} (sync : Synced tx rx) :
    ∃ next, ReflTransGen (Fed crypto limit) rx next ∧ Synced tx next ∧ next.parts = rx.parts ∧
      next.hashmapHeight = tx.parts.length := by
  -- The induction is on how many map-hashes are still unknown.
  induction unknown : tx.parts.length - rx.hashmapHeight using Nat.strong_induction_on
    generalizing rx with
  | _ unknown ih =>
    subst unknown
    have bound := sync.height_le
    by_cases all : rx.hashmapHeight = tx.parts.length
    · exact ⟨rx, .refl, sync, rfl, all⟩
    · -- The known map-hashes end on a page boundary, and the next page goes on from there.
      have boundary : rx.hashmapHeight / HASHMAP_MAX_LEN * HASHMAP_MAX_LEN = rx.hashmapHeight := by
        have paged := sync.paged
        rw [sync.count, HASHMAP_MAX_LEN] at *
        omega
      have reached := Nat.le_of_eq boundary
      have height := sync.height_applyPage reached
      rw [Nat.add_one_mul, boundary] at height
      have higher : tx.parts.length - (rx.applyPage (rx.hashmapHeight / HASHMAP_MAX_LEN)
          (tx.pageBytes (rx.hashmapHeight / HASHMAP_MAX_LEN))).hashmapHeight
          < tx.parts.length - rx.hashmapHeight := by
        rw [height, HASHMAP_MAX_LEN]
        omega
      obtain ⟨next, run, synced, parts, whole⟩ := ih _ higher (sync.applyPage reached) rfl
      refine ⟨next, .head ⟨.receiveHashmapUpdate
        (tx.hashmapUpdate (rx.hashmapHeight / HASHMAP_MAX_LEN)), ?_, ?_⟩ run, synced, parts, whole⟩
      · intro data impossible
        cases impossible
      · rw [ResourceReceiver.after, ResourceReceiver.call, sync.receiveHashmapUpdate reached]

theorem fills_one (sync : Synced (.uniform crypto count block) rx)
    (known : rx.hashmapHeight = count) (incomplete : rx.isComplete = false) :
    ∃ i, i ∈ rx.windowIndices ∧ rx.part i = none ∧ (rx.mapHash i).isSome ∧
      rx.receivePart crypto block = (decide (rx.outstanding ≤ 1), rx.stored i block) := by
  have size : rx.parts.length = count := by
    rw [sync.count]
    exact List.length_replicate
  have salted : rx.randomHash = (BytesN.ofBytes 4 []).val := sync.salt
  rcases ResourceReceiver.receivePart_cases crypto rx block with
    ⟨-, held⟩ | ⟨i, within, known, absent, taken⟩
  · -- The first missing part is in the window and has the map-hash that every part has.
    have inside : rx.consecutive < count := by
      have low := sync.consecutive_le
      have apart : rx.consecutive ≠ rx.parts.length := fun whole => by
        rw [sync.book.isComplete_iff_consecutive.mpr whole] at incomplete
        cases incomplete
      omega
    have low := sync.book.windowLow
    rw [WINDOW_START] at low
    have window : rx.consecutive ∈ rx.windowIndices :=
      ResourceReceiver.mem_windowIndices.mpr ⟨Nat.le_refl _, by omega, by omega⟩
    have first := held rx.consecutive window (by
      rw [sync.known, known, if_pos inside, salted]
      simp [ResourceSender.uniform, inside])
    rw [sync.book.part_consecutive] at first
    cases first
  · exact ⟨i, within, absent, by rw [known]; rfl, taken⟩

theorem fills (sync : Synced (.uniform crypto count block) rx) (known : rx.hashmapHeight = count)
    (same : ∀ i data, rx.part i = some data → data = block) (short : block.length ≤ limit) :
    ∃ next, ReflTransGen (Fed crypto limit) rx next ∧ next.isComplete = true ∧
      next.parts.length = count ∧ next.Consistent ∧
      ∀ i data, next.part i = some data → data = block := by
  -- The induction is on how many parts are missing.
  induction absent : count - rx.received using Nat.strong_induction_on generalizing rx with
  | _ absent ih =>
    subst absent
    have size : rx.parts.length = count := by
      rw [sync.count]
      exact List.length_replicate
    cases complete : rx.isComplete with
    | true => exact ⟨rx, .refl, complete, size, sync.book, same⟩
    | false =>
      obtain ⟨i, within, empty, hashed, taken⟩ := sync.fills_one known complete
      have inside := (ResourceReceiver.mem_windowIndices.mp within).2.2
      have few : rx.received < count := by
        have most := filled_le_length rx.parts
        rw [← sync.book.received, size] at most
        have other : rx.received ≠ rx.parts.length := by
          simpa [ResourceReceiver.isComplete] using complete
        omega
      have same' : ∀ j data, (rx.stored i block).part j = some data → data = block := by
        intro j data held
        rw [ResourceReceiver.part_stored block inside] at held
        split_ifs at held with here
        · exact (Option.some.inj held).symm
        · exact same j data held
      obtain ⟨next, run, whole⟩ := ih (count - (rx.stored i block).received)
        (by simp only [ResourceReceiver.stored, ResourceReceiver.storePart]; omega)
        (sync.stored block within hashed empty) known same' rfl
      refine ⟨next, .head ⟨.receivePart block, ?_, ?_⟩ run, whole⟩
      · intro data fed
        cases fed
        exact short
      · rw [ResourceReceiver.after, ResourceReceiver.call, taken]

end Synced

namespace ResourceReceiver

theorem uniform_fills (crypto : Crypto) {count : Nat} (some : 0 < count)
    (few : count ≤ MAX_TRANSFER_BYTES / RESOURCE_SDU + 1) (block : Bytes) :
    ∃ plaintext start rx, accept plaintext = .ok start ∧ start.parts.length = count ∧
      ReflTransGen (Fed crypto block.length) start rx ∧
      rx.concat.length = count * block.length := by
  have sized : (ResourceSender.uniform crypto count block).parts.length = count :=
    List.length_replicate
  obtain ⟨accepted, sync⟩ := Synced.accept (sized.symm ▸ some) (sized.symm ▸ few)
  obtain ⟨told, updates, sync', parts, known⟩ := sync.learns crypto block.length
  have nothing : ∀ i data, told.part i = Option.some data → data = block := by
    intro i data held
    rw [part, parts] at held
    simp [initial] at held
  obtain ⟨rx, run, complete, size, book, same⟩ :=
    sync'.fills (known.trans sized) nothing (Nat.le_refl block.length)
  refine ⟨_, _, rx, accepted, sync.count.trans sized, updates.trans run, ?_⟩
  -- Every slot of the complete receiver holds that string.
  have uniform : rx.parts = List.replicate count (Option.some block) := by
    refine List.eq_replicate_iff.mpr ⟨size, ?_⟩
    intro slot there
    obtain ⟨i, inside, value⟩ := List.getElem_of_mem there
    obtain ⟨data, held⟩ := Option.isSome_iff_exists.mp (book.isComplete_iff.mp complete i inside)
    have content : slot = Option.some data := by
      rw [part, Base.slot, List.getElem?_eq_getElem inside, value] at held
      exact held
    rw [content, same i data held]
  rw [concat, uniform, List.length_flatMap]
  simp

/--
The receive buffer keeps to the budget exactly if the parts are short enough.

Only the number of parts is checked, so with parts of up to some length the budget holds for
every run exactly if that many parts of that length fit it.
-/
theorem budget_kept_iff (crypto : Crypto) {count limit : Nat} (some : 0 < count)
    (few : count ≤ MAX_TRANSFER_BYTES / RESOURCE_SDU + 1) :
    (∀ plaintext start rx, accept plaintext = .ok start → start.parts.length = count →
      ReflTransGen (Fed crypto limit) start rx → rx.concat.length ≤ MAX_TRANSFER_BYTES)
      ↔ count * limit ≤ MAX_TRANSFER_BYTES := by
  constructor
  · intro kept
    -- The worst the other side can do is to fill every slot up to the limit.
    obtain ⟨plaintext, start, rx, accepted, size, run, total⟩ :=
      uniform_fills crypto some few (List.replicate limit 0)
    rw [List.length_replicate] at run total
    rw [← total]
    exact kept plaintext start rx accepted size run
  · intro fits plaintext start rx accepted size run
    have keeps := keeps_run (called_run_of_fed run)
    have most := concat_length_le (within_run accepted run)
    rw [keeps.length, size] at most
    exact Nat.le_trans most fits

/-- Parts of the size both sides agreed on fit the budget if there is one fewer than allowed. -/
theorem budget_kept_iff_sdu :
    MAX_TRANSFER_BYTES / RESOURCE_SDU * RESOURCE_SDU ≤ MAX_TRANSFER_BYTES ∧
      ∀ plaintext start rx, accept plaintext = .ok start →
        start.parts.length = MAX_TRANSFER_BYTES / RESOURCE_SDU →
        ReflTransGen (Fed Crypto.sample RESOURCE_SDU) start rx →
        rx.concat.length ≤ MAX_TRANSFER_BYTES :=
  ⟨by decide, (budget_kept_iff Crypto.sample (by decide) (by decide)).mpr (by decide)⟩

/-- A receiver of a single part takes a part that is larger than the whole budget. -/
theorem oversized_part_breaks_budget : ∃ plaintext start rx, accept plaintext = .ok start ∧
    start.parts.length = 1 ∧ ReflTransGen (Called Crypto.sample) start rx ∧
    MAX_TRANSFER_BYTES < rx.concat.length := by
  obtain ⟨plaintext, start, rx, accepted, size, run, total⟩ := uniform_fills Crypto.sample
    Nat.one_pos (by decide) (List.replicate (MAX_TRANSFER_BYTES + 1) 0)
  refine ⟨plaintext, start, rx, accepted, size, called_run_of_fed run, ?_⟩
  rw [total, List.length_replicate]
  omega

end ResourceReceiver

end LxmfChat
