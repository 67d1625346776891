import LxmfChat.Base.Runs
import LxmfChat.Reticulum.Resource.ReceiverLaws

/-! When the known map-hashes stay a prefix of the table, over any sequence of calls. -/

namespace LxmfChat

open Base
open Relation (ReflTransGen)

variable {rx : ResourceReceiver} {page : Nat} {plaintext : Bytes} {crypto : Crypto}

namespace ResourceReceiver

/-- The height is the number of map-hashes known before the first unknown one. -/
def Contiguous (rx : ResourceReceiver) : Prop := rx.hashmapHeight = leading rx.mapHashes

instance (rx : ResourceReceiver) : Decidable rx.Contiguous :=
  inferInstanceAs (Decidable (_ = _))

theorem contiguous_iff (book : rx.Consistent) :
    rx.Contiguous ↔ ∀ i, (rx.mapHash i).isSome ↔ i < rx.hashmapHeight := by
  constructor
  · intro contiguous i
    constructor
    · intro known
      rw [contiguous]
      refine (leading_eq_filled_iff rx.mapHashes).mp ?_ i known
      rw [← contiguous, book.height]
    · intro front
      exact isSome_of_lt_leading (contiguous ▸ front)
  · intro exact
    exact (leading_eq_of_front exact).symm

theorem contiguous_of_front (book : rx.Consistent) {k : Nat}
    (exact : ∀ i, (rx.mapHash i).isSome ↔ i < k) : rx.Contiguous := by
  rw [Contiguous, book.height, filled_eq_of_front exact, leading_eq_of_front exact]

inductive Call where
  | nextRequest
  | receivePart (data : Bytes)
  | receiveHashmapUpdate (plaintext : Bytes)
deriving DecidableEq

def call (crypto : Crypto) (rx : ResourceReceiver) : Call → Except Fault ResourceReceiver
  | .nextRequest =>
    match rx.nextRequest with
    | .ok (_, next) => .ok next
    | .error fault => .error fault
  | .receivePart data => .ok (rx.receivePart crypto data).2
  | .receiveHashmapUpdate plaintext => rx.receiveHashmapUpdate plaintext

def after (crypto : Crypto) (rx : ResourceReceiver) (c : Call) : Option ResourceReceiver :=
  match rx.call crypto c with
  | .ok next => some next
  | .error (.err _) => some rx
  | .error (.panic _) => none

/-- The page a hashmap update names and its bytes, when the receiver takes the update. -/
def updatePage (rx : ResourceReceiver) (plaintext : Bytes) : Option (Nat × Bytes) :=
  if plaintext.length < 32 ∨ plaintext.take 32 ≠ rx.hash.val then none
  else (parseHashmapUpdate (plaintext.drop 32)).toOption

/--
One call does what the paging relies on.

A request finds the last known map-hash.
An update's base does not wrap, and it fills only slots of the page it names.
-/
def CallSound (rx : ResourceReceiver) : Call → Prop
  | .nextRequest => ∃ result, rx.nextRequest = .ok result
  | .receivePart _ => True
  | .receiveHashmapUpdate plaintext =>
    ∀ page bytes, rx.updatePage plaintext = some (page, bytes) →
      page * HASHMAP_MAX_LEN < wordSize ∧
      ∀ i, rx.mapHash i = none → ((rx.applyPage page bytes).mapHash i).isSome →
        page * HASHMAP_MAX_LEN ≤ i ∧ i < (page + 1) * HASHMAP_MAX_LEN

/-- Every state of a run is contiguous and every call of it is sound. -/
def RunSound (crypto : Crypto) : ResourceReceiver → List Call → Prop
  | rx, [] => rx.Contiguous
  | rx, c :: rest =>
    rx.Contiguous ∧ rx.CallSound c ∧ ∀ next, rx.after crypto c = some next →
      RunSound crypto next rest

/--
A page comes in order: it adds no map-hash, or it continues the known ones within its bounds.

The page number must also be small enough for its base to fit a machine word.
-/
def PageInOrder (rx : ResourceReceiver) (page count : Nat) : Prop :=
  page * HASHMAP_MAX_LEN < wordSize ∧
  (min (page * HASHMAP_MAX_LEN + count) rx.parts.length
      ≤ max (page * HASHMAP_MAX_LEN) rx.hashmapHeight ∨
    (page * HASHMAP_MAX_LEN ≤ rx.hashmapHeight ∧
      min (page * HASHMAP_MAX_LEN + count) rx.parts.length ≤ (page + 1) * HASHMAP_MAX_LEN))

/-- Every update the receiver takes in a run comes in order. -/
def RunInOrder (crypto : Crypto) : ResourceReceiver → List Call → Prop
  | _, [] => True
  | rx, c :: rest =>
    (∀ plaintext, c = .receiveHashmapUpdate plaintext →
      ∀ page bytes, rx.updatePage plaintext = some (page, bytes) →
        rx.PageInOrder page (quads bytes).length) ∧
    ∀ next, rx.after crypto c = some next → RunInOrder crypto next rest

theorem Contiguous.nextRequest_ok (book : rx.Consistent) (contiguous : rx.Contiguous) :
    ∃ result, rx.nextRequest = .ok result := by
  have positive := book.heightPositive
  have known := ((contiguous_iff book).mp contiguous (rx.hashmapHeight - 1)).mpr (by omega)
  obtain ⟨last, found⟩ := Option.isSome_iff_exists.mp known
  have entry : rx.mapHashes[rx.hashmapHeight - 1]? = some (some last) :=
    Option.join_eq_some_iff.mp found
  unfold nextRequest
  simp only [entry]
  split_ifs
  all_goals exact ⟨_, rfl⟩

theorem isSome_mapHash_applyPage (book : rx.Consistent) (contiguous : rx.Contiguous)
    (fits : page * HASHMAP_MAX_LEN < wordSize) (bytes : Bytes) (i : Nat) :
    ((rx.applyPage page bytes).mapHash i).isSome ↔ i < rx.hashmapHeight ∨
      (page * HASHMAP_MAX_LEN ≤ i ∧
        i < min (page * HASHMAP_MAX_LEN + (quads bytes).length) rx.parts.length) := by
  have known := (contiguous_iff book).mp contiguous i
  rw [mapHash_applyPage, Nat.mod_eq_of_lt fits]
  split_ifs with unknown
  · -- An unknown slot inside the table is filled exactly when the page reaches that far.
    obtain ⟨empty, low, high⟩ := unknown
    rw [empty] at known
    have reach : ((quads bytes)[i - page * HASHMAP_MAX_LEN]?).isSome
        ↔ i - page * HASHMAP_MAX_LEN < (quads bytes).length := by simp
    rw [reach]
    simp only [Option.isSome_none, Bool.false_eq_true, false_iff] at known
    omega
  · rw [known]
    constructor
    · exact .inl
    · rintro (front | ⟨low, high⟩)
      · exact front
      · rw [← known, Option.isSome_iff_ne_none]
        intro empty
        exact unknown ⟨empty, low, by omega⟩

theorem PageInOrder.sound {bytes : Bytes} (book : rx.Consistent) (contiguous : rx.Contiguous)
    (ordered : rx.PageInOrder page (quads bytes).length) :
    (∀ i, rx.mapHash i = none → ((rx.applyPage page bytes).mapHash i).isSome →
      page * HASHMAP_MAX_LEN ≤ i ∧ i < (page + 1) * HASHMAP_MAX_LEN) ∧
    (rx.applyPage page bytes).Contiguous := by
  obtain ⟨fits, order⟩ := ordered
  have known := isSome_mapHash_applyPage book contiguous fits bytes
  have before := (contiguous_iff book).mp contiguous
  rw [Nat.add_one_mul] at order ⊢
  generalize page * HASHMAP_MAX_LEN = base at *
  generalize top : min (base + (quads bytes).length) rx.parts.length = stop at *
  constructor
  · intro i empty filled
    have unknown : ¬ i < rx.hashmapHeight := by
      rw [← before, empty]
      simp
    have reached := (known i).mp filled
    omega
  · -- Whichever case applies, the known map-hashes end at the larger of the two heights.
    rcases order with nothing | ⟨start, -⟩
    · refine contiguous_of_front (book.applyPage page bytes) (k := rx.hashmapHeight) ?_
      intro i
      rw [known i]
      omega
    · refine contiguous_of_front (book.applyPage page bytes)
        (k := max rx.hashmapHeight stop) ?_
      intro i
      rw [known i]
      omega

theorem pageInOrder_of_sound {bytes : Bytes} (book : rx.Consistent) (contiguous : rx.Contiguous)
    (fits : page * HASHMAP_MAX_LEN < wordSize)
    (inside : ∀ i, rx.mapHash i = none → ((rx.applyPage page bytes).mapHash i).isSome →
      page * HASHMAP_MAX_LEN ≤ i ∧ i < (page + 1) * HASHMAP_MAX_LEN)
    (after : (rx.applyPage page bytes).Contiguous) : rx.PageInOrder page (quads bytes).length := by
  have known := isSome_mapHash_applyPage book contiguous fits bytes
  have before := (contiguous_iff book).mp contiguous
  have exact := (contiguous_iff (book.applyPage page bytes)).mp after
  refine ⟨fits, ?_⟩
  rw [Nat.add_one_mul] at *
  generalize page * HASHMAP_MAX_LEN = base at *
  generalize top : min (base + (quads bytes).length) rx.parts.length = stop at *
  by_cases nothing : stop ≤ max base rx.hashmapHeight
  · exact .inl nothing
  -- The page fills the slots from here up to where it stops.
  have reached : ∀ i, max base rx.hashmapHeight ≤ i → i < stop →
      i < (rx.applyPage page bytes).hashmapHeight := fun i low high =>
    (exact i).mp ((known i).mpr (.inr ⟨by omega, high⟩))
  have gap : base ≤ rx.hashmapHeight := by
    -- Otherwise the slot at the old height would stay unknown below a filled one.
    by_contra beyond
    have first := reached (max base rx.hashmapHeight) (Nat.le_refl _) (by omega)
    have filled := (known rx.hashmapHeight).mp ((exact rx.hashmapHeight).mpr (by omega))
    omega
  refine .inr ⟨gap, ?_⟩
  have last := inside (stop - 1)
    (by
      rw [← Option.not_isSome_iff_eq_none, before]
      omega)
    ((known _).mpr (.inr ⟨by omega, by omega⟩))
  omega

theorem receiveHashmapUpdate_of_updatePage {bytes : Bytes}
    (taken : rx.updatePage plaintext = some (page, bytes)) :
    rx.receiveHashmapUpdate plaintext = .ok (rx.applyPage page bytes) := by
  unfold updatePage at taken
  unfold receiveHashmapUpdate
  split_ifs at taken ⊢ with other
  cases parsed : parseHashmapUpdate (plaintext.drop 32) with
  | error fault => simp [parsed, Except.toOption] at taken
  | ok result =>
    rw [parsed] at taken
    obtain rfl := Option.some.inj taken
    rfl

theorem after_update_of_not_taken {next : ResourceReceiver}
    (refused : rx.updatePage plaintext = none)
    (stepped : rx.after crypto (.receiveHashmapUpdate plaintext) = some next) : next = rx := by
  unfold updatePage at refused
  simp only [after, call, receiveHashmapUpdate] at stepped
  split_ifs at refused stepped with other
  · exact (Option.some.inj stepped).symm
  · cases parsed : parseHashmapUpdate (plaintext.drop 32) with
    | error fault =>
      rw [parsed] at stepped
      cases fault with
      | err message => exact (Option.some.inj stepped).symm
      | panic message => cases stepped
    | ok result => simp [parsed, Except.toOption] at refused

theorem after_nextRequest {next : ResourceReceiver}
    (stepped : rx.after crypto .nextRequest = some next) :
    next = rx ∨ ∃ request, rx.nextRequest = .ok (request, next) := by
  simp only [ResourceReceiver.after, call] at stepped
  cases asked : rx.nextRequest with
  | error fault =>
    rw [asked] at stepped
    cases fault with
    | err message => exact .inl (Option.some.inj stepped).symm
    | panic message => cases stepped
  | ok result =>
    rw [asked] at stepped
    exact .inr ⟨result.1, by rw [← Option.some.inj stepped]⟩

theorem Consistent.after {next : ResourceReceiver} {c : Call} (book : rx.Consistent)
    (stepped : rx.after crypto c = some next) : next.Consistent := by
  cases c with
  | nextRequest =>
    rcases after_nextRequest stepped with rfl | ⟨request, asked⟩
    · exact book
    · exact book.nextRequest asked
  | receivePart data => exact Option.some.inj stepped ▸ book.receivePart crypto data
  | receiveHashmapUpdate plaintext =>
    cases taken : rx.updatePage plaintext with
    | none => exact after_update_of_not_taken taken stepped ▸ book
    | some result =>
      simp only [ResourceReceiver.after, call, receiveHashmapUpdate_of_updatePage taken]
        at stepped
      exact Option.some.inj stepped ▸ book.applyPage _ _

/-- One receiver comes from another by a call of the application. -/
def Called (crypto : Crypto) (rx next : ResourceReceiver) : Prop := ∃ c, rx.after crypto c = some next

theorem consistent_run {advertisement : Bytes} {start : ResourceReceiver}
    (accepted : accept advertisement = .ok start) (run : ReflTransGen (Called crypto) start rx) :
    rx.Consistent := by
  apply reachable_of_keeps (I := Consistent) _ (accept_consistent accepted) run
  rintro before after book ⟨c, stepped⟩
  exact book.after stepped

theorem accept_contiguous (accepted : accept plaintext = .ok rx) : rx.Contiguous := by
  have book := accept_consistent accepted
  obtain ⟨adv, -, made⟩ := accept_ok_iff.mp accepted
  obtain ⟨-, -, -, -, rfl⟩ := ofAdvertisement_ok_iff.mp made
  refine contiguous_of_front book (k := inAdv adv) ?_
  intro i
  -- The advertisement's own map-hashes are exactly those below the height.
  rw [mapHash_initial, inAdv]
  split_ifs with front
  · simp only [Option.isSome_iff_ne_none, ne_eq, List.getElem?_eq_none_iff, quads_length,
      MAPHASH_LEN] at front ⊢
    omega
  · simp only [Option.isSome_none, Bool.false_eq_true, false_iff]
    exact front

theorem Contiguous.after_of_not_update {next : ResourceReceiver} {c : Call}
    (contiguous : rx.Contiguous) (other : ∀ plaintext, c ≠ .receiveHashmapUpdate plaintext)
    (stepped : rx.after crypto c = some next) : next.Contiguous := by
  cases c with
  | nextRequest =>
    rcases after_nextRequest stepped with rfl | ⟨request, asked⟩
    · exact contiguous
    · obtain ⟨outstanding, waiting, same⟩ := ResourceReceiver.nextRequest_ok asked
      rw [same]
      exact contiguous
  | receivePart data =>
    obtain rfl := Option.some.inj stepped
    rcases receivePart_cases crypto rx data with ⟨ignored, -⟩ | ⟨i, -, -, -, taken⟩
    · rw [ignored]
      exact contiguous
    · rw [taken]
      exact contiguous
  | receiveHashmapUpdate plaintext => exact absurd rfl (other plaintext)

theorem after_update {bytes : Bytes} (taken : rx.updatePage plaintext = some (page, bytes)) :
    rx.after crypto (.receiveHashmapUpdate plaintext) = some (rx.applyPage page bytes) := by
  simp only [after, call, receiveHashmapUpdate_of_updatePage taken]

theorem RunSound.contiguous {calls : List Call} (sound : RunSound crypto rx calls) :
    rx.Contiguous := by
  cases calls with
  | nil => exact sound
  | cons c rest => exact sound.1

theorem Contiguous.step (crypto : Crypto) {c : Call} (book : rx.Consistent)
    (contiguous : rx.Contiguous) (ordered : ∀ plaintext, c = .receiveHashmapUpdate plaintext →
      ∀ page bytes, rx.updatePage plaintext = some (page, bytes) →
        rx.PageInOrder page (quads bytes).length) :
    rx.CallSound c ∧ ∀ next, rx.after crypto c = some next → next.Contiguous := by
  cases c with
  | nextRequest =>
    exact ⟨contiguous.nextRequest_ok book, fun next stepped =>
      contiguous.after_of_not_update (by simp) stepped⟩
  | receivePart data =>
    exact ⟨trivial, fun next stepped => contiguous.after_of_not_update (by simp) stepped⟩
  | receiveHashmapUpdate plaintext =>
    constructor
    · intro page bytes taken
      have order := ordered plaintext rfl page bytes taken
      exact ⟨order.1, (order.sound book contiguous).1⟩
    · intro next stepped
      cases taken : rx.updatePage plaintext with
      | none => exact after_update_of_not_taken taken stepped ▸ contiguous
      | some result =>
        have order := ordered plaintext rfl result.1 result.2 taken
        rw [after_update taken] at stepped
        exact Option.some.inj stepped ▸ (order.sound book contiguous).2

/--
A run is sound exactly when every update it takes comes in order.

This is the whole dependence on the other side: nothing else it sends can break the paging.
-/
theorem runSound_iff_runInOrder (crypto : Crypto) {plaintext : Bytes} {rx : ResourceReceiver}
    (accepted : accept plaintext = .ok rx) (calls : List Call) :
    RunSound crypto rx calls ↔ RunInOrder crypto rx calls := by
  have general : ∀ (calls : List Call) (rx : ResourceReceiver), rx.Consistent → rx.Contiguous →
      (RunSound crypto rx calls ↔ RunInOrder crypto rx calls) := by
    intro calls
    -- One call is handled here, and the calls after it start from a contiguous table again.
    induction calls with
    | nil =>
      intro rx _ contiguous
      exact ⟨fun _ => trivial, fun _ => contiguous⟩
    | cons c rest ih =>
      intro rx book contiguous
      constructor
      · rintro ⟨-, sound, tail⟩
        refine ⟨?_, fun next stepped => ?_⟩
        · rintro update rfl page bytes taken
          obtain ⟨fits, inside⟩ := sound page bytes taken
          exact pageInOrder_of_sound book contiguous fits inside
            (tail _ (after_update taken)).contiguous
        · exact (ih next (book.after stepped) (tail next stepped).contiguous).mp
            (tail next stepped)
      · rintro ⟨ordered, tail⟩
        obtain ⟨sound, keeps⟩ := contiguous.step crypto book ordered
        refine ⟨contiguous, sound, fun next stepped => ?_⟩
        exact (ih next (book.after stepped) (keeps next stepped)).mpr (tail next stepped)
  exact general calls rx (accept_consistent accepted) (accept_contiguous accepted)

/-- An advertisement of seventy-five parts that carries the map-hash of the first one only. -/
def shortAdvertisement : Bytes :=
  [0x84, 0xa1, 0x68, 0xc4, 32] ++ List.replicate 32 7 ++
    [0xa1, 0x72, 0xc4, 4, 1, 2, 3, 4, 0xa1, 0x6d, 0xc4, 4, 5, 5, 5, 5, 0xa1, 0x6e, 75]

def earlyUpdate : Bytes := List.replicate 32 7 ++ [0x92, 1, 0xc4, 4, 9, 9, 9, 9]

/-- A hashmap update for that resource: two map-hashes for a page whose base wraps to zero. -/
def wrappingUpdate : Bytes :=
  List.replicate 32 7 ++ [0x92, 0xce, 0x80, 0, 0, 0, 0xc4, 8, 9, 9, 9, 9, 8, 8, 8, 8]

/-- The counts of known map-hashes after an update, and what the next request then gives. -/
def requestAfter (update : Bytes) : Except Fault (Nat × Nat × Except Fault (Option Bytes)) := do
  let rx ← accept shortAdvertisement
  let rx ← rx.receiveHashmapUpdate update
  return (rx.hashmapHeight, leading rx.mapHashes, rx.nextRequest.map (·.1))

def secondHashAfter (update : Bytes) : Except Fault (Nat × Option MapHash × Option MapHash) := do
  let rx ← accept shortAdvertisement
  let (page, _) ← parseHashmapUpdate (update.drop 32)
  return (page, rx.mapHash 1, (← rx.receiveHashmapUpdate update).mapHash 1)

/--
A peer can break the paging with one update.

A page that arrives early leaves a gap: the height is two, one leading map-hash is known, and
the next request panics.
A page number whose base wraps to zero fills the second slot, far outside the page it names.
-/
theorem early_page_panics :
    requestAfter earlyUpdate = .ok (2, 1, .error (.panic "known prefix")) ∧
    secondHashAfter wrappingUpdate = .ok (2 ^ 31, none, some ⟨[8, 8, 8, 8], rfl⟩) := by
  constructor
  · decide +kernel
  · decide +kernel

def orderlyUpdate : Bytes :=
  List.replicate 32 7 ++ [0x92, 0, 0xc4, 8, 5, 5, 5, 5, 8, 8, 8, 8]

/-- An update in order keeps the run sound. -/
theorem runSound_orderlyUpdate : ∃ rx, accept shortAdvertisement = .ok rx ∧
    RunSound Crypto.sample rx [.receiveHashmapUpdate orderlyUpdate, .nextRequest] := by
  have facts : (accept shortAdvertisement).map (fun rx =>
      (rx.hashmapHeight, rx.parts.length, rx.updatePage orderlyUpdate))
      = .ok (1, 75, some (0, [5, 5, 5, 5, 8, 8, 8, 8])) := by decide +kernel
  cases accepted : accept shortAdvertisement with
  | error fault => simp [accepted, Except.map] at facts
  | ok rx =>
    simp only [accepted, Except.map, Except.ok.injEq, Prod.mk.injEq] at facts
    obtain ⟨height, length, taken⟩ := facts
    refine ⟨rx, rfl, (runSound_iff_runInOrder Crypto.sample accepted _).mpr ⟨?_, ?_⟩⟩
    · rintro update same page bytes found
      obtain rfl := Call.receiveHashmapUpdate.inj same
      obtain ⟨rfl, rfl⟩ : 0 = page ∧ [5, 5, 5, 5, 8, 8, 8, 8] = bytes := by
        simpa [taken] using found
      rw [PageInOrder, height, length]
      decide
    · exact fun next _ => ⟨by simp, fun _ _ => trivial⟩

end ResourceReceiver

end LxmfChat
