import Mathlib.Logic.Relation
import LxmfChat.Reticulum.Resource.ReceiverLaws
import LxmfChat.Reticulum.Resource.WireLaws

/-! A receiver and a sender of this repository joined by a network. -/

namespace LxmfChat

open Base

inductive Message where
  | part (data : Bytes)
  | hashmapUpdate (plaintext : Bytes)
deriving DecidableEq

def ResourceSender.answer (tx : ResourceSender) (request : Bytes) : List Message :=
  (tx.handleRequest request).1.map .part
    ++ (tx.handleRequest request).2.toList.map .hashmapUpdate

/-- The receiver, its requests not yet served, and the messages on their way to it. -/
structure Exchange where
  rx : ResourceReceiver
  requests : List Bytes
  flight : List Message

namespace Exchange

def ask (st : Exchange) : Except Fault Exchange := do
  let (request, rx) ← st.rx.nextRequest
  return { st with rx := rx, requests := st.requests ++ request.toList }

def start (advertisement : Bytes) : Except Fault Exchange := do
  ask { rx := ← ResourceReceiver.accept advertisement, requests := [], flight := [] }

/-- Hand one message to the receiver, asking on when a window is full or a page has arrived. -/
def receive (crypto : Crypto) (st : Exchange) : Message → Except Fault Exchange
  | .part data =>
    let (full, rx) := st.rx.receivePart crypto data
    if full then ask { st with rx := rx } else .ok { st with rx := rx }
  | .hashmapUpdate plaintext => do
    ask { st with rx := ← st.rx.receiveHashmapUpdate plaintext }

variable (crypto : Crypto) (tx : ResourceSender)

/--
One step of a network that loses nothing.

A pending request is served, each message of the answer at least once and in any order, or a
message in flight is delivered.
-/
inductive Step : Exchange → Exchange → Prop
  | serve {st : Exchange} {before after : List Bytes} {request : Bytes} {copies : List Message}
      (pending : st.requests = before ++ request :: after)
      (answered : ∀ m, m ∈ copies ↔ m ∈ tx.answer request) :
      Step st { st with requests := before ++ after, flight := st.flight ++ copies }
  | deliver {st next : Exchange} {before after : List Message} {m : Message}
      (flying : st.flight = before ++ m :: after)
      (received : receive crypto { st with flight := before ++ after } m = .ok next) :
      Step st next

/--
One step of a network that may lose anything.

Any part of an answer may be missing, a message in flight may vanish, and the application may
ask again after a stall.
-/
inductive LossyStep : Exchange → Exchange → Prop
  | serve {st : Exchange} {before after : List Bytes} {request : Bytes} {copies : List Message}
      (pending : st.requests = before ++ request :: after)
      (answered : ∀ m ∈ copies, m ∈ tx.answer request) :
      LossyStep st { st with requests := before ++ after, flight := st.flight ++ copies }
  | deliver {st next : Exchange} {before after : List Message} {m : Message}
      (flying : st.flight = before ++ m :: after)
      (received : receive crypto { st with flight := before ++ after } m = .ok next) :
      LossyStep st next
  | lose {st : Exchange} {before after : List Message} {m : Message}
      (flying : st.flight = before ++ m :: after) :
      LossyStep st { st with flight := before ++ after }
  | recall {st next : Exchange} (asked : ask st = .ok next) : LossyStep st next

theorem Step.lossy {crypto : Crypto} {tx : ResourceSender} {st next : Exchange}
    (step : Step crypto tx st next) : LossyStep crypto tx st next := by
  cases step with
  | serve pending answered => exact .serve pending fun m copied => (answered m).mp copied
  | deliver flying received => exact .deliver flying received

end Exchange

/-- A request: the flag, the last known map-hash if a page is wanted, and the wanted parts. -/
def requestBytes (hash : FullHash) (last : Option MapHash) (wanted : List MapHash) : Bytes :=
  match last with
  | some last => HASHMAP_EXHAUSTED :: (last.val ++ hash.val ++ wanted.flatMap (·.val))
  | none => HASHMAP_NOT_EXHAUSTED :: (hash.val ++ wanted.flatMap (·.val))

theorem ResourceSender.serve_hash (tx : ResourceSender) (last : Option MapHash)
    (wanted : List MapHash) :
    tx.serve last (tx.hash.val ++ wanted.flatMap (·.val))
      = (wanted.filterMap tx.partFor, last.bind tx.nextPage) := by
  rw [serve, BytesN.take_append, if_neg (by simp), BytesN.drop_append, quads_flatMap]

theorem ResourceSender.handleRequest_requestBytes (tx : ResourceSender) (last : Option MapHash)
    (wanted : List MapHash) :
    tx.handleRequest (requestBytes tx.hash last wanted)
      = (wanted.filterMap tx.partFor, last.bind tx.nextPage) := by
  cases last with
  | some last =>
    rw [requestBytes, handleRequest, if_pos rfl, List.append_assoc, BytesN.ofBytes_append]
    rw [if_neg (by simp only [List.length_append, BytesN.length_val, MAPHASH_LEN]; omega)]
    rw [MAPHASH_LEN, BytesN.drop_append]
    exact tx.serve_hash (some last) wanted
  | none =>
    rw [requestBytes, handleRequest, if_neg (by decide),
      if_neg (by simp only [List.length_append, BytesN.length_val]; omega)]
    exact tx.serve_hash none wanted

namespace ResourceReceiver

def frontier (rx : ResourceReceiver) : Nat :=
  min (rx.consecutive + rx.window) rx.hashmapHeight

def exhausted (rx : ResourceReceiver) : Bool :=
  rx.hashmapHeight < min (rx.consecutive + rx.window) rx.parts.length

end ResourceReceiver

/--
The receiver agrees with the sender it is talking to.

It knows the sender's map-hashes up to its height, which is a page boundary or the end.
-/
structure Synced (tx : ResourceSender) (rx : ResourceReceiver) : Prop where
  book : rx.Consistent
  hash : rx.hash = tx.hash
  salt : rx.randomHash = tx.randomHash.val
  count : rx.parts.length = tx.parts.length
  known : ∀ i, rx.mapHash i = if i < rx.hashmapHeight then tx.mapHashes[i]? else none
  paged : rx.hashmapHeight % HASHMAP_MAX_LEN = 0 ∨ rx.hashmapHeight = rx.parts.length
  encrypted : rx.encrypted = true
  uncompressed : rx.compressed = false

namespace Synced

variable {tx : ResourceSender} {rx : ResourceReceiver}

theorem accept (some : 0 < tx.parts.length)
    (small : tx.parts.length ≤ MAX_TRANSFER_BYTES / RESOURCE_SDU + 1) :
    ResourceReceiver.accept tx.advertisement = .ok (ResourceReceiver.initial tx.advertised) ∧
      Synced tx (ResourceReceiver.initial tx.advertised) := by
  have countable : tx.parts.length < wordSize := Nat.lt_of_le_of_lt small (by decide)
  -- The advertisement carries the first page, which is all the receiver knows at first.
  have page : quads (tx.pageBytes 0) = tx.mapHashes.take HASHMAP_MAX_LEN := by
    rw [tx.pageBytes_zero, quads_flatMap]
  have height : ResourceReceiver.inAdv tx.advertised = min HASHMAP_MAX_LEN tx.parts.length := by
    simp only [ResourceReceiver.inAdv, ResourceSender.advertised, MAPHASH_LEN]
    rw [← quads_length, page, List.length_take, tx.sized]
    omega
  have made := ResourceReceiver.ofAdvertisement_ok_iff.mpr
    ⟨Nat.le_refl 1, some, small, by rw [height, HASHMAP_MAX_LEN]; omega, rfl⟩
  have accepted := ResourceReceiver.accept_ok_iff.mpr
    ⟨tx.advertised, tx.parseAdvertisement_advertisement countable, made⟩
  refine ⟨accepted, ?_⟩
  exact {
    book := ResourceReceiver.accept_consistent accepted
    hash := rfl
    salt := rfl
    count := by simp [ResourceReceiver.initial, ResourceSender.advertised]
    known := by
      intro i
      rw [ResourceReceiver.mapHash_initial]
      change (if i < ResourceReceiver.inAdv tx.advertised then (quads (tx.pageBytes 0))[i]?
        else none) = if i < ResourceReceiver.inAdv tx.advertised then tx.mapHashes[i]? else none
      rw [height, page]
      split_ifs with front
      · rw [List.getElem?_take_of_lt (by omega)]
      · rfl
    paged := by
      simp only [ResourceReceiver.initial, List.length_replicate, height]
      change min HASHMAP_MAX_LEN tx.parts.length % HASHMAP_MAX_LEN = 0
        ∨ min HASHMAP_MAX_LEN tx.parts.length = tx.parts.length
      rw [HASHMAP_MAX_LEN]
      omega
    encrypted := rfl
    uncompressed := rfl }

theorem height_le (sync : Synced tx rx) : rx.hashmapHeight ≤ tx.parts.length :=
  sync.count ▸ sync.book.height_le

theorem isSome_mapHash (sync : Synced tx rx) (i : Nat) :
    (rx.mapHash i).isSome ↔ i < rx.hashmapHeight := by
  have bound := sync.height_le
  rw [sync.known]
  split_ifs with front
  · simp only [Option.isSome_iff_ne_none, ne_eq, List.getElem?_eq_none_iff, tx.sized]
    omega
  · simp [front]

theorem part_of_height_le (sync : Synced tx rx) {i : Nat} (high : rx.hashmapHeight ≤ i) :
    rx.part i = none := by
  by_contra held
  have known := (sync.isSome_mapHash i).mp
    (sync.book.heldKnown i (Option.isSome_iff_ne_none.mpr held))
  omega

theorem consecutive_le (sync : Synced tx rx) : rx.consecutive ≤ rx.hashmapHeight := by
  by_contra beyond
  have held := sync.book.part_of_lt_consecutive (i := rx.hashmapHeight) (by omega)
  rw [sync.part_of_height_le (Nat.le_refl _)] at held
  cases held

theorem stored (sync : Synced tx rx) {i : Nat} (data : Bytes) (within : i ∈ rx.windowIndices)
    (known : (rx.mapHash i).isSome) (absent : rx.part i = none) :
    Synced tx (rx.stored i data) where
  book := sync.book.stored data within known absent
  hash := sync.hash
  salt := sync.salt
  count := by
    simpa [ResourceReceiver.stored, ResourceReceiver.storePart] using sync.count
  known := sync.known
  paged := by
    simpa [ResourceReceiver.stored, ResourceReceiver.storePart] using sync.paged
  encrypted := sync.encrypted
  uncompressed := sync.uncompressed

theorem receivePart (sync : Synced tx rx) (crypto : Crypto) (data : Bytes) :
    Synced tx (rx.receivePart crypto data).2 := by
  rcases ResourceReceiver.receivePart_cases crypto rx data with
    ⟨ignored, -⟩ | ⟨i, within, known, absent, taken⟩
  · rw [ignored]
    exact sync
  · rw [taken]
    exact sync.stored data within (by rw [known]; rfl) absent

theorem mapHash_applyPage (sync : Synced tx rx) {page : Nat}
    (reached : page * HASHMAP_MAX_LEN ≤ rx.hashmapHeight) (i : Nat) :
    (rx.applyPage page (tx.pageBytes page)).mapHash i
      = if i < max rx.hashmapHeight (min ((page + 1) * HASHMAP_MAX_LEN) tx.parts.length)
        then tx.mapHashes[i]? else none := by
  have bound := sync.height_le
  have largest := sync.book.bounded
  have fits : page * HASHMAP_MAX_LEN < wordSize := by
    have limit : MAX_TRANSFER_BYTES / RESOURCE_SDU + 1 < wordSize := by decide
    have := sync.count
    omega
  have hashes : quads (tx.pageBytes page)
      = (tx.mapHashes.drop (page * HASHMAP_MAX_LEN)).take HASHMAP_MAX_LEN :=
    quads_flatMap _
  rw [ResourceReceiver.mapHash_applyPage, Nat.mod_eq_of_lt fits, hashes, sync.known, sync.count]
  rw [Nat.add_one_mul]
  generalize page * HASHMAP_MAX_LEN = base at *
  by_cases front : i < rx.hashmapHeight
  · -- A map-hash that was known stays as it was.
    have inside : i < tx.mapHashes.length := by rw [tx.sized]; omega
    rw [if_pos front, if_neg (by simp [List.getElem?_eq_getElem inside]), if_pos (by omega)]
  · rw [if_neg front]
    by_cases within : i < tx.parts.length
    · rw [if_pos ⟨rfl, by omega, within⟩, List.getElem?_take]
      split_ifs
      · rw [List.getElem?_drop, Nat.add_sub_cancel' (by omega)]
      · omega
      · omega
      · rfl
    · rw [if_neg (fun reach => within reach.2.2), if_neg (by omega)]

theorem height_applyPage (sync : Synced tx rx) {page : Nat}
    (reached : page * HASHMAP_MAX_LEN ≤ rx.hashmapHeight) :
    (rx.applyPage page (tx.pageBytes page)).hashmapHeight
      = max rx.hashmapHeight (min ((page + 1) * HASHMAP_MAX_LEN) tx.parts.length) := by
  have book := sync.book.applyPage page (tx.pageBytes page)
  have bound := sync.height_le
  rw [book.height]
  apply filled_eq_of_front
  intro i
  have value := sync.mapHash_applyPage reached i
  rw [ResourceReceiver.mapHash] at value
  rw [value]
  split_ifs with front
  · simp only [Option.isSome_iff_ne_none, ne_eq, List.getElem?_eq_none_iff, tx.sized]
    omega
  · simp [front]

theorem applyPage (sync : Synced tx rx) {page : Nat}
    (reached : page * HASHMAP_MAX_LEN ≤ rx.hashmapHeight) :
    Synced tx (rx.applyPage page (tx.pageBytes page)) where
  book := sync.book.applyPage page (tx.pageBytes page)
  hash := sync.hash
  salt := sync.salt
  count := sync.count
  known := by
    intro i
    rw [sync.mapHash_applyPage reached, sync.height_applyPage reached]
  paged := by
    -- A page ends on a page boundary or at the end of the table.
    rw [sync.height_applyPage reached]
    have before := sync.paged
    have size : (rx.applyPage page (tx.pageBytes page)).parts.length = tx.parts.length :=
      sync.count
    rw [size]
    rw [sync.count, HASHMAP_MAX_LEN] at *
    omega
  encrypted := sync.encrypted
  uncompressed := sync.uncompressed

theorem page_lt (sync : Synced tx rx) {page : Nat}
    (reached : page * HASHMAP_MAX_LEN ≤ rx.hashmapHeight) : page < 65536 := by
  have bound := sync.height_le
  have largest := sync.book.bounded
  have limit : MAX_TRANSFER_BYTES / RESOURCE_SDU + 1 = 565 := by decide
  have count := sync.count
  rw [HASHMAP_MAX_LEN] at reached
  omega

theorem receiveHashmapUpdate (sync : Synced tx rx) {page : Nat}
    (reached : page * HASHMAP_MAX_LEN ≤ rx.hashmapHeight) :
    rx.receiveHashmapUpdate (tx.hashmapUpdate page)
      = .ok (rx.applyPage page (tx.pageBytes page)) := by
  have front : (tx.hashmapUpdate page).take 32 = rx.hash.val := by
    rw [sync.hash, ResourceSender.hashmapUpdate, BytesN.take_append]
  have long : ¬ (tx.hashmapUpdate page).length < 32 := by
    simp [ResourceSender.hashmapUpdate]
  rw [ResourceReceiver.receiveHashmapUpdate, if_neg (by simp [front, long]),
    tx.parseHashmapUpdate_hashmapUpdate (sync.page_lt reached)]
  rfl

theorem missing_frontier (sync : Synced tx rx) :
    missing rx.parts rx.frontier
      = (List.range' rx.consecutive (rx.frontier - rx.consecutive)).filter
          fun i => (rx.part i).isNone := by
  have front := sync.consecutive_le
  have low := sync.book.windowLow
  have split : List.range rx.frontier = List.range' 0 rx.consecutive
      ++ List.range' rx.consecutive (rx.frontier - rx.consecutive) := by
    have whole := List.range'_append_1 (s := 0) (m := rx.consecutive)
      (n := rx.frontier - rx.consecutive)
    rw [Nat.zero_add] at whole
    rw [whole, List.range_eq_range', ResourceReceiver.frontier]
    congr 1
    omega
  -- Everything below the consecutive count is there.
  have held : (List.range' 0 rx.consecutive).filter (fun i => (rx.part i).isNone) = [] := by
    rw [List.filter_eq_nil_iff]
    intro i within
    have low := (List.mem_range'_1.mp within).2
    have held := sync.book.part_of_lt_consecutive (i := i) (by omega)
    simp [Option.isSome_iff_ne_none.mp held]
  change (List.range rx.frontier).filter (fun i => (rx.part i).isNone) = _
  rw [split, List.filter_append, held, List.nil_append]

theorem collectRequested (sync : Synced tx rx) :
    rx.collectRequested rx.windowIndices
      = ((missing rx.parts rx.frontier).filterMap (tx.mapHashes[·]?), rx.exhausted) := by
  have front := sync.consecutive_le
  have low := sync.book.windowLow
  have bound := sync.book.height_le
  have split : rx.windowIndices = List.range' rx.consecutive (rx.frontier - rx.consecutive)
      ++ List.range' rx.frontier
          (min (rx.consecutive + rx.window) rx.parts.length - rx.frontier) := by
    have start : rx.consecutive + (rx.frontier - rx.consecutive) = rx.frontier := by
      rw [ResourceReceiver.frontier]
      omega
    have whole := List.range'_append_1 (s := rx.consecutive)
      (m := rx.frontier - rx.consecutive)
      (n := min (rx.consecutive + rx.window) rx.parts.length - rx.frontier)
    rw [start] at whole
    rw [whole, ResourceReceiver.windowIndices, ResourceReceiver.frontier]
    congr 1
    omega
  have hashes : ∀ i ∈ missing rx.parts rx.frontier, rx.mapHash i = tx.mapHashes[i]? := by
    intro i absent
    have below := (mem_missing.mp absent).1
    rw [sync.known, if_pos (by rw [ResourceReceiver.frontier] at below; omega)]
  rw [split, ResourceReceiver.collectRequested_append, ← sync.missing_frontier]
  · -- What is left of the window is empty, or starts at a part whose map-hash is unknown.
    rw [List.filterMap_congr hashes]
    by_cases out : rx.hashmapHeight < min (rx.consecutive + rx.window) rx.parts.length
    · have here : rx.frontier = rx.hashmapHeight := by
        rw [ResourceReceiver.frontier]
        omega
      obtain ⟨rest, more⟩ : ∃ rest,
          min (rx.consecutive + rx.window) rx.parts.length - rx.frontier = rest + 1 :=
        ⟨min (rx.consecutive + rx.window) rx.parts.length - rx.frontier - 1, by omega⟩
      have unknown : rx.mapHash rx.hashmapHeight = none := by
        rw [sync.known, if_neg (Nat.lt_irrefl _)]
      rw [more, List.range'_succ, ResourceReceiver.collectRequested, here,
        sync.part_of_height_le (Nat.le_refl _)]
      simp [unknown, ResourceReceiver.exhausted, out]
    · have none : min (rx.consecutive + rx.window) rx.parts.length - rx.frontier = 0 := by
        rw [ResourceReceiver.frontier]
        omega
      simp [none, ResourceReceiver.collectRequested, ResourceReceiver.exhausted, out]
  · intro i within
    right
    rw [sync.isSome_mapHash]
    have high := (List.mem_range'_1.mp within).2
    rw [ResourceReceiver.frontier] at high
    omega

theorem lastKnown (sync : Synced tx rx) :
    ∃ last, tx.mapHashes[rx.hashmapHeight - 1]? = some last ∧
      rx.mapHashes[rx.hashmapHeight - 1]? = some (some last) := by
  have positive := sync.book.heightPositive
  have known := (sync.isSome_mapHash (rx.hashmapHeight - 1)).mpr (by omega)
  obtain ⟨last, found⟩ := Option.isSome_iff_exists.mp known
  refine ⟨last, ?_, Option.join_eq_some_iff.mp found⟩
  rw [sync.known, if_pos (by omega)] at found
  exact found

theorem mem_windowIndices (sync : Synced tx rx) {i : Nat} (below : i < rx.frontier)
    (absent : rx.part i = none) : i ∈ rx.windowIndices := by
  have bound := sync.book.height_le
  have front : rx.consecutive ≤ i := by
    by_contra behind
    have held := sync.book.part_of_lt_consecutive (i := i) (by omega)
    rw [absent] at held
    cases held
  rw [ResourceReceiver.frontier] at below
  exact ResourceReceiver.mem_windowIndices.mpr ⟨front, by omega, by omega⟩

theorem boundary (sync : Synced tx rx) (out : rx.exhausted = true) :
    rx.hashmapHeight % HASHMAP_MAX_LEN = 0 ∧ rx.hashmapHeight < tx.parts.length := by
  have count := sync.count
  simp only [ResourceReceiver.exhausted, decide_eq_true_eq] at out
  rcases sync.paged with boundary | whole
  · exact ⟨boundary, by omega⟩
  · omega

theorem wanted_length (sync : Synced tx rx) :
    ((missing rx.parts rx.frontier).filterMap (tx.mapHashes[·]?)).length
      = (missing rx.parts rx.frontier).length := by
  rw [List.length_filterMap_eq_countP, List.countP_eq_length]
  intro i absent
  have below := (mem_missing.mp absent).1
  have bound := sync.height_le
  rw [ResourceReceiver.frontier] at below
  simp only [Option.isSome_iff_ne_none, ne_eq, List.getElem?_eq_none_iff, tx.sized]
  omega

theorem consecutive_mem_missing (sync : Synced tx rx) (incomplete : rx.isComplete = false)
    (inside : rx.exhausted = false) :
    rx.consecutive ∈ missing rx.parts rx.frontier := by
  have low := sync.book.windowLow
  have short : rx.consecutive ≠ rx.parts.length := by
    rw [ne_eq, ← sync.book.isComplete_iff_consecutive, incomplete]
    simp
  have front := sync.consecutive_le
  have bound := sync.book.height_le
  simp only [ResourceReceiver.exhausted, decide_eq_false_iff_not] at inside
  rw [WINDOW_START] at low
  refine mem_missing.mpr ⟨?_, sync.book.part_consecutive⟩
  rw [ResourceReceiver.frontier]
  omega

theorem nextRequest_eq (sync : Synced tx rx) (incomplete : rx.isComplete = false)
    (ready : rx.waitingForHmu = false) :
    rx.nextRequest = .ok
      (some (requestBytes tx.hash
        (if rx.exhausted then tx.mapHashes[rx.hashmapHeight - 1]? else none)
        ((missing rx.parts rx.frontier).filterMap (tx.mapHashes[·]?))),
      { rx with
        outstanding := ((missing rx.parts rx.frontier).filterMap (tx.mapHashes[·]?)).length
        waitingForHmu := rx.exhausted }) := by
  obtain ⟨last, sender, receiver⟩ := sync.lastKnown
  rw [ResourceReceiver.nextRequest, incomplete, ready]
  simp only [Bool.or_self, Bool.false_eq_true, if_false, sync.collectRequested, receiver]
  cases out : rx.exhausted with
  | true =>
    simp [requestBytes, sender, sync.hash]
  | false =>
    -- The part after the filled front is missing and known, so something is requested.
    have first := sync.consecutive_mem_missing incomplete out
    have some : ((missing rx.parts rx.frontier).filterMap (tx.mapHashes[·]?)).isEmpty = false := by
      rw [List.isEmpty_eq_false_iff, ← List.length_pos_iff, sync.wanted_length]
      exact List.length_pos_of_mem first
    simp [requestBytes, some, sync.hash]

end Synced

namespace Exchange

variable {tx : ResourceSender} {st : Exchange}

theorem ask_idle (idle : st.rx.isComplete = true ∨ st.rx.waitingForHmu = true) :
    ask st = .ok st := by
  have quiet : (st.rx.isComplete || st.rx.waitingForHmu) = true := by simpa using idle
  simp [ask, ResourceReceiver.nextRequest, quiet, Bind.bind, Except.bind, Pure.pure, Except.pure]

def request (tx : ResourceSender) (rx : ResourceReceiver) : Bytes :=
  requestBytes tx.hash (if rx.exhausted then tx.mapHashes[rx.hashmapHeight - 1]? else none)
    ((missing rx.parts rx.frontier).filterMap (tx.mapHashes[·]?))

def asked (rx : ResourceReceiver) : ResourceReceiver :=
  { rx with
    outstanding := (missing rx.parts rx.frontier).length
    waitingForHmu := rx.exhausted }

theorem ask_ready (sync : Synced tx st.rx) (incomplete : st.rx.isComplete = false)
    (ready : st.rx.waitingForHmu = false) :
    ask st = .ok { st with
      rx := asked st.rx, requests := st.requests ++ [request tx st.rx] } := by
  have next := sync.nextRequest_eq incomplete ready
  rw [sync.wanted_length] at next
  simp only [ask, next, Bind.bind, Except.bind, Pure.pure, Except.pure, asked, request,
    Option.toList_some]

theorem synced_asked {rx : ResourceReceiver} (sync : Synced tx rx) : Synced tx (asked rx) :=
  { sync with book := { sync.book with } }

theorem mem_answer_request {rx : ResourceReceiver} {m : Message} :
    m ∈ tx.answer (request tx rx) ↔
      (∃ i ∈ missing rx.parts rx.frontier, ∃ h, tx.mapHashes[i]? = some h ∧
        ∃ data, tx.partFor h = some data ∧ m = .part data) ∨
      (rx.exhausted = true ∧ ∃ h, tx.mapHashes[rx.hashmapHeight - 1]? = some h ∧
        ∃ page, tx.nextPage h = some page ∧ m = .hashmapUpdate page) := by
  rw [ResourceSender.answer, request, tx.handleRequest_requestBytes]
  simp only [List.mem_append, List.mem_map, List.mem_filterMap, Option.mem_toList]
  constructor
  · rintro (⟨data, ⟨h, ⟨i, absent, found⟩, part⟩, rfl⟩ | ⟨page, next, rfl⟩)
    · exact .inl ⟨i, absent, h, found, data, part, rfl⟩
    · cases out : rx.exhausted with
      | true =>
        simp only [out, if_true, Option.bind_eq_some_iff] at next
        obtain ⟨h, found, page⟩ := next
        exact .inr ⟨rfl, h, found, _, page, rfl⟩
      | false => simp [out] at next
  · rintro (⟨i, absent, h, found, data, part, rfl⟩ | ⟨out, h, found, page, next, rfl⟩)
    · exact .inl ⟨data, ⟨h, ⟨i, absent, found⟩, part⟩, rfl⟩
    · refine .inr ⟨page, ?_, rfl⟩
      simp [out, found, next]

end Exchange

end LxmfChat
