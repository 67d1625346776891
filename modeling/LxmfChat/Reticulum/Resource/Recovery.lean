import LxmfChat.Reticulum.Resource.Transfer

/-! When a receiver that has lost messages can get its transfer going again. -/

namespace LxmfChat

open Base
open Relation (ReflTransGen)

variable {h : MapHash} {st : Exchange} {m : Message} {messages : List Message}
  {rx : ResourceReceiver}

namespace Exchange

def progress (rx : ResourceReceiver) : Nat := rx.received + rx.hashmapHeight

def deliverAll (crypto : Crypto) (st : Exchange) (messages : List Message) :
    Except Fault Exchange :=
  messages.foldlM (receive crypto) st

/--
Asking again gets the transfer going.

The request names every missing part of the window whose map-hash is known, and the last known
map-hash if the window goes on past it.
Delivering the sender's answer, in any order, makes progress.
-/
def Recovers (crypto : Crypto) (tx : ResourceSender) (rx : ResourceReceiver) : Prop :=
  ∃ request next, rx.nextRequest = .ok (some request, next) ∧
    (∃ last wanted, request = requestBytes rx.hash last wanted ∧
      (∀ i ∈ rx.windowIndices, rx.part i = none → ∀ h, rx.mapHash i = some h → h ∈ wanted) ∧
      (∀ i ∈ rx.windowIndices, rx.mapHash i = none →
        ∃ h, last = some h ∧ rx.mapHash (rx.hashmapHeight - 1) = some h)) ∧
    ∀ messages, messages.Perm (tx.answer request) →
      ∃ st, deliverAll crypto { rx := next, requests := [], flight := [] } messages = .ok st ∧
        progress rx < progress st.rx

variable {crypto : Crypto} {tx : ResourceSender}

theorem nextPage_reached {height : Nat} {plaintext : Bytes} (positive : 0 < height)
    (found : tx.mapHashes[height - 1]? = some h) (served : tx.nextPage h = some plaintext) :
    ∃ idx, tx.mapHashes.idxOf? h = some idx ∧ idx < height ∧
      plaintext = tx.hashmapUpdate ((idx + 1) / HASHMAP_MAX_LEN) ∧
      (idx + 1) % HASHMAP_MAX_LEN = 0 := by
  obtain ⟨idx, first, boundary, page⟩ := tx.exists_idx_of_nextPage served
  -- The sender looks for the first place of the map-hash, so it finds none after this one.
  obtain ⟨earliest, early, index, -⟩ := exists_idxOf found
  rw [index] at first
  obtain rfl := Option.some.inj first
  exact ⟨earliest, index, by omega, page, boundary⟩

/--
The state of a transfer over a network that may lose anything.

Whatever was lost, the receiver agrees with the sender and every page on its way is one that
it has reached.
-/
structure Lossy (tx : ResourceSender) (st : Exchange) : Prop where
  sync : Synced tx st.rx
  pages : ∀ plaintext, Coming tx st (.hashmapUpdate plaintext) →
    ∃ page, page * HASHMAP_MAX_LEN ≤ st.rx.hashmapHeight ∧ plaintext = tx.hashmapUpdate page

theorem ask_synced (sync : Synced tx st.rx) :
    ∃ outstanding waiting more,
      ask st = .ok { st with
        rx := { st.rx with outstanding := outstanding, waitingForHmu := waiting }
        requests := st.requests ++ more } ∧
      ∀ r ∈ more, r = request tx st.rx := by
  by_cases idle : st.rx.isComplete = true ∨ st.rx.waitingForHmu = true
  · exact ⟨st.rx.outstanding, st.rx.waitingForHmu, [], by simpa using ask_idle idle, by simp⟩
  · simp only [not_or, Bool.not_eq_true] at idle
    exact ⟨_, _, _, ask_ready sync idle.1 idle.2, by simp⟩

theorem Lossy.ask (lossy : Lossy tx st) :
    ∃ next outstanding waiting, Exchange.ask st = .ok next ∧ Lossy tx next ∧
      next.rx = { st.rx with outstanding := outstanding, waitingForHmu := waiting } := by
  obtain ⟨outstanding, waiting, more, result, requests⟩ := ask_synced lossy.sync
  refine ⟨_, outstanding, waiting, result,
    ⟨{ lossy.sync with book := { lossy.sync.book with } }, ?_⟩, rfl⟩
  rintro plaintext (flying | ⟨r, pending, answered⟩)
  · exact lossy.pages plaintext (.inl flying)
  · rcases List.mem_append.mp pending with old | new
    · exact lossy.pages plaintext (.inr ⟨r, old, answered⟩)
    · -- The new request asks for a page after one that the receiver knows.
      rw [requests r new, mem_answer_request] at answered
      rcases answered with ⟨_, _, _, _, _, _, impossible⟩ | ⟨_, h, found, page, served, same⟩
      · cases impossible
      · obtain rfl := Message.hashmapUpdate.inj same
        obtain ⟨idx, -, below, rfl, boundary⟩ :=
          nextPage_reached lossy.sync.book.heightPositive found served
        refine ⟨_, ?_, rfl⟩
        exact Nat.le_trans (Nat.div_mul_le_self _ _) below

/-- A message that a lossy transfer can deliver: any part, or a page that has been reached. -/
def Deliverable (tx : ResourceSender) (height : Nat) : Message → Prop
  | .part _ => True
  | .hashmapUpdate plaintext =>
    ∃ page, page * HASHMAP_MAX_LEN ≤ height ∧ plaintext = tx.hashmapUpdate page

theorem Lossy.receive_part (crypto : Crypto) (lossy : Lossy tx st) (data : Bytes) :
    ∃ next outstanding waiting, Exchange.receive crypto st (.part data) = .ok next ∧
      Lossy tx next ∧
      next.rx = { (st.rx.receivePart crypto data).2 with
        outstanding := outstanding, waitingForHmu := waiting } := by
  have height : (st.rx.receivePart crypto data).2.hashmapHeight = st.rx.hashmapHeight := by
    rcases ResourceReceiver.receivePart_cases crypto st.rx data with
      ⟨ignored, -⟩ | ⟨i, -, -, -, taken⟩
    · rw [ignored]
    · rw [taken]
      rfl
  have kept : Lossy tx { st with rx := (st.rx.receivePart crypto data).2 } :=
    ⟨lossy.sync.receivePart crypto data, fun plaintext coming => by
      obtain ⟨page, reached, same⟩ := lossy.pages plaintext coming
      exact ⟨page, by rw [height]; exact reached, same⟩⟩
  cases full : (st.rx.receivePart crypto data).1 with
  | true =>
    obtain ⟨next, outstanding, waiting, asked, track, result⟩ := kept.ask
    refine ⟨next, outstanding, waiting, ?_, track, result⟩
    simp only [Exchange.receive, full, if_true]
    exact asked
  | false =>
    refine ⟨_, _, _, ?_, kept, rfl⟩
    simp only [Exchange.receive, full, Bool.false_eq_true, if_false]

theorem Lossy.receive_page (crypto : Crypto) (lossy : Lossy tx st) {page : Nat}
    (reached : page * HASHMAP_MAX_LEN ≤ st.rx.hashmapHeight) :
    ∃ next outstanding waiting,
      Exchange.receive crypto st (.hashmapUpdate (tx.hashmapUpdate page)) = .ok next ∧
      Lossy tx next ∧
      next.rx = { st.rx.applyPage page (tx.pageBytes page) with
        outstanding := outstanding, waitingForHmu := waiting } := by
  have grown := lossy.sync.height_applyPage reached
  have kept : Lossy tx { st with rx := st.rx.applyPage page (tx.pageBytes page) } :=
    ⟨lossy.sync.applyPage reached, fun plaintext coming => by
      obtain ⟨other, low, same⟩ := lossy.pages plaintext coming
      exact ⟨other, by rw [grown]; omega, same⟩⟩
  obtain ⟨next, outstanding, waiting, asked, track, result⟩ := kept.ask
  refine ⟨next, outstanding, waiting, ?_, track, result⟩
  simp only [Exchange.receive, lossy.sync.receiveHashmapUpdate reached, Bind.bind, Except.bind]
  exact asked

theorem Lossy.receive (crypto : Crypto) (lossy : Lossy tx st)
    (deliverable : Deliverable tx st.rx.hashmapHeight m) :
    ∃ next, Exchange.receive crypto st m = .ok next ∧ Lossy tx next ∧
      st.rx.hashmapHeight ≤ next.rx.hashmapHeight ∧ progress st.rx ≤ progress next.rx := by
  cases m with
  | part data =>
    obtain ⟨next, outstanding, waiting, received, track, result⟩ :=
      lossy.receive_part crypto data
    refine ⟨next, received, track, ?_⟩
    rw [progress, progress, result]
    rcases ResourceReceiver.receivePart_cases crypto st.rx data with
      ⟨ignored, -⟩ | ⟨i, -, -, -, taken⟩
    · rw [ignored]
      exact ⟨Nat.le_refl _, Nat.le_refl _⟩
    · rw [taken]
      exact ⟨Nat.le_refl _, Nat.add_le_add_right (Nat.le_succ _) _⟩
  | hashmapUpdate plaintext =>
    obtain ⟨page, reached, rfl⟩ := deliverable
    obtain ⟨next, outstanding, waiting, received, track, result⟩ :=
      lossy.receive_page crypto reached
    have grown := lossy.sync.height_applyPage reached
    have same : (st.rx.applyPage page (tx.pageBytes page)).received = st.rx.received := rfl
    refine ⟨next, received, track, ?_⟩
    rw [progress, progress, result]
    simp only [grown, same]
    omega

theorem Lossy.step {next : Exchange} (lossy : Lossy tx st) (step : LossyStep crypto tx st next) :
    Lossy tx next := by
  cases step with
  | serve pending answered =>
    exact ⟨lossy.sync, fun plaintext coming =>
      lossy.pages plaintext (coming.of_serve pending answered)⟩
  | @deliver _ before after m flying received =>
    have kept : Lossy tx { st with flight := before ++ after } :=
      ⟨lossy.sync, fun plaintext coming => lossy.pages plaintext (coming.of_remove flying)⟩
    have deliverable : Deliverable tx st.rx.hashmapHeight m := by
      cases m with
      | part data => trivial
      | hashmapUpdate plaintext =>
        exact lossy.pages plaintext
          (.inl (by rw [flying]; exact List.mem_append_right _ List.mem_cons_self))
    obtain ⟨result, delivered, track, -⟩ := kept.receive crypto deliverable
    rw [delivered] at received
    exact Except.ok.inj received ▸ track
  | lose flying =>
    exact ⟨lossy.sync, fun plaintext coming => lossy.pages plaintext (coming.of_remove flying)⟩
  | «recall» asked =>
    obtain ⟨result, -, -, again, track, -⟩ := lossy.ask
    rw [again] at asked
    exact Except.ok.inj asked ▸ track

theorem Deliverable.mono {height height' : Nat} (deliverable : Deliverable tx height m)
    (higher : height ≤ height') : Deliverable tx height' m := by
  cases m with
  | part data => trivial
  | hashmapUpdate plaintext =>
    obtain ⟨page, reached, same⟩ := deliverable
    exact ⟨page, by omega, same⟩

theorem Lossy.deliverAll (crypto : Crypto) (lossy : Lossy tx st)
    (all : ∀ m ∈ messages, Deliverable tx st.rx.hashmapHeight m) :
    ∃ next, Exchange.deliverAll crypto st messages = .ok next ∧ Lossy tx next ∧
      progress st.rx ≤ progress next.rx := by
  induction messages generalizing st with
  | nil => exact ⟨st, rfl, lossy, Nat.le_refl _⟩
  | cons m rest ih =>
    obtain ⟨middle, received, track, higher, further⟩ :=
      lossy.receive crypto (all m List.mem_cons_self)
    obtain ⟨next, delivered, final, more⟩ := ih track fun other later =>
      (all other (List.mem_cons_of_mem m later)).mono higher
    refine ⟨next, ?_, final, Nat.le_trans further more⟩
    simp only [Exchange.deliverAll, List.foldlM_cons, received, Bind.bind, Except.bind]
    exact delivered

/-- A part that the receiver is missing in its window. -/
def Useful (crypto : Crypto) (rx : ResourceReceiver) : Message → Prop
  | .part data => ∃ i ∈ rx.windowIndices,
      rx.mapHash i = some (partMapHash crypto rx.randomHash data) ∧ rx.part i = none
  | .hashmapUpdate _ => True

theorem Lossy.receive_useful (lossy : Lossy tx st) {data : Bytes}
    (useful : Useful crypto st.rx (.part data)) :
    ∃ next, Exchange.receive crypto st (.part data) = .ok next ∧ Lossy tx next ∧
      st.rx.hashmapHeight ≤ next.rx.hashmapHeight ∧ progress st.rx < progress next.rx := by
  obtain ⟨next, outstanding, waiting, received, track, result⟩ := lossy.receive_part crypto data
  refine ⟨next, received, track, ?_⟩
  rw [progress, progress, result]
  rcases ResourceReceiver.receivePart_cases crypto st.rx data with
    ⟨ignored, held⟩ | ⟨i, -, -, -, taken⟩
  · obtain ⟨i, within, known, absent⟩ := useful
    have present := held i within known
    rw [absent] at present
    cases present
  · rw [taken]
    exact ⟨Nat.le_refl _, Nat.add_lt_add_right (Nat.lt_succ_self _) _⟩

theorem Useful.applyPage (useful : Useful crypto rx m) (page : Nat) (bytes : Bytes)
    (outstanding : Nat) (waiting : Bool) :
    Useful crypto { rx.applyPage page bytes with
      outstanding := outstanding, waitingForHmu := waiting } m := by
  cases m with
  | hashmapUpdate plaintext => trivial
  | part data =>
    obtain ⟨i, within, known, absent⟩ := useful
    refine ⟨i, within, ?_, absent⟩
    change (rx.applyPage page bytes).mapHash i = _
    rw [ResourceReceiver.mapHash_applyPage, if_neg (by simp [known]), known]
    rfl

theorem Lossy.deliverAll_useful (lossy : Lossy tx st)
    (all : ∀ m ∈ messages, Deliverable tx st.rx.hashmapHeight m)
    (useful : ∀ m ∈ messages, Useful crypto st.rx m) {data : Bytes} (one : .part data ∈ messages) :
    ∃ next, Exchange.deliverAll crypto st messages = .ok next ∧
      progress st.rx < progress next.rx := by
  induction messages generalizing st with
  | nil => cases one
  | cons m rest ih =>
    have later := fun other there => all other (List.mem_cons_of_mem m there)
    cases m with
    | part first =>
      -- The first part to arrive is stored, and what follows takes nothing back.
      obtain ⟨middle, received, track, higher, further⟩ :=
        lossy.receive_useful (useful _ List.mem_cons_self)
      obtain ⟨next, delivered, -, more⟩ := track.deliverAll crypto fun other there =>
        (later other there).mono higher
      refine ⟨next, ?_, by omega⟩
      simp only [Exchange.deliverAll, List.foldlM_cons, received, Bind.bind, Except.bind]
      exact delivered
    | hashmapUpdate plaintext =>
      -- A page that arrives first leaves the missing parts missing.
      obtain ⟨page, reached, rfl⟩ := all _ List.mem_cons_self
      obtain ⟨middle, outstanding, waiting, received, track, result⟩ :=
        lossy.receive_page crypto reached
      have grown := lossy.sync.height_applyPage reached
      have higher : st.rx.hashmapHeight ≤ middle.rx.hashmapHeight := by
        rw [result]
        simp only [grown]
        omega
      have further : progress st.rx ≤ progress middle.rx := by
        rw [progress, progress, result]
        rw [result] at higher
        exact Nat.add_le_add_left higher _
      obtain ⟨next, delivered, more⟩ := ih track
        (fun other there => (later other there).mono higher)
        (fun other there => by
          rw [result]
          exact (useful other (List.mem_cons_of_mem _ there)).applyPage _ _ _ _)
        (by simpa using one)
      refine ⟨next, ?_, by omega⟩
      simp only [Exchange.deliverAll, List.foldlM_cons, received, Bind.bind, Except.bind]
      exact delivered

/--
Nothing keeps the receiver from going on.

It awaits no page, and it knows of a missing part in its window or the sender finds the last
known map-hash where the receiver has it.
-/
def Recoverable (tx : ResourceSender) (rx : ResourceReceiver) : Prop :=
  rx.waitingForHmu = false ∧
  ((∃ i ∈ rx.windowIndices, rx.part i = none ∧ (rx.mapHash i).isSome) ∨
    (tx.mapHashes[rx.hashmapHeight - 1]?).bind tx.mapHashes.idxOf? = some (rx.hashmapHeight - 1))

theorem missing_known_iff (sync : Synced tx rx) :
    (∃ i ∈ rx.windowIndices, rx.part i = none ∧ (rx.mapHash i).isSome)
      ↔ ∃ i, i ∈ missing rx.parts rx.frontier := by
  constructor
  · rintro ⟨i, within, absent, known⟩
    have high := (ResourceReceiver.mem_windowIndices.mp within).2.1
    have front := (sync.isSome_mapHash i).mp known
    refine ⟨i, mem_missing.mpr ⟨?_, absent⟩⟩
    rw [ResourceReceiver.frontier]
    omega
  · rintro ⟨i, missing⟩
    obtain ⟨below, absent⟩ := mem_missing.mp missing
    refine ⟨i, sync.mem_windowIndices below absent, absent, (sync.isSome_mapHash i).mpr ?_⟩
    rw [ResourceReceiver.frontier] at below
    omega

theorem partFor_spec (hashed : tx.mapHashes = tx.parts.map (partMapHash crypto tx.randomHash.val))
    {data : Bytes} (found : tx.partFor h = some data) :
    partMapHash crypto tx.randomHash.val data = h := by
  simp only [ResourceSender.partFor, Option.bind_eq_bind, Option.bind_eq_some_iff] at found
  obtain ⟨idx, first, part⟩ := found
  obtain ⟨inside, same, -⟩ := List.idxOf?_eq_some_iff.mp first
  have place := mapHash_of_part hashed part
  rw [List.getElem?_eq_getElem inside, same] at place
  exact (Option.some.inj place).symm

theorem exists_partFor {i : Nat} (found : tx.mapHashes[i]? = some h) :
    ∃ data, tx.partFor h = some data := by
  obtain ⟨first, -, index, same⟩ := exists_idxOf found
  have inside : first < tx.parts.length := by
    rw [← tx.sized]
    exact (List.getElem?_eq_some_iff.mp same).1
  exact ⟨tx.parts[first], by simp [ResourceSender.partFor, index]⟩

theorem answer_of_nothing_missing (nothing : missing rx.parts rx.frontier = [])
    (out : rx.exhausted = true) (found : tx.mapHashes[rx.hashmapHeight - 1]? = some h) :
    tx.answer (request tx rx) = (tx.nextPage h).toList.map .hashmapUpdate := by
  rw [ResourceSender.answer, request, tx.handleRequest_requestBytes]
  simp [nothing, out, found]

theorem lossy_asked (sync : Synced tx rx) :
    Lossy tx { rx := asked rx, requests := [], flight := [] } :=
  ⟨synced_asked sync, by simp [Coming]⟩

theorem deliverable_answer (sync : Synced tx rx) (answered : m ∈ tx.answer (request tx rx)) :
    Deliverable tx rx.hashmapHeight m := by
  rcases mem_answer_request.mp answered with
    ⟨_, _, _, _, _, _, rfl⟩ | ⟨_, h, found, page, served, rfl⟩
  · trivial
  · obtain ⟨idx, -, below, rfl, -⟩ := nextPage_reached sync.book.heightPositive found served
    exact ⟨_, Nat.le_trans (Nat.div_mul_le_self _ _) below, rfl⟩

theorem useful_answer
    (hashed : tx.mapHashes = tx.parts.map (partMapHash crypto tx.randomHash.val))
    (sync : Synced tx rx) (answered : m ∈ tx.answer (request tx rx)) :
    Useful crypto (asked rx) m := by
  rcases mem_answer_request.mp answered with
    ⟨i, absent, h, found, data, part, rfl⟩ | ⟨_, _, _, _, _, rfl⟩
  · obtain ⟨below, empty⟩ := mem_missing.mp absent
    refine ⟨i, sync.mem_windowIndices below empty, ?_, empty⟩
    change rx.mapHash i = some (partMapHash crypto rx.randomHash data)
    rw [ResourceReceiver.frontier] at below
    rw [sync.salt, partFor_spec hashed part, sync.known, if_pos (by omega), found]
  · trivial

theorem progress_of_missing
    (hashed : tx.mapHashes = tx.parts.map (partMapHash crypto tx.randomHash.val))
    (sync : Synced tx rx) {i : Nat} (absent : i ∈ missing rx.parts rx.frontier)
    (order : messages.Perm (tx.answer (request tx rx))) :
    ∃ st, deliverAll crypto { rx := asked rx, requests := [], flight := [] } messages = .ok st ∧
      progress rx < progress st.rx := by
  have below := (mem_missing.mp absent).1
  have bound := sync.height_le
  rw [ResourceReceiver.frontier] at below
  have found : tx.mapHashes[i]? = some (tx.mapHashes.get ⟨i, by rw [tx.sized]; omega⟩) :=
    List.getElem?_eq_getElem _
  obtain ⟨data, part⟩ := exists_partFor found
  have one : .part data ∈ messages :=
    order.mem_iff.mpr (mem_answer_request.mpr (.inl ⟨i, absent, _, found, data, part, rfl⟩))
  have fits : ∀ m ∈ messages, Deliverable tx rx.hashmapHeight m := fun m there =>
    deliverable_answer sync (order.mem_iff.mp there)
  exact (lossy_asked sync).deliverAll_useful fits
    (fun m there => useful_answer hashed sync (order.mem_iff.mp there)) one

theorem progress_of_page (crypto : Crypto) (sync : Synced tx rx)
    (boundary : rx.hashmapHeight % HASHMAP_MAX_LEN = 0)
    (short : rx.hashmapHeight < tx.parts.length) {page : Nat}
    (reached : page * HASHMAP_MAX_LEN ≤ rx.hashmapHeight) :
    ∃ st, deliverAll crypto { rx := asked rx, requests := [], flight := [] }
        [.hashmapUpdate (tx.hashmapUpdate page)] = .ok st ∧
      (progress rx < progress st.rx ↔ page * HASHMAP_MAX_LEN = rx.hashmapHeight) := by
  have within : page * HASHMAP_MAX_LEN ≤ (asked rx).hashmapHeight := reached
  obtain ⟨next, outstanding, waiting, received, -, result⟩ :=
    (lossy_asked sync).receive_page crypto within
  have grown := (synced_asked sync).height_applyPage within
  refine ⟨next, ?_, ?_⟩
  · simp only [deliverAll, List.foldlM_cons, List.foldlM_nil, received, Bind.bind, Except.bind,
      Pure.pure, Except.pure]
  · have same : ((asked rx).applyPage page (tx.pageBytes page)).received = rx.received := rfl
    have level : (asked rx).hashmapHeight = rx.hashmapHeight := rfl
    rw [progress, progress, result]
    simp only [grown, same, level, HASHMAP_MAX_LEN] at *
    omega

theorem progress_answer_iff (crypto : Crypto) (sync : Synced tx rx)
    (nothing : missing rx.parts rx.frontier = []) (out : rx.exhausted = true)
    (found : tx.mapHashes[rx.hashmapHeight - 1]? = some h) :
    (∀ messages, messages.Perm (tx.answer (request tx rx)) →
      ∃ st, deliverAll crypto { rx := asked rx, requests := [], flight := [] } messages = .ok st ∧
        progress rx < progress st.rx)
      ↔ tx.mapHashes.idxOf? h = some (rx.hashmapHeight - 1) := by
  obtain ⟨boundary, short⟩ := sync.boundary out
  have positive := sync.book.heightPositive
  rw [answer_of_nothing_missing nothing out found]
  cases served : tx.nextPage h with
  | none =>
    -- No page is served, so the answer is empty and the last map-hash was found elsewhere.
    constructor
    · intro progresses
      obtain ⟨st, delivered, further⟩ := progresses [] List.Perm.nil
      obtain rfl := Except.ok.inj delivered
      exact absurd further (Nat.lt_irrefl _)
    · intro first
      have whole : rx.hashmapHeight - 1 + 1 = rx.hashmapHeight := by omega
      simp [ResourceSender.nextPage, first, whole, boundary] at served
  | some plaintext =>
    obtain ⟨idx, first, below, rfl, edge⟩ := nextPage_reached positive found served
    have base : (idx + 1) / HASHMAP_MAX_LEN * HASHMAP_MAX_LEN = idx + 1 :=
      Nat.div_mul_cancel (Nat.dvd_of_mod_eq_zero edge)
    have reached : (idx + 1) / HASHMAP_MAX_LEN * HASHMAP_MAX_LEN ≤ rx.hashmapHeight := by omega
    obtain ⟨st, delivered, further⟩ := progress_of_page crypto sync boundary short reached
    have next : idx = rx.hashmapHeight - 1 ↔ progress rx < progress st.rx := by
      rw [further, base]
      omega
    rw [first, Option.some.injEq, next]
    constructor
    · intro progresses
      obtain ⟨other, again, more⟩ := progresses _ (List.Perm.refl _)
      obtain rfl := Except.ok.inj (delivered.symm.trans again)
      exact more
    · intro more messages order
      rw [List.perm_singleton.mp order]
      exact ⟨st, delivered, more⟩

theorem request_content (sync : Synced tx rx) :
    ∃ last wanted, request tx rx = requestBytes rx.hash last wanted ∧
      (∀ i ∈ rx.windowIndices, rx.part i = none → ∀ h, rx.mapHash i = some h → h ∈ wanted) ∧
      (∀ i ∈ rx.windowIndices, rx.mapHash i = none →
        ∃ h, last = some h ∧ rx.mapHash (rx.hashmapHeight - 1) = some h) := by
  obtain ⟨last, sender, receiver⟩ := sync.lastKnown
  have positive := sync.book.heightPositive
  refine ⟨_, _, by rw [request, sync.hash], ?_, ?_⟩
  · intro i within absent h known
    have front := (sync.isSome_mapHash i).mp (by rw [known]; rfl)
    have high := (ResourceReceiver.mem_windowIndices.mp within).2.1
    rw [sync.known, if_pos front] at known
    refine List.mem_filterMap.mpr ⟨i, mem_missing.mpr ⟨?_, absent⟩, known⟩
    rw [ResourceReceiver.frontier]
    omega
  · intro i within unknown
    -- A window with an unknown map-hash reaches past the height.
    obtain ⟨-, high, inside⟩ := ResourceReceiver.mem_windowIndices.mp within
    have beyond : ¬ i < rx.hashmapHeight := by
      rw [← sync.isSome_mapHash, unknown]
      simp
    have out : rx.exhausted = true := by
      simp only [ResourceReceiver.exhausted, decide_eq_true_eq]
      omega
    refine ⟨last, by simp [out, sender], ?_⟩
    rw [sync.known, if_pos (by omega), sender]

/-- Asking again gets a stalled transfer going exactly when nothing keeps it from going on. -/
theorem recovers_iff (hashed : tx.mapHashes = tx.parts.map (partMapHash crypto tx.randomHash.val))
    (sync : Synced tx rx) (incomplete : rx.isComplete = false) :
    Recovers crypto tx rx ↔ Recoverable tx rx := by
  obtain ⟨h, sender, receiver⟩ := sync.lastKnown
  cases waiting : rx.waitingForHmu with
  | true =>
    -- While a page is awaited there is no next request.
    have quiet : rx.nextRequest = .ok (none, rx) := by
      simp [ResourceReceiver.nextRequest, waiting]
    constructor
    · rintro ⟨request, next, asked, -⟩
      rw [quiet] at asked
      cases asked
    · rintro ⟨ready, -⟩
      rw [waiting] at ready
      cases ready
  | false =>
    have asks : rx.nextRequest = .ok (some (request tx rx), asked rx) := by
      have next := sync.nextRequest_eq incomplete waiting
      rwa [sync.wanted_length] at next
    rw [Recoverable, missing_known_iff sync, sender, Option.bind_some]
    by_cases some : ∃ i, i ∈ missing rx.parts rx.frontier
    · obtain ⟨i, absent⟩ := some
      refine ⟨fun _ => ⟨waiting, .inl ⟨i, absent⟩⟩, fun _ => ?_⟩
      exact ⟨request tx rx, asked rx, asks, request_content sync, fun messages order =>
        progress_of_missing hashed sync absent order⟩
    · -- Nothing known is missing, so the window runs out and the answer is at most a page.
      have nothing : missing rx.parts rx.frontier = [] :=
        List.eq_nil_iff_forall_not_mem.mpr fun i absent => some ⟨i, absent⟩
      have out : rx.exhausted = true := by
        by_contra inside
        exact some ⟨_, sync.consecutive_mem_missing incomplete (by simpa using inside)⟩
      have helps := progress_answer_iff crypto sync nothing out sender
      constructor
      · rintro ⟨sent, next, again, -, progresses⟩
        rw [asks, Except.ok.injEq, Prod.mk.injEq, Option.some.injEq] at again
        obtain ⟨rfl, rfl⟩ := again
        exact ⟨waiting, .inr (helps.mp progresses)⟩
      · rintro ⟨-, known | first⟩
        · exact absurd known some
        · exact ⟨request tx rx, asked rx, asks, request_content sync, helps.mpr first⟩

section New

variable (data : Bytes) (key : SessionKey) (r streamPrefix : BytesN 4) (iv : Iv)

/--
Which stalled transfers of this repository's own two halves asking again gets going.

The state is any that a network can lead to which loses any requests, parts and pages.
The one obstacle besides colliding map-hashes is a page that was asked for and lost.
-/
theorem stalled_recovers_iff (crypto : Crypto)
    (small : (ResourceSender.new crypto data key r streamPrefix iv).parts.length
      ≤ MAX_TRANSFER_BYTES / RESOURCE_SDU + 1)
    {st reached : Exchange}
    (started : start (ResourceSender.new crypto data key r streamPrefix iv).advertisement = .ok st)
    (run : ReflTransGen (LossyStep crypto (ResourceSender.new crypto data key r streamPrefix iv))
      st reached)
    (incomplete : reached.rx.isComplete = false) :
    Recovers crypto (ResourceSender.new crypto data key r streamPrefix iv) reached.rx
      ↔ Recoverable (ResourceSender.new crypto data key r streamPrefix iv) reached.rx := by
  obtain ⟨accepted, sync⟩ := Synced.accept (new_parts_pos crypto data key r streamPrefix iv) small
  have begun : Lossy (ResourceSender.new crypto data key r streamPrefix iv) st := by
    have fresh : Lossy (ResourceSender.new crypto data key r streamPrefix iv)
        ⟨ResourceReceiver.initial
          (ResourceSender.new crypto data key r streamPrefix iv).advertised, [], []⟩ :=
      ⟨sync, by simp [Coming]⟩
    obtain ⟨next, -, -, asked, track, -⟩ := fresh.ask
    simp only [start, accepted, Bind.bind, Except.bind] at started
    rw [asked] at started
    exact Except.ok.inj started ▸ track
  have lossy : Lossy (ResourceSender.new crypto data key r streamPrefix iv) reached :=
    reachable_of_keeps (fun _ _ kept step => kept.step step) begun run
  exact recovers_iff (new_hashed crypto data key r streamPrefix iv) lossy.sync incomplete

end New

section LostPage

variable (hashed : tx.mapHashes = tx.parts.map (partMapHash crypto tx.randomHash.val))
variable (clear : Unambiguous tx) (apart : Apart tx WINDOW_MAX)

/-- No page has been asked for since the height was this. -/
structure Quiet (tx : ResourceSender) (height : Nat) (st : Exchange) : Prop where
  ready : st.rx.waitingForHmu = false
  height : st.rx.hashmapHeight = height
  nothing : ∀ plaintext, ¬ Coming tx st (.hashmapUpdate plaintext)

theorem Quiet.ask {height : Nat} {next : Exchange} (quiet : Quiet tx height st)
    (sync : Synced tx st.rx) (asked : Exchange.ask st = .ok next) :
    Quiet tx height next ∨ next.rx.waitingForHmu = true := by
  by_cases idle : st.rx.isComplete = true ∨ st.rx.waitingForHmu = true
  · rw [ask_idle idle] at asked
    exact .inl (Except.ok.inj asked ▸ quiet)
  · simp only [not_or, Bool.not_eq_true] at idle
    rw [ask_ready sync idle.1 idle.2] at asked
    obtain rfl := Except.ok.inj asked
    cases out : st.rx.exhausted with
    | true => exact .inr out
    | false =>
      refine .inl ⟨out, quiet.height, ?_⟩
      rintro plaintext (flying | ⟨request, pending, answered⟩)
      · exact quiet.nothing plaintext (.inl flying)
      · rcases List.mem_append.mp pending with old | new
        · exact quiet.nothing plaintext (.inr ⟨request, old, answered⟩)
        · rw [List.mem_singleton.mp new, mem_answer_request] at answered
          rcases answered with ⟨_, _, _, _, _, _, impossible⟩ | ⟨waits, -⟩
          · cases impossible
          · rw [out] at waits
            cases waits

theorem Quiet.step {height : Nat} {next : Exchange} (quiet : Quiet tx height st)
    (onTrack : OnTrack tx st) (step : Step crypto tx st next) :
    Quiet tx height next ∨ next.rx.waitingForHmu = true := by
  obtain ⟨⟨frontier, tracked⟩, -⟩ := onTrack
  cases step with
  | serve pending answered =>
    exact .inl ⟨quiet.ready, quiet.height, fun plaintext coming => quiet.nothing plaintext
      (coming.of_serve pending fun m copied => (answered m).mp copied)⟩
  | @deliver _ before after m flying received =>
    cases m with
    | hashmapUpdate plaintext =>
      refine absurd (.inl ?_) (quiet.nothing plaintext)
      rw [flying]
      exact List.mem_append_right _ List.mem_cons_self
    | part data =>
      -- A part changes neither the height nor whether a page is awaited.
      have same : (st.rx.receivePart crypto data).2.waitingForHmu = st.rx.waitingForHmu ∧
          (st.rx.receivePart crypto data).2.hashmapHeight = st.rx.hashmapHeight := by
        rcases ResourceReceiver.receivePart_cases crypto st.rx data with
          ⟨ignored, -⟩ | ⟨i, -, -, -, taken⟩
        · rw [ignored]
          exact ⟨rfl, rfl⟩
        · rw [taken]
          exact ⟨rfl, rfl⟩
      have kept : Quiet tx height
          { st with flight := before ++ after, rx := (st.rx.receivePart crypto data).2 } :=
        ⟨same.1.trans quiet.ready, same.2.trans quiet.height,
          fun plaintext coming => quiet.nothing plaintext (coming.of_remove flying)⟩
      cases full : (st.rx.receivePart crypto data).1 with
      | true =>
        simp only [Exchange.receive, full, if_true] at received
        exact kept.ask (tracked.sync.receivePart crypto data) received
      | false =>
        simp only [Exchange.receive, full, Bool.false_eq_true, if_false] at received
        exact .inl (Except.ok.inj received ▸ kept)

include hashed clear apart in
theorem exists_waiting (onTrack : OnTrack tx st) {height : Nat} (quiet : Quiet tx height st)
    (short : height < tx.parts.length) :
    ∃ reached, ReflTransGen (Step crypto tx) st reached ∧
      reached.rx.waitingForHmu = true ∧ OnTrack tx reached := by
  obtain ⟨done, run, complete⟩ := (onTrack.inevitable hashed clear apart).exists_reachable
  -- A run that stayed quiet could not have completed, since it never learned the other pages.
  by_contra never
  have silent : ∀ reached, ReflTransGen (Step crypto tx) st reached → Quiet tx height reached := by
    intro reached path
    induction path with
    | refl => exact quiet
    | @tail s t path step ih =>
      rcases ih.step (onTrack.reachable hashed clear apart path) step with quiet | waiting
      · exact quiet
      · have run := path.tail step
        exact absurd ⟨t, run, waiting, onTrack.reachable hashed clear apart run⟩ never
  obtain ⟨⟨frontier, tracked⟩, -⟩ := onTrack.reachable hashed clear apart run
  have all := tracked.sync.book.isComplete_iff.mp complete
  have last := tracked.sync.book.heldKnown height (all height (by rw [tracked.sync.count]; omega))
  rw [tracked.sync.isSome_mapHash, (silent done run).height] at last
  omega

theorem lose_all (st : Exchange) :
    ReflTransGen (LossyStep crypto tx) st { st with requests := [], flight := [] } := by
  have empty : ∀ (flight : List Message) (st : Exchange), st.flight = flight →
      ReflTransGen (LossyStep crypto tx) st { st with flight := [] } := by
    intro flight
    induction flight with
    | nil =>
      intro st none
      rw [← none]
    | cons m rest ih =>
      intro st flying
      have first : st.flight = [] ++ m :: rest := flying
      exact .head (.lose first) (ih { st with flight := rest } rfl)
  have unserved : ∀ (requests : List Bytes) (st : Exchange), st.requests = requests →
      ReflTransGen (LossyStep crypto tx) st { st with requests := [] } := by
    intro requests
    induction requests with
    | nil =>
      intro st none
      rw [← none]
    | cons request rest ih =>
      intro st pending
      have first : st.requests = [] ++ request :: rest := pending
      have served : LossyStep crypto tx st { st with requests := rest, flight := st.flight ++ [] } :=
        .serve first (by simp)
      rw [List.append_nil] at served
      exact .head served (ih { st with requests := rest } rfl)
  exact (unserved st.requests st rfl).trans (empty st.flight { st with requests := [] } rfl)

include hashed clear apart in
/--
Every transfer that needs more than one page can stall for good.

Once it waits for a page, losing what is in flight leaves it waiting, and asking again gives
nothing.
-/
theorem exists_stalled (pages : HASHMAP_MAX_LEN < tx.parts.length)
    (small : tx.parts.length ≤ MAX_TRANSFER_BYTES / RESOURCE_SDU + 1) :
    ∃ st reached, start tx.advertisement = .ok st ∧
      ReflTransGen (LossyStep crypto tx) st reached ∧ reached.rx.isComplete = false ∧
      reached.flight = [] ∧ reached.requests = [] ∧
      reached.rx.nextRequest = .ok (none, reached.rx) := by
  obtain ⟨accepted, sync⟩ := Synced.accept (by omega) small
  obtain ⟨st, started, onTrack, -⟩ := start_onTrack clear (by omega) small
  have height : (ResourceReceiver.initial tx.advertised).hashmapHeight < tx.parts.length := by
    have paged : ResourceReceiver.inAdv tx.advertised ≤ HASHMAP_MAX_LEN := by
      have bytes := tx.pageBytes_length_le 0
      simp only [ResourceReceiver.inAdv, ResourceSender.advertised, MAPHASH_LEN, HASHMAP_MAX_LEN]
      omega
    exact Nat.lt_of_le_of_lt paged pages
  have fresh : Quiet tx _ ⟨ResourceReceiver.initial tx.advertised, [], []⟩ :=
    ⟨rfl, rfl, by simp [Coming]⟩
  have asked : ask ⟨ResourceReceiver.initial tx.advertised, [], []⟩ = .ok st := by
    simpa only [start, accepted, Bind.bind, Except.bind] using started
  obtain ⟨waiting, run, waits, later⟩ : ∃ reached, ReflTransGen (Step crypto tx) st reached ∧
      reached.rx.waitingForHmu = true ∧ OnTrack tx reached := by
    rcases fresh.ask sync asked with quiet | waits
    · exact exists_waiting hashed clear apart onTrack quiet height
    · exact ⟨st, .refl, waits, onTrack⟩
  obtain ⟨⟨frontier, tracked⟩, -⟩ := later
  have incomplete : waiting.rx.isComplete = false := by
    -- A page is awaited only below the end, so the last part cannot have been asked for.
    have short := (tracked.awaited waits).1
    by_contra complete
    have all := tracked.sync.book.isComplete_iff.mp (by simpa using complete)
    have known := tracked.sync.book.heldKnown _
      (all waiting.rx.hashmapHeight (by rw [tracked.sync.count]; exact short))
    rw [tracked.sync.isSome_mapHash] at known
    omega
  refine ⟨st, { waiting with requests := [], flight := [] }, started, ?_, incomplete, rfl, rfl, ?_⟩
  · have lossy : ReflTransGen (LossyStep crypto tx) st waiting :=
      run.lift id fun _ _ step => step.lossy
    exact lossy.trans (lose_all waiting)
  · simp [ResourceReceiver.nextRequest, waits]

end LostPage

section Concrete

def frontDigest : Crypto := { Crypto.sample with sha256 := BytesN.ofBytes 32 }

def countingData : Bytes := (List.range 34330).map fun j => UInt8.ofNat (j / RESOURCE_SDU)

/-- A resource of seventy-five parts, one more than the advertisement carries map-hashes for. -/
def countingSender : ResourceSender :=
  ResourceSender.new frontDigest countingData (BytesN.ofBytes 64 []) (BytesN.ofBytes 4 [])
    (BytesN.ofBytes 4 []) (BytesN.ofBytes 16 [255])

theorem head_ofBytes (n : Nat) (byte : UInt8) (rest : Bytes) :
    (BytesN.ofBytes (n + 1) (byte :: rest)).val.head? = some byte := by
  simp [BytesN.ofBytes]

theorem head_partMapHash {salt part : Bytes} {byte : UInt8} (first : part.head? = some byte) :
    (partMapHash frontDigest salt part).val.head? = some byte := by
  obtain ⟨rest, rfl⟩ := List.head?_eq_some_iff.mp first
  have digest : (fullHash frontDigest ((byte :: rest) ++ salt)).val.head? = some byte :=
    head_ofBytes 31 byte (rest ++ salt)
  obtain ⟨tail, whole⟩ := List.head?_eq_some_iff.mp digest
  rw [partMapHash, whole]
  exact head_ofBytes 3 byte tail

def countingStream : Bytes :=
  (BytesN.ofBytes 16 [255]).val ++ ((BytesN.ofBytes 4 []).val ++ countingData)
    ++ (BytesN.ofBytes 32 []).val

theorem countingStream_boundary {i : Nat} (inside : i < 75) :
    countingStream[i * RESOURCE_SDU]?
      = some (if i = 0 then 255 else UInt8.ofNat (i - 1)) := by
  rcases Nat.eq_zero_or_pos i with rfl | positive
  · rfl
  · -- From the second part on, the boundary falls into the data.
    have low : 20 ≤ i * RESOURCE_SDU := by rw [RESOURCE_SDU]; omega
    have count : (i * RESOURCE_SDU - 20) / RESOURCE_SDU = i - 1 := by
      rw [RESOURCE_SDU]
      omega
    rw [countingStream, List.getElem?_append_left, List.getElem?_append_right,
      List.getElem?_append_right, countingData, List.getElem?_map, List.getElem?_range]
    · simp [Nat.sub_sub, count, Nat.pos_iff_ne_zero.mp positive]
    all_goals simp only [List.length_append, BytesN.length_val, countingData, List.length_map,
      List.length_range, RESOURCE_SDU]
    all_goals omega

theorem frontDigest_parts (data : Bytes) (key : SessionKey) (r streamPrefix : BytesN 4) (iv : Iv) :
    (ResourceSender.new frontDigest data key r streamPrefix iv).parts
      = chunks RESOURCE_SDU
          (iv.val ++ (streamPrefix.val ++ data) ++ (BytesN.ofBytes 32 []).val) :=
  rfl

theorem countingSender_parts :
    countingSender.parts = (List.range 75).map fun i =>
      (countingStream.drop (i * RESOURCE_SDU)).take RESOURCE_SDU := by
  have length : countingStream.length = 34382 := by
    simp [countingStream, countingData]
  rw [countingSender, frontDigest_parts, ← countingStream, chunks, length, RESOURCE_SDU]

theorem countingSender_distinct : countingSender.mapHashes.Nodup := by
  refine List.Nodup.of_map (fun h => h.val.head?) ?_
  have heads : countingSender.mapHashes.map (fun h => h.val.head?)
      = (List.range 75).map fun i => some (if i = 0 then 255 else UInt8.ofNat (i - 1)) := by
    have parts := countingSender_parts
    rw [countingSender] at parts ⊢
    rw [new_hashed, parts, List.map_map, List.map_map]
    apply List.map_congr_left
    intro i inside
    refine head_partMapHash ?_
    rw [List.head?_take, List.head?_drop, countingStream_boundary (List.mem_range.mp inside)]
    simp [RESOURCE_SDU]
  rw [heads]
  decide +kernel

theorem countingSender_length : countingSender.parts.length = 75 := by
  rw [countingSender_parts, List.length_map, List.length_range]

/-- The counting resource can be left waiting for its second page for good. -/
theorem lost_page_stalls :
    ∃ st reached, start countingSender.advertisement = .ok st ∧
      ReflTransGen (LossyStep frontDigest countingSender) st reached ∧
      reached.rx.isComplete = false ∧ reached.flight = [] ∧ reached.requests = [] ∧
      reached.rx.nextRequest = .ok (none, reached.rx) := by
  have hashed := new_hashed frontDigest countingData (BytesN.ofBytes 64 []) (BytesN.ofBytes 4 [])
    (BytesN.ofBytes 4 []) (BytesN.ofBytes 16 [255])
  rw [← countingSender] at hashed
  exact exists_stalled hashed (.of_nodup countingSender_distinct)
    (.of_nodup countingSender_distinct _) (by rw [countingSender_length]; decide)
    (by rw [countingSender_length]; decide)

/-- The equivalence at the start of the counting resource. -/
theorem stalled_recovers_iff_counting : ∃ st, start countingSender.advertisement = .ok st ∧
    st.rx.isComplete = false ∧
    (Recovers frontDigest countingSender st.rx ↔ Recoverable countingSender st.rx) := by
  have small : countingSender.parts.length ≤ MAX_TRANSFER_BYTES / RESOURCE_SDU + 1 := by
    rw [countingSender_length]
    decide
  obtain ⟨st, started, -, incomplete⟩ := start_onTrack (.of_nodup countingSender_distinct)
    (by rw [countingSender_length]; decide) small
  refine ⟨st, started, incomplete, ?_⟩
  rw [countingSender] at *
  exact stalled_recovers_iff countingData (BytesN.ofBytes 64 []) (BytesN.ofBytes 4 [])
    (BytesN.ofBytes 4 []) (BytesN.ofBytes 16 [255]) frontDigest small started .refl incomplete

end Concrete

end Exchange

end LxmfChat
