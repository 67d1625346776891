import Mathlib.Data.List.Nodup
import LxmfChat.Base.Runs
import LxmfChat.Reticulum.Resource.Exchange

/-! Over a network that loses nothing, every transfer completes with the data that was sent. -/

namespace LxmfChat

open Base

variable {m : Message} {h : MapHash} {rx : ResourceReceiver} {st : Exchange} {copies : List Message}

namespace Exchange

/-- A message of the sender: a part below the frontier, or a page the receiver has reached. -/
def Genuine (tx : ResourceSender) (height frontier : Nat) : Message → Prop
  | .part data => ∃ i < frontier, tx.parts[i]? = some data
  | .hashmapUpdate plaintext =>
    ∃ page, page * HASHMAP_MAX_LEN ≤ height ∧ plaintext = tx.hashmapUpdate page

theorem Genuine.mono {tx : ResourceSender} {height frontier height' frontier' : Nat}
    (genuine : Genuine tx height frontier m) (higher : height ≤ height')
    (further : frontier ≤ frontier') : Genuine tx height' frontier' m := by
  cases m with
  | part data =>
    obtain ⟨i, below, found⟩ := genuine
    exact ⟨i, by omega, found⟩
  | hashmapUpdate plaintext =>
    obtain ⟨page, reached, same⟩ := genuine
    exact ⟨page, by omega, same⟩

/-- A message is on its way, or will be once a pending request is served. -/
def Coming (tx : ResourceSender) (st : Exchange) (m : Message) : Prop :=
  m ∈ st.flight ∨ ∃ request ∈ st.requests, m ∈ tx.answer request

/--
The state of a transfer that loses nothing, up to the parts asked for so far.

Everything missing below the frontier is coming, and so is an awaited page.
-/
structure Tracked (tx : ResourceSender) (st : Exchange) (frontier : Nat) : Prop where
  sync : Synced tx st.rx
  own : ∀ i data, st.rx.part i = some data → tx.parts[i]? = some data
  within : frontier ≤ st.rx.frontier
  counted : st.rx.outstanding ≤ (missing st.rx.parts frontier).length
  genuine : ∀ m, Coming tx st m → Genuine tx st.rx.hashmapHeight frontier m
  covered : ∀ i ∈ missing st.rx.parts frontier, ∀ data, tx.parts[i]? = some data →
    Coming tx st (.part data)
  awaited : st.rx.waitingForHmu = true → st.rx.hashmapHeight < tx.parts.length ∧
    Coming tx st (.hashmapUpdate (tx.hashmapUpdate (st.rx.hashmapHeight / HASHMAP_MAX_LEN)))

/-- An unfinished transfer has parts outstanding or awaits a page. -/
def Moving (st : Exchange) : Prop :=
  st.rx.waitingForHmu = false → st.rx.isComplete = false → 0 < st.rx.outstanding

/-- The state of a transfer that loses nothing, between two steps. -/
def OnTrack (tx : ResourceSender) (st : Exchange) : Prop :=
  (∃ frontier, Tracked tx st frontier) ∧ st.Moving

/-- The map-hash that ends the first pages occurs nowhere before their end. -/
def EndsOnce (tx : ResourceSender) (pages : Nat) : Prop :=
  ∀ (i : Nat) (h : MapHash), tx.mapHashes[pages * HASHMAP_MAX_LEN - 1]? = some h →
    i + 1 < pages * HASHMAP_MAX_LEN → tx.mapHashes[i]? ≠ some h

/--
The sender finds by a map-hash what the receiver asked for with it.

Parts with equal map-hashes have equal bytes, and the map-hash that ends a page with another after
it occurs nowhere before.
-/
structure Unambiguous (tx : ResourceSender) : Prop where
  content : ∀ (i j : Nat) (h : MapHash), tx.mapHashes[i]? = some h → tx.mapHashes[j]? = some h →
    tx.parts[i]? = tx.parts[j]?
  ends : ∀ pages, pages * HASHMAP_MAX_LEN < tx.parts.length → EndsOnce tx pages

/-- Any two parts with equal map-hashes lie more than this many positions apart. -/
def Apart (tx : ResourceSender) (distance : Nat) : Prop :=
  ∀ (i j : Nat) (h : MapHash), i < j → tx.mapHashes[i]? = some h → tx.mapHashes[j]? = some h →
    distance < j - i

theorem index_of_nodup {tx : ResourceSender} (distinct : tx.mapHashes.Nodup) {i j : Nat}
    (here : tx.mapHashes[i]? = some h) (there : tx.mapHashes[j]? = some h) : i = j := by
  obtain ⟨inside, -⟩ := List.getElem?_eq_some_iff.mp here
  exact (List.getElem?_inj inside distinct).mp (here.trans there.symm)

theorem Unambiguous.of_nodup {tx : ResourceSender} (distinct : tx.mapHashes.Nodup) :
    Unambiguous tx where
  content := by
    intro i j h here there
    rw [index_of_nodup distinct here there]
  ends := by
    intro pages _ i h last earlier same
    have equal := index_of_nodup distinct same last
    omega

theorem Apart.of_nodup {tx : ResourceSender} (distinct : tx.mapHashes.Nodup) (distance : Nat) :
    Apart tx distance := by
  intro i j h before here there
  have equal := index_of_nodup distinct here there
  omega

section Sender

variable {crypto : Crypto} {tx : ResourceSender}
variable (hashed : tx.mapHashes = tx.parts.map (partMapHash crypto tx.randomHash.val))
variable (clear : Unambiguous tx) (apart : Apart tx WINDOW_MAX)

theorem exists_idxOf {i : Nat} (found : tx.mapHashes[i]? = some h) :
    ∃ first ≤ i, tx.mapHashes.idxOf? h = some first ∧ tx.mapHashes[first]? = some h := by
  have member := List.mem_of_getElem? found
  obtain ⟨first, index⟩ : ∃ first, tx.mapHashes.idxOf? h = some first := by
    rw [← Option.isSome_iff_exists, List.isSome_idxOf?]
    exact member
  obtain ⟨inside, same, earlier⟩ := List.idxOf?_eq_some_iff.mp index
  refine ⟨first, ?_, index, ?_⟩
  · -- No place before the first one holds the map-hash.
    obtain ⟨here, value⟩ := List.getElem?_eq_some_iff.mp found
    by_contra beyond
    exact earlier i (by omega) value
  · rw [List.getElem?_eq_getElem inside, same]

include clear in
theorem partFor_mapHash {i : Nat} (found : tx.mapHashes[i]? = some h) :
    tx.partFor h = tx.parts[i]? := by
  obtain ⟨first, -, index, same⟩ := exists_idxOf found
  rw [← clear.content first i h same found]
  simp [ResourceSender.partFor, index]

include clear in
theorem nextPage_last {height : Nat} (positive : 0 < height)
    (boundary : height % HASHMAP_MAX_LEN = 0) (short : height < tx.parts.length)
    (found : tx.mapHashes[height - 1]? = some h) :
    tx.nextPage h = some (tx.hashmapUpdate (height / HASHMAP_MAX_LEN)) := by
  obtain ⟨first, early, index, same⟩ := exists_idxOf found
  have whole : height / HASHMAP_MAX_LEN * HASHMAP_MAX_LEN = height :=
    Nat.div_mul_cancel (Nat.dvd_of_mod_eq_zero boundary)
  -- No place before the end of the page has its map-hash, so the first one is the end.
  have last : first + 1 = height := by
    by_contra before
    exact clear.ends (height / HASHMAP_MAX_LEN) (by rw [whole]; exact short) first h
      (by rw [whole]; exact found) (by rw [whole]; omega) same
  simp [ResourceSender.nextPage, index, last, boundary]

include hashed in
theorem mapHash_of_part {i : Nat} {data : Bytes} (found : tx.parts[i]? = some data) :
    tx.mapHashes[i]? = some (partMapHash crypto tx.randomHash.val data) := by
  rw [hashed, List.getElem?_map, found]
  rfl

include apart in
theorem index_near {i j : Nat} (here : tx.mapHashes[i]? = some h)
    (there : tx.mapHashes[j]? = some h) (behind : i < j + WINDOW_MAX) (ahead : j < i + WINDOW_MAX) :
    i = j := by
  rcases Nat.lt_trichotomy i j with before | same | after
  · have far := apart i j h before here there
    omega
  · exact same
  · have far := apart j i h after there here
    omega

include clear in
theorem mem_answer (sync : Synced tx rx) :
    m ∈ tx.answer (request tx rx) ↔
      (∃ i ∈ missing rx.parts rx.frontier, ∃ data, tx.parts[i]? = some data ∧ m = .part data) ∨
      (rx.exhausted = true ∧
        m = .hashmapUpdate (tx.hashmapUpdate (rx.hashmapHeight / HASHMAP_MAX_LEN))) := by
  rw [mem_answer_request]
  constructor
  · rintro (⟨i, absent, h, found, data, part, rfl⟩ | ⟨out, h, found, page, next, rfl⟩)
    · rw [partFor_mapHash clear found] at part
      exact .inl ⟨i, absent, data, part, rfl⟩
    · rw [nextPage_last clear sync.book.heightPositive (sync.boundary out).1 (sync.boundary out).2
        found] at next
      exact .inr ⟨out, congrArg Message.hashmapUpdate (Option.some.inj next).symm⟩
  · rintro (⟨i, absent, data, part, rfl⟩ | ⟨out, rfl⟩)
    · -- Every part has a map-hash, and the sender finds these bytes by it.
      have inside := (List.getElem?_eq_some_iff.mp part).1
      obtain ⟨h, found⟩ : ∃ h, tx.mapHashes[i]? = some h :=
        ⟨_, List.getElem?_eq_getElem (by rw [tx.sized]; exact inside)⟩
      exact .inl ⟨i, absent, h, found, data, (partFor_mapHash clear found).trans part, rfl⟩
    · obtain ⟨h, found, -⟩ := sync.lastKnown
      exact .inr ⟨out, h, found, _,
        nextPage_last clear sync.book.heightPositive (sync.boundary out).1 (sync.boundary out).2
          found, rfl⟩

include clear in
theorem Tracked.asks {frontier : Nat} (tracked : Tracked tx st frontier) :
    Tracked tx { st with rx := asked st.rx, requests := st.requests ++ [request tx st.rx] }
      st.rx.frontier := by
  have sync := tracked.sync
  have answer := fun m => mem_answer clear (m := m) sync
  exact {
    sync := synced_asked sync
    own := tracked.own
    within := Nat.le_refl _
    counted := Nat.le_refl _
    genuine := by
      rintro m (flying | ⟨request, pending, answered⟩)
      · exact (tracked.genuine m (.inl flying)).mono (Nat.le_refl _) tracked.within
      · rcases List.mem_append.mp pending with old | new
        · exact (tracked.genuine m (.inr ⟨request, old, answered⟩)).mono (Nat.le_refl _)
            tracked.within
        · -- What the new request brings is a part it names or the page after the known ones.
          rw [List.mem_singleton.mp new, answer] at answered
          rcases answered with ⟨i, absent, data, part, rfl⟩ | ⟨out, rfl⟩
          · exact ⟨i, (mem_missing.mp absent).1, part⟩
          · exact ⟨_, Nat.div_mul_le_self _ _, rfl⟩
    -- The new request names every missing part, so its answer alone covers them.
    covered := fun i absent data part =>
      .inr ⟨_, List.mem_append_right _ List.mem_cons_self,
        (answer _).mpr (.inl ⟨i, absent, data, part, rfl⟩)⟩
    awaited := fun out => ⟨(sync.boundary out).2,
      .inr ⟨_, List.mem_append_right _ List.mem_cons_self, (answer _).mpr (.inr ⟨out, rfl⟩)⟩⟩ }

include clear in
theorem ask_tracked {frontier : Nat} (tracked : Tracked tx st frontier) :
    ∃ next, ask st = .ok next ∧ OnTrack tx next ∧ next.flight = st.flight ∧
      next.rx.parts = st.rx.parts ∧ next.rx.received = st.rx.received ∧
      next.rx.hashmapHeight = st.rx.hashmapHeight ∧
      ∃ more, next.requests = st.requests ++ more ∧
        ∀ request ∈ more, ∀ m ∈ tx.answer request, ∀ plaintext, m = .hashmapUpdate plaintext →
          st.rx.hashmapHeight < tx.parts.length ∧
          plaintext = tx.hashmapUpdate (st.rx.hashmapHeight / HASHMAP_MAX_LEN) := by
  by_cases idle : st.rx.isComplete = true ∨ st.rx.waitingForHmu = true
  · -- A receiver that is complete or waits for a page asks for nothing.
    refine ⟨st, ask_idle idle, ⟨⟨frontier, tracked⟩, ?_⟩, rfl, rfl, rfl, rfl, [], by simp, by simp⟩
    intro ready incomplete
    rcases idle with complete | waiting
    · rw [complete] at incomplete
      cases incomplete
    · rw [waiting] at ready
      cases ready
  · simp only [not_or, Bool.not_eq_true] at idle
    obtain ⟨incomplete, ready⟩ := idle
    have sync := tracked.sync
    refine ⟨_, ask_ready sync incomplete ready, ⟨⟨st.rx.frontier, tracked.asks clear⟩, ?_⟩, rfl,
      rfl, rfl, rfl, [request tx st.rx], rfl, ?_⟩
    · -- The first part the receiver lacks is within what it may ask for.
      intro inside _
      exact List.length_pos_of_mem (sync.consecutive_mem_missing incomplete inside)
    · rintro _ new m answered plaintext rfl
      rw [List.mem_singleton.mp new, mem_answer clear sync] at answered
      rcases answered with ⟨i, absent, data, part, impossible⟩ | ⟨out, same⟩
      · cases impossible
      · exact ⟨(sync.boundary out).2, Message.hashmapUpdate.inj same⟩

theorem Coming.remove {before after : List Message} {other : Message}
    (coming : Coming tx st other) (flying : st.flight = before ++ m :: after)
    (different : other ≠ m) (rx : ResourceReceiver) :
    Coming tx { st with flight := before ++ after, rx := rx } other := by
  rcases coming with here | later
  · rw [flying] at here
    exact .inl (by simpa [different] using here)
  · exact .inr later

theorem Coming.of_remove {before after : List Message} {other : Message}
    (flying : st.flight = before ++ m :: after)
    (coming : Coming tx { st with flight := before ++ after, rx := rx } other) :
    Coming tx st other := by
  rcases coming with here | later
  · refine .inl ?_
    rw [flying]
    rcases List.mem_append.mp here with front | back
    · exact List.mem_append_left _ front
    · exact List.mem_append_right _ (List.mem_cons_of_mem _ back)
  · exact .inr later

theorem Coming.of_serve {before after : List Bytes} {request : Bytes}
    (pending : st.requests = before ++ request :: after)
    (answered : ∀ m ∈ copies, m ∈ tx.answer request)
    (coming : Coming tx { st with requests := before ++ after, flight := st.flight ++ copies } m) :
    Coming tx st m := by
  rcases coming with flying | ⟨other, there, answers⟩
  · rcases List.mem_append.mp flying with old | copied
    · exact .inl old
    · exact .inr ⟨request, by simp [pending], answered m copied⟩
  · refine .inr ⟨other, ?_, answers⟩
    rw [pending]
    rcases List.mem_append.mp there with front | back
    · exact List.mem_append_left _ front
    · exact List.mem_append_right _ (List.mem_cons_of_mem _ back)

theorem Coming.serve {before after : List Bytes} {request : Bytes}
    (pending : st.requests = before ++ request :: after)
    (answered : ∀ m ∈ tx.answer request, m ∈ copies) (coming : Coming tx st m) :
    Coming tx { st with requests := before ++ after, flight := st.flight ++ copies } m := by
  rcases coming with flying | ⟨other, there, answers⟩
  · exact .inl (List.mem_append_left _ flying)
  · rw [pending] at there
    rcases List.mem_append.mp there with front | back
    · exact .inr ⟨other, List.mem_append_left _ front, answers⟩
    · rcases List.mem_cons.mp back with rfl | later
      · exact .inl (List.mem_append_right _ (answered m answers))
      · exact .inr ⟨other, List.mem_append_right _ later, answers⟩

theorem Tracked.drop_part {frontier : Nat} (tracked : Tracked tx st frontier)
    {before after : List Message} {data : Bytes}
    (flying : st.flight = before ++ .part data :: after)
    (held : ∀ i ∈ missing st.rx.parts frontier, tx.parts[i]? ≠ some data) :
    Tracked tx { st with flight := before ++ after } frontier where
  sync := tracked.sync
  own := tracked.own
  within := tracked.within
  counted := tracked.counted
  genuine := fun m coming => tracked.genuine m (coming.of_remove flying)
  covered := by
    intro i absent other part
    refine (tracked.covered i absent other part).remove flying ?_ st.rx
    rintro same
    rw [Message.part.inj same] at part
    exact held i absent part
  awaited := fun waiting =>
    ⟨(tracked.awaited waiting).1, (tracked.awaited waiting).2.remove flying (by simp) st.rx⟩

theorem frontier_le_stored (book : rx.Consistent) (i : Nat) (data : Bytes) :
    rx.frontier ≤ (rx.stored i data).frontier := by
  have forward : rx.consecutive ≤ (rx.stored i data).consecutive := Nat.le_add_right _ _
  have high := book.windowHigh
  have wider : rx.window ≤ (rx.stored i data).window := by
    simp only [ResourceReceiver.stored]
    split_ifs <;> omega
  have same : (rx.stored i data).hashmapHeight = rx.hashmapHeight := rfl
  rw [ResourceReceiver.frontier, ResourceReceiver.frontier, same]
  omega

include hashed apart in
theorem Tracked.store_part {frontier : Nat} (tracked : Tracked tx st frontier)
    {before after : List Message} {data : Bytes} {i : Nat}
    (flying : st.flight = before ++ .part data :: after) (part : tx.parts[i]? = some data)
    (within : i ∈ st.rx.windowIndices) (known : (st.rx.mapHash i).isSome)
    (empty : st.rx.part i = none) :
    Tracked tx { st with flight := before ++ after, rx := st.rx.stored i data } frontier := by
  have inside := (ResourceReceiver.mem_windowIndices.mp within).2.2
  exact {
    sync := tracked.sync.stored data within known empty
    own := by
      intro j other held
      rw [ResourceReceiver.part_stored data inside] at held
      split_ifs at held with here
      · rw [← here, part, held]
      · exact tracked.own j other held
    within := Nat.le_trans tracked.within (frontier_le_stored tracked.sync.book i data)
    counted := by
      -- A late copy may fill a place not asked for yet, so the missing may stay as many.
      have before := tracked.counted
      have fewer := missing_le_missing_set frontier data inside
      simp only [ResourceReceiver.stored, ResourceReceiver.storePart]
      omega
    genuine := fun m coming => tracked.genuine m (coming.of_remove flying)
    covered := by
      intro j missing other found
      obtain ⟨below, unheld⟩ := mem_missing.mp missing
      have stored := ResourceReceiver.part_stored data inside j
      rw [ResourceReceiver.part, unheld] at stored
      split_ifs at stored with here
      -- The other part is another one, since the window has one place for each map-hash.
      refine (tracked.covered j (mem_missing.mpr ⟨below, stored.symm⟩) other found).remove
        flying ?_ _
      intro same
      rw [Message.part.inj same] at found
      have beside := ResourceReceiver.mem_windowIndices.mp
        (tracked.sync.mem_windowIndices (Nat.lt_of_lt_of_le below tracked.within) stored.symm)
      have inWindow := ResourceReceiver.mem_windowIndices.mp within
      have wide := tracked.sync.book.windowHigh
      exact here (index_near apart (mapHash_of_part hashed part) (mapHash_of_part hashed found)
        (by omega) (by omega))
    awaited := fun waiting =>
      ⟨(tracked.awaited waiting).1, (tracked.awaited waiting).2.remove flying (by simp) _⟩ }

theorem Tracked.apply_page {frontier : Nat} (tracked : Tracked tx st frontier)
    {before after : List Message} {page : Nat}
    (flying : st.flight = before ++ .hashmapUpdate (tx.hashmapUpdate page) :: after)
    (reached : page * HASHMAP_MAX_LEN ≤ st.rx.hashmapHeight) :
    Tracked tx { st with
      flight := before ++ after, rx := st.rx.applyPage page (tx.pageBytes page) } frontier := by
  have higher : st.rx.hashmapHeight ≤ (st.rx.applyPage page (tx.pageBytes page)).hashmapHeight := by
    rw [tracked.sync.height_applyPage reached]
    omega
  exact {
    sync := tracked.sync.applyPage reached
    own := tracked.own
    within := by
      -- A page leaves the window where it is, so the frontier moves with the height alone.
      refine Nat.le_trans tracked.within ?_
      change min (st.rx.consecutive + st.rx.window) st.rx.hashmapHeight
        ≤ min (st.rx.consecutive + st.rx.window)
            (st.rx.applyPage page (tx.pageBytes page)).hashmapHeight
      omega
    counted := tracked.counted
    genuine := fun m coming =>
      (tracked.genuine m (coming.of_remove flying)).mono higher (Nat.le_refl _)
    covered := fun i absent data part =>
      (tracked.covered i absent data part).remove flying (by simp) _
    awaited := fun waiting => by cases waiting }

def stale (tx : ResourceSender) (height : Nat) : Message → Bool
  | .part _ => false
  | .hashmapUpdate plaintext =>
    !(height < tx.parts.length && plaintext == tx.hashmapUpdate (height / HASHMAP_MAX_LEN))

def staleRequest (tx : ResourceSender) (height : Nat) (request : Bytes) : Bool :=
  (tx.answer request).any (stale tx height)

/--
What a run still has to do, most significant first.

Map-hashes and parts still to come, then requests and pages that bring nothing new, then
requests and messages of any kind.
-/
def work (tx : ResourceSender) (st : Exchange) : Nat × Nat × Nat × Nat × Nat :=
  (2 * tx.parts.length - (st.rx.hashmapHeight + st.rx.received),
    st.requests.countP (staleRequest tx st.rx.hashmapHeight),
    st.flight.countP (stale tx st.rx.hashmapHeight),
    st.requests.length,
    st.flight.length)

/-- Less work, compared from the most significant count down. -/
def Less : Nat × Nat × Nat × Nat × Nat → Nat × Nat × Nat × Nat × Nat → Prop :=
  Prod.Lex (· < ·) (Prod.Lex (· < ·) (Prod.Lex (· < ·) (Prod.Lex (· < ·) (· < ·))))

theorem less_iff {a b c d e a' b' c' d' e' : Nat} :
    Less (a', b', c', d', e') (a, b, c, d, e) ↔ a' < a ∨ a' = a ∧ (b' < b ∨ b' = b ∧
      (c' < c ∨ c' = c ∧ (d' < d ∨ d' = d ∧ e' < e))) := by
  simp only [Less, Prod.lex_def]

theorem less_wellFounded : WellFounded Less :=
  Nat.lt_wfRel.wf.prod_lex (Nat.lt_wfRel.wf.prod_lex (Nat.lt_wfRel.wf.prod_lex
    (Nat.lt_wfRel.wf.prod_lex Nat.lt_wfRel.wf)))

theorem counts_le (sync : Synced tx rx) :
    rx.hashmapHeight ≤ tx.parts.length ∧ rx.received ≤ tx.parts.length := by
  refine ⟨sync.height_le, ?_⟩
  rw [sync.book.received, ← sync.count]
  exact filled_le_length _

include hashed clear apart in
theorem receive_part (onTrack : OnTrack tx st) {before after : List Message} {data : Bytes}
    (flying : st.flight = before ++ .part data :: after) :
    ∃ next, receive crypto { st with flight := before ++ after } (.part data) = .ok next ∧
      OnTrack tx next ∧ Less (work tx next) (work tx st) := by
  obtain ⟨⟨frontier, tracked⟩, moving⟩ := onTrack
  have sync := tracked.sync
  obtain ⟨i, below, part⟩ := tracked.genuine (.part data)
    (.inl (by rw [flying]; exact List.mem_append_right _ List.mem_cons_self))
  have place := mapHash_of_part hashed part
  have within := tracked.within
  rcases ResourceReceiver.receivePart_cases crypto st.rx data with
    ⟨ignored, held⟩ | ⟨j, window, matched, empty, taken⟩
  · -- The part is already held, so only the message is gone.
    have gone : ∀ k ∈ missing st.rx.parts frontier, tx.parts[k]? ≠ some data := by
      intro k absent same
      obtain ⟨low, empty⟩ := mem_missing.mp absent
      have known : st.rx.mapHash k = some (partMapHash crypto st.rx.randomHash data) := by
        rw [sync.known, if_pos (by rw [ResourceReceiver.frontier] at within; omega), sync.salt]
        exact mapHash_of_part hashed same
      have present := held k (sync.mem_windowIndices (by omega) empty) known
      rw [ResourceReceiver.part, empty] at present
      cases present
    refine ⟨_, ?_, ⟨⟨frontier, tracked.drop_part flying gone⟩, moving⟩, ?_⟩
    · simp only [receive, ignored, Bool.false_eq_true, if_false]
    · refine less_iff.mpr (.inr ⟨rfl, .inr ⟨rfl, .inr ⟨?_, .inr ⟨rfl, ?_⟩⟩⟩⟩)
      · simp [flying, List.countP_append, stale]
      · simp [flying]
  · -- The place it is stored at has its map-hash, so the sender has the same bytes there.
    have known : (st.rx.mapHash j).isSome := by rw [matched]; rfl
    rw [sync.salt, sync.known, if_pos ((sync.isSome_mapHash j).mp known)] at matched
    have own : tx.parts[j]? = some data := (clear.content j i _ matched place).trans part
    have stored := tracked.store_part hashed apart flying own window known empty
    have more : (st.rx.stored j data).received = st.rx.received + 1 := rfl
    have height : (st.rx.stored j data).hashmapHeight = st.rx.hashmapHeight := rfl
    have most := (counts_le stored.sync).2
    by_cases last : st.rx.outstanding ≤ 1
    · -- The window is full, so the receiver asks on.
      obtain ⟨next, asked, track, -, -, received, same, -⟩ := ask_tracked clear stored
      refine ⟨next, ?_, track, ?_⟩
      · simp only [receive, taken, last, decide_true, if_true]
        exact asked
      · have bound := (counts_le sync).1
        refine less_iff.mpr (.inl ?_)
        simp only [received, same, more, height] at most ⊢
        omega
    · refine ⟨_, ?_, ⟨⟨frontier, stored⟩, ?_⟩, ?_⟩
      · simp only [receive, taken, last, decide_false, Bool.false_eq_true, if_false]
      · intro _ _
        change 0 < st.rx.outstanding - 1
        omega
      · have bound := (counts_le sync).1
        refine less_iff.mpr (.inl ?_)
        simp only [more, height] at most ⊢
        omega

theorem height_lt_applyPage (sync : Synced tx rx) (short : rx.hashmapHeight < tx.parts.length) :
    rx.hashmapHeight < (rx.applyPage (rx.hashmapHeight / HASHMAP_MAX_LEN)
      (tx.pageBytes (rx.hashmapHeight / HASHMAP_MAX_LEN))).hashmapHeight := by
  have boundary : rx.hashmapHeight % HASHMAP_MAX_LEN = 0 := by
    rcases sync.paged with boundary | whole
    · exact boundary
    · have count := sync.count
      omega
  rw [sync.height_applyPage (Nat.div_mul_le_self _ _), HASHMAP_MAX_LEN] at *
  omega

theorem stale_of_reached (sync : Synced tx rx) {page : Nat}
    (reached : page * HASHMAP_MAX_LEN ≤ rx.hashmapHeight)
    (old : ¬ (rx.hashmapHeight < tx.parts.length ∧ page = rx.hashmapHeight / HASHMAP_MAX_LEN)) :
    (rx.applyPage page (tx.pageBytes page)).hashmapHeight = rx.hashmapHeight ∧
      stale tx rx.hashmapHeight (.hashmapUpdate (tx.hashmapUpdate page)) = true := by
  constructor
  · have bound := sync.height_le
    rw [sync.height_applyPage reached, HASHMAP_MAX_LEN] at *
    omega
  · rw [stale, Bool.not_eq_true', Bool.and_eq_false_iff]
    by_cases short : rx.hashmapHeight < tx.parts.length
    · right
      rw [beq_eq_false_iff_ne]
      intro same
      have next : rx.hashmapHeight / HASHMAP_MAX_LEN * HASHMAP_MAX_LEN ≤ rx.hashmapHeight :=
        Nat.div_mul_le_self _ _
      exact old ⟨short, tx.hashmapUpdate_inj (sync.page_lt reached) (sync.page_lt next) same⟩
    · left
      simpa using short

theorem countP_staleRequest_fresh {height : Nat} {requests : List Bytes}
    (fresh : ∀ request ∈ requests, ∀ m ∈ tx.answer request, ∀ plaintext,
      m = .hashmapUpdate plaintext → height < tx.parts.length ∧
        plaintext = tx.hashmapUpdate (height / HASHMAP_MAX_LEN)) :
    requests.countP (staleRequest tx height) = 0 := by
  rw [List.countP_eq_zero]
  intro request asked
  rw [staleRequest, List.any_eq_true]
  rintro ⟨m, answered, old⟩
  cases m with
  | part data => cases old
  | hashmapUpdate plaintext => simp [stale, fresh request asked _ answered plaintext rfl] at old

include clear in
theorem receive_page (onTrack : OnTrack tx st) {before after : List Message} {plaintext : Bytes}
    (flying : st.flight = before ++ .hashmapUpdate plaintext :: after) :
    ∃ next, receive crypto { st with flight := before ++ after } (.hashmapUpdate plaintext)
        = .ok next ∧
      OnTrack tx next ∧ Less (work tx next) (work tx st) := by
  obtain ⟨⟨frontier, tracked⟩, -⟩ := onTrack
  have sync := tracked.sync
  obtain ⟨page, reached, rfl⟩ := tracked.genuine (.hashmapUpdate plaintext)
    (.inl (by rw [flying]; exact List.mem_append_right _ List.mem_cons_self))
  have taken := sync.receiveHashmapUpdate reached
  obtain ⟨next, asked, track, flight, -, received, height, more, requests, fresh⟩ :=
    ask_tracked clear (tracked.apply_page flying reached)
  refine ⟨next, ?_, track, ?_⟩
  · simp only [receive, taken, Bind.bind, Except.bind]
    exact asked
  · by_cases new : st.rx.hashmapHeight < tx.parts.length ∧
        page = st.rx.hashmapHeight / HASHMAP_MAX_LEN
    · -- The page continues the known map-hashes, so the height grows.
      have higher := height_lt_applyPage sync new.1
      rw [← new.2] at higher
      have bound := counts_le sync
      have most := (counts_le (sync.applyPage reached)).1
      have same : (st.rx.applyPage page (tx.pageBytes page)).received = st.rx.received := rfl
      refine less_iff.mpr (.inl ?_)
      simp only [received, height, same] at most ⊢
      omega
    · -- The receiver has the page already, so one stale message is gone.
      obtain ⟨level, gone⟩ := stale_of_reached sync reached new
      have none := countP_staleRequest_fresh fresh
      refine less_iff.mpr (.inr ⟨?_, .inr ⟨?_, .inl ?_⟩⟩)
      · rw [received, height]
        simp only [level]
        rfl
      · rw [requests, height, List.countP_append, none]
        simp only [level]
        rfl
      · rw [flight, height]
        simp only [level, flying, List.countP_append, List.countP_cons, gone, if_true]
        omega

include hashed clear apart in
theorem receive_onTrack (onTrack : OnTrack tx st) {before after : List Message}
    (flying : st.flight = before ++ m :: after) :
    ∃ next, receive crypto { st with flight := before ++ after } m = .ok next ∧
      OnTrack tx next ∧ Less (work tx next) (work tx st) := by
  cases m with
  | part data => exact receive_part hashed clear apart onTrack flying
  | hashmapUpdate plaintext => exact receive_page clear onTrack flying

theorem serve_onTrack (onTrack : OnTrack tx st) {before after : List Bytes} {request : Bytes}
    (pending : st.requests = before ++ request :: after)
    (answered : ∀ m, m ∈ copies ↔ m ∈ tx.answer request) :
    OnTrack tx { st with requests := before ++ after, flight := st.flight ++ copies } ∧
      Less (work tx { st with requests := before ++ after, flight := st.flight ++ copies })
        (work tx st) := by
  obtain ⟨⟨frontier, tracked⟩, moving⟩ := onTrack
  constructor
  · exact ⟨⟨frontier, {
      sync := tracked.sync
      own := tracked.own
      within := tracked.within
      counted := tracked.counted
      genuine := fun m coming =>
        tracked.genuine m (coming.of_serve pending fun m copied => (answered m).mp copied)
      covered := fun i absent data part =>
        (tracked.covered i absent data part).serve pending fun m there => (answered m).mpr there
      awaited := fun waiting => ⟨(tracked.awaited waiting).1,
        (tracked.awaited waiting).2.serve pending fun m there => (answered m).mpr there⟩ }⟩,
      moving⟩
  · cases old : staleRequest tx st.rx.hashmapHeight request with
    | true =>
      refine less_iff.mpr (.inr ⟨rfl, .inl ?_⟩)
      simp only [pending, List.countP_append, List.countP_cons, old, if_true]
      omega
    | false =>
      -- The answer brings no stale page, so only the request itself is gone.
      have none : copies.countP (stale tx st.rx.hashmapHeight) = 0 := by
        rw [List.countP_eq_zero]
        intro m copied
        rw [staleRequest, List.any_eq_false] at old
        exact old m ((answered m).mp copied)
      refine less_iff.mpr (.inr ⟨rfl, .inr ⟨?_, .inr ⟨?_, .inl ?_⟩⟩⟩)
      · simp [pending, List.countP_append, old]
      · simp [List.countP_append, none]
      · simp [pending]

include hashed clear apart in
theorem step_onTrack {next : Exchange} (onTrack : OnTrack tx st) (step : Step crypto tx st next) :
    OnTrack tx next ∧ Less (work tx next) (work tx st) := by
  cases step with
  | serve pending answered => exact serve_onTrack onTrack pending answered
  | deliver flying received =>
    obtain ⟨result, delivered, track, less⟩ := receive_onTrack hashed clear apart onTrack flying
    rw [delivered] at received
    exact Except.ok.inj received ▸ ⟨track, less⟩

theorem OnTrack.busy (onTrack : OnTrack tx st) (incomplete : st.rx.isComplete = false) :
    st.flight ≠ [] ∨ st.requests ≠ [] := by
  obtain ⟨⟨frontier, tracked⟩, moving⟩ := onTrack
  have coming : ∃ m, Coming tx st m := by
    cases waiting : st.rx.waitingForHmu with
    | true => exact ⟨_, (tracked.awaited waiting).2⟩
    | false =>
      have some := moving waiting incomplete
      obtain ⟨i, absent⟩ :=
        List.exists_mem_of_length_pos (Nat.lt_of_lt_of_le some tracked.counted)
      have below := (mem_missing.mp absent).1
      have within := tracked.within
      have bound := tracked.sync.height_le
      rw [ResourceReceiver.frontier] at within
      exact ⟨_, tracked.covered i absent _ (List.getElem?_eq_getElem (by omega))⟩
  obtain ⟨m, flying | ⟨request, pending, -⟩⟩ := coming
  · exact .inl (List.ne_nil_of_mem flying)
  · exact .inr (List.ne_nil_of_mem pending)

include hashed clear apart in
theorem OnTrack.moves (onTrack : OnTrack tx st) (incomplete : st.rx.isComplete = false) :
    ∃ next, Step crypto tx st next := by
  rcases onTrack.busy incomplete with flying | pending
  · obtain ⟨m, rest, flight⟩ := List.exists_cons_of_ne_nil flying
    have first : st.flight = [] ++ m :: rest := flight
    obtain ⟨next, received, -⟩ := receive_onTrack hashed clear apart onTrack first
    exact ⟨next, .deliver first received⟩
  · obtain ⟨request, rest, requests⟩ := List.exists_cons_of_ne_nil pending
    have first : st.requests = [] ++ request :: rest := requests
    exact ⟨_, .serve first fun m => Iff.rfl⟩

include hashed clear apart in
theorem OnTrack.inevitable (onTrack : OnTrack tx st) :
    Inevitable (Step crypto tx) (fun st => st.rx.isComplete = true) st := by
  have keeps : ∀ s t, OnTrack tx s → Step crypto tx s t → OnTrack tx t :=
    fun s t onTrack step => (step_onTrack hashed clear apart onTrack step).1
  -- Work shrinks with every step, and an unfinished transfer always has a step to take.
  refine Inevitable.of_measure less_wellFounded (work tx) keeps
    (fun s t onTrack step => (step_onTrack hashed clear apart onTrack step).2) ?_ onTrack
  intro s onTrack unfinished
  exact onTrack.moves hashed clear apart (Bool.not_eq_true _ ▸ unfinished)

include hashed clear apart in
theorem OnTrack.reachable {reached : Exchange} (onTrack : OnTrack tx st)
    (run : Relation.ReflTransGen (Step crypto tx) st reached) : OnTrack tx reached := by
  have keeps : ∀ s t, OnTrack tx s → Step crypto tx s t → OnTrack tx t :=
    fun s t onTrack step => (step_onTrack hashed clear apart onTrack step).1
  exact reachable_of_keeps keeps onTrack run

include clear in
theorem start_onTrack (some : 0 < tx.parts.length)
    (small : tx.parts.length ≤ MAX_TRANSFER_BYTES / RESOURCE_SDU + 1) :
    ∃ st, start tx.advertisement = .ok st ∧ OnTrack tx st ∧ st.rx.isComplete = false := by
  obtain ⟨accepted, sync⟩ := Synced.accept some small
  have tracked : Tracked tx ⟨ResourceReceiver.initial tx.advertised, [], []⟩ 0 := {
    sync := sync
    own := by simp [ResourceReceiver.part, ResourceReceiver.initial]
    within := Nat.zero_le _
    counted := Nat.zero_le _
    genuine := by simp [Coming]
    covered := by simp
    awaited := fun waiting => by cases waiting }
  obtain ⟨st, asked, onTrack, -, parts, received, -⟩ := ask_tracked clear tracked
  refine ⟨st, ?_, onTrack, ?_⟩
  · simp only [start, accepted, Bind.bind, Except.bind]
    exact asked
  · have none : (ResourceReceiver.initial tx.advertised).received = 0 := rfl
    have count := sync.count
    simp only [ResourceReceiver.isComplete, parts, received, none, count, beq_eq_false_iff_ne]
    omega

theorem OnTrack.concat (onTrack : OnTrack tx st) (complete : st.rx.isComplete = true) :
    st.rx.concat = tx.parts.flatten := by
  obtain ⟨⟨frontier, tracked⟩, -⟩ := onTrack
  have all := tracked.sync.book.isComplete_iff.mp complete
  have columns : st.rx.parts = tx.parts.map some := by
    apply List.ext_getElem
    · simp [tracked.sync.count]
    · intro i inside inside'
      obtain ⟨data, held⟩ := Option.isSome_iff_exists.mp (all i inside)
      have part := tracked.own i data held
      simp only [ResourceReceiver.part, slot, List.getElem?_eq_getElem inside,
        Option.join_some] at held
      rw [held, List.getElem_map, ← (List.getElem?_eq_some_iff.mp part).2]
  rw [ResourceReceiver.concat, columns, List.flatMap_map]
  simp [List.flatMap_def]

end Sender

section New

variable (crypto : Crypto) (data : Bytes) (key : SessionKey) (r streamPrefix : BytesN 4) (iv : Iv)

theorem new_parts_pos :
    0 < (ResourceSender.new crypto data key r streamPrefix iv).parts.length := by
  have long := (Token.ofSessionKey key).encryptWithIv_length crypto (streamPrefix.val ++ data) iv
  simp only [ResourceSender.new, ResourceSender.ciphertext, chunks_length, RESOURCE_SDU]
  omega

theorem new_hashed :
    (ResourceSender.new crypto data key r streamPrefix iv).mapHashes
      = (ResourceSender.new crypto data key r streamPrefix iv).parts.map (partMapHash crypto
          (ResourceSender.new crypto data key r streamPrefix iv).randomHash.val) :=
  rfl

theorem new_parts_flatten :
    (ResourceSender.new crypto data key r streamPrefix iv).parts.flatten
      = ResourceSender.ciphertext crypto data key streamPrefix iv :=
  chunks_flatten (by decide) _

theorem finish_new (bz2Read : Nat → Bytes → Option Bytes)
    (sync : Synced (ResourceSender.new crypto data key r streamPrefix iv) rx) :
    ∃ proof, rx.finish crypto bz2Read (streamPrefix.val ++ data) = .ok (data, proof) ∧
      (ResourceSender.new crypto data key r streamPrefix iv).proofIsValid proof = true := by
  have hash : rx.hash = fullHash crypto (data ++ r.val) := sync.hash
  have salt : rx.randomHash = r.val := sync.salt
  refine ⟨rx.hash.val ++ (fullHash crypto (data ++ rx.hash.val)).val, ?_, ?_⟩
  · rw [ResourceReceiver.finish, if_neg (by simp [RANDOM_HASH_SIZE]), sync.uncompressed]
    simp [RANDOM_HASH_SIZE, hash, salt, Bind.bind, Except.bind, Pure.pure, Except.pure]
  · simp [ResourceSender.proofIsValid, ResourceSender.new, hash]

open Relation (ReflTransGen)

/--
A transfer between a sender and a receiver of this repository, over a network that loses nothing.

The advertisement is accepted, every run completes after finitely many steps, no run gets stuck
or fails before that, and then the receiver has the data and a proof that the sender accepts.
-/
theorem transfer_completes (inverse : crypto.CbcInverse) (bz2Read : Nat → Bytes → Option Bytes)
    (small : (ResourceSender.new crypto data key r streamPrefix iv).parts.length
      ≤ MAX_TRANSFER_BYTES / RESOURCE_SDU + 1)
    (distinct : (ResourceSender.new crypto data key r streamPrefix iv).mapHashes.Nodup) :
    let tx := ResourceSender.new crypto data key r streamPrefix iv
    ∃ rx st, ResourceReceiver.accept tx.advertisement = .ok rx ∧
      start tx.advertisement = .ok st ∧
      Inevitable (Step crypto tx) (fun st => st.rx.isComplete = true) st ∧
      ∀ reached, ReflTransGen (Step crypto tx) st reached →
        (∀ before m after, reached.flight = before ++ m :: after →
          ∃ next, receive crypto { reached with flight := before ++ after } m = .ok next) ∧
        (reached.rx.isComplete = false → reached.flight ≠ [] ∨ reached.requests ≠ []) ∧
        (reached.rx.isComplete = true →
          reached.rx.concat = ResourceSender.ciphertext crypto data key streamPrefix iv ∧
          ∃ stream proof,
            (Token.ofSessionKey key).decrypt crypto reached.rx.concat = .ok stream ∧
            reached.rx.finish crypto bz2Read stream = .ok (data, proof) ∧
            tx.proofIsValid proof = true) := by
  intro tx
  have hashed := new_hashed crypto data key r streamPrefix iv
  have some := new_parts_pos crypto data key r streamPrefix iv
  have clear := Unambiguous.of_nodup distinct
  have apart := Apart.of_nodup distinct WINDOW_MAX
  obtain ⟨st, started, begun, -⟩ := start_onTrack clear some small
  refine ⟨_, st, (Synced.accept some small).1, started, begun.inevitable hashed clear apart, ?_⟩
  intro reached run
  have onTrack := begun.reachable hashed clear apart run
  refine ⟨?_, onTrack.busy, ?_⟩
  · intro before m after flying
    obtain ⟨next, received, -⟩ := receive_onTrack hashed clear apart onTrack flying
    exact ⟨next, received⟩
  · -- A complete receiver holds the sender's ciphertext, and that decrypts to the stream.
    intro complete
    have stream : reached.rx.concat
        = ResourceSender.ciphertext crypto data key streamPrefix iv :=
      (onTrack.concat complete).trans (new_parts_flatten crypto data key r streamPrefix iv)
    obtain ⟨⟨frontier, tracked⟩, -⟩ := onTrack
    obtain ⟨proof, finished, valid⟩ :=
      finish_new crypto data key r streamPrefix iv bz2Read tracked.sync
    refine ⟨stream, streamPrefix.val ++ data, proof, ?_, finished, valid⟩
    rw [stream]
    exact Token.decrypt_encryptWithIv crypto inverse _ _ _

/-- A resource of three bytes, which makes a single part. -/
theorem transfer_completes_threeBytes :
    let tx := ResourceSender.new Crypto.sample [1, 2, 3] (BytesN.ofBytes 64 [])
      (BytesN.ofBytes 4 [9]) (BytesN.ofBytes 4 [8]) (BytesN.ofBytes 16 [7])
    ∃ st, start tx.advertisement = .ok st ∧
      Inevitable (Step Crypto.sample tx) (fun st => st.rx.isComplete = true) st := by
  obtain ⟨rx, st, -, started, inevitable, -⟩ := transfer_completes Crypto.sample [1, 2, 3]
    (BytesN.ofBytes 64 []) (BytesN.ofBytes 4 [9]) (BytesN.ofBytes 4 [8]) (BytesN.ofBytes 16 [7])
    Crypto.sample_cbcInverse (fun _ _ => none) (by decide) (by decide +kernel)
  exact ⟨st, started, inevitable⟩

end New

end Exchange

end LxmfChat
