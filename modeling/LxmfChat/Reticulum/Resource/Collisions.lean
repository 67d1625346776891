import LxmfChat.Reticulum.Resource.Recovery

/-! What equal map-hashes do to a transfer, however far apart the parts that share them lie. -/

namespace LxmfChat

open Base
open Relation (ReflTransGen)

namespace Exchange

/--
Every exchange over a network that loses nothing delivers the stream.

The advertisement is accepted, every run completes after finitely many steps, and a complete
receiver has put the stream together.
-/
def Delivers (crypto : Crypto) (tx : ResourceSender) (stream : Bytes) : Prop :=
  ∃ st, start tx.advertisement = .ok st ∧
    Inevitable (Step crypto tx) (fun st => st.rx.isComplete = true) st ∧
    ∀ reached, ReflTransGen (Step crypto tx) st reached → reached.rx.isComplete = true →
      reached.rx.concat = stream

variable {crypto : Crypto} {tx : ResourceSender}

/-- A message the sender may send: a part or a page that it finds by some map-hash. -/
def Findable (tx : ResourceSender) : Message → Prop
  | .part data => ∃ h, tx.partFor h = some data
  | .hashmapUpdate plaintext => ∃ h, tx.nextPage h = some plaintext

theorem findable_answer {request : Bytes} {m : Message} (answered : m ∈ tx.answer request) :
    Findable tx m := by
  rcases List.mem_append.mp answered with part | page
  · obtain ⟨data, sent, rfl⟩ := List.mem_map.mp part
    exact tx.exists_partFor_of_handleRequest sent
  · obtain ⟨plaintext, sent, rfl⟩ := List.mem_map.mp page
    exact tx.exists_nextPage_of_handleRequest (Option.mem_toList.mp sent)

theorem endsOnce_of_findable {rx : ResourceReceiver} (sync : Synced tx rx) {page : Nat}
    (fits : page < 65536) (findable : Findable tx (.hashmapUpdate (tx.hashmapUpdate page))) :
    EndsOnce tx page := by
  obtain ⟨last, found⟩ := findable
  obtain ⟨idx, first, boundary, same⟩ := tx.exists_idx_of_nextPage found
  have place : tx.mapHashes[idx]? = some last := by
    obtain ⟨inside, equal, -⟩ := List.idxOf?_eq_some_iff.mp first
    rw [List.getElem?_eq_getElem inside, equal]
  have small : (idx + 1) / HASHMAP_MAX_LEN < 65536 := by
    have inside := (List.getElem?_eq_some_iff.mp place).1
    have count := sync.count
    have bounded := sync.book.bounded
    have limit : MAX_TRANSFER_BYTES / RESOURCE_SDU + 1 = 565 := by decide
    rw [tx.sized] at inside
    rw [HASHMAP_MAX_LEN]
    omega
  obtain rfl := tx.hashmapUpdate_inj fits small same
  have whole : (idx + 1) / HASHMAP_MAX_LEN * HASHMAP_MAX_LEN = idx + 1 :=
    Nat.div_mul_cancel (Nat.dvd_of_mod_eq_zero boundary)
  intro i h ends before earlier
  rw [whole] at ends before
  obtain rfl := Option.some.inj (place.symm.trans ends)
  -- An earlier place would be the one that the sender finds.
  obtain ⟨earliest, low, index, -⟩ := exists_idxOf earlier
  have equal := Option.some.inj (first.symm.trans index)
  omega

theorem flight_ask {st next : Exchange} (asked : ask st = .ok next) : next.flight = st.flight := by
  unfold ask at asked
  cases result : st.rx.nextRequest with
  | error fault =>
    rw [result] at asked
    cases asked
  | ok pair =>
    rw [result] at asked
    rw [← Except.ok.inj asked]

theorem flight_receive {st next : Exchange} {m : Message}
    (received : receive crypto st m = .ok next) : next.flight = st.flight := by
  cases m with
  | part data =>
    unfold receive at received
    dsimp only at received
    split at received
    · have kept := flight_ask received
      exact kept
    · rw [← Except.ok.inj received]
  | hashmapUpdate plaintext =>
    cases result : st.rx.receiveHashmapUpdate plaintext with
    | error fault =>
      simp only [receive, result] at received
      cases received
    | ok rx =>
      simp only [receive, result] at received
      have kept := flight_ask received
      exact kept

/--
The state of a transfer whatever the map-hashes are.

A place holds what the sender finds by its map-hash, and the receiver has come past a page only
where that page's end is the first of its map-hash.
-/
structure Resolved (tx : ResourceSender) (st : Exchange) : Prop where
  lossy : Lossy tx st
  findable : ∀ m ∈ st.flight, Findable tx m
  held : ∀ i data, st.rx.part i = some data →
    ∃ h, tx.mapHashes[i]? = some h ∧ tx.partFor h = some data
  passed : ∀ pages, pages * HASHMAP_MAX_LEN < st.rx.hashmapHeight → EndsOnce tx pages

section Run

variable (hashed : tx.mapHashes = tx.parts.map (partMapHash crypto tx.randomHash.val))

include hashed in
theorem Resolved.receive_part {st next : Exchange} (resolved : Resolved tx st) {data : Bytes}
    (findable : Findable tx (.part data)) (received : receive crypto st (.part data) = .ok next) :
    Resolved tx next := by
  obtain ⟨result, outstanding, waiting, delivered, lossy, rx⟩ :=
    resolved.lossy.receive_part crypto data
  have flight := flight_receive received
  rw [delivered] at received
  obtain rfl := Except.ok.inj received
  have sync := resolved.lossy.sync
  rcases ResourceReceiver.receivePart_cases crypto st.rx data with
    ⟨ignored, -⟩ | ⟨j, window, matched, -, taken⟩
  · rw [ignored] at rx
    exact {
      lossy := lossy
      findable := by rw [flight]; exact resolved.findable
      held := by rw [rx]; exact resolved.held
      passed := by rw [rx]; exact resolved.passed }
  · rw [taken] at rx
    have inside := (ResourceReceiver.mem_windowIndices.mp window).2.2
    have known := (sync.isSome_mapHash j).mp (by rw [matched]; rfl)
    rw [sync.salt, sync.known, if_pos known] at matched
    exact {
      lossy := lossy
      findable := by rw [flight]; exact resolved.findable
      held := by
        intro i other there
        rw [rx] at there
        change (st.rx.stored j data).part i = some other at there
        rw [ResourceReceiver.part_stored data inside] at there
        split_ifs at there with here
        · -- The part was found by its own map-hash, which is the one of this place.
          obtain ⟨h, found⟩ := findable
          obtain rfl := Option.some.inj there
          obtain rfl := here
          exact ⟨_, matched, by rw [partFor_spec hashed found]; exact found⟩
        · exact resolved.held i other there
      passed := by rw [rx]; exact resolved.passed }

theorem Resolved.receive_page {st next : Exchange} (resolved : Resolved tx st) {plaintext : Bytes}
    (findable : Findable tx (.hashmapUpdate plaintext))
    (deliverable : Deliverable tx st.rx.hashmapHeight (.hashmapUpdate plaintext))
    (received : receive crypto st (.hashmapUpdate plaintext) = .ok next) :
    Resolved tx next := by
  obtain ⟨page, reached, rfl⟩ := deliverable
  obtain ⟨result, outstanding, waiting, delivered, lossy, rx⟩ :=
    resolved.lossy.receive_page crypto reached
  have flight := flight_receive received
  rw [delivered] at received
  obtain rfl := Except.ok.inj received
  have sync := resolved.lossy.sync
  exact {
    lossy := lossy
    findable := by rw [flight]; exact resolved.findable
    held := by rw [rx]; exact resolved.held
    passed := by
      intro pages below
      by_cases old : pages * HASHMAP_MAX_LEN < st.rx.hashmapHeight
      · exact resolved.passed pages old
      · -- The height has come past this boundary, so the page is the one that starts there.
        have grown := sync.height_applyPage reached
        rw [rx] at below
        change pages * HASHMAP_MAX_LEN
          < (st.rx.applyPage page (tx.pageBytes page)).hashmapHeight at below
        have same : pages = page := by
          rw [grown, HASHMAP_MAX_LEN] at *
          omega
        rw [same]
        exact endsOnce_of_findable sync (sync.page_lt reached) findable }

include hashed in
theorem Resolved.step {st next : Exchange} (resolved : Resolved tx st)
    (step : Step crypto tx st next) : Resolved tx next := by
  have lossy := resolved.lossy.step step.lossy
  cases step with
  | serve pending answered =>
    refine ⟨lossy, ?_, resolved.held, resolved.passed⟩
    intro m flying
    rcases List.mem_append.mp flying with old | copied
    · exact resolved.findable m old
    · exact findable_answer ((answered m).mp copied)
  | @deliver _ before after m flying received =>
    have here : m ∈ st.flight := by
      rw [flying]
      exact List.mem_append_right _ List.mem_cons_self
    -- Taking the message out of the flight alone changes nothing that is held or passed.
    have kept : Resolved tx { st with flight := before ++ after } := by
      refine ⟨⟨resolved.lossy.sync, fun plaintext coming =>
        resolved.lossy.pages plaintext (coming.of_remove flying)⟩, ?_, resolved.held,
        resolved.passed⟩
      intro other among
      refine resolved.findable other ?_
      rw [flying]
      rcases List.mem_append.mp among with front | back
      · exact List.mem_append_left _ front
      · exact List.mem_append_right _ (List.mem_cons_of_mem _ back)
    cases m with
    | part data => exact kept.receive_part hashed (resolved.findable _ here) received
    | hashmapUpdate plaintext =>
      exact kept.receive_page (resolved.findable _ here)
        (resolved.lossy.pages plaintext (.inl here)) received

include hashed in
theorem Resolved.reachable {st reached : Exchange} (resolved : Resolved tx st)
    (run : ReflTransGen (Step crypto tx) st reached) : Resolved tx reached := by
  have keeps : ∀ s t, Resolved tx s → Step crypto tx s t → Resolved tx t :=
    fun s t resolved step => resolved.step hashed step
  exact reachable_of_keeps keeps resolved run

theorem start_resolved (some : 0 < tx.parts.length)
    (small : tx.parts.length ≤ MAX_TRANSFER_BYTES / RESOURCE_SDU + 1) :
    ∃ st, start tx.advertisement = .ok st ∧ Resolved tx st := by
  obtain ⟨accepted, sync⟩ := Synced.accept some small
  have fresh : Lossy tx ⟨ResourceReceiver.initial tx.advertised, [], []⟩ :=
    ⟨sync, by simp [Coming]⟩
  obtain ⟨st, outstanding, waiting, asked, lossy, rx⟩ := fresh.ask
  refine ⟨st, ?_, lossy, ?_, ?_, ?_⟩
  · simp only [start, accepted, Bind.bind, Except.bind]
    exact asked
  · have flight := flight_ask asked
    simp [flight]
  · intro i data held
    rw [rx] at held
    simp [ResourceReceiver.part, ResourceReceiver.initial] at held
  · -- The advertisement carries one page at most, which no boundary lies inside of.
    intro pages below i h ends before
    have paged : st.rx.hashmapHeight ≤ HASHMAP_MAX_LEN := by
      have bytes := tx.pageBytes_length_le 0
      rw [rx]
      change ResourceReceiver.inAdv tx.advertised ≤ HASHMAP_MAX_LEN
      simp only [ResourceReceiver.inAdv, ResourceSender.advertised, MAPHASH_LEN, HASHMAP_MAX_LEN]
      omega
    rw [HASHMAP_MAX_LEN] at *
    omega

def foundParts (tx : ResourceSender) : List Bytes :=
  tx.mapHashes.map fun h => (tx.partFor h).getD []

theorem Resolved.concat {st : Exchange} (resolved : Resolved tx st)
    (complete : st.rx.isComplete = true) : st.rx.concat = (foundParts tx).flatten := by
  have sync := resolved.lossy.sync
  have all := sync.book.isComplete_iff.mp complete
  have columns : st.rx.parts = (foundParts tx).map some := by
    apply List.ext_getElem
    · simp [sync.count, foundParts, tx.sized]
    · intro i inside inside'
      obtain ⟨data, held⟩ := Option.isSome_iff_exists.mp (all i inside)
      obtain ⟨h, place, found⟩ := resolved.held i data held
      obtain ⟨known, value⟩ := List.getElem?_eq_some_iff.mp place
      simp only [ResourceReceiver.part, slot, List.getElem?_eq_getElem inside,
        Option.join_some] at held
      simp [held, foundParts, value, found]
  rw [ResourceReceiver.concat, columns, List.flatMap_map]
  simp [List.flatMap_def]

theorem Resolved.height {st : Exchange} (resolved : Resolved tx st)
    (complete : st.rx.isComplete = true) : st.rx.hashmapHeight = tx.parts.length := by
  have sync := resolved.lossy.sync
  have all := sync.book.isComplete_iff.mp complete
  apply Nat.le_antisymm sync.height_le
  by_contra short
  -- The part at the height would be held, and its map-hash known.
  have held := all st.rx.hashmapHeight (by rw [sync.count]; omega)
  have known := (sync.isSome_mapHash _).mp (sync.book.heldKnown _ held)
  omega

theorem Resolved.unambiguous {st : Exchange} (resolved : Resolved tx st)
    (cut : ∀ (i : Nat) (part : Bytes), tx.parts[i]? = some part → i + 1 < tx.parts.length →
      part.length = RESOURCE_SDU)
    (complete : st.rx.isComplete = true) (stream : st.rx.concat = tx.parts.flatten) :
    Unambiguous tx := by
  have same : foundParts tx = tx.parts := by
    apply eq_of_flatten_eq
    · simp [foundParts, tx.sized]
    · intro i before
      have place : i < tx.mapHashes.length := by
        rw [foundParts, List.length_map] at before
        omega
      rw [foundParts, List.length_map, tx.sized] at before
      -- The place found comes no later, so it is not the last one either.
      obtain ⟨first, early, index, -⟩ := exists_idxOf (List.getElem?_eq_getElem place)
      have found : tx.parts[first]? = some (tx.parts.get ⟨first, by omega⟩) :=
        List.getElem?_eq_getElem _
      have own : tx.parts[i]? = some (tx.parts.get ⟨i, by omega⟩) := List.getElem?_eq_getElem _
      have left := cut first _ found (by omega)
      have right := cut i _ own before
      simp only [foundParts, List.getElem?_map, List.getElem?_eq_getElem place, Option.map_some,
        ResourceSender.partFor, index, Option.bind_eq_bind, Option.bind_some, found, own,
        Option.getD_some, left, right]
    · rw [← resolved.concat complete, stream]
  refine ⟨?_, ?_⟩
  · have resolves : ∀ (i : Nat) (h : MapHash), tx.mapHashes[i]? = some h →
        tx.parts[i]? = tx.partFor h := by
      intro i h place
      obtain ⟨data, found⟩ := exists_partFor place
      rw [← same, foundParts, List.getElem?_map, place, Option.map_some, found]
      rfl
    intro i j h here there
    rw [resolves i h here, resolves j h there]
  · intro pages below
    exact resolved.passed pages (by rw [resolved.height complete]; exact below)

end Run

theorem Apart.mono {distance shorter : Nat} (apart : Apart tx distance)
    (less : shorter ≤ distance) : Apart tx shorter :=
  fun i j h before here there => Nat.lt_of_le_of_lt less (apart i j h before here there)

section New

variable (crypto : Crypto) (data : Bytes) (key : SessionKey) (r streamPrefix : BytesN 4) (iv : Iv)

theorem new_cut (i : Nat) (part : Bytes)
    (found : (ResourceSender.new crypto data key r streamPrefix iv).parts[i]? = some part)
    (before : i + 1 < (ResourceSender.new crypto data key r streamPrefix iv).parts.length) :
    part.length = RESOURCE_SDU :=
  length_of_getElem_chunks found before

theorem unambiguous_of_completes {st reached : Exchange}
    (small : (ResourceSender.new crypto data key r streamPrefix iv).parts.length
      ≤ MAX_TRANSFER_BYTES / RESOURCE_SDU + 1)
    (started : start (ResourceSender.new crypto data key r streamPrefix iv).advertisement = .ok st)
    (run : ReflTransGen (Step crypto (ResourceSender.new crypto data key r streamPrefix iv))
      st reached)
    (complete : reached.rx.isComplete = true)
    (stream : reached.rx.concat = ResourceSender.ciphertext crypto data key streamPrefix iv) :
    Unambiguous (ResourceSender.new crypto data key r streamPrefix iv) := by
  obtain ⟨first, again, resolved⟩ :=
    start_resolved (new_parts_pos crypto data key r streamPrefix iv) small
  rw [started] at again
  obtain rfl := Except.ok.inj again
  have later := resolved.reachable (new_hashed crypto data key r streamPrefix iv) run
  refine later.unambiguous (new_cut crypto data key r streamPrefix iv) complete ?_
  rw [stream, new_parts_flatten]

/--
When collisions outside the window are harmless.

Parts with equal map-hashes that lie more than two windows apart never meet in the receiver's
window, but the sender looks every map-hash up among all of its parts.
The stream is delivered exactly if such parts have equal bytes and none of them ends a page whose
map-hash occurs before.
-/
theorem delivers_iff_unambiguous
    (small : (ResourceSender.new crypto data key r streamPrefix iv).parts.length
      ≤ MAX_TRANSFER_BYTES / RESOURCE_SDU + 1)
    (apart : Apart (ResourceSender.new crypto data key r streamPrefix iv) (2 * WINDOW_MAX)) :
    Delivers crypto (ResourceSender.new crypto data key r streamPrefix iv)
        (ResourceSender.ciphertext crypto data key streamPrefix iv)
      ↔ Unambiguous (ResourceSender.new crypto data key r streamPrefix iv) := by
  constructor
  · -- Some run completes, and what it delivers is the stream only if every lookup was right.
    rintro ⟨st, started, inevitable, delivered⟩
    obtain ⟨reached, run, complete⟩ := inevitable.exists_reachable
    exact unambiguous_of_completes crypto data key r streamPrefix iv small started run complete
      (delivered reached run complete)
  · -- Within one window no two map-hashes agree, so a received part has one place to go.
    intro clear
    have hashed := new_hashed crypto data key r streamPrefix iv
    have near : Apart (ResourceSender.new crypto data key r streamPrefix iv) WINDOW_MAX :=
      apart.mono (by decide)
    obtain ⟨st, started, begun, -⟩ :=
      start_onTrack clear (new_parts_pos crypto data key r streamPrefix iv) small
    refine ⟨st, started, begun.inevitable hashed clear near, ?_⟩
    intro reached run complete
    have onTrack := begun.reachable hashed clear near run
    exact (onTrack.concat complete).trans (new_parts_flatten crypto data key r streamPrefix iv)

end New

section Concrete

def headDigest : Crypto :=
  { Crypto.sample with sha256 := fun input => BytesN.ofBytes 32 (input.take 1) }

/-- The byte that fills a part: its number, starting over so that the last part is as the first. -/
def filler (part : Nat) : UInt8 := UInt8.ofNat (part % 152)

def echoStream (length : Nat) : Bytes :=
  (List.range length).map fun j => filler (j / RESOURCE_SDU)

def echoData (length : Nat) : Bytes :=
  (List.range length).map fun j => filler ((j + 20) / RESOURCE_SDU)

/-- A resource that is cut from such a stream, whose vector, prefix and tag are zeros. -/
def echoSender (length : Nat) : ResourceSender :=
  ResourceSender.new headDigest (echoData length) (BytesN.ofBytes 64 []) (BytesN.ofBytes 4 [])
    (BytesN.ofBytes 4 []) (BytesN.ofBytes 16 [])

theorem partMapHash_headDigest {salt part : Bytes} {byte : UInt8} (first : part.head? = some byte) :
    partMapHash headDigest salt part = BytesN.ofBytes 4 [byte] := by
  obtain ⟨rest, rfl⟩ := List.head?_eq_some_iff.mp first
  rfl

section Echo

variable {length : Nat} (low : 70508 ≤ length) (high : length ≤ 70940)

include low high in
theorem echoSender_parts :
    (echoSender length).parts = chunks RESOURCE_SDU (echoStream (length + 52)) := by
  have stream : (BytesN.ofBytes 16 []).val ++ ((BytesN.ofBytes 4 []).val ++ echoData length)
      ++ (BytesN.ofBytes 32 []).val = echoStream (length + 52) := by
    apply List.ext_getElem
    · simp [echoStream, echoData]
      omega
    · intro p inside inside'
      simp only [BytesN.ofBytes, List.nil_append, List.take_replicate, Nat.min_self,
        List.getElem_append, List.getElem_replicate, List.getElem_map, List.getElem_range,
        List.length_append, List.length_replicate, List.length_map, List.length_range,
        echoStream, echoData]
      have below : p < length + 52 := by simpa [echoStream] using inside'
      rw [RESOURCE_SDU]
      -- The places of the vector, of the prefix, of the data and of the tag.
      split_ifs with ahead vector head
      · have start : p / 464 = 0 := by omega
        rw [start]
        rfl
      · have start : p / 464 = 0 := by omega
        rw [start]
        rfl
      · have place : p - 16 - 4 + 20 = p := by omega
        rw [place]
      · have last : p / 464 = 152 := by omega
        rw [last]
        rfl
  exact congrArg (chunks RESOURCE_SDU) stream

include low high in
theorem echoSender_length : (echoSender length).parts.length = 153 := by
  rw [echoSender_parts low high, chunks_length, echoStream, List.length_map, List.length_range,
    RESOURCE_SDU]
  omega

include low high in
theorem echoSender_part {i : Nat} (inside : i < 153) :
    (echoSender length).parts[i]?
      = some (List.replicate (min RESOURCE_SDU (length + 52 - i * RESOURCE_SDU)) (filler i)) := by
  have count := echoSender_length low high
  rw [echoSender_parts low high, chunks_length] at count
  rw [echoSender_parts low high, chunks, count, List.getElem?_map, List.getElem?_range inside,
    Option.map_some, Option.some.injEq, List.eq_replicate_iff]
  constructor
  · simp [echoStream]
  · intro byte among
    obtain ⟨t, here, rfl⟩ := List.getElem_of_mem among
    rw [List.length_take] at here
    have place : (i * RESOURCE_SDU + t) / RESOURCE_SDU = i := by
      rw [RESOURCE_SDU] at *
      omega
    simp [echoStream, place]

include low high in
theorem echoSender_mapHash {i : Nat} (inside : i < 153) :
    (echoSender length).mapHashes[i]? = some (BytesN.ofBytes 4 [filler i]) := by
  have hashed : (echoSender length).mapHashes = (echoSender length).parts.map
      (partMapHash headDigest (echoSender length).randomHash.val) := new_hashed _ _ _ _ _ _
  rw [mapHash_of_part hashed (echoSender_part low high inside), Option.some.injEq]
  apply partMapHash_headDigest
  have some : min RESOURCE_SDU (length + 52 - i * RESOURCE_SDU) ≠ 0 := by
    rw [RESOURCE_SDU]
    omega
  simp [List.head?_replicate, some]

include low high in
theorem echoSender_same {i j : Nat} {h : MapHash} (before : i < j)
    (here : (echoSender length).mapHashes[i]? = some h)
    (there : (echoSender length).mapHashes[j]? = some h) : i = 0 ∧ j = 152 := by
  have inside := (List.getElem?_eq_some_iff.mp there).1
  rw [(echoSender length).sized, echoSender_length low high] at inside
  have same := here.trans there.symm
  rw [echoSender_mapHash low high (Nat.lt_trans before inside),
    echoSender_mapHash low high inside] at same
  have bytes : filler i = filler j := by
    have firsts := congrArg (fun h : MapHash => h.val.head?) (Option.some.inj same)
    simpa [BytesN.ofBytes] using firsts
  have numbers := congrArg UInt8.toNat bytes
  simp only [filler, UInt8.toNat_ofNat'] at numbers
  omega

include low high in
theorem echoSender_apart : Apart (echoSender length) (2 * WINDOW_MAX) := by
  intro i j h before here there
  obtain ⟨rfl, rfl⟩ := echoSender_same low high before here there
  decide

end Echo

/--
A distant collision puts the wrong part into the stream.

The last part is shorter than the first but has its map-hash, so the sender answers a request for
the last part with the first one.
-/
theorem distant_collision_corrupts :
    (echoSender 70508).parts.length ≤ MAX_TRANSFER_BYTES / RESOURCE_SDU + 1 ∧
    Apart (echoSender 70508) (2 * WINDOW_MAX) ∧
    ∃ st, start (echoSender 70508).advertisement = .ok st ∧
      ∀ reached, ReflTransGen (Step headDigest (echoSender 70508)) st reached →
        ¬ (reached.rx.isComplete = true ∧
          reached.rx.concat = ResourceSender.ciphertext headDigest (echoData 70508)
            (BytesN.ofBytes 64 []) (BytesN.ofBytes 4 []) (BytesN.ofBytes 16 [])) := by
  have low : 70508 ≤ 70508 := by decide
  have high : 70508 ≤ 70940 := by decide
  have count := echoSender_length low high
  have small : (echoSender 70508).parts.length ≤ MAX_TRANSFER_BYTES / RESOURCE_SDU + 1 := by
    rw [count]
    decide
  have some : 0 < (echoSender 70508).parts.length := by
    rw [count]
    decide
  obtain ⟨st, started, -⟩ := start_resolved some small
  refine ⟨small, echoSender_apart low high, st, started, ?_⟩
  -- A run that delivered the stream would make the first part and the last equally long.
  rintro reached run ⟨complete, stream⟩
  have clear : Unambiguous (echoSender 70508) :=
    unambiguous_of_completes headDigest (echoData 70508) _ _ _ _ small started run complete stream
  have equal := clear.content 0 152 _ (echoSender_mapHash low high (by decide))
    (echoSender_mapHash low high (by decide))
  rw [echoSender_part low high (by decide), echoSender_part low high (by decide),
    Option.some.injEq] at equal
  have lengths := congrArg List.length equal
  rw [List.length_replicate, List.length_replicate] at lengths
  exact absurd lengths (by decide)

/-- The stream of equal length parts is delivered, although the first and the last collide. -/
theorem delivers_iff_unambiguous_echo :
    Delivers headDigest (echoSender 70940) (ResourceSender.ciphertext headDigest (echoData 70940)
      (BytesN.ofBytes 64 []) (BytesN.ofBytes 4 []) (BytesN.ofBytes 16 [])) := by
  have low : 70508 ≤ 70940 := by decide
  have high : 70940 ≤ 70940 := by decide
  have count := echoSender_length low high
  have ends : (echoSender 70940).parts[0]? = (echoSender 70940).parts[152]? := by
    rw [echoSender_part low high (by decide), echoSender_part low high (by decide)]
    rfl
  have clear : Unambiguous (echoSender 70940) := by
    refine ⟨?_, ?_⟩
    · intro i j h here there
      rcases Nat.lt_trichotomy i j with before | same | after
      · obtain ⟨rfl, rfl⟩ := echoSender_same low high before here there
        exact ends
      · rw [same]
      · obtain ⟨rfl, rfl⟩ := echoSender_same low high after there here
        exact ends.symm
    · -- Only the last part has the map-hash of an earlier one, and it does not end a page.
      intro pages below i h last before earlier
      have place := (echoSender_same low high (by omega) earlier last).2
      rw [HASHMAP_MAX_LEN] at place
      omega
  have small : (echoSender 70940).parts.length ≤ MAX_TRANSFER_BYTES / RESOURCE_SDU + 1 := by
    rw [count]
    decide
  exact (delivers_iff_unambiguous headDigest (echoData 70940) (BytesN.ofBytes 64 [])
    (BytesN.ofBytes 4 []) (BytesN.ofBytes 4 []) (BytesN.ofBytes 16 []) small
    (echoSender_apart low high)).mpr clear

end Concrete

end Exchange

end LxmfChat
