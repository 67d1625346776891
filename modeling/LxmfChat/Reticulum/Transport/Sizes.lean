import LxmfChat.Reticulum.Resource.Exchange
import LxmfChat.Reticulum.Resource.Paging
import LxmfChat.Reticulum.Transport.Literal
import LxmfChat.Reticulum.Transport.Ops

/-! The messages of a resource transfer are read as they were meant, and each fits a packet. -/

namespace LxmfChat

open Base
open Relation (ReflTransGen)

namespace ResourceReceiver

theorem collectRequested_length_le (rx : ResourceReceiver) (indices : List Nat) :
    (rx.collectRequested indices).1.length ≤ indices.length := by
  induction indices with
  | nil => exact Nat.le_refl _
  | cons i rest ih =>
    rw [collectRequested, List.length_cons]
    split
    · omega
    · split
      · rw [List.length_cons]
        omega
      · exact Nat.zero_le _

theorem windowIndices_length_le (rx : ResourceReceiver) : rx.windowIndices.length ≤ rx.window := by
  rw [windowIndices, List.length_range']
  omega

theorem nextRequest_length_le {rx next : ResourceReceiver} {request : Bytes}
    (asked : rx.nextRequest = .ok (some request, next)) :
    request.length ≤ 37 + 4 * rx.window := by
  have collected := rx.collectRequested_length_le rx.windowIndices
  have window := rx.windowIndices_length_le
  unfold nextRequest at asked
  split at asked
  case isTrue => cases asked
  case isFalse =>
    dsimp only at asked
    split at asked
    case isTrue => cases asked
    case isFalse =>
      -- Only a request for the next page carries the last known map-hash in front.
      split at asked
      case isTrue =>
        split at asked
        case h_1 last found =>
          cases asked
          simp only [List.length_cons, List.length_append, BytesN.length_val, flatMap_quads_length]
          omega
        case h_2 => cases asked
        case h_3 => cases asked
      case isFalse =>
        cases asked
        simp only [List.length_cons, List.length_append, BytesN.length_val, flatMap_quads_length]
        omega

end ResourceReceiver

namespace ResourceSender

variable (tx : ResourceSender)

theorem hashmapUpdate_length_le (page : Nat) : (tx.hashmapUpdate page).length ≤ 335 := by
  have hashes := advBin_length_le (tx.pageBytes page)
  have pageFits := tx.pageBytes_length_le page
  have number : (hmuPage page).length ≤ 3 := by
    unfold hmuPage
    split_ifs <;> simp
  simp only [hashmapUpdate, List.length_cons, List.length_append, BytesN.length_val]
  omega

theorem mem_parts_of_handleRequest {request part : Bytes}
    (sent : part ∈ (tx.handleRequest request).1) : part ∈ tx.parts := by
  obtain ⟨wanted, found⟩ := tx.exists_partFor_of_handleRequest sent
  simp only [partFor, Option.bind_eq_bind, Option.bind_eq_some_iff] at found
  obtain ⟨i, -, there⟩ := found
  exact List.mem_of_getElem? there

theorem exists_page_of_handleRequest {request update : Bytes}
    (sent : (tx.handleRequest request).2 = some update) :
    ∃ page, update = tx.hashmapUpdate page := by
  obtain ⟨last, found⟩ := tx.exists_nextPage_of_handleRequest sent
  obtain ⟨idx, -, -, rfl⟩ := tx.exists_idx_of_nextPage found
  exact ⟨_, rfl⟩

theorem handleRequest_exhausted {last : MapHash} {idx : Nat}
    (found : tx.mapHashes.idxOf? last = some idx) (boundary : (idx + 1) % HASHMAP_MAX_LEN = 0)
    (wanted : Bytes) :
    (tx.handleRequest (HASHMAP_EXHAUSTED :: (last.val ++ (tx.hash.val ++ wanted)))).2
      = some (tx.hashmapUpdate ((idx + 1) / HASHMAP_MAX_LEN)) := by
  have long : ¬ (last.val ++ (tx.hash.val ++ wanted)).length < MAPHASH_LEN + 32 := by
    simp only [List.length_append, BytesN.length_val, MAPHASH_LEN]
    omega
  rw [handleRequest, if_pos rfl, if_neg long, BytesN.ofBytes_append, MAPHASH_LEN,
    BytesN.drop_append, serve, BytesN.take_append, if_neg (by simp)]
  simp [nextPage, found, boundary]

section Built

variable {tx} {crypto : Crypto} {data : Bytes} {key : SessionKey} {r streamPrefix : BytesN 4} {iv : Iv}
  (built : tx = new crypto data key r streamPrefix iv)
include built

theorem length_part_le {part : Bytes} (among : part ∈ tx.parts) : part.length ≤ RESOURCE_SDU := by
  subst built
  exact length_le_of_mem_chunks among

theorem length_parts_lt (fits : (ciphertext crypto data key streamPrefix iv).length < 2 ^ 31) :
    tx.parts.length < 65536 * HASHMAP_MAX_LEN := by
  subst built
  simp only [new, chunks_length, RESOURCE_SDU, HASHMAP_MAX_LEN]
  omega

end Built

end ResourceSender

namespace Transport

variable (crypto : Crypto)

theorem fits_makeLinkContextPacket (pads : crypto.CbcPads) {lid : TruncatedHash} {key : SessionKey}
    {context : UInt8} {plaintext raw : Bytes} {iv : Iv} (short : plaintext.length ≤ 415)
    (made : Link.makeLinkContextPacket crypto lid key context plaintext iv = .ok raw) :
    raw.length ≤ MTU := by
  rw [Link.length_makeLinkContextPacket crypto pads made, MTU]
  omega

theorem fits_makeLinkResource (pads : crypto.CbcPads) {t : Transport} {linkId : TruncatedHash}
    {data : Bytes} {r streamPrefix : BytesN 4} {iv advIv : Iv} {raw : Bytes} {hash : FullHash}
    (made : (t.makeLinkResource crypto linkId data r streamPrefix iv advIv).2 = some (raw, hash)) :
    raw.length ≤ MTU := by
  rw [makeLinkResource] at made
  split at made
  · cases made
  · dsimp only at made
    split at made
    · cases made
    · rename_i sent
      cases made
      exact fits_makeLinkContextPacket crypto pads (ResourceSender.advertisement_length_le _) sent

theorem fits_serveLinkResource (pads : crypto.CbcPads) {t : Transport} {linkId : TruncatedHash}
    {tx : ResourceSender} (held : t.outResources.lookup linkId = some tx)
    (small : ∀ part ∈ tx.parts, part.length ≤ RESOURCE_SDU) {request : Bytes} {hmuIv : Iv}
    {raw : Bytes} (sent : raw ∈ t.serveLinkResource crypto linkId request hmuIv) :
    raw.length ≤ MTU := by
  rw [serveLinkResource, held] at sent
  cases link : t.anyLinkKey linkId with
  | none =>
    rw [link] at sent
    cases sent
  | some key =>
    rw [link] at sent
    dsimp only at sent
    -- The parts go out as they are, and only the update is encrypted.
    have part (among : raw ∈ (tx.handleRequest request).1.map fun p =>
        (Packet.header1 .link .data CONTEXT_RESOURCE linkId p).encode) : raw.length ≤ MTU := by
      obtain ⟨p, served, rfl⟩ := List.mem_map.mp among
      have short := small p (tx.mem_parts_of_handleRequest served)
      rw [Packet.length_encode_header1]
      simp only [RESOURCE_SDU, MTU] at short ⊢
      omega
    split at sent
    · exact part sent
    · rename_i update served
      obtain ⟨page, rfl⟩ := tx.exists_page_of_handleRequest served
      have short := (tx.hashmapUpdate_length_le page).trans (by decide : 335 ≤ 415)
      split at sent
      · rename_i made
        rcases List.mem_append.mp sent with among | last
        · exact part among
        · cases List.mem_singleton.mp last
          exact fits_makeLinkContextPacket crypto pads short made
      · exact part sent

theorem fits_nextRequest (pads : crypto.CbcPads) {advertisement : Bytes}
    {start rx next : ResourceReceiver} (accepted : ResourceReceiver.accept advertisement = .ok start)
    (run : ReflTransGen (ResourceReceiver.Called crypto) start rx) {request : Bytes}
    (asked : rx.nextRequest = .ok (some request, next)) {lid : TruncatedHash} {key : SessionKey}
    {iv : Iv} {raw : Bytes}
    (made : Link.makeLinkContextPacket crypto lid key CONTEXT_RESOURCE_REQ request iv = .ok raw) :
    raw.length ≤ MTU := by
  have window := (ResourceReceiver.consistent_run accepted run).windowHigh
  have length := ResourceReceiver.nextRequest_length_le asked
  apply fits_makeLinkContextPacket crypto pads _ made
  simp only [WINDOW_MAX] at window
  omega

/--
The messages of a resource transfer are read as they were meant, and each fits a packet.

The sender is any whose encrypted stream the device can hold in one vector.
A request is valid if it names the last map-hash of a page; whatever parts it wants besides, the
update that answers it carries exactly the next page.
-/
theorem resource_messages_fit (pads : crypto.CbcPads) {tx : ResourceSender} {data : Bytes}
    {key : SessionKey} {r streamPrefix : BytesN 4} {iv : Iv}
    (built : tx = ResourceSender.new crypto data key r streamPrefix iv)
    (fits : (ResourceSender.ciphertext crypto data key streamPrefix iv).length < 2 ^ 31) :
    parseAdvertisement tx.advertisement = .ok {
      hash := tx.hash
      randomHash := tx.randomHash.val
      parts := tx.parts.length
      hashmap := (tx.mapHashes.take HASHMAP_MAX_LEN).flatMap (·.val)
      totalSegments := 1
      compressed := false
      encrypted := true }
    ∧ (∀ last idx wanted, tx.mapHashes.idxOf? last = some idx → (idx + 1) % HASHMAP_MAX_LEN = 0 →
      ∃ update,
        (tx.handleRequest (HASHMAP_EXHAUSTED :: (last.val ++ (tx.hash.val ++ wanted)))).2
          = some update
        ∧ update.take 32 = tx.hash.val
        ∧ parseHashmapUpdate (update.drop 32) = .ok ((idx + 1) / HASHMAP_MAX_LEN,
            ((tx.mapHashes.drop ((idx + 1) / HASHMAP_MAX_LEN * HASHMAP_MAX_LEN)).take
              HASHMAP_MAX_LEN).flatMap (·.val)))
    ∧ (∀ (t : Transport) linkId advIv raw hash,
      (t.makeLinkResource crypto linkId data r streamPrefix iv advIv).2 = some (raw, hash) →
        raw.length ≤ MTU)
    ∧ (∀ (t : Transport) linkId request hmuIv, t.outResources.lookup linkId = some tx →
      ∀ raw ∈ t.serveLinkResource crypto linkId request hmuIv, raw.length ≤ MTU)
    ∧ ∀ advertisement start rx, ResourceReceiver.accept advertisement = .ok start →
      ReflTransGen (ResourceReceiver.Called crypto) start rx →
      ∀ request next, rx.nextRequest = .ok (some request, next) →
      ∀ lid sessionKey reqIv raw,
        Link.makeLinkContextPacket crypto lid sessionKey CONTEXT_RESOURCE_REQ request reqIv
          = .ok raw → raw.length ≤ MTU := by
  have count := ResourceSender.length_parts_lt built fits
  refine ⟨?advertisement, ?update, ?advertised, ?served, ?requested⟩
  case advertisement =>
    have countable : tx.parts.length < wordSize := count.trans (by decide)
    have read := tx.parseAdvertisement_advertisement countable
    rwa [ResourceSender.advertised, ResourceSender.pageBytes_zero] at read
  case update =>
    intro last idx wanted found boundary
    refine ⟨_, tx.handleRequest_exhausted found boundary wanted, ?_, ?_⟩
    · rw [ResourceSender.hashmapUpdate, BytesN.take_append]
    · -- The place of a map-hash is below the number of parts, so its page has a small number.
      have inside : idx < tx.parts.length := by
        rw [← tx.sized]
        exact (List.idxOf?_eq_some_iff.mp found).1
      have small : (idx + 1) / HASHMAP_MAX_LEN < 65536 := by
        simp only [HASHMAP_MAX_LEN] at count ⊢
        omega
      exact tx.parseHashmapUpdate_hashmapUpdate small
  case advertised =>
    intro t linkId advIv raw hash made
    exact fits_makeLinkResource crypto pads made
  case served =>
    intro t linkId request hmuIv held raw sent
    exact fits_serveLinkResource crypto pads held
      (fun part among => ResourceSender.length_part_le built among) sent
  case requested =>
    intro advertisement start rx accepted run request next asked lid sessionKey reqIv raw made
    exact fits_nextRequest crypto pads accepted run asked made

def sampleSent : ResourceSender :=
  ResourceSender.new Literal.blockSample [1, 2, 3] (BytesN.ofBytes 64 [4]) (BytesN.ofBytes 4 [5])
    (BytesN.ofBytes 4 [6]) (BytesN.ofBytes 16 [7])

/-- The resource of three bytes is advertised as one part. -/
theorem resource_messages_fit_threeBytes :
    (parseAdvertisement sampleSent.advertisement).toOption.map (·.parts) = some 1 := by
  have one : sampleSent.parts.length = 1 := by decide +kernel
  have read := (resource_messages_fit Literal.blockSample Literal.blockSample_cbcPads
    (rfl : sampleSent = _) (by decide +kernel)).1
  rw [read]
  exact congrArg some one

end Transport

end LxmfChat
