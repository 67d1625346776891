import LxmfChat.Reticulum.Resource.Paging
import LxmfChat.Reticulum.Resource.Sender

/-! What a receiver holds, and what its proof says, whatever bytes it is fed. -/

namespace LxmfChat

open Base
open Relation (ReflTransGen)

namespace ResourceReceiver

variable {crypto : Crypto} {rx next : ResourceReceiver}

theorem after_cases {c : Call} (stepped : rx.after crypto c = some next) :
    (∃ outstanding waiting,
      next = { rx with outstanding := outstanding, waitingForHmu := waiting }) ∨
    (∃ i data, c = .receivePart data ∧ i ∈ rx.windowIndices ∧
      rx.mapHash i = some (partMapHash crypto rx.randomHash data) ∧ rx.part i = none ∧
      next = rx.stored i data) ∨
    ∃ page bytes, next = rx.applyPage page bytes := by
  cases c with
  | nextRequest =>
    rcases after_nextRequest stepped with rfl | ⟨request, asked⟩
    · exact .inl ⟨next.outstanding, next.waitingForHmu, rfl⟩
    · exact .inl (nextRequest_ok asked)
  | receivePart data =>
    obtain rfl := Option.some.inj stepped
    rcases receivePart_cases crypto rx data with ⟨ignored, -⟩ | ⟨i, within, known, absent, taken⟩
    · rw [ignored]
      exact .inl ⟨rx.outstanding, rx.waitingForHmu, rfl⟩
    · rw [taken]
      exact .inr (.inl ⟨i, data, rfl, within, known, absent, rfl⟩)
  | receiveHashmapUpdate plaintext =>
    cases taken : rx.updatePage plaintext with
    | none =>
      obtain rfl := after_update_of_not_taken taken stepped
      exact .inl ⟨next.outstanding, next.waitingForHmu, rfl⟩
    | some result =>
      rw [after_update taken] at stepped
      exact .inr (.inr ⟨result.1, result.2, (Option.some.inj stepped).symm⟩)

/-- What no call takes back: which resource it is, and everything that has been filled in. -/
structure Keeps (rx next : ResourceReceiver) : Prop where
  hash : next.hash = rx.hash
  salt : next.randomHash = rx.randomHash
  length : next.parts.length = rx.parts.length
  parts : ∀ i data, rx.part i = some data → next.part i = some data
  mapHashes : ∀ i h, rx.mapHash i = some h → next.mapHash i = some h

theorem Keeps.refl (rx : ResourceReceiver) : Keeps rx rx :=
  ⟨rfl, rfl, rfl, fun _ _ held => held, fun _ _ known => known⟩

theorem Keeps.trans {rx mid next : ResourceReceiver} (first : Keeps rx mid)
    (second : Keeps mid next) : Keeps rx next where
  hash := second.hash.trans first.hash
  salt := second.salt.trans first.salt
  length := second.length.trans first.length
  parts i data held := second.parts i data (first.parts i data held)
  mapHashes i h known := second.mapHashes i h (first.mapHashes i h known)

theorem keeps_applyPage (rx : ResourceReceiver) (page : Nat) (bytes : Bytes) :
    Keeps rx (rx.applyPage page bytes) where
  hash := rfl
  salt := rfl
  length := rfl
  parts _ _ held := held
  mapHashes i h known := by
    rw [mapHash_applyPage, if_neg]
    · exact known
    · -- The page reaches for empty slots only.
      rintro ⟨unknown, -⟩
      rw [unknown] at known
      cases known

theorem keeps_stored {i : Nat} (data : Bytes) (within : i ∈ rx.windowIndices)
    (absent : rx.part i = none) : Keeps rx (rx.stored i data) where
  hash := rfl
  salt := rfl
  length := by simp [stored, storePart]
  parts j other held := by
    rw [part_stored data (mem_windowIndices.mp within).2.2, if_neg]
    · exact held
    · rintro rfl
      rw [absent] at held
      cases held
  mapHashes _ _ known := known

theorem Keeps.called (called : Called crypto rx next) : Keeps rx next := by
  obtain ⟨c, stepped⟩ := called
  rcases after_cases stepped with
    ⟨outstanding, waiting, rfl⟩ | ⟨i, data, -, within, -, absent, rfl⟩ | ⟨page, bytes, rfl⟩
  · exact ⟨rfl, rfl, rfl, fun _ _ held => held, fun _ _ known => known⟩
  · exact keeps_stored data within absent
  · exact keeps_applyPage rx page bytes

theorem keeps_run (run : ReflTransGen (Called crypto) rx next) : Keeps rx next := by
  induction run with
  | refl => exact .refl rx
  | tail _ last ih => exact ih.trans (.called last)

/-- Every part that is held has the map-hash of its place. -/
def Matches (crypto : Crypto) (rx : ResourceReceiver) : Prop :=
  ∀ i data, rx.part i = some data →
    rx.mapHash i = some (partMapHash crypto rx.randomHash data)

theorem Matches.called (genuine : rx.Matches crypto) (called : Called crypto rx next) :
    next.Matches crypto := by
  have keeps := Keeps.called called
  obtain ⟨c, stepped⟩ := called
  intro j data held
  -- What was held before has its map-hash already, and map-hashes are kept.
  have old (before : rx.part j = some data) :
      next.mapHash j = some (partMapHash crypto next.randomHash data) := by
    rw [keeps.salt]
    exact keeps.mapHashes j _ (genuine j data before)
  rcases after_cases stepped with
    ⟨outstanding, waiting, rfl⟩ | ⟨i, new, -, within, known, absent, rfl⟩ | ⟨page, bytes, rfl⟩
  · exact old held
  · rw [part_stored new (mem_windowIndices.mp within).2.2] at held
    split_ifs at held with here
    · -- The new part was looked up by its own map-hash.
      subst here
      cases held
      exact known
    · exact old held
  · exact old held

theorem finish_ok {bz2Read : Nat → Bytes → Option Bytes} {stream payload proof : Bytes}
    (finished : rx.finish crypto bz2Read stream = .ok (payload, proof)) :
    fullHash crypto (payload ++ rx.randomHash) = rx.hash ∧
      proof = rx.hash.val ++ (fullHash crypto (payload ++ rx.hash.val)).val := by
  -- Whether the payload was decompressed or not, it is hashed as it is returned.
  have sealed {data : Bytes} (checked : (if fullHash crypto (data ++ rx.randomHash) ≠ rx.hash
      then Except.error "resource hash mismatch"
      else Except.ok (data, rx.hash.val ++ (fullHash crypto (data ++ rx.hash.val)).val))
        = .ok (payload, proof)) :
      fullHash crypto (payload ++ rx.randomHash) = rx.hash ∧
        proof = rx.hash.val ++ (fullHash crypto (payload ++ rx.hash.val)).val := by
    by_cases matching : fullHash crypto (data ++ rx.randomHash) = rx.hash
    · rw [if_neg (not_not.mpr matching)] at checked
      cases checked
      exact ⟨matching, rfl⟩
    · rw [if_pos matching] at checked
      cases checked
  simp only [finish, Bind.bind, Except.bind, Pure.pure, Except.pure] at finished
  by_cases short : stream.length < RANDOM_HASH_SIZE
  · rw [if_pos short] at finished
    cases finished
  · rw [if_neg short] at finished
    by_cases packed : rx.compressed = true
    · rw [if_pos packed] at finished
      cases unpacked : decompressBz2 bz2Read (stream.drop RANDOM_HASH_SIZE) with
      | error message =>
        rw [unpacked] at finished
        cases finished
      | ok data =>
        rw [unpacked] at finished
        exact sealed finished
    · rw [if_neg packed] at finished
      exact sealed finished

end ResourceReceiver

theorem ResourceSender.eq_of_proofIsValid {tx : ResourceSender} {front back : FullHash}
    (valid : tx.proofIsValid (front.val ++ back.val) = true) :
    front = tx.hash ∧ back = tx.expectedProof := by
  simp only [ResourceSender.proofIsValid, BytesN.take_append, BytesN.drop_append,
    Bool.and_eq_true, beq_iff_eq] at valid
  exact ⟨Subtype.ext valid.1.2, Subtype.ext valid.2⟩

namespace ResourceReceiver

/--
A resource proof implies agreement.

However the receiver came to its state, what it finishes with has the advertised hash.
A sender that takes the proof has the same data, unless the two strings that are hashed for the
proof collide.
-/
theorem proof_implies_agreement (crypto : Crypto) (bz2Read : Nat → Bytes → Option Bytes)
    {plaintext : Bytes} {adv : Advertisement} {start rx : ResourceReceiver}
    (parsed : parseAdvertisement plaintext = .ok adv) (accepted : accept plaintext = .ok start)
    (run : ReflTransGen (Called crypto) start rx) {stream payload proof : Bytes}
    (finished : rx.finish crypto bz2Read stream = .ok (payload, proof)) :
    fullHash crypto (payload ++ adv.randomHash) = adv.hash ∧
    ∀ (data : Bytes) (key : SessionKey) (r streamPrefix : BytesN 4) (iv : Iv),
      (ResourceSender.new crypto data key r streamPrefix iv).proofIsValid proof = true →
      Set.InjOn (fullHash crypto) {payload ++ adv.hash.val, data ++ adv.hash.val} →
      payload = data := by
  -- The receiver still has the hash and the salt of the advertisement.
  obtain ⟨adv', parsed', made⟩ := accept_ok_iff.mp accepted
  cases parsed.symm.trans parsed'
  obtain ⟨-, -, -, -, rfl⟩ := ofAdvertisement_ok_iff.mp made
  have keeps := keeps_run run
  have hash : rx.hash = adv.hash := keeps.hash
  have salt : rx.randomHash = adv.randomHash := keeps.salt
  obtain ⟨advertised, proven⟩ := finish_ok finished
  rw [hash] at advertised proven
  rw [salt] at advertised
  refine ⟨advertised, ?_⟩
  intro data key r streamPrefix iv valid free
  rw [proven] at valid
  obtain ⟨sent, expected⟩ := ResourceSender.eq_of_proofIsValid valid
  -- Both sides hash their data in front of one and the same resource hash.
  have same : fullHash crypto (payload ++ adv.hash.val)
      = fullHash crypto (data ++ adv.hash.val) := by
    rw [expected, sent]
    rfl
  have strings := free (Set.mem_insert _ _) (Set.mem_insert_of_mem _ rfl) same
  exact List.append_cancel_right strings

def threeBytes : ResourceSender :=
  ResourceSender.new Crypto.sample [1, 2, 3] (BytesN.ofBytes 64 []) (BytesN.ofBytes 4 [9])
    (BytesN.ofBytes 4 [8]) (BytesN.ofBytes 16 [7])

/-- A receiver of those three bytes finishes with them, and its proof is taken. -/
theorem proof_implies_agreement_threeBytes : ∃ adv rx payload proof,
    parseAdvertisement threeBytes.advertisement = .ok adv ∧
    accept threeBytes.advertisement = .ok rx ∧
    rx.finish Crypto.sample (fun _ _ => none) [8, 0, 0, 0, 1, 2, 3] = .ok (payload, proof) ∧
    threeBytes.proofIsValid proof = true ∧ payload = [1, 2, 3] := by
  have facts : (accept threeBytes.advertisement).toOption.map (fun rx =>
      (rx.finish Crypto.sample (fun _ _ => none) [8, 0, 0, 0, 1, 2, 3]).toOption.map fun result =>
        (result.1, threeBytes.proofIsValid result.2)) = some (some ([1, 2, 3], true)) := by
    decide +kernel
  cases accepted : accept threeBytes.advertisement with
  | error fault => simp [accepted, Except.toOption] at facts
  | ok rx =>
    cases finished : rx.finish Crypto.sample (fun _ _ => none) [8, 0, 0, 0, 1, 2, 3] with
    | error message => simp [accepted, finished, Except.toOption] at facts
    | ok result =>
      obtain ⟨payload, proof⟩ := result
      simp only [accepted, finished, Except.toOption, Option.map_some, Option.some.injEq,
        Prod.mk.injEq] at facts
      obtain ⟨rfl, valid⟩ := facts
      obtain ⟨adv, parsed, -⟩ := accept_ok_iff.mp accepted
      refine ⟨adv, rx, [1, 2, 3], proof, parsed, rfl, finished, valid, ?_⟩
      refine (proof_implies_agreement Crypto.sample (fun _ _ => none) parsed accepted .refl
        finished).2 [1, 2, 3] _ _ _ _ valid ?_
      rw [Set.pair_eq_singleton]
      exact Set.injOn_singleton _ _

end ResourceReceiver

end LxmfChat
