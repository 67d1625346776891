import LxmfChat.App.Ending

/-! Which messages a delivery confirmation retires, and which it comes too late for. -/

namespace LxmfChat.System

open Base
open Relation (ReflTransGen)

variable {cfg : Config} {s : System} {index : Nat} {h : FullHash}

theorem handle_delivered (cfg : Config) (reported : s.events[index]? = some (.delivered h)) :
    s.handle cfg index = { s with
      shared := (markDelivered h s.shared).1
      events := s.events.eraseIdx index
      decided := s.decided ++ (markDelivered h s.shared).2 } := by
  rw [handle, reported]
  rfl

theorem markDelivered_some {shared : Shared} {m : OutboundMsg}
    (current : shared.outbox.find? (fun m => m.inFlight = some h) = some m) :
    ∃ mark : Mark, mark.key = m.key ∧ mark.status ≠ .failed
      ∧ (markDelivered h shared).2 = [mark] := by
  simp only [markDelivered, current]
  split
  · exact ⟨m.mark .queued .stored, rfl, Status.noConfusion, rfl⟩
  · exact ⟨m.mark .delivered .delivered, rfl, Status.noConfusion, rfl⟩

theorem find?_of_markDelivered {shared : Shared} {mark : Mark}
    (decided : mark ∈ (markDelivered h shared).2) :
    ∃ m ∈ shared.outbox, mark.key = m.key
      ∧ shared.outbox.find? (fun m => m.inFlight = some h) = some m := by
  rw [markDelivered] at decided
  cases current : shared.outbox.find? fun m => m.inFlight = some h with
  | none =>
    rw [current] at decided
    cases decided
  | some m =>
    rw [current] at decided
    refine ⟨m, List.mem_of_find?_eq_some current, ?_, rfl⟩
    rw [List.mem_singleton.mp decided]
    split <;> rfl

/--
A confirmation retires a message for good exactly if the message was last sent under its hash.

The outbox remembers the hash of the latest attempt only.
-/
theorem confirmed_iff_current {identity : PrivateIdentity} {m : OutboundMsg}
    (run : ReflTransGen (Step cfg fun _ _ => True) (start identity) s)
    (reported : s.events[index]? = some (.delivered h)) (there : m ∈ s.shared.outbox) :
    (m.key ∉ (s.handle cfg index).core.held
      ∧ (∃ mark ∈ (s.handle cfg index).decided, mark.key = m.key ∧ mark.status ≠ .failed)
      ∧ ∀ s', ReflTransGen (Step cfg fun _ _ => True) (s.handle cfg index) s' →
          ∀ mark ∈ s'.core.verdicts, mark.key = m.key → mark.status ≠ .failed)
    ↔ s.shared.outbox.find? (fun m => m.inFlight = some h) = some m := by
  have orderly := orderly_run (orderly_start identity) run
  have handled := handle_delivered cfg reported
  constructor
  · rintro ⟨-, ⟨mark, decided, same, -⟩, -⟩
    rw [handled] at decided
    rcases List.mem_append.mp decided with old | new
    · -- A tracked message has no mark yet.
      have unmarked := orderly.not_mem_verdicts (List.mem_map_of_mem there)
      refine absurd (List.mem_map.mpr ⟨mark, List.mem_append_left _ old, same⟩) unmarked
    · obtain ⟨other, otherThere, key, current⟩ := find?_of_markDelivered new
      rw [current, orderly.eq_of_key there otherThere (key.symm.trans same)]
  · intro current
    obtain ⟨mark, same, good, decides⟩ := markDelivered_some current
    have decided : mark ∈ (s.handle cfg index).decided := by
      rw [handled, decides]
      exact List.mem_append_right _ List.mem_cons_self
    have step : Step cfg (fun _ _ => True) s (s.handle cfg index) :=
      .act s (.handle index) trivial trivial
    have next : (s.handle cfg index).core.Orderly := orderly_run orderly (.single step)
    have given : mark ∈ (s.handle cfg index).core.verdicts := List.mem_append_left _ decided
    refine ⟨fun tracked => ?_, ⟨mark, decided, same, good⟩, ?_⟩
    · exact next.not_mem_verdicts tracked (List.mem_map.mpr ⟨mark, given, same⟩)
    · -- The mark stays, and a message has at most one.
      intro s' later other otherGiven key
      have kept := verdicts_run given later
      rw [(orderly_run next later).eq_of_mark kept otherGiven (key.trans same.symm)]
      exact good

section Samples

open LxmfChat.Transport (sampleSeed sampleIdentity sampleIv linkDataPacket)

def backRequest : Packet :=
  Link.requestPacket sampleCrypto (sampleConfig none).ourDh (sampleSeed 7) (sampleSeed 8)

def backLink : TruncatedHash := Link.linkId sampleCrypto backRequest

def backKey : SessionKey :=
  Link.sessionKey sampleCrypto backLink (sampleSeed 9) (sampleCrypto.x25519Base (sampleSeed 7))

def backIdentify : Bytes :=
  let peer := sampleIdentity 3
  let pubkey := (peer.publicIdentity sampleCrypto).publicKey
  let signature := peer.sign sampleCrypto (backLink.val ++ pubkey.val)
  (Packet.header1 .link .data CONTEXT_LINKIDENTIFY backLink
    ((Token.ofSessionKey backKey).encryptWithIv sampleCrypto (pubkey.val ++ signature.val)
      sampleIv)).encode

def replyPacket : Packet :=
  let packed := (Message.pack sampleCrypto (sampleIdentity 1) samplePeer
    (sampleConfig none).ourDh (Double.ofNat 0) [] (utf8Encode ['h', 'i']) [] none).packed
  linkDataPacket sampleCrypto backLink backKey packed sampleIv

def replyHash : FullHash := replyPacket.packetHash sampleCrypto

def replyProof : Bytes :=
  Link.provePacketEphemeral sampleCrypto (sampleSeed 8) backLink replyPacket

def replyRun : List Action :=
  [ .other (.registerDestination (sampleConfig none).ourDh),
    .frame backRequest.encode (sampleSeed 9) .hub,
    .frame backIdentify (sampleSeed 0) .hub,
    .handle 1,
    .post 0 samplePeer ['h', 'i'],
    .turn 0 0 sampleDraw ]

def replyProven : List Action := replyRun ++ [.frame replyProof (sampleSeed 0) .hub]

def replyProvenLate : List Action :=
  replyRun ++ [.tick 10, .turn 0 10 sampleDraw, .frame replyProof (sampleSeed 0) .hub]

def replyGivenUp : List Action :=
  replyProvenLate ++ [.handle 1, .tick 91, .turn 0 91 sampleDraw, .mark 0]

/--
A proof for an earlier attempt is ignored, and the message is marked as failed.

The transport still knows the peer's link and the receipt, so it reports the confirmation; the outbox has cleared the hash by then.
-/
theorem late_proof_ignored :
    Permits (sampleConfig none) (fun _ _ => True) (start (sampleIdentity 1)) replyGivenUp
    ∧ (sampleEnd none replyRun).shared.outbox.map (fun m => (m.key, m.inFlight))
      = [((samplePeer, 0), some replyHash)]
    ∧ (sampleEnd none replyProvenLate).events[1]? = some (.delivered replyHash)
    ∧ (samplePeer, 0) ∈ (sampleEnd none replyProvenLate).core.held
    ∧ (samplePeer, 0) ∈ (sampleEnd none (replyProvenLate ++ [.handle 1])).core.held
    ∧ (sampleEnd none replyGivenUp).marks.map (fun mark => (mark.key, mark.status))
      = [((samplePeer, 0), .failed)] := by
  refine ⟨?_, by decide +kernel⟩
  exact ⟨nofun, trivial, trivial, trivial, trivial, trivial, trivial, trivial,
    ⟨by decide +kernel, by decide⟩, trivial, trivial, trivial, trivial, trivial, trivial, trivial,
    trivial, trivial, trivial, trivial, trivial, trivial, trivial, trivial, trivial, trivial,
    trivial⟩

/-- A proof for the latest attempt retires the message for good. -/
theorem confirmed_iff_current_reply :
    ∃ m ∈ (sampleEnd none replyProven).shared.outbox, m.key = (samplePeer, 0)
      ∧ ∀ s', ReflTransGen (Step (sampleConfig none) fun _ _ => True)
          ((sampleEnd none replyProven).handle (sampleConfig none) 1) s' →
          ∀ mark ∈ s'.core.verdicts, mark.key = m.key → mark.status ≠ .failed := by
  have permitted : Permits (sampleConfig none) (fun _ _ => True) (start (sampleIdentity 1))
      replyProven :=
    ⟨nofun, trivial, trivial, trivial, trivial, trivial, trivial, trivial,
      ⟨by decide +kernel, by decide⟩, trivial, trivial, trivial, trivial, trivial, trivial⟩
  have run : ReflTransGen (Step (sampleConfig none) fun _ _ => True) (start (sampleIdentity 1))
      (sampleEnd none replyProven) := run_actAll permitted
  have reported : (sampleEnd none replyProven).events[1]? = some (.delivered replyHash) := by
    decide +kernel
  have flies : ((sampleEnd none replyProven).shared.outbox.find?
      fun m => m.inFlight = some replyHash).map OutboundMsg.key = some (samplePeer, 0) := by
    decide +kernel
  obtain ⟨m, current, key⟩ := Option.map_eq_some_iff.mp flies
  have there := List.mem_of_find?_eq_some current
  exact ⟨m, there, key, ((confirmed_iff_current run reported there).mpr current).2.2⟩

end Samples

end LxmfChat.System
