import LxmfChat.Base.Runs
import LxmfChat.Reticulum.Transport.Runs

/-! Key agreement: the two ends of a link hold one session key, however their frames travel. -/

namespace LxmfChat

open Base
open Relation (ReflTransGen)

variable {t : Transport} {raw : Bytes} {ephemeral : KeyHalf} {iface : PathIface}

structure LinkRequest where
  target : TruncatedHash
  ephX25519 : KeyHalf
  ephEd25519 : KeyHalf

def LinkRequest.packet (crypto : Crypto) (r : LinkRequest) : Packet :=
  Link.requestPacket crypto r.target r.ephX25519 r.ephEd25519

structure Acceptance where
  request : Packet
  secret : KeyHalf

/-- An initiator and a responder, with all that was requested, accepted and answered so far. -/
structure Handshake where
  initiator : Transport
  responder : Transport
  requested : List LinkRequest
  accepted : List Acceptance
  /-- Every proof the responder sent, with the link it was for. -/
  answers : List (TruncatedHash × Bytes)

namespace Handshake

variable (crypto : Crypto)

def peer (s : Handshake) : PublicIdentity := s.responder.identity.publicIdentity crypto

def request : Transport.Op → Option LinkRequest
  | .makeLinkRequest target _ ephX25519 ephEd25519 _ => some ⟨target, ephX25519, ephEd25519⟩
  | _ => none

/-- What a frame makes the responder accept: a request for a link it does not hold yet. -/
def acceptance (t : Transport) (raw : Bytes) (ephemeral : KeyHalf) (iface : PathIface) :
    Option Acceptance :=
  match Packet.decode raw, (t.handleFrame crypto raw ephemeral iface).2 with
  | .ok p, .linkEstablished lid _ => if (t.links.get lid).isNone then some ⟨p, ephemeral⟩ else none
  | _, _ => none

def answer (t : Transport) (raw : Bytes) (ephemeral : KeyHalf) (iface : PathIface) :
    Option (TruncatedHash × Bytes) :=
  match (t.handleFrame crypto raw ephemeral iface).2 with
  | .linkEstablished lid proof => some (lid, proof)
  | _ => none

/-- The initiator asks for a destination of the responder under the responder's identity. -/
def Honest (s : Handshake) : Transport.Op → Prop
  | .makeLinkRequest target peerIdentity _ _ _ =>
    target ∈ s.responder.ourDests → peerIdentity = s.peer crypto
  | _ => True

/--
No signature of the responder is forged.

A frame whose signature verifies as the responder's proof of a link carries a key that the
responder proved for that link.
-/
def Unforged (s : Handshake) : Transport.Op → Prop
  | .handleFrame raw _ _ => ∀ p, Packet.decode raw = .ok p → ∀ lid ephPub signalling,
      (s.peer crypto).validate crypto (p.data.take 64)
        (Link.proofMaterial lid ephPub (s.peer crypto).sigPub signalling) = true →
      ∃ a ∈ s.accepted, Link.linkId crypto a.request = lid
        ∧ crypto.x25519Base a.secret = ephPub
  | _ => True

/-- The responder has neither evicted nor closed a link. -/
def Kept (t u : Transport) : Prop := ∀ lid, (t.links.get lid).isSome → (u.links.get lid).isSome

def calls (s : Handshake) (op : Transport.Op) : Handshake :=
  { s with
    initiator := s.initiator.perform crypto op
    requested := (request op).toList ++ s.requested }

def receives (s : Handshake) (raw : Bytes) (ephemeral : KeyHalf) (iface : PathIface) : Handshake :=
  { s with
    responder := (s.responder.handleFrame crypto raw ephemeral iface).1
    accepted := (acceptance crypto s.responder raw ephemeral iface).toList ++ s.accepted
    answers := (answer crypto s.responder raw ephemeral iface).toList ++ s.answers }

/--
The initiator makes any call, the responder handles any frame, or a hash map is reordered.

Frames are arbitrary, so the network may lose, duplicate, delay, reorder and rewrite them.
-/
inductive Step : Handshake → Handshake → Prop
  | initiator (s : Handshake) (op : Transport.Op) (honest : s.Honest crypto op)
      (unforged : s.Unforged crypto op) : Step s (s.calls crypto op)
  | responder (s : Handshake) (raw : Bytes) (ephemeral : KeyHalf) (iface : PathIface)
      (kept : Kept s.responder (s.responder.handleFrame crypto raw ephemeral iface).1) :
      Step s (s.receives crypto raw ephemeral iface)
  | reorder (s : Handshake) {t u : Transport} (sameInitiator : s.initiator.Same t)
      (sameResponder : s.responder.Same u) : Step s { s with initiator := t, responder := u }

/-- What every run keeps true of the two ends. -/
structure Agreed (s : Handshake) : Prop where
  /-- Every link the responder holds is one it accepted, with the key of that acceptance. -/
  held : ∀ {lid st}, s.responder.links.get lid = some st → ∃ a ∈ s.accepted,
    Link.linkId crypto a.request = lid ∧ a.request.destinationHash ∈ s.responder.ourDests
    ∧ ∃ (peerPub peerSigPub : KeyHalf) (signalling : Bytes),
        a.request.data = peerPub.val ++ (peerSigPub.val ++ signalling)
        ∧ st.key = Link.sessionKey crypto lid a.secret peerPub
  once : ∀ a ∈ s.accepted, ∀ b ∈ s.accepted,
    Link.linkId crypto a.request = Link.linkId crypto b.request → a.secret = b.secret
  live : ∀ a ∈ s.accepted, (s.responder.links.get (Link.linkId crypto a.request)).isSome
  /-- Every answer was the proof of a link that is still held. -/
  answered : ∀ answer ∈ s.answers,
    (s.responder.links.get answer.1).map (·.proof) = some answer.2
  pending : ∀ {lid pend}, s.initiator.pendingOut.get lid = some pend → ∃ r ∈ s.requested,
    Link.linkId crypto (r.packet crypto) = lid ∧ pend.ephSecret = r.ephX25519
    ∧ (r.target ∈ s.responder.ourDests → pend.identity = s.peer crypto)
  /-- Every open link is one the initiator requested, with a key the responder proved. -/
  opened : ∀ {lid link}, s.initiator.outLinks.get lid = some link → ∃ r ∈ s.requested,
    Link.linkId crypto (r.packet crypto) = lid
    ∧ (r.target ∈ s.responder.ourDests → ∃ a ∈ s.accepted,
        Link.linkId crypto a.request = lid
        ∧ link.key = Link.sessionKey crypto lid r.ephX25519 (crypto.x25519Base a.secret))

def start (initiator responder : PrivateIdentity) (dests : List TruncatedHash) : Handshake where
  initiator := .new initiator
  responder := dests.foldl Transport.registerDestination (.new responder)
  requested := []
  accepted := []
  answers := []

variable {crypto}

theorem Agreed.initiator {s : Handshake} (agreed : s.Agreed crypto) {op : Transport.Op}
    (honest : s.Honest crypto op) (unforged : s.Unforged crypto op) :
    Agreed crypto (s.calls crypto op) where
  held := agreed.held
  once := agreed.once
  live := agreed.live
  answered := agreed.answered
  pending := by
    intro lid pend held
    rcases Transport.pendingOut_perform held with before | ⟨target, x, e, now, rfl, rfl, rfl⟩
    · obtain ⟨r, made, facts⟩ := agreed.pending before
      exact ⟨r, List.mem_append_right _ made, facts⟩
    · exact ⟨⟨target, pend.ephSecret, e⟩, List.mem_append_left _ (.head _), rfl, rfl, honest⟩
  opened := by
    intro lid link held
    rcases Transport.outLinks_perform held with
      ⟨old, before, same⟩ | ⟨raw, eph, iface, p, pend, key, rfl, decoded, pending, completed, rfl⟩
    · obtain ⟨r, made, named, proven⟩ := agreed.opened before
      refine ⟨r, List.mem_append_right _ made, named, fun ours => ?_⟩
      rw [same]
      exact proven ours
    · obtain ⟨r, made, named, secret, identity⟩ := agreed.pending pending
      refine ⟨r, List.mem_append_right _ made, named, fun ours => ?_⟩
      -- The signature the handshake checked is one the responder made for this very link.
      obtain ⟨peerPub, signalling, valid, derived⟩ := Link.completeHandshake_some crypto completed
      rw [identity ours] at valid
      obtain ⟨a, accepted, link, proven⟩ := unforged p decoded lid peerPub signalling valid
      refine ⟨a, accepted, link, ?_⟩
      rw [proven, ← secret]
      exact derived

theorem Kept.get (kept : Kept t (t.handleFrame crypto raw ephemeral iface).1)
    {lid : TruncatedHash} {st : LinkState} (held : t.links.get lid = some st) :
    ∃ st', (t.handleFrame crypto raw ephemeral iface).1.links.get lid = some st'
      ∧ st' = { st with peerIdentity := st'.peerIdentity } := by
  obtain ⟨st', found⟩ := Option.isSome_iff_exists.mp (kept lid (by rw [held]; rfl))
  refine ⟨st', found, ?_⟩
  have performed : (t.perform crypto (.handleFrame raw ephemeral iface)).links.get lid = some st' :=
    found
  rcases Transport.links_perform performed with
    ⟨old, there, same⟩ | ⟨_, _, _, _, _, _, _, _, fresh, _⟩
  · cases held.symm.trans there
    exact same
  · rw [held] at fresh
    cases fresh

theorem acceptance_some {a : Acceptance}
    (accepted : acceptance crypto t raw ephemeral iface = some a) :
    t.links.get (Link.linkId crypto a.request) = none
    ∧ ((t.handleFrame crypto raw ephemeral iface).1.links.get
        (Link.linkId crypto a.request)).isSome := by
  rw [acceptance] at accepted
  rcases Transport.handleFrame_cases t raw ephemeral iface with ⟨p, decoded, effect⟩ | ⟨reason, result⟩
  · generalize t.handleFrame crypto raw ephemeral iface = handled at effect accepted ⊢
    obtain ⟨u, event⟩ := handled
    simp only [decoded] at accepted
    cases effect with
    -- A repeated request is answered too, but no link is opened for it.
    | repeated kind ours held => simp [held] at accepted
    | @accepted est kind ours fresh established =>
      have named := Link.acceptRequest_linkId crypto established
      rw [named] at fresh
      simp only [fresh, Option.isNone_none, if_true, Option.some.injEq] at accepted
      subst accepted
      have held := Capped.get_insert_self MAX_LINKS est.linkId est.opened t.links
      simp only [named]
      exact ⟨fresh, Option.isSome_iff_exists.mpr ⟨_, held⟩⟩
    | quiet inert =>
      cases event <;> first | exact inert.elim | cases accepted
    | _ => cases accepted
  · simp only [result] at accepted
    split at accepted
    · rename_i impossible
      cases impossible
    · cases accepted

theorem answer_some {reply : TruncatedHash × Bytes}
    (answered : answer crypto t raw ephemeral iface = some reply) :
    ((t.handleFrame crypto raw ephemeral iface).1.links.get reply.1).map (·.proof)
      = some reply.2 := by
  rw [answer] at answered
  rcases Transport.handleFrame_cases t raw ephemeral iface with ⟨p, decoded, effect⟩ | ⟨reason, result⟩
  · generalize t.handleFrame crypto raw ephemeral iface = handled at effect answered ⊢
    obtain ⟨u, event⟩ := handled
    cases effect with
    | repeated kind ours held =>
      cases answered
      simp only [held, Option.map_some]
    | @accepted est kind ours fresh established =>
      cases answered
      simp only [Capped.get_insert_self, Option.map_some]
      rfl
    | quiet inert =>
      cases event <;> first | exact inert.elim | cases answered
    | _ => cases answered
  · simp only [result] at answered
    cases answered

theorem Agreed.responder {s : Handshake} (agreed : s.Agreed crypto)
    (kept : Kept s.responder (s.responder.handleFrame crypto raw ephemeral iface).1) :
    Agreed crypto (s.receives crypto raw ephemeral iface) := by
  obtain ⟨sameIdentity, sameDests⟩ :=
    Transport.handleFrame_fixed crypto s.responder raw ephemeral iface
  constructor
  case held =>
    intro lid st held
    have performed : (s.responder.perform crypto (.handleFrame raw ephemeral iface)).links.get lid
        = some st := held
    simp only [receives, sameDests]
    rcases Transport.links_perform performed with ⟨old, before, same⟩ | ⟨raw', eph', iface', p, est,
      op, decoded, ours, fresh, rfl, established, event, rfl⟩
    · obtain ⟨a, accepted, named, ours, peerPub, peerSigPub, signalling, data, key⟩ :=
        agreed.held before
      refine ⟨a, List.mem_append_right _ accepted, named, ours, peerPub, peerSigPub, signalling,
        data, ?_⟩
      rw [same]
      exact key
    · cases op
      obtain ⟨peerPub, peerSigPub, signalling, data, rfl⟩ :=
        Link.acceptRequest_some crypto established
      have new : acceptance crypto s.responder raw ephemeral iface = some ⟨p, ephemeral⟩ := by
        simp only [acceptance, decoded, event, fresh, Option.isNone_none, if_true]
      refine ⟨⟨p, ephemeral⟩, List.mem_append_left _ (by rw [new]; exact .head _), rfl, ours,
        peerPub, peerSigPub, signalling, data, rfl⟩
  case once =>
    -- A request is accepted only for a link that is not held, and every accepted link is held.
    have apart : ∀ a ∈ acceptance crypto s.responder raw ephemeral iface, ∀ b ∈ s.accepted,
        Link.linkId crypto a.request ≠ Link.linkId crypto b.request := by
      intro a new b old same
      have live := agreed.live b old
      rw [← same, (acceptance_some new).1] at live
      cases live
    intro a inA b inB same
    rcases List.mem_append.mp inA with newA | oldA <;> rcases List.mem_append.mp inB with newB | oldB
    · have one := (Option.mem_toList.mp newA).symm.trans (Option.mem_toList.mp newB)
      cases one
      rfl
    · exact absurd same (apart a (Option.mem_toList.mp newA) b oldB)
    · exact absurd same.symm (apart b (Option.mem_toList.mp newB) a oldA)
    · exact agreed.once a oldA b oldB same
  case live =>
    intro a accepted
    rcases List.mem_append.mp accepted with new | old
    · exact (acceptance_some (Option.mem_toList.mp new)).2
    · exact kept _ (agreed.live a old)
  case answered =>
    intro reply replied
    rcases List.mem_append.mp replied with new | old
    · exact answer_some (Option.mem_toList.mp new)
    · obtain ⟨st, held, proof⟩ := Option.map_eq_some_iff.mp (agreed.answered reply old)
      obtain ⟨st', found, same⟩ := kept.get held
      refine Option.map_eq_some_iff.mpr ⟨st', found, ?_⟩
      rw [same]
      exact proof
  case pending =>
    intro lid pend held
    simp only [receives, sameDests, peer, sameIdentity]
    exact agreed.pending held
  case opened =>
    intro lid link held
    obtain ⟨r, made, named, proven⟩ := agreed.opened held
    refine ⟨r, made, named, fun ours => ?_⟩
    simp only [receives, sameDests] at ours
    obtain ⟨a, accepted, facts⟩ := proven ours
    exact ⟨a, List.mem_append_right _ accepted, facts⟩

theorem Agreed.reorder {s : Handshake} (agreed : s.Agreed crypto) {u : Transport}
    (sameInitiator : s.initiator.Same t) (sameResponder : s.responder.Same u) :
    Agreed crypto { s with initiator := t, responder := u } where
  held := by
    intro lid st held
    simp only [← sameResponder.links.get, ← sameResponder.ourDests] at held ⊢
    exact agreed.held held
  once := agreed.once
  live := by
    intro a accepted
    simp only [← sameResponder.links.get]
    exact agreed.live a accepted
  answered := by
    intro reply replied
    simp only [← sameResponder.links.get]
    exact agreed.answered reply replied
  pending := by
    intro lid pend held
    simp only [← sameInitiator.pendingOut.get, ← sameResponder.ourDests, peer,
      ← sameResponder.identity] at held ⊢
    exact agreed.pending held
  opened := by
    intro lid link held
    simp only [← sameInitiator.outLinks.get, ← sameResponder.ourDests] at held ⊢
    exact agreed.opened held

theorem Step.agreed {s s' : Handshake} (agreed : s.Agreed crypto) (step : Step crypto s s') :
    s'.Agreed crypto := by
  cases step with
  | initiator op honest unforged => exact agreed.initiator honest unforged
  | responder raw ephemeral iface kept => exact agreed.responder kept
  | reorder sameInitiator sameResponder => exact agreed.reorder sameInitiator sameResponder

section Sample

/-- Primitives whose signatures show the start of what they sign, so that none can be forged. -/
def legible : Crypto :=
  { Crypto.sample with
    ed25519Sign := fun _ _ message => BytesN.ofBytes 64 message
    ed25519Verify := fun _ message signature => signature == BytesN.ofBytes 64 message }

def seed (byte : UInt8) : KeyHalf := BytesN.ofBytes 32 [byte]

def responderIdentity : PrivateIdentity := ⟨seed 3, seed 4⟩

def destination : TruncatedHash := BytesN.ofBytes 16 [0x42]

def linkRequest : LinkRequest := ⟨destination, seed 7, seed 8⟩

def linkProof : Packet :=
  Link.proofPacket legible (linkRequest.packet legible) responderIdentity (seed 9)

end Sample

end Handshake

end LxmfChat
