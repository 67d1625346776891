import LxmfChat.Lxmf.Message
import LxmfChat.Reticulum.Transport.Ops

/-! The outbound delivery engine: one message's turn in a pass over the outbox. -/

namespace LxmfChat

open Base

def PROOF_TIMEOUT : Nat := 18
def LINK_RETRY : Nat := 15
def KEY_RETRY : Nat := 5
def DIRECT_DEADLINE : Nat := 90
def PROP_DEADLINE : Nat := 120
def DELIVERY_RETRY : Nat := 10
def RESOURCE_RETRY : Nat := 45
def BACKCHANNEL_MAX_IDLE : Nat := 540
def MAX_ATTEMPTS : UInt8 := 5
def MAX_ROUTE_TRIES : UInt8 := 3
def MAX_LINK_TRIES : UInt8 := 1
def MAX_DIRECT_ROUNDS : UInt8 := 1

/-- The largest message that fits one link packet; a larger one is sent as a resource. -/
def LINK_PACKED_MAX : Nat := 431

/-- An outbound message, tracked until it is delivered, stored at the node or given up on. -/
structure OutboundMsg where
  peer : TruncatedHash
  displayTs : Nat
  text : Text
  packed : Bytes
  /-- The cost of a stamp that is still unmined; nothing is sent until then. -/
  needsStamp : Option Nat
  /-- The message already carries a stamp made from a ticket. -/
  stamped : Bool
  viaPn : Bool
  triedPn : Bool
  /-- The hash of the packet or resource that awaits a proof. -/
  inFlight : Option FullHash
  attempts : UInt8
  routeTries : UInt8
  linkTries : UInt8
  directRounds : UInt8
  awaitingKey : Bool
  /-- The copy for the propagation node, once it has been computed. -/
  pnBlob : Option Bytes
  nextAction : Nat
  created : Nat
  deadline : Nat
deriving DecidableEq

def OutboundMsg.key (m : OutboundMsg) : TruncatedHash × Nat := (m.peer, m.displayTs)

def OutboundMsg.escalate (m : OutboundMsg) (now : Nat) : OutboundMsg :=
  { m with viaPn := true, deadline := now + PROP_DEADLINE }

/-- The outcome of trying to open a link. -/
inductive LinkReqOutcome
  | sent
  | pending
  | writeFailed
deriving DecidableEq

/-- Peers that identified themselves on a link to us: the link, and when it was last heard of. -/
abbrev Backchannels := Table TruncatedHash (TruncatedHash × Nat)

/-- The random bytes a turn draws, and whether an interface takes what it broadcasts. -/
structure Draw where
  ephX25519 : KeyHalf
  ephEd25519 : KeyHalf
  iv : Iv
  advIv : Iv
  r : BytesN 4
  streamPrefix : BytesN 4
  sent : Bool

/-- Data put on a link, under the hash its proof will name. -/
structure Transmission where
  link : TruncatedHash
  data : Bytes
  hash : FullHash
deriving DecidableEq

/-- Why a pass gives up on a message. -/
inductive PumpFailure
  /-- The status line says "propagation node unconfirmed". -/
  | nodeUnconfirmed
  /-- The status line says "link could not be established". -/
  | linkNotEstablished
  /-- The status line says "no route found". -/
  | noRouteFound
  /-- The status line says "no acknowledgement". -/
  | noAcknowledgement
deriving DecidableEq, Repr

/-- How a pass goes on after a message's turn. -/
inductive Turn
  /-- The message stays and the pass moves on. -/
  | kept (m : OutboundMsg)
  /-- The message stays and is looked at again. -/
  | again (m : OutboundMsg)
  | failed (why : PumpFailure)
  /-- The missing propagation node was unwrapped. -/
  | crashed

/-- The state a turn leaves behind, how the pass goes on, and what was sent. -/
structure Outcome where
  transport : Transport
  backchannels : Backchannels
  turn : Turn
  sent : Option Transmission := none

section Turns

variable (crypto : Crypto)

/-- Ask for a link unless one is pending or up; a request that nobody took is forgotten. -/
def sendLinkRequest (t : Transport) (target : TruncatedHash) (identity : PublicIdentity)
    (now : Nat) (d : Draw) : Transport × LinkReqOutcome :=
  let (t, pending) := t.pendingLinkTo target now
  if pending then (t, .pending)
  else
    let (t, link) := t.outboundLinkFor target now
    if link.isSome then (t, .pending)
    else
      let (t, _, linkId) := t.makeLinkRequest crypto target identity d.ephX25519 d.ephEd25519 now
      if d.sent then (t, .sent) else (t.forgetPendingLink linkId, .writeFailed)

def makeResourceOnLink (t : Transport) (link : TruncatedHash) (data : Bytes) (d : Draw) :
    Transport × Option FullHash :=
  match t.makeLinkResource crypto link data d.r d.streamPrefix d.iv d.advIv with
  | (t, some (_, hash)) => (t, some hash)
  | (t, none) => (t, none)

/-- Send data on a link we opened, or on one a peer opened: one packet, or else a resource. -/
def transmit (inbound : Bool) (t : Transport) (link : TruncatedHash) (data : Bytes) (d : Draw) :
    Transport × Option FullHash :=
  if LINK_PACKED_MAX < data.length then makeResourceOnLink crypto t link data d
  else
    match (if inbound then t.makeInLinkData crypto link data d.iv
      else t.makeLinkData crypto link data d.iv) with
    | (t, some (_, packetHash)) => (t, some packetHash)
    | (t, none) => (t, none)

def proofWait (data : Bytes) (single : Nat) : Nat :=
  if LINK_PACKED_MAX < data.length then RESOURCE_RETRY else single

variable (pn : Option TruncatedHash) (now : Nat)

def pumpExpired (t : Transport) (b : Backchannels) (m : OutboundMsg) : Outcome :=
  if !m.viaPn && !m.triedPn && pn.isSome then
    ⟨t, b, .kept { m.escalate now with nextAction := now }, none⟩
  else if m.viaPn then
    -- A node that was never sent to has an unresponsive route, which is forgotten.
    match pn with
    | some node =>
      if !m.triedPn then ⟨(t.expirePath node).1, b, .failed .nodeUnconfirmed, none⟩
      else ⟨t, b, .failed .nodeUnconfirmed, none⟩
    | none => ⟨t, b, .failed .nodeUnconfirmed, none⟩
  else if m.attempts = 0 && !m.triedPn then
    if t.hasPath m.peer then ⟨t, b, .failed .linkNotEstablished, none⟩
    else ⟨t, b, .failed .noRouteFound, none⟩
  else ⟨t, b, .failed .noAcknowledgement, none⟩

/-- The link whose silence a missing proof is blamed on, looked up as a link to send on is. -/
def suspectLink (syncLink : Option TruncatedHash) (t : Transport) (m : OutboundMsg) :
    Transport × Option TruncatedHash :=
  if !m.viaPn then
    if m.attempts < MAX_ATTEMPTS then t.outboundLinkFor m.peer now else (t, none)
  else
    match pn with
    | none => (t, none)
    | some target =>
      match t.outboundLinkFor target now with
      | (t, some lid) => (t, if syncLink ≠ some lid then some lid else none)
      | (t, none) => (t, none)

def dropSuspect (syncLink : Option TruncatedHash) (t : Transport) (m : OutboundMsg) : Transport :=
  match suspectLink pn now syncLink t m with
  | (t, some lid) => t.dropOutLink lid
  | (t, none) => t

/-- The proof did not come in time: what the next attempt starts from, if there is one. -/
def pumpUnproven (syncLink : Option TruncatedHash) (t : Transport) (b : Backchannels)
    (m : OutboundMsg) : Transport × Backchannels × Option OutboundMsg :=
  let t := dropSuspect pn now syncLink t m
  let m := { m with inFlight := none }
  if !m.viaPn then
    if m.attempts < MAX_ATTEMPTS then (t, b.erase m.peer, some m)
    else if !m.triedPn && pn.isSome then (t, b, some (m.escalate now))
    else (t, b, none)
  else (t, b, some m)

def propagate (target : TruncatedHash) (t : Transport) (b : Backchannels) (m : OutboundMsg)
    (d : Draw) : Outcome :=
  match t.known.get target with
  | none => ⟨t, b, .kept { m with awaitingKey := true, nextAction := now + KEY_RETRY }, none⟩
  | some known =>
    if !t.hasPath target then
      ⟨t, b, .kept { m with awaitingKey := false, nextAction := now + KEY_RETRY }, none⟩
    else
      match t.outboundLinkFor target now with
      | (t, none) =>
        let (t, _) := sendLinkRequest crypto t target known.identity now d
        ⟨t, b, .kept { m with nextAction := now + LINK_RETRY }, none⟩
      | (t, some link) =>
        match m.pnBlob with
        -- The copy is computed elsewhere and takes seconds.
        | none => ⟨t, b, .kept { m with nextAction := now + 1 }, none⟩
        | some blob =>
          match transmit crypto false t link blob d with
          | (t, some hash) =>
            ⟨t, b, .kept { m with
              inFlight := some hash, triedPn := true
              nextAction := now + proofWait blob PROOF_TIMEOUT }, some ⟨link, blob, hash⟩⟩
          | (t, none) => ⟨t, b, .kept { m with nextAction := now + 2 }, none⟩

/-- No link in either direction: find the peer's key, then a route, then open a link. -/
def establish (t : Transport) (b : Backchannels) (m : OutboundMsg) (d : Draw) : Outcome :=
  match t.known.get m.peer with
  | none => ⟨t, b, .kept { m with awaitingKey := true, nextAction := now + KEY_RETRY }, none⟩
  | some known =>
    if !t.hasPath m.peer then
      if MAX_ROUTE_TRIES ≤ m.routeTries && !m.triedPn && pn.isSome then
        ⟨t, b, .again { m.escalate now with nextAction := now }, none⟩
      else
        -- A try counts only if the path request left the device.
        let routeTries := if d.sent then m.routeTries + 1 else m.routeTries
        ⟨t, b, .kept { m with
          routeTries := routeTries, awaitingKey := false, nextAction := now + KEY_RETRY }, none⟩
    else
      let (t, pending) := t.pendingLinkTo m.peer now
      if !pending && MAX_LINK_TRIES ≤ m.linkTries then
        -- The route leads nowhere: forget it, look for another one, then fall back.
        let t := (t.expirePath m.peer).1
        if m.directRounds < MAX_DIRECT_ROUNDS then
          ⟨t, b, .kept { m with
            directRounds := m.directRounds + 1, linkTries := 0, routeTries := 0
            nextAction := now + 1 }, none⟩
        else if !m.triedPn && pn.isSome then
          ⟨t, b, .again { m.escalate now with nextAction := now }, none⟩
        else ⟨t, b, .kept { m with linkTries := 0, nextAction := now + 1 }, none⟩
      else
        let (t, outcome) := sendLinkRequest crypto t m.peer known.identity now d
        let linkTries := if outcome = .sent then m.linkTries + 1 else m.linkTries
        ⟨t, b, .kept { m with linkTries := linkTries, nextAction := now + 2 }, none⟩

/-- The backchannel to reply over; one that has been idle for too long is not reused. -/
def liveBackchannel (b : Backchannels) (peer : TruncatedHash) :
    Backchannels × Option TruncatedHash :=
  match b.lookup peer with
  | none => (b, none)
  | some (lid, seen) =>
    if now - seen ≤ BACKCHANNEL_MAX_IDLE then (b, some lid) else (b.erase peer, none)

def OutboundMsg.attempted (m : OutboundMsg) (hash : FullHash) : OutboundMsg :=
  { m with
    inFlight := some hash, attempts := m.attempts + 1
    nextAction := now + proofWait m.packed DELIVERY_RETRY }

def direct (t : Transport) (b : Backchannels) (m : OutboundMsg) (d : Draw) : Outcome :=
  match t.outboundLinkFor m.peer now with
  | (t, some lid) =>
    match transmit crypto false t lid m.packed d with
    | (t, some hash) => ⟨t, b, .kept (m.attempted now hash), some ⟨lid, m.packed, hash⟩⟩
    | (t, none) => ⟨t, b, .kept { m with nextAction := now + 1 }, none⟩
  | (t, none) =>
    match liveBackchannel now b m.peer with
    | (b, none) => establish crypto pn now t b m d
    | (b, some lid) =>
      match transmit crypto true t lid m.packed d with
      | (t, some hash) => ⟨t, b, .kept (m.attempted now hash), some ⟨lid, m.packed, hash⟩⟩
      -- The link vanished: forget the backchannel and open a link of our own.
      | (t, none) => establish crypto pn now t (b.erase m.peer) m d

def pumpSend (t : Transport) (b : Backchannels) (m : OutboundMsg) (d : Draw) : Outcome :=
  if m.viaPn then
    match pn with
    | some target => propagate crypto now target t b m d
    | none => ⟨t, b, .crashed, none⟩
  else direct crypto pn now t b m d

def pumpMessage (syncLink : Option TruncatedHash) (t : Transport) (b : Backchannels)
    (m : OutboundMsg) (d : Draw) : Outcome :=
  if m.needsStamp.isSome then ⟨t, b, .kept m, none⟩
  else if m.deadline < now then pumpExpired pn now t b m
  else if m.inFlight.isSome then
    if now < m.nextAction then ⟨t, b, .kept m, none⟩
    else
      match pumpUnproven pn now syncLink t b m with
      | (t, b, some m) => pumpSend crypto pn now t b m d
      | (t, b, none) => ⟨t, b, .failed .noAcknowledgement, none⟩
  else if now < m.nextAction then ⟨t, b, .kept m, none⟩
  else pumpSend crypto pn now t b m d

end Turns

end LxmfChat
