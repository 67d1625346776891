import LxmfChat.Base.Capped
import LxmfChat.Reticulum.Link
import LxmfChat.Reticulum.Resource.Sender

/-! The tables a transport keeps: known peers, routes, links, and what awaits a proof. -/

namespace LxmfChat

open Base

def saturatingAdd (a b : Nat) : Nat := min (a + b) (2 ^ 64 - 1)

def MAX_KNOWN : Nat := 256
def MAX_PATHS : Nat := 256
def MAX_LINKS : Nat := 64
def MAX_OUT_LINKS : Nat := 32
def MAX_PENDING_OUT : Nat := 32
def MAX_RECEIPTS : Nat := 64

def PENDING_LINK_EXPIRY_SECS : Nat := 12

def PER_HOP_TIMEOUT_SECS : Nat := 6

def OUT_LINK_INACTIVITY_SECS : Nat := 540

/-- An accepted inbound link. -/
structure LinkState where
  key : SessionKey
  /-- The proof that was sent, kept for retransmitted requests. -/
  proof : Bytes
  /-- The initiator's ephemeral verifying key, from its request. -/
  peerSigPub : KeyHalf
  /-- The initiator, once it has identified itself. -/
  peerIdentity : Option PublicIdentity

/-- A link that was requested and not yet proven. -/
structure PendingOut where
  target : TruncatedHash
  ephSecret : KeyHalf
  sigSeed : KeyHalf
  identity : PublicIdentity
  created : Nat
  expirySecs : Nat

/-- An established outbound link. -/
structure OutLink where
  target : TruncatedHash
  key : SessionKey
  /-- The ephemeral seed our own packet proofs on this link are signed with. -/
  sigSeed : KeyHalf
  /-- The responder, whose key its packet proofs are checked with. -/
  identity : PublicIdentity
  lastActivity : Nat

def PendingOut.opened (pend : PendingOut) (key : SessionKey) : OutLink where
  target := pend.target
  key := key
  sigSeed := pend.sigSeed
  identity := pend.identity
  lastActivity := pend.created

def EstablishedLink.opened (est : EstablishedLink) : LinkState where
  key := est.derivedKey
  proof := est.proofPacket
  peerSigPub := est.peerSigPub
  peerIdentity := none

/-- A sent opportunistic packet that awaits its delivery proof. -/
structure OppReceipt where
  fullHash : FullHash
  identity : PublicIdentity

/-- What is known about a peer's destination. -/
structure KnownDest where
  identity : PublicIdentity
  nameHash : NameHash
  ratchet : Option KeyHalf
  appData : Bytes
deriving DecidableEq

def ParsedAnnounce.info (parsed : ParsedAnnounce) : KnownDest where
  identity := parsed.identity
  nameHash := parsed.nameHash
  ratchet := parsed.ratchet
  appData := parsed.appData

/-- The local interface a frame arrived on. -/
inductive PathIface
  | hub
  | auto
deriving DecidableEq, Repr

/-- A route learned from an announce. -/
structure PathEntry where
  nextHop : Option TruncatedHash
  hops : UInt8
  learnedOn : PathIface

/-- What handling an inbound frame led to. -/
inductive Event
  | announce (destinationHash : TruncatedHash) (info : KnownDest)
  | data (destinationHash : TruncatedHash) (plaintext proof : Bytes)
  | linkEstablished (linkId : TruncatedHash) (proof : Bytes)
  | linkData (linkId : TruncatedHash) (plaintext proof : Bytes)
  | inLinkData (linkId : TruncatedHash) (context : UInt8) (plaintext : Bytes)
  | linkIdentified (linkId : TruncatedHash) (identity : PublicIdentity)
  | linkKeepalive (linkId : TruncatedHash) (reply : Bytes)
  | inLinkClosed (linkId : TruncatedHash)
  | outboundLinkUp (linkId target : TruncatedHash)
  | delivered (packetHash : FullHash)
  | outLinkData (linkId : TruncatedHash) (context : UInt8) (plaintext : Bytes)
  | outLinkClosed (linkId : TruncatedHash)
  | dataUndecryptable (destinationHash : TruncatedHash) (reason : String)
  | addressedUnhandled (destinationHash : TruncatedHash) (packetType : PacketType)
      (context : UInt8)
  | unhandled (destinationHash : TruncatedHash) (packetType : PacketType) (context : UInt8)
  | pathRequest (destinationHash : TruncatedHash)
  | dropped (reason : String)
deriving DecidableEq

/-- One node's view of the network. -/
structure Transport where
  identity : PrivateIdentity
  ourDests : List TruncatedHash
  known : Capped TruncatedHash KnownDest
  paths : Capped TruncatedHash PathEntry
  /-- Links that peers opened to us. -/
  links : Capped TruncatedHash LinkState
  /-- Links we requested that await their proof. -/
  pendingOut : Capped TruncatedHash PendingOut
  outLinks : Capped TruncatedHash OutLink
  /-- Link packets that await a proof: packet hash to link id. -/
  receipts : Capped FullHash TruncatedHash
  /-- The resource being sent on each link, at most one. -/
  outResources : Table TruncatedHash ResourceSender
  /-- Opportunistic packets that await a proof, under the truncated packet hash. -/
  oppReceipts : Capped TruncatedHash OppReceipt

namespace Transport

def new (identity : PrivateIdentity) : Transport where
  identity := identity
  ourDests := []
  known := .empty
  paths := .empty
  links := .empty
  pendingOut := .empty
  outLinks := .empty
  receipts := .empty
  outResources := ∅
  oppReceipts := .empty

def insertKnown (t : Transport) (hash : TruncatedHash) (info : KnownDest) : Transport :=
  { t with known := t.known.insert MAX_KNOWN hash info }

def insertPath (t : Transport) (hash : TruncatedHash) (entry : PathEntry) : Transport :=
  { t with paths := t.paths.insert MAX_PATHS hash entry }

def insertLink (t : Transport) (linkId : TruncatedHash) (state : LinkState) : Transport :=
  { t with links := t.links.insert MAX_LINKS linkId state }

def insertPendingOut (t : Transport) (linkId : TruncatedHash) (p : PendingOut) : Transport :=
  { t with pendingOut := t.pendingOut.insert MAX_PENDING_OUT linkId p }

def insertOutLink (t : Transport) (linkId : TruncatedHash) (l : OutLink) : Transport :=
  { t with outLinks := t.outLinks.insert MAX_OUT_LINKS linkId l }

def insertReceipt (t : Transport) (packetHash : FullHash) (linkId : TruncatedHash) : Transport :=
  { t with receipts := t.receipts.insert MAX_RECEIPTS packetHash linkId }

def insertOppReceipt (t : Transport) (truncHash : TruncatedHash) (rec : OppReceipt) : Transport :=
  { t with oppReceipts := t.oppReceipts.insert MAX_RECEIPTS truncHash rec }

def removeOutLink (t : Transport) (linkId : TruncatedHash) : Transport :=
  { t with
    outResources := t.outResources.erase linkId
    outLinks := t.outLinks.forget linkId }

def dropPathsOn (t : Transport) (iface : PathIface) : Transport :=
  { t with paths := t.paths.retain fun entry => entry.learnedOn ≠ iface }

def expirePath (t : Transport) (hash : TruncatedHash) : Transport × Bool :=
  if (t.paths.get hash).isSome then ({ t with paths := t.paths.forget hash }, true)
  else (t, false)

def hasPath (t : Transport) (hash : TruncatedHash) : Bool := (t.paths.get hash).isSome

def pathHops (t : Transport) (hash : TruncatedHash) : Option UInt8 :=
  (t.paths.get hash).map (·.hops)

def registerDestination (t : Transport) (hash : TruncatedHash) : Transport :=
  if hash ∈ t.ourDests then t else { t with ourDests := t.ourDests ++ [hash] }

def remember (t : Transport) (hash : TruncatedHash) (info : KnownDest) : Transport :=
  t.insertKnown hash info

def anyLinkKey (t : Transport) (linkId : TruncatedHash) : Option SessionKey :=
  ((t.outLinks.get linkId).map (·.key)).or ((t.links.get linkId).map (·.key))

/-- Rewrite a packet for transport when its destination is more than one hop away. -/
def applyTransport (t : Transport) (dest : TruncatedHash) (raw : Bytes) : Bytes :=
  match t.paths.get dest with
  | none => raw
  | some entry =>
    if entry.hops ≤ 1 then raw
    else
      match entry.nextHop, raw with
      | none, _ => raw
      -- Every packet has a hop count after its flags; only the first layout is rewritten.
      | some nextHop, flags :: hops :: rest =>
        if (flags &&& 0b01000000) >>> 6 ≠ HEADER_1 then raw
        else
          let newFlags := (HEADER_2 <<< 6) ||| (TransportType.transport.code <<< 4)
            ||| (flags &&& 0b00001111)
          newFlags :: hops :: (nextHop.val ++ rest)
      | some _, _ => raw

end Transport

end LxmfChat
