import LxmfChat.App.Requests

/-! The clients of remote nodes: what they share, and the sync with the propagation node. -/

namespace LxmfChat

open Base

def SYNC_DEADLINE_SECS : Nat := 120
def SYNC_ROUTE_RETRY_SECS : Nat := 3
def SYNC_ROUTE_TRIES : UInt8 := 20
def PN_PROBE_RETRY_SECS : Nat := 30

def MAX_IN_RESOURCES : Nat := 4

def countTry (tries : UInt8) : UInt8 := if tries = 255 then 255 else tries + 1

inductive SyncPhase
  | idle
  | linking
  | listRequested
  | getRequested
deriving DecidableEq, Repr

structure SyncState where
  phase : SyncPhase := .idle
  linkId : Option TruncatedHash := none
  receiver : Option ResourceReceiver := none
  deadline : Nat := 0
  /-- The one sync of this run that nobody asked for has been started. -/
  autoDone : Bool := false
  pnProbeAt : Nat := 0
  requested : Bool := false
  nextAttempt : Nat := 0
  routeTries : UInt8 := 0
  linkTries : UInt8 := 0

def SyncState.ended (s : SyncState) : SyncState :=
  { s with phase := .idle, receiver := none, requested := false, routeTries := 0, linkId := none }

def SyncState.begun (s : SyncState) (deadline : Nat) : SyncState :=
  { s with
    phase := .linking, receiver := none, deadline, linkId := none
    routeTries := 0, nextAttempt := 0, linkTries := 0 }

inductive BrowserPhase
  | idle
  | linking
  | fetching
deriving DecidableEq, Repr

/-- The page browser: the fetch under way, and the pages to go back to. -/
structure BrowserState where
  phase : BrowserPhase := .idle
  node : Option TruncatedHash := none
  path : Text := []
  vars : List (Text × Text) := []
  linkId : Option TruncatedHash := none
  receiver : Option ResourceReceiver := none
  deadline : Nat := 0
  requested : Option PageAddr := none
  nextAttempt : Nat := 0
  routeTries : UInt8 := 0
  linkTries : UInt8 := 0
  current : Option PageAddr := none
  pendingPush : Bool := false
  pendingPop : Bool := false
  back : List PageAddr := []
  viewing : Bool := false

/-- What was put on the wire for a client. -/
inductive Emission
  | linkRequest (who : Purpose) (lid target : TruncatedHash)
  | identify (lid : TruncatedHash)
  /-- A request, and the packet it made if the link was still there. -/
  | request (who : Purpose) (lid : TruncatedHash) (asked : Asked) (packet : Option Bytes)

/-- The shared state, as far as the clients of remote nodes read or write it. -/
structure Client where
  transport : Transport
  sync : SyncState := {}
  browser : BrowserState := {}
  inbox : Inbox := {}
  /-- The resources that peers are sending us, by link. -/
  inResources : Table TruncatedHash ResourceReceiver := ∅
  clock : Nat := 0
  /-- Events that the transport reported and that are not handled yet. -/
  events : List Event := []
  /-- What has been sent so far, for statements about whole runs; nothing reads it. -/
  log : List Emission := []

/-- What is fixed when the application is built, with the decompressor it calls. -/
structure ClientConfig extends Config where
  bz2Read : Nat → Bytes → Option Bytes

structure ClientDraw extends Draw where
  identifyIv : Iv
  pageIv : Iv
  interfaceUp : Bool

namespace Client

variable (cfg : ClientConfig)

def requestLink (c : Client) (who : Purpose) (target : TruncatedHash) (identity : PublicIdentity)
    (d : ClientDraw) : Client × LinkReqOutcome :=
  let (transport, outcome) :=
    sendLinkRequest cfg.crypto c.transport target identity c.clock d.toDraw
  if outcome = .pending then ({ c with transport }, outcome)
  else
    let lid := (Link.initiateRequest cfg.crypto target d.ephX25519 d.ephEd25519).2
    ({ c with transport, log := c.log ++ [.linkRequest who lid target] }, outcome)

def identify (c : Client) (lid : TruncatedHash) (iv : Iv) : Client :=
  match c.transport.makeOutLinkIdentify cfg.crypto lid iv with
  | some _ => { c with log := c.log ++ [.identify lid] }
  | none => c

def sendRequest (c : Client) (who : Purpose) (lid : TruncatedHash) (asked : Asked) (iv : Iv) :
    Client × Bool :=
  let packet := makeRequest cfg.crypto c.transport lid c.clock asked iv
  ({ c with log := c.log ++ [.request who lid asked packet] }, packet.isSome)

def dropLink (c : Client) (link : Option TruncatedHash) : Client :=
  match link with
  | some lid => { c with transport := c.transport.dropOutLink lid }
  | none => c

def syncSendGet (c : Client) (lid : TruncatedHash) (asked : Asked) (d : ClientDraw) : Client :=
  (c.sendRequest cfg .sync lid asked d.iv).1

def syncFinish (c : Client) : Client :=
  { c with sync := c.sync.ended }.dropLink c.sync.linkId

def syncSendIdentifyAndList (c : Client) (lid : TruncatedHash) (d : ClientDraw) : Client :=
  let c := { c with sync := { c.sync with phase := .listRequested } }
  (c.identify cfg lid d.identifyIv).syncSendGet cfg lid .list d

def syncDefer (c : Client) : Client :=
  let tries := countTry c.sync.routeTries
  let c := { c with sync := { c.sync with routeTries := tries } }
  if tries ≤ SYNC_ROUTE_TRIES then
    { c with
      sync := { c.sync with requested := true, nextAttempt := c.clock + SYNC_ROUTE_RETRY_SECS } }
  else c.syncFinish

def syncConnect (c : Client) (pn : TruncatedHash) (identity : PublicIdentity) (d : ClientDraw) :
    Client :=
  let c := { c with sync := c.sync.begun (c.clock + SYNC_DEADLINE_SECS) }
  match c.transport.outboundLinkFor pn c.clock with
  | (transport, some lid) =>
    { c with transport, sync := { c.sync with linkId := some lid } }.syncSendIdentifyAndList
      cfg lid d
  | (transport, none) =>
    match { c with transport }.requestLink cfg .sync pn identity d with
    | (c, .writeFailed) => c.syncFinish
    | (c, _) => { c with sync := { c.sync with linkTries := 1 } }

def startSync (c : Client) (d : ClientDraw) : Client :=
  match cfg.propagationNode with
  | none => c
  | some pn =>
    if c.sync.phase ≠ .idle then c
    else if !d.interfaceUp then c.syncDefer
    else
      match c.transport.known.get pn, c.transport.hasPath pn with
      | some known, true => c.syncConnect cfg pn known.identity d
      | _, _ => c.syncDefer

def syncRelink (c : Client) (pn : TruncatedHash) (d : ClientDraw) : Client :=
  match c.transport.known.get pn with
  | none => c
  | some known =>
    match c.requestLink cfg .sync pn known.identity d with
    | (c, .sent) => { c with sync := { c.sync with linkTries := countTry c.sync.linkTries } }
    | (c, .writeFailed) => c.syncFinish
    | (c, .pending) => c

def maybeAutoSync (c : Client) (d : ClientDraw) : Client :=
  match cfg.propagationNode with
  | none => { c with sync := { c.sync with requested := false } }
  | some pn =>
    if c.sync.phase ≠ .idle ∧ c.sync.deadline < c.clock then
      -- A route over which the link never came up is forgotten.
      let transport :=
        if c.sync.phase = .linking then (c.transport.expirePath pn).1 else c.transport
      { c with transport }.syncFinish
    else if c.sync.phase = .linking then c.syncRelink cfg pn d
    else if c.sync.requested ∧ c.sync.nextAttempt ≤ c.clock then
      { c with sync := { c.sync with requested := false } }.startSync cfg d
    else if c.sync.autoDone ∨ c.sync.phase ≠ .idle then c
    else if (c.transport.known.get pn).isSome ∧ c.transport.hasPath pn then
      { c with sync := { c.sync with autoDone := true } }.startSync cfg d
    else if d.interfaceUp ∧ c.sync.pnProbeAt ≤ c.clock then
      { c with sync := { c.sync with pnProbeAt := c.clock + PN_PROBE_RETRY_SECS } }
    else c

def syncOnLinkUp (c : Client) (lid target : TruncatedHash) (d : ClientDraw) : Client :=
  if cfg.propagationNode = some target ∧ c.sync.phase = .linking then
    { c with sync := { c.sync with linkId := some lid } }.syncSendIdentifyAndList cfg lid d
  else c

def syncListed (c : Client) (lid : TruncatedHash) (ids : List Value) (d : ClientDraw) : Client :=
  if ids.isEmpty then c.syncFinish
  else
    let c := c.syncSendGet cfg lid (.download ids) d
    { c with sync := { c.sync with phase := .getRequested } }

/-- The messages arrived: deliver them, and have the node delete every one of them. -/
def syncDownloaded (c : Client) (lid : TruncatedHash) (blobs : List Bytes) (d : ClientDraw) :
    Client :=
  match c.inbox.deliverSynced cfg.crypto c.transport c.clock blobs with
  -- The thread that read the frame is gone.
  | (inbox, none) => { c with inbox }
  | (inbox, some _) =>
    let c := { c with inbox }
    let haves := blobs.map (fullHash cfg.crypto)
    (if haves.isEmpty then c else c.syncSendGet cfg lid (.confirm haves) d).syncFinish

def handleSyncResponse (c : Client) (lid : TruncatedHash) (response : Value) (d : ClientDraw) :
    Client :=
  match response with
  | .int _ => c.syncFinish
  | _ =>
    let elements := response.asArray.getD []
    match c.sync.phase with
    | .listRequested => c.syncListed cfg lid elements d
    | .getRequested => c.syncDownloaded cfg lid (elements.filterMap Value.asBin) d
    | _ => c

def syncAnswered (c : Client) (lid : TruncatedHash) (payload : Bytes) (d : ClientDraw) : Client :=
  match parseRnsResponse payload with
  | .ok (some response) => c.handleSyncResponse cfg lid response d
  | _ => c

def syncOnOutlinkData (c : Client) (lid : TruncatedHash) (context : UInt8) (plaintext : Bytes)
    (d : ClientDraw) : Client :=
  if c.sync.linkId ≠ some lid ∨ c.sync.phase = .idle then c
  else if context = CONTEXT_RESPONSE then c.syncAnswered cfg lid plaintext d
  else
    match arrive cfg.crypto cfg.bz2Read (c.transport.decryptOutLink cfg.crypto lid) context
        plaintext c.sync.receiver with
    | .waiting receiver => { c with sync := { c.sync with receiver } }
    | .complete payload =>
      { c with sync := { c.sync with receiver := none } }.syncAnswered cfg lid payload d
    | .refused | .spoiled => c.syncFinish
    | .crashed => c

end Client

end LxmfChat
