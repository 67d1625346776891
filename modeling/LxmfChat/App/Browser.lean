import LxmfChat.App.Client

/-! The page browser, and everything the threads do to the clients of remote nodes. -/

namespace LxmfChat

open Base

def PAGE_DEADLINE_SECS : Nat := 60
def BROWSER_ROUTE_RETRY_SECS : Nat := 3
def BROWSER_ROUTE_TRIES : UInt8 := 40
def BACK_STACK_MAX : Nat := 16

namespace BrowserState

def targets (b : BrowserState) (target : TruncatedHash) : Bool :=
  b.phase ≠ .idle && b.node = some target

def reset (b : BrowserState) : BrowserState :=
  { b with
    phase := .idle, node := none, receiver := none, requested := none
    pendingPush := false, pendingPop := false, routeTries := 0, linkId := none }

def begun (b : BrowserState) (addr : PageAddr) (deadline : Nat) : BrowserState :=
  { b with
    phase := .linking, node := some addr.node, path := addr.path, vars := addr.vars
    receiver := none, deadline, linkId := none, routeTries := 0, nextAttempt := 0, linkTries := 0 }

def pushed (b : BrowserState) : BrowserState :=
  if b.pendingPush then
    match b.current with
    | some prev =>
      let back := b.back ++ [prev]
      { b with
        current := none, pendingPush := false
        back := if BACK_STACK_MAX < back.length then back.drop 1 else back }
    | none => { b with pendingPush := false }
  else b

def popped (b : BrowserState) : BrowserState :=
  if b.pendingPop then { b with back := b.back.dropLast, pendingPop := false } else b

def shown (b : BrowserState) (node : TruncatedHash) : BrowserState :=
  { b.pushed.popped with
    current := some ⟨node, b.path, b.vars⟩
    path := [], vars := [], phase := .idle, node := none, receiver := none, viewing := true }

end BrowserState

namespace Client

variable (cfg : ClientConfig)

def browserFinish (c : Client) : Client :=
  { c with browser := c.browser.reset }.dropLink c.browser.linkId

def browserSuspend (c : Client) : Client :=
  { c with browser := { c.browser.reset with viewing := false } }.dropLink c.browser.linkId

def browserResume (c : Client) (parked : Bool) : Client :=
  if c.browser.current.isNone then c
  else if !parked then { c with browser := { c.browser with current := none, back := [] } }
  else { c with browser := { c.browser with viewing := true } }

/-- Ask for a page; nothing comes of it while a fetch is under way. -/
def requestPage (c : Client) (addr : PageAddr) (pushBack : Bool) : Client × Bool :=
  if c.browser.phase ≠ .idle then (c, false)
  else
    ({ c with
      browser := { c.browser with
        requested := some addr, pendingPush := pushBack, pendingPop := false
        nextAttempt := 0, routeTries := 0 } }, true)

/-- Ask for the page before; it leaves the stack when it is shown. -/
def browserBack (c : Client) : Client :=
  match c.browser.back.getLast? with
  | none => c
  | some prev =>
    match c.requestPage prev false with
    | (c, true) => { c with browser := { c.browser with pendingPop := true } }
    | (c, false) => c

def browserSendRequest (c : Client) (node lid : TruncatedHash) (d : ClientDraw) : Client :=
  let c := { c with browser := { c.browser with phase := .fetching } }
  match c.sendRequest cfg .browser lid (.page ⟨node, c.browser.path, c.browser.vars⟩) d.pageIv with
  | (c, true) => if d.sent then c else c.browserFinish
  | (c, false) => c.browserFinish

def browserDefer (c : Client) (addr : PageAddr) : Client :=
  let tries := countTry c.browser.routeTries
  let c := { c with browser := { c.browser with routeTries := tries } }
  if tries ≤ BROWSER_ROUTE_TRIES then
    { c with
      browser := { c.browser with
        requested := some addr, nextAttempt := c.clock + BROWSER_ROUTE_RETRY_SECS } }
  else c.browserFinish

def browserConnect (c : Client) (addr : PageAddr) (identity : PublicIdentity) (d : ClientDraw) :
    Client :=
  let hops := max ((c.transport.pathHops addr.node).getD 1).toNat 1
  let c := { c with
    browser := c.browser.begun addr (c.clock + PAGE_DEADLINE_SECS + 12 * hops) }
  match c.transport.outboundLinkFor addr.node c.clock with
  | (transport, some lid) =>
    { c with transport, browser := { c.browser with linkId := some lid } }.browserSendRequest
      cfg addr.node lid d
  | (transport, none) =>
    match { c with transport }.requestLink cfg .browser addr.node identity d with
    | (c, .writeFailed) => c.browserFinish
    | (c, _) => { c with browser := { c.browser with linkTries := 1 } }

def startFetch (c : Client) (addr : PageAddr) (d : ClientDraw) : Client :=
  if !d.interfaceUp then c.browserDefer addr
  else
    match c.transport.known.get addr.node, c.transport.hasPath addr.node with
    | some known, true => c.browserConnect cfg addr known.identity d
    | _, _ => c.browserDefer addr

def browserRelink (c : Client) (node : TruncatedHash) (d : ClientDraw) : Client :=
  match c.transport.known.get node with
  | none => c
  | some known =>
    match c.requestLink cfg .browser node known.identity d with
    | (c, .sent) =>
      { c with browser := { c.browser with linkTries := countTry c.browser.linkTries } }
    | (c, .writeFailed) => c.browserFinish
    | (c, .pending) => c

def browserTick (c : Client) (d : ClientDraw) : Client :=
  let linking := if c.browser.phase = .linking then c.browser.node else none
  if c.browser.phase ≠ .idle ∧ c.browser.deadline < c.clock then
    -- A route over which the link never came up is forgotten.
    let transport :=
      match linking with
      | some node => (c.transport.expirePath node).1
      | none => c.transport
    { c with transport }.browserFinish
  else
    match linking with
    | some node => c.browserRelink cfg node d
    | none =>
      if c.browser.phase = .idle ∧ c.browser.nextAttempt ≤ c.clock then
        match c.browser.requested with
        | some addr =>
          { c with browser := { c.browser with requested := none } }.startFetch cfg addr d
        | none => c
      else c

def browserOnLinkUp (c : Client) (lid target : TruncatedHash) (d : ClientDraw) : Client :=
  if c.browser.phase = .linking ∧ c.browser.node = some target then
    { c with browser := { c.browser with linkId := some lid } }.browserSendRequest cfg target lid d
  else c

/-- A page arrived, or the node's refusal; the link is kept for the next page. -/
def pageReceived (c : Client) (response : Value) : Client :=
  match response with
  | .bin _ | .str _ =>
    match c.browser.node with
    | none => c
    | some node => { c with browser := c.browser.shown node }
  | _ => c.browserFinish

def browserAnswered (c : Client) (payload : Bytes) : Client :=
  match parseRnsResponse payload with
  | .ok (some response) => c.pageReceived response
  | _ => c

def browserOnOutlinkData (c : Client) (lid : TruncatedHash) (context : UInt8)
    (plaintext : Bytes) : Client :=
  if c.browser.linkId ≠ some lid ∨ c.browser.phase ≠ .fetching then c
  else
    let c := { c with browser := { c.browser with deadline := c.clock + PAGE_DEADLINE_SECS } }
    if context = CONTEXT_RESPONSE then c.browserAnswered plaintext
    else
      match arrive cfg.crypto cfg.bz2Read (c.transport.decryptOutLink cfg.crypto lid) context
          plaintext c.browser.receiver with
      | .waiting receiver => { c with browser := { c.browser with receiver } }
      | .complete payload =>
        { c with browser := { c.browser with receiver := none } }.browserAnswered payload
      | .refused | .spoiled => c.browserFinish
      | .crashed => c

/-- The receiver with the least link id is given up while there are too many. -/
def evictResources (lid : TruncatedHash) : Nat → Table TruncatedHash ResourceReceiver →
    Table TruncatedHash ResourceReceiver
  | 0, table => table
  | fuel + 1, table =>
    if table.keys.length < MAX_IN_RESOURCES ∨ lid ∈ table.keys then table
    else
      match table.keys.find? fun k => table.keys.all fun other => ¬ other.val < k.val with
      | some least => evictResources lid fuel (table.erase least)
      | none => table

def deliverLive (c : Client) (lxmfBytes : Bytes) : Client :=
  { c with inbox := (c.inbox.deliverLxmf cfg.crypto c.transport c.clock lxmfBytes true).1 }

def receiveMessage (c : Client) (decrypt : Bytes → Option Bytes) (lid : TruncatedHash)
    (context : UInt8) (plaintext : Bytes) : Client :=
  match arrive cfg.crypto cfg.bz2Read decrypt context plaintext (c.inResources.lookup lid) with
  | .waiting (some rx) =>
    let table := evictResources lid c.inResources.keys.length c.inResources
    { c with inResources := table.insert lid rx }
  | .complete payload =>
    { c with inResources := c.inResources.erase lid }.deliverLive cfg payload
  | .spoiled => { c with inResources := c.inResources.erase lid }
  | .waiting none | .refused | .crashed => c

def outboundLinkUp (c : Client) (lid target : TruncatedHash) (d : ClientDraw) : Client :=
  -- Only links to peers are identified on; pages are read anonymously.
  let c :=
    if cfg.propagationNode ≠ some target ∧ !c.browser.targets target then
      c.identify cfg lid d.identifyIv
    else c
  (c.syncOnLinkUp cfg lid target d).browserOnLinkUp cfg lid target d

def outLinkData (c : Client) (lid : TruncatedHash) (context : UInt8) (plaintext : Bytes)
    (d : ClientDraw) : Client :=
  if context = CONTEXT_RESOURCE_REQ
      ∧ c.transport.serveLinkResource cfg.crypto lid plaintext d.iv ≠ [] then c
  else if c.sync.linkId = some lid then c.syncOnOutlinkData cfg lid context plaintext d
  else if c.browser.linkId = some lid then c.browserOnOutlinkData cfg lid context plaintext
  else c.receiveMessage cfg (c.transport.decryptOutLink cfg.crypto lid) lid context plaintext

def outLinkClosed (c : Client) (lid : TruncatedHash) : Client :=
  let c := if c.sync.phase ≠ .idle ∧ c.sync.linkId = some lid then c.syncFinish else c
  if c.browser.linkId ≠ some lid then c
  else if c.browser.phase ≠ .idle then c.browserFinish
  else { c with browser := { c.browser with linkId := none } }

def handleEvent (c : Client) (event : Event) (d : ClientDraw) : Client :=
  match event with
  | .data dest plaintext _ => c.deliverLive cfg (dest.val ++ plaintext)
  | .linkData _ plaintext _ => c.deliverLive cfg plaintext
  | .inLinkData lid context plaintext =>
    c.receiveMessage cfg (c.transport.decryptInLink cfg.crypto lid) lid context plaintext
  | .inLinkClosed lid => { c with inResources := c.inResources.erase lid }
  | .outboundLinkUp lid target => c.outboundLinkUp cfg lid target d
  | .outLinkData lid context plaintext => c.outLinkData cfg lid context plaintext d
  | .outLinkClosed lid => c.outLinkClosed lid
  | _ => c

def reconnected (c : Client) : Client :=
  let c := { c with transport := c.transport.connectionReset, inResources := ∅ }
  let c := if c.sync.phase ≠ .idle then c.syncFinish else c
  if c.browser.phase ≠ .idle then c.browserFinish
  else { c with browser := { c.browser with linkId := none } }

end Client

inductive ClientAction
  | tick (time : Nat)
  /-- A frame arrives; the event it leads to is handled later. -/
  | frame (raw : Bytes) (ephemeral : KeyHalf) (iface : PathIface)
  | handle (index : Nat) (d : ClientDraw)
  | syncTick (d : ClientDraw)
  | requestSync
  | browserTick (d : ClientDraw)
  | requestPage (addr : PageAddr) (pushBack : Bool)
  | browserBack
  | browserSuspend
  | browserResume (parked : Bool)
  /-- A message in the outbox needs a link. -/
  | outboxLink (target : TruncatedHash) (identity : PublicIdentity) (d : ClientDraw)
  /-- The outbox, the connection manager or startup calls the transport. -/
  | other (op : Transport.Op)
  | reconnect
  /-- A conversation is opened or closed. -/
  | setPeer (peer : Option TruncatedHash)

namespace Client

variable (cfg : ClientConfig)

def start (identity : PrivateIdentity) : Client where
  transport := Transport.new identity

def frame (c : Client) (raw : Bytes) (ephemeral : KeyHalf) (iface : PathIface) : Client :=
  let (transport, event) := c.transport.handleFrame cfg.crypto raw ephemeral iface
  { c with transport, events := c.events ++ [event] }

def handle (c : Client) (index : Nat) (d : ClientDraw) : Client :=
  match c.events[index]? with
  | none => c
  | some event => { c with events := c.events.eraseIdx index }.handleEvent cfg event d

def act (c : Client) : ClientAction → Client
  | .tick time => { c with clock := time }
  | .frame raw ephemeral iface => c.frame cfg raw ephemeral iface
  | .handle index d => c.handle cfg index d
  | .syncTick d => c.maybeAutoSync cfg d
  | .requestSync => { c with sync := { c.sync with requested := true } }
  | .browserTick d => c.browserTick cfg d
  | .requestPage addr pushBack => (c.requestPage addr pushBack).1
  | .browserBack => c.browserBack
  | .browserSuspend => c.browserSuspend
  | .browserResume parked => c.browserResume parked
  | .outboxLink target identity d => (c.requestLink cfg .outbox target identity d).1
  | .other op => { c with transport := c.transport.perform cfg.crypto op }
  | .reconnect => c.reconnected
  | .setPeer peer => { c with inbox := { c.inbox with currentPeer := peer } }

/-- What an action needs: frames and link requests have actions of their own. -/
def Enabled : ClientAction → Prop
  | .other (.handleFrame _ _ _) | .other (.makeLinkRequest _ _ _ _ _) => False
  | _ => True

/--
One step of the clients under a condition on their actions.

A hash map may also change the order it is iterated in.
-/
inductive Step (allowed : Client → ClientAction → Prop) : Client → Client → Prop
  | act (c : Client) (a : ClientAction) (enabled : Enabled a) (fine : allowed c a) :
      Step allowed c (c.act cfg a)
  | reorder (c : Client) (t : Transport) (same : c.transport.Same t) :
      Step allowed c { c with transport := t }

def actAll (c : Client) (actions : List ClientAction) : Client := actions.foldl (act cfg) c

def Permits (allowed : Client → ClientAction → Prop) : Client → List ClientAction → Prop
  | _, [] => True
  | c, a :: rest => Enabled a ∧ allowed c a ∧ Permits allowed (c.act cfg a) rest

theorem run_of_permits {cfg : ClientConfig} {allowed : Client → ClientAction → Prop} {c : Client}
    {actions : List ClientAction} (permitted : Permits cfg allowed c actions) :
    Relation.ReflTransGen (Step cfg allowed) c (c.actAll cfg actions) := by
  induction actions generalizing c with
  | nil => exact .refl
  | cons a rest ih =>
    obtain ⟨enabled, fine, later⟩ := permitted
    exact .head (.act c a enabled fine) (ih later)

end Client

end LxmfChat
