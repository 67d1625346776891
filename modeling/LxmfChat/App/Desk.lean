import LxmfChat.Base.Tasks
import LxmfChat.Chat.Server

/-!
The conversations under the threads that share them.

Every step is one locked block, one call of the store or one message to the chat server.
-/

namespace LxmfChat

open Base

/-- How far the delivery of a message has come that was parsed and is new. -/
inductive DeliveryStage
  /-- Whose conversation is open has not been looked up yet. -/
  | routing
  | showing
  | posting
  | saving
  | holding
  /-- The held messages are locked from here on. -/
  | erasing
  | creating
  | writing
  | counting
deriving DecidableEq, Repr

/-- A delivery in progress on some network thread. -/
structure Delivery where
  src : TruncatedHash
  shown : HeldMessage
  stage : DeliveryStage := .routing
deriving DecidableEq, Repr

namespace Delivery

def locks (d : Delivery) : Bool :=
  d.stage = .erasing || d.stage = .creating || d.stage = .writing

def uncounted (d : Delivery) : Bool := d.locks || d.stage = .counting

end Delivery

inductive MainStage
  | idle
  | recording (addr : TruncatedHash)
  | switching (addr : TruncatedHash)
  | taking (addr : TruncatedHash)
  /-- The held messages that were taken are added one by one, if there were any. -/
  | flushing (addr : TruncatedHash) (queued : List HeldMessage) (hadQueued : Bool)
  | adding (addr : TruncatedHash) (next : HeldMessage) (queued : List HeldMessage)
      (hadQueued : Bool)
  | deleting (addr : TruncatedHash)
  | saving (addr : TruncatedHash)
deriving DecidableEq, Repr

namespace MainStage

def addr? : MainStage → Option TruncatedHash
  | .idle => none
  | .recording addr | .switching addr | .taking addr | .flushing addr _ _ | .adding addr _ _ _
  | .deleting addr | .saving addr => some addr

def switched : MainStage → Bool
  | .recording _ | .switching _ => false
  | _ => true

def toFlush (peer : TruncatedHash) : MainStage → List HeldMessage
  | .flushing addr queued _ => if addr = peer then queued else []
  | .adding addr next queued _ => if addr = peer then next :: queued else []
  | _ => []

@[simp] theorem toFlush_flushing (peer addr : TruncatedHash) (queued : List HeldMessage)
    (hadQueued : Bool) :
    (flushing addr queued hadQueued).toFlush peer = if addr = peer then queued else [] := rfl

@[simp] theorem toFlush_adding (peer addr : TruncatedHash) (next : HeldMessage)
    (queued : List HeldMessage) (hadQueued : Bool) :
    (adding addr next queued hadQueued).toFlush peer
      = if addr = peer then next :: queued else [] := rfl

end MainStage

/-- The conversations, the threads that work on them, and what the chat server was sent. -/
structure Desk where
  inbox : Inbox := {}
  /-- The open conversation as it is kept for a restart. -/
  keyPeer : Option TruncatedHash := none
  chat : Mailbox ChatOp := {}
  deliveries : List Delivery := []
  main : MainStage := .idle
  /-- Every message that was ever held for a peer, for statements about them. -/
  held : TruncatedHash → List HeldMessage := fun _ => []

/-- Messages that were kept count as unread; a record without messages is passed over. -/
def Inbox.loadPending (inbox : Inbox) : Inbox :=
  let pending := Table.retain (fun list => !list.isEmpty) inbox.persisted
  { inbox with
    pending
    unread := ⟨pending.entries.map (.map id fun _ list => list.length),
      pending.nodupKeys.map₂ _ _⟩ }

namespace Desk

def initialKey (peer : Option TruncatedHash) : Text :=
  match peer with
  | some peer => hex peer.val
  | none => DIALOGUE_WELCOME

def start (inbox : Inbox) : Desk where
  inbox := inbox
  keyPeer := inbox.currentPeer
  chat := ({} : Mailbox ChatOp).send (.dialogueSet (initialKey inbox.currentPeer))
  held := fun peer => (inbox.pending.lookup peer).getD []

def locked (c : Desk) : Bool := c.deliveries.any Delivery.locks

def send (c : Desk) (op : ChatOp) : Desk := { c with chat := c.chat.send op }

def deliverBlock (c : Desk) (d : Delivery) : Desk × Option Delivery :=
  match d.stage with
  | .routing =>
    if c.inbox.currentPeer = some d.src then (c, some { d with stage := .showing })
    else (c, some { d with stage := .holding })
  | .showing =>
    ({ c with inbox := { c.inbox with lastTs := max c.inbox.lastTs d.shown.timestamp } },
      some { d with stage := .posting })
  | .posting =>
    ({ c with inbox := { c.inbox with posts := c.inbox.posts ++ [d.shown] } }.send
      (.postAdd (some d.src) d.shown), some { d with stage := .saving })
  | .saving => (c.send .dialogueSave, none)
  | .holding =>
    -- The thread waits for the lock.
    if c.locked then (c, some d)
    else
      ({ c with
        inbox := { c.inbox with
          pending := c.inbox.pending.insert d.src
            ((c.inbox.pending.lookup d.src).getD [] ++ [d.shown]) }
        held := Function.update c.held d.src (c.held d.src ++ [d.shown]) },
        some { d with stage := .erasing })
  | .erasing =>
    ({ c with inbox := { c.inbox with persisted := c.inbox.persisted.erase d.src } },
      some { d with stage := .creating })
  | .creating =>
    ({ c with inbox := { c.inbox with persisted := c.inbox.persisted.insert d.src [] } },
      some { d with stage := .writing })
  | .writing =>
    ({ c with
      inbox := { c.inbox with
        persisted := c.inbox.persisted.insert d.src
          ((c.inbox.pending.lookup d.src).getD []) } }, some { d with stage := .counting })
  | .counting =>
    ({ c with
      inbox := { c.inbox with
        unread := c.inbox.unread.insert d.src ((c.inbox.unread.lookup d.src).getD 0 + 1) } }, none)

def mainBlock (c : Desk) : Desk :=
  match c.main with
  | .idle => c
  | .recording addr => { c with keyPeer := some addr, main := .switching addr }
  | .switching addr =>
    { c with main := .taking addr }.send (.dialogueSet (hex addr.val))
  | .taking addr =>
    -- The thread waits for the lock.
    if c.locked then c
    else
      let queued := (c.inbox.pending.lookup addr).getD []
      { c with
        inbox := { c.inbox with pending := c.inbox.pending.erase addr }
        main := .flushing addr queued (!queued.isEmpty) }
  | .flushing addr (next :: queued) hadQueued =>
    { c with
      inbox := { c.inbox with lastTs := max c.inbox.lastTs next.timestamp }
      main := .adding addr next queued hadQueued }
  | .adding addr next queued hadQueued =>
    { c with
      inbox := { c.inbox with posts := c.inbox.posts ++ [next] }
      main := .flushing addr queued hadQueued }.send (.postAdd (some addr) next)
  | .flushing addr [] hadQueued =>
    { c with
      inbox := { c.inbox with unread := c.inbox.unread.erase addr }
      main := if hadQueued then .deleting addr else .idle }
  | .deleting addr =>
    { c with
      inbox := { c.inbox with persisted := c.inbox.persisted.erase addr }
      main := .saving addr }
  | .saving _ => { c with main := .idle }.send .dialogueSave

end Desk

inductive DeskAction
  | arrive (src : TruncatedHash) (shown : HeldMessage)
  | deliver (index : Nat)
  | activatePeer (addr : TruncatedHash)
  | main
  | serve
deriving DecidableEq, Repr

namespace Desk

def act (c : Desk) : DeskAction → Desk
  | .arrive src shown => { c with deliveries := c.deliveries ++ [{ src, shown }] }
  | .deliver index =>
    match c.deliveries[index]? with
    | none => c
    | some d =>
      let (c', next) := c.deliverBlock d
      { c' with deliveries := advance c.deliveries index next }
  | .activatePeer addr =>
    match c.main with
    | .idle => { c with inbox := { c.inbox with currentPeer := some addr }, main := .recording addr }
    | _ => c
  | .main => c.mainBlock
  | .serve => { c with chat := c.chat.serve }

inductive Step (allowed : Desk → DeskAction → Prop) : Desk → Desk → Prop
  | act (c : Desk) (a : DeskAction) (fine : allowed c a) : Step allowed c (c.act a)

def actAll (c : Desk) (actions : List DeskAction) : Desk := actions.foldl act c

theorem run_of_allowed {allowed : Desk → DeskAction → Prop} {c : Desk} {actions : List DeskAction}
    (permitted : Permitted act allowed c actions) :
    Relation.ReflTransGen (Step allowed) c (c.actAll actions) :=
  run_of_permitted Step.act permitted

def filed (c : Desk) : List Filing := filing.outputs none c.chat.handled

end Desk

end LxmfChat
