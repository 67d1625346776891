import LxmfChat.App.Desk

/-! The conversations over whole histories: posts, inbound messages, switches and restarts. -/

namespace LxmfChat

open Base

def MARK_PENDING : Text := "○".toList
def MARK_DELIVERED : Text := "✓".toList
def MARK_QUEUED : Text := "»".toList
def MARK_FAILED : Text := "×".toList

def statusMark : Status → Text
  | .delivered => MARK_DELIVERED
  | .queued => MARK_QUEUED
  | .failed => MARK_FAILED

/-- A message of ours, as the delivery engine refers to its bubble. -/
structure Sent where
  peer : TruncatedHash
  displayTs : Nat
  text : Text
deriving DecidableEq, Repr

structure DeliveryUpdate where
  displayTs : Nat
  text : Text
  status : Status
deriving DecidableEq, Repr

/-- The application with the chat server, between two things that happen. -/
structure Phone where
  clock : Nat := 0
  ui : ChatUi := {}
  inbox : Inbox := {}
  keyPeer : Option TruncatedHash := none
  /-- Our messages since the application started; any of them may be marked. -/
  sent : List Sent := []
  deliveryUpdates : Table TruncatedHash (List DeliveryUpdate) := ∅
  /-- The marks that wait, as they are kept for a restart. -/
  keptUpdates : Table TruncatedHash (List DeliveryUpdate) := ∅
  /-- All our messages ever, for statements about them. -/
  created : List Sent := []
  /-- The latest time of anything that was shown before the restart, for the same purpose. -/
  before : Nat := 0

def ChatUi.remark (ui : ChatUi) (u : DeliveryUpdate) : ChatUi × Bool :=
  ui.postUpdate SELF_AUTHOR u.displayTs (bubbleText u.text (statusMark u.status))

def ChatUi.remarkAll (ui : ChatUi) (updates : List DeliveryUpdate) : ChatUi :=
  updates.foldl (fun ui u => (ui.remark u).1) ui

namespace Phone

def displayTs (p : Phone) : Nat := max p.clock ((p.inbox.lastTs + 1) % 2 ^ 64)

def post (p : Phone) (text : Text) : Phone :=
  match p.inbox.currentPeer with
  | none => p
  | some peer =>
    let bubble : HeldMessage := ⟨SELF_AUTHOR, p.displayTs, bubbleText text MARK_PENDING⟩
    { p with
      inbox := { p.inbox with lastTs := p.displayTs }
      ui := (p.ui.handle (.postAdd none bubble)).handle .dialogueSave
      sent := p.sent ++ [⟨peer, p.displayTs, text⟩]
      created := p.created ++ [⟨peer, p.displayTs, text⟩] }

def display (src : TruncatedHash) (p : Phone) (shown : HeldMessage) : Phone :=
  { p with inbox := p.inbox.post shown, ui := p.ui.handle (.postAdd (some src) shown) }

def save (p : Phone) : Phone := { p with ui := p.ui.handle .dialogueSave }

def deliver (p : Phone) (src : TruncatedHash) (shown : HeldMessage) : Phone :=
  if p.inbox.currentPeer = some src then (p.display src shown).save
  else { p with inbox := p.inbox.hold src shown }

def switch (p : Phone) (addr : TruncatedHash) : Phone :=
  { p with
    inbox := { p.inbox with currentPeer := some addr }
    keyPeer := some addr
    ui := p.ui.handle (.dialogueSet (hex addr.val)) }

def flush (p : Phone) (addr : TruncatedHash) : Phone :=
  let queued := (p.inbox.pending.lookup addr).getD []
  let p := queued.foldl (display addr)
    { p with inbox := { p.inbox with pending := p.inbox.pending.erase addr } }
  let p := { p with inbox := { p.inbox with unread := p.inbox.unread.erase addr } }
  if queued.isEmpty then p
  else { p with inbox := { p.inbox with persisted := p.inbox.persisted.erase addr } }.save

def applyDeliveryUpdates (p : Phone) (addr : TruncatedHash) : Phone :=
  match p.deliveryUpdates.lookup addr with
  | none => p
  | some updates =>
    { p with
      deliveryUpdates := p.deliveryUpdates.erase addr
      keptUpdates := p.keptUpdates.erase addr
      ui := (p.ui.remarkAll updates).handle .dialogueSave }

def activatePeer (p : Phone) (addr : TruncatedHash) : Phone :=
  ((p.switch addr).flush addr).applyDeliveryUpdates addr

def updateMark (p : Phone) (m : Sent) (status : Status) : Phone :=
  match p.ui.remark ⟨m.displayTs, m.text, status⟩ with
  | (ui, true) => { p with ui }.save
  | (ui, false) =>
    let list := (p.deliveryUpdates.lookup m.peer).getD [] ++ [⟨m.displayTs, m.text, status⟩]
    { p with
      ui
      deliveryUpdates := p.deliveryUpdates.insert m.peer list
      keptUpdates := p.keptUpdates.insert m.peer list }

def restart (p : Phone) : Phone where
  clock := p.clock
  ui := ({ disk := p.ui.disk } : ChatUi).handle (.dialogueSet (Desk.initialKey p.keyPeer))
  inbox := { p.inbox with
    recentMsgIds := [], seen := ∅, ticketPending := ∅, currentPeer := p.keyPeer, lastTs := 0
    posts := [] }.loadPending
  keyPeer := p.keyPeer
  deliveryUpdates := p.keptUpdates
  keptUpdates := p.keptUpdates
  created := p.created
  before := max p.before p.inbox.lastTs

def first : Phone := restart {}

end Phone

inductive PhoneAction
  | tick (time : Nat)
  | post (text : Text)
  | deliver (src : TruncatedHash) (shown : HeldMessage)
  | activatePeer (addr : TruncatedHash)
  | mark (index : Nat) (status : Status)
  | restart
deriving DecidableEq, Repr

namespace Phone

def act (p : Phone) : PhoneAction → Phone
  | .tick time => { p with clock := time }
  | .post text => p.post text
  | .deliver src shown => p.deliver src shown
  | .activatePeer addr => p.activatePeer addr
  | .mark index status =>
    match p.sent[index]? with
    | some m => p.updateMark m status
    | none => p
  | .restart => p.restart

inductive Step (allowed : Phone → PhoneAction → Prop) : Phone → Phone → Prop
  | act (p : Phone) (a : PhoneAction) (fine : allowed p a) : Step allowed p (p.act a)

def actAll (p : Phone) (actions : List PhoneAction) : Phone := actions.foldl act p

theorem run_of_allowed {allowed : Phone → PhoneAction → Prop} {p : Phone}
    {actions : List PhoneAction} (permitted : Permitted act allowed p actions) :
    Relation.ReflTransGen (Step allowed) p (p.actAll actions) :=
  run_of_permitted Step.act permitted

end Phone

end LxmfChat
