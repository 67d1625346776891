import LxmfChat.App.Ending
import LxmfChat.Base.Hex
import LxmfChat.Lxmf.Parse

/-! Inbound messages: parsed, verified, de-duplicated, and then shown or held. -/

namespace LxmfChat

open Base

def MARK_SYNCED : Text := "»".toList

def unverifiedWarning : Text := "  ⚠(unverified)".toList

def bubbleText (text mark : Text) : Text := text ++ "  ".toList ++ mark

def RECENT_IDS : Nat := 64

/-- A message as it is shown: its author's name, its time and its text. -/
structure HeldMessage where
  author : Text
  timestamp : Nat
  text : Text
deriving DecidableEq, Repr

structure Inbox where
  /-- The ids of the latest messages, oldest first. -/
  recentMsgIds : List FullHash := []
  contacts : Table TruncatedHash Text := ∅
  seen : Table TruncatedHash Text := ∅
  /-- Tickets that peers handed us, with their expiry. -/
  tickets : Table TruncatedHash (Nat × TruncatedHash) := ∅
  /-- Messages with a ticket that could not be verified yet. -/
  ticketPending : Table TruncatedHash Bytes := ∅
  currentPeer : Option TruncatedHash := none
  lastTs : Nat := 0
  /-- Messages held for conversations that are not open. -/
  pending : Table TruncatedHash (List HeldMessage) := ∅
  /-- The held messages as they are kept for a restart. -/
  persisted : Table TruncatedHash (List HeldMessage) := ∅
  unread : Table TruncatedHash Nat := ∅
  /-- What was posted to the open conversation, in order. -/
  posts : List HeldMessage := []

inductive Reception
  | tooShort
  | unparsed (why : ParseError)
  | duplicate (m : ParsedMessage)
  | posted (m : ParsedMessage) (shown : HeldMessage)
  /-- It is held until its sender's conversation is opened. -/
  | held (m : ParsedMessage) (shown : HeldMessage)

/-- The message that was posted or is held for its sender's conversation, and how it reads. -/
def Reception.shown? : Reception → Option (ParsedMessage × HeldMessage)
  | .posted m shown | .held m shown => some (m, shown)
  | _ => none

/-- The bytes were a message that was shown, held, or recognised as one that was. -/
def Reception.Settled : Reception → Prop
  | .duplicate _ | .posted _ _ | .held _ _ => True
  | _ => False

instance : (r : Reception) → Decidable r.Settled
  | .duplicate _ | .posted _ _ | .held _ _ => isTrue trivial
  | .tooShort | .unparsed _ => isFalse id

def shownText (live validated : Bool) (content : Bytes) : Text :=
  let text := utf8Lossy content
  let text := if validated then text else text ++ unverifiedWarning
  if live then text else bubbleText text MARK_SYNCED

namespace Inbox

def author (inbox : Inbox) (src : TruncatedHash) : Text :=
  ((inbox.contacts.lookup src).or (inbox.seen.lookup src)).getD (hex src.val)

def rememberId (inbox : Inbox) (id : FullHash) : Inbox :=
  let ids := inbox.recentMsgIds ++ [id]
  { inbox with recentMsgIds := if RECENT_IDS < ids.length then ids.drop 1 else ids }

def storeTicket (inbox : Inbox) (now : Nat) (src : TruncatedHash) (t : InboundTicket) : Inbox :=
  if t.expires ≤ now then inbox
  else
    match inbox.tickets.lookup src with
    | some (expires, _) =>
      if expires ≤ t.expires then
        { inbox with tickets := inbox.tickets.insert src (t.expires, t.ticket) }
      else inbox
    | none => { inbox with tickets := inbox.tickets.insert src (t.expires, t.ticket) }

/-- Take the ticket that came with a message, or keep the message until it can be verified. -/
def takeTicket (inbox : Inbox) (now : Nat) (src : TruncatedHash) (m : ParsedMessage)
    (lxmfBytes : Bytes) : Inbox :=
  match extractTicket m.fields with
  | none => inbox
  | some t =>
    if m.signatureValidated then inbox.storeTicket now src t
    else { inbox with ticketPending := inbox.ticketPending.insert src lxmfBytes }

def post (inbox : Inbox) (shown : HeldMessage) : Inbox :=
  { inbox with
    lastTs := max inbox.lastTs shown.timestamp
    posts := inbox.posts ++ [shown] }

/-- Hold a message until its sender's conversation is opened, also across a restart. -/
def hold (inbox : Inbox) (src : TruncatedHash) (shown : HeldMessage) : Inbox :=
  let list := (inbox.pending.lookup src).getD [] ++ [shown]
  { inbox with
    pending := inbox.pending.insert src list
    persisted := inbox.persisted.insert src list
    unread := inbox.unread.insert src ((inbox.unread.lookup src).getD 0 + 1) }

/-- Deliver the bytes of a message, received just now or downloaded from the propagation node. -/
def deliverLxmf (crypto : Crypto) (t : Transport) (now : Nat) (lxmfBytes : Bytes) (live : Bool)
    (inbox : Inbox) : Inbox × Reception :=
  if short : lxmfBytes.length < 2 * 16 then (inbox, .tooShort)
  else
    let src : TruncatedHash := BytesN.slice lxmfBytes 16 16 (by omega)
    match Message.parse crypto lxmfBytes ((t.known.get src).map (·.identity)) with
    | .error why => (inbox, .unparsed why)
    | .ok m =>
      -- Senders retransmit until they get a receipt.
      if m.messageId ∈ inbox.recentMsgIds then (inbox, .duplicate m)
      else
        let shown : HeldMessage := {
          author := inbox.author src
          timestamp := m.timestamp.toU64
          text := shownText live m.signatureValidated m.content }
        let inbox := inbox.rememberId m.messageId
        let inbox := { inbox with contacts := inbox.contacts.insert src shown.author }
        let inbox := inbox.takeTicket now src m lxmfBytes
        if inbox.currentPeer = some src then (inbox.post shown, .posted m shown)
        else (inbox.hold src shown, .held m shown)

variable {crypto : Crypto} {t : Transport} {now : Nat} {lxmfBytes : Bytes} {live : Bool}
  {inbox : Inbox} {m : ParsedMessage} {shown : HeldMessage}

theorem deliverLxmf_settled
    (settled : (deliverLxmf crypto t now lxmfBytes live inbox).2.Settled) :
    ∃ src : TruncatedHash, src.val = (lxmfBytes.drop 16).take 16
      ∧ ∃ m, Message.parse crypto lxmfBytes ((t.known.get src).map (·.identity)) = .ok m := by
  rw [deliverLxmf] at settled
  split at settled
  case isTrue => exact settled.elim
  case isFalse long =>
    refine ⟨BytesN.slice lxmfBytes 16 16 (by omega), rfl, ?_⟩
    dsimp only at settled
    split at settled
    case h_1 => exact settled.elim
    case h_2 m parsed => exact ⟨m, parsed⟩

theorem settled_deliverLxmf (long : 2 * 16 ≤ lxmfBytes.length)
    (parses : ∀ identity, ∃ m, Message.parse crypto lxmfBytes identity = .ok m) :
    (deliverLxmf crypto t now lxmfBytes live inbox).2.Settled := by
  rw [deliverLxmf, dif_neg (Nat.not_lt.mpr long)]
  obtain ⟨m, parsed⟩ := parses
    ((t.known.get (BytesN.slice lxmfBytes 16 16 (by omega))).map (·.identity))
  simp only [parsed]
  split
  · trivial
  · split <;> trivial

end Inbox

namespace Inbox

open Transport LxmfChat.System

def sampleMessage (dest : TruncatedHash) : Bytes :=
  (Message.pack sampleCrypto (sampleIdentity 3) dest samplePeer (Double.ofNat 0) []
    (utf8Encode ['h', 'i']) [] none).packed

end Inbox

end LxmfChat
