import LxmfChat.App.Inbox
import LxmfChat.Lxmf.Binding

/-! A message that is dropped as a duplicate says what an earlier one said. -/

namespace LxmfChat

open Base
open Relation (ReflTransGen)

namespace Inbox

variable {crypto : Crypto} {inbox : Inbox} {t : Transport} {now : Nat} {lxmfBytes : Bytes}
  {live : Bool}

theorem mem_rememberId {id found : FullHash}
    (there : found ∈ (inbox.rememberId id).recentMsgIds) :
    found ∈ inbox.recentMsgIds ∨ found = id := by
  rw [rememberId] at there
  dsimp only at there
  -- Forgetting the oldest id only makes the list shorter.
  have kept : found ∈ inbox.recentMsgIds ++ [id] := by
    split at there
    · exact List.mem_of_mem_drop there
    · exact there
  simpa using kept

theorem recentMsgIds_takeTicket (now : Nat) (src : TruncatedHash) (m : ParsedMessage)
    (lxmfBytes : Bytes) :
    (inbox.takeTicket now src m lxmfBytes).recentMsgIds = inbox.recentMsgIds := by
  rw [takeTicket]
  split
  · rfl
  split
  · rw [storeTicket]
    split
    · rfl
    split
    · split <;> rfl
    · rfl
  · rfl

theorem mem_recentMsgIds_deliverLxmf {found : FullHash}
    (there : found ∈ (deliverLxmf crypto t now lxmfBytes live inbox).1.recentMsgIds) :
    found ∈ inbox.recentMsgIds
      ∨ ∃ identity m, Message.parse crypto lxmfBytes identity = .ok m ∧ m.messageId = found := by
  rw [deliverLxmf] at there
  split at there
  case isTrue => exact .inl there
  case isFalse long =>
    dsimp only at there
    split at there
    case h_1 => exact .inl there
    case h_2 m parsed =>
      split at there
      case isTrue => exact .inl there
      case isFalse =>
        -- Posted or held, the ids are those after the new one was added.
        have added : found ∈ (inbox.rememberId m.messageId).recentMsgIds := by
          split at there
          · rw [post, recentMsgIds_takeTicket] at there
            exact there
          · rw [hold] at there
            dsimp only at there
            rw [recentMsgIds_takeTicket] at there
            exact there
        rcases mem_rememberId added with old | rfl
        · exact .inl old
        · exact .inr ⟨_, m, parsed, rfl⟩

theorem deliverLxmf_duplicate {m : ParsedMessage}
    (dropped : (deliverLxmf crypto t now lxmfBytes live inbox).2 = .duplicate m) :
    m.messageId ∈ inbox.recentMsgIds
      ∧ ∃ identity, Message.parse crypto lxmfBytes identity = .ok m := by
  rw [deliverLxmf] at dropped
  split at dropped
  case isTrue => cases dropped
  case isFalse long =>
    dsimp only at dropped
    split at dropped
    case h_1 => cases dropped
    case h_2 m' parsed =>
      split at dropped
      case isTrue remembered =>
        cases dropped
        exact ⟨remembered, _, parsed⟩
      case isFalse => split at dropped <;> cases dropped

/-- An inbox, and every string that was delivered to it. -/
structure Watched where
  inbox : Inbox
  delivered : List Bytes

inductive Happens (crypto : Crypto) : Watched → Watched → Prop
  | delivers (s : Watched) (t : Transport) (now : Nat) (lxmfBytes : Bytes) (live : Bool) :
    Happens crypto s
      ⟨(deliverLxmf crypto t now lxmfBytes live s.inbox).1, lxmfBytes :: s.delivered⟩
  /-- Everything else remembers no id, and a restart forgets them all. -/
  | other (s : Watched) {inbox : Inbox}
      (forgets : ∀ id ∈ inbox.recentMsgIds, id ∈ s.inbox.recentMsgIds) :
    Happens crypto s ⟨inbox, s.delivered⟩

/-- Every remembered id is that of a message that was delivered. -/
def Watched.Remembers (crypto : Crypto) (s : Watched) : Prop :=
  ∀ id ∈ s.inbox.recentMsgIds, ∃ a ∈ s.delivered, ∃ identity m,
    Message.parse crypto a identity = .ok m ∧ m.messageId = id

theorem Watched.Remembers.step {s s' : Watched} (remembers : s.Remembers crypto)
    (step : Happens crypto s s') : s'.Remembers crypto := by
  cases step with
  | delivers t now lxmfBytes live =>
    intro found there
    rcases mem_recentMsgIds_deliverLxmf there with old | ⟨identity, m, parsed, same⟩
    · obtain ⟨a, earlier, rest⟩ := remembers found old
      exact ⟨a, List.mem_cons_of_mem lxmfBytes earlier, rest⟩
    · exact ⟨lxmfBytes, List.mem_cons_self, identity, m, parsed, same⟩
  | other forgets =>
    intro found there
    exact remembers found (forgets found there)

theorem remembers_run {s : Watched} (run : ReflTransGen (Happens crypto) ⟨{}, []⟩ s) :
    s.Remembers crypto := by
  apply reachable_of_keeps (I := Watched.Remembers crypto) _ _ run
  · intro s s' before step
    exact before.step step
  · intro found there
    cases there

/--
The id of a message binds what it says, so that no message is dropped for another one.

The messages are any whose hashed strings do not collide and fit the machine's memory.
Messages with one id say the same, whatever their signatures and whatever follows their four
elements, and what is dropped as a duplicate says what a message delivered before it said.
-/
theorem message_id_binds (crypto : Crypto) (messages : Set Bytes)
    (free : Set.InjOn (fullHash crypto) (Message.hashedStrings messages))
    (fits : ∀ x ∈ Message.hashedStrings messages, x.length < wordSize) :
    (∀ a ∈ messages, ∀ b ∈ messages, ∀ identity identity' m n,
      Message.parse crypto a identity = .ok m → Message.parse crypto b identity' = .ok n →
      m.messageId = n.messageId → m.SaysSame n)
    ∧ ∀ s, ReflTransGen (Happens crypto) ⟨{}, []⟩ s → (∀ a ∈ s.delivered, a ∈ messages) →
      ∀ t now lxmfBytes live m, lxmfBytes ∈ messages →
        (deliverLxmf crypto t now lxmfBytes live s.inbox).2 = .duplicate m →
        ∃ a ∈ s.delivered, ∃ identity n, Message.parse crypto a identity = .ok n
          ∧ m.SaysSame n := by
  constructor
  · intro a among b among' identity identity' m n parsed parsed' same
    exact Message.saysSame_of_messageId crypto free fits among among' parsed parsed' same
  · intro s run within t now lxmfBytes live m among dropped
    obtain ⟨remembered, identity, parsed⟩ := deliverLxmf_duplicate dropped
    obtain ⟨a, earlier, identity', n, parsed', same⟩ := remembers_run run m.messageId remembered
    exact ⟨a, earlier, identity', n, parsed',
      Message.saysSame_of_messageId crypto free fits among (within a earlier) parsed parsed'
        same.symm⟩

section Samples

def sampleUnstamped : Bytes :=
  List.replicate 96 0 ++ [0x94, 0x05, 0xc4, 0x00, 0xc4, 0x01, 0x07, 0x80]

def sampleStamped : Bytes :=
  List.replicate 96 0 ++ [0x95, 0x05, 0xc4, 0x00, 0xc4, 0x01, 0x07, 0x80, 0xc4, 0x00]

def sampleHashed : Bytes :=
  List.replicate 32 0 ++ [0x94, 0x05, 0xc4, 0x00, 0xc4, 0x01, 0x07, 0x80]

theorem hashedStrings_sample :
    Message.hashedStrings {sampleUnstamped, sampleStamped} = {sampleHashed} := by
  have first : Message.identified sampleUnstamped = some sampleHashed := by decide +kernel
  have second : Message.identified sampleStamped = some sampleHashed := by decide +kernel
  ext x
  simp [Message.hashedStrings, first, second, eq_comm]

/-- A message with a stamp and without says the same. -/
theorem message_id_binds_stamped :
    ∃ m n, Message.parse Crypto.sample sampleUnstamped none = .ok m
      ∧ Message.parse Crypto.sample sampleStamped none = .ok n ∧ m.SaysSame n := by
  have free : Set.InjOn (fullHash Crypto.sample)
      (Message.hashedStrings {sampleUnstamped, sampleStamped}) := by
    rw [hashedStrings_sample]
    exact Set.injOn_singleton _ _
  have fits : ∀ x ∈ Message.hashedStrings {sampleUnstamped, sampleStamped},
      x.length < wordSize := by
    rw [hashedStrings_sample]
    rintro x rfl
    decide
  exact ⟨_, _, rfl, rfl, (message_id_binds Crypto.sample _ free fits).1 sampleUnstamped (by simp)
    sampleStamped (by simp) none none _ _ rfl rfl rfl⟩

end Samples

end Inbox

end LxmfChat
