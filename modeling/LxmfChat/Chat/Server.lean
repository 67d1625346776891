import LxmfChat.App.Inbox
import LxmfChat.Base.Mailbox
import LxmfChat.Chat.Dialogue

/-! The chat server: one conversation is open, and the others are stored. -/

namespace LxmfChat

open Base

def DIALOGUE_WELCOME : Text := "welcome".toList

/-- What the application sends to the chat server. -/
inductive ChatOp
  | dialogueSet (key : Text)
  /-- Add a post; the server is not told whose message it is. -/
  | postAdd (src : Option TruncatedHash) (post : HeldMessage)
  | dialogueSave
deriving DecidableEq

/-- A post that was added to a conversation. -/
structure Filing where
  key : Text
  src : Option TruncatedHash
  post : HeldMessage
deriving DecidableEq

def filing : Machine (Option Text) ChatOp Filing where
  next key
    | .dialogueSet key' => some key'
    | _ => key
  emit key
    | .postAdd src post => key.map fun key => ⟨key, src, post⟩
    | _ => none

/-- The server's conversations: the open one, and all of them as they are stored. -/
structure ChatUi where
  pddbKey : Option Text := none
  dialogue : Option Dialogue := none
  disk : Table Text Dialogue := ∅
  crashed : Bool := false

namespace ChatUi

def dialogueSave (ui : ChatUi) : ChatUi :=
  match ui.dialogue, ui.pddbKey with
  | some d, some key => { ui with disk := ui.disk.insert key d }
  | _, _ => ui

def dialogueSet (ui : ChatUi) (key : Text) : ChatUi :=
  match ui.disk.lookup key with
  | some d => { ui with pddbKey := some key, dialogue := some d }
  | none => { ui with pddbKey := some key, dialogue := some (Dialogue.new key) }.dialogueSave

/-- Add a post to the open conversation; the server does not survive running out of authors. -/
def postAdd (ui : ChatUi) (post : HeldMessage) : ChatUi :=
  match ui.pddbKey, ui.dialogue with
  | some _, some d =>
    match d.postAdd post.author post.timestamp post.text with
    | some d => { ui with dialogue := some d }
    | none => { ui with crashed := true }
  | _, _ => ui

def postUpdate (ui : ChatUi) (author : Text) (timestamp : Nat) (text : Text) : ChatUi × Bool :=
  if ui.crashed then (ui, false)
  else
    match ui.dialogue.bind fun d => d.postUpdate author timestamp text with
    | some d => ({ ui with dialogue := some d }, true)
    | none => (ui, false)

def handle (ui : ChatUi) (op : ChatOp) : ChatUi :=
  if ui.crashed then ui
  else
    match op with
    | .dialogueSet key => ui.dialogueSet key
    | .postAdd _ post => ui.postAdd post
    | .dialogueSave => ui.dialogueSave

def thread (ui : ChatUi) (key : Text) : Option Dialogue :=
  if ui.pddbKey = some key then ui.dialogue else ui.disk.lookup key

variable {ui : ChatUi}

@[simp] theorem pddbKey_dialogueSave (ui : ChatUi) : ui.dialogueSave.pddbKey = ui.pddbKey := by
  rw [dialogueSave]
  split <;> rfl

@[simp] theorem pddbKey_dialogueSet (ui : ChatUi) (key : Text) :
    (ui.dialogueSet key).pddbKey = some key := by
  rw [dialogueSet]
  split <;> rfl

@[simp] theorem pddbKey_postAdd (ui : ChatUi) (post : HeldMessage) :
    (ui.postAdd post).pddbKey = ui.pddbKey := by
  rw [postAdd]
  split
  · split <;> rfl
  · rfl

@[simp] theorem pddbKey_postUpdate (ui : ChatUi) (author : Text) (timestamp : Nat) (text : Text) :
    (ui.postUpdate author timestamp text).1.pddbKey = ui.pddbKey := by
  rw [postUpdate]
  split
  · rfl
  · split <;> rfl

@[simp] theorem crashed_postUpdate (ui : ChatUi) (author : Text) (timestamp : Nat) (text : Text) :
    (ui.postUpdate author timestamp text).1.crashed = ui.crashed := by
  rw [postUpdate]
  split
  · rfl
  · split <;> rfl

theorem pddbKey_handle {op : ChatOp} (up : (ui.handle op).crashed = false) :
    ui.crashed = false ∧ (ui.handle op).pddbKey = filing.next ui.pddbKey op := by
  rw [handle.eq_def] at up ⊢
  split
  case isTrue gone =>
    rw [if_pos gone, gone] at up
    cases up
  case isFalse running =>
    refine ⟨by simpa using running, ?_⟩
    cases op <;> simp [filing]

theorem thread_handle_dialogueSave (ui : ChatUi) (key : Text) :
    (ui.handle .dialogueSave).thread key = ui.thread key := by
  rw [handle.eq_def]
  split
  case isTrue => rfl
  case isFalse =>
    show ui.dialogueSave.thread key = _
    rw [thread, pddbKey_dialogueSave, thread, dialogueSave]
    split
    case isTrue => split <;> rfl
    case isFalse other =>
      -- Only the stored form of the open conversation is written.
      split
      case h_2 => rfl
      case h_1 d key' opened named =>
        have apart : key ≠ key' := fun same => other (named.trans (congrArg some same.symm))
        exact AList.lookup_insert_ne apart

/-- Every conversation, stored or open, satisfies a condition on it and its key. -/
structure All (P : Text → Dialogue → Prop) (ui : ChatUi) : Prop where
  disk : ∀ {key d}, ui.disk.lookup key = some d → P key d
  dialogue : ∀ {key d}, ui.pddbKey = some key → ui.dialogue = some d → P key d

namespace All

variable {P Q : Text → Dialogue → Prop}

theorem mono (all : All P ui) (weaker : ∀ {key d}, P key d → Q key d) : All Q ui :=
  ⟨fun there => weaker (all.disk there), fun key there => weaker (all.dialogue key there)⟩

theorem stored (all : All P ui) : All P { disk := ui.disk } :=
  ⟨all.disk, (fun named => nomatch named)⟩

theorem dialogueSave (all : All P ui) : All P ui.dialogueSave := by
  rw [ChatUi.dialogueSave]
  split
  case h_1 d key opened named =>
    refine ⟨fun {key' d'} there => ?_, fun _ opened' => ?_⟩
    · by_cases same : key' = key
      · subst same
        rw [AList.lookup_insert] at there
        exact Option.some.inj there ▸ all.dialogue named opened
      · rw [AList.lookup_insert_ne same] at there
        exact all.disk there
    · exact all.dialogue ‹_› opened'
  case h_2 => exact all

theorem dialogueSet (all : All P ui) (new : ∀ key, P key (.new key)) (key : Text) :
    All P (ui.dialogueSet key) := by
  rw [ChatUi.dialogueSet]
  split
  case h_1 d there =>
    refine ⟨all.disk, fun named opened => ?_⟩
    cases named
    cases opened
    exact all.disk there
  case h_2 =>
    refine dialogueSave ⟨all.disk, fun named opened => ?_⟩
    cases named
    cases opened
    exact new key

theorem postAdd (all : All P ui) (weaker : ∀ {key d}, P key d → Q key d) {post : HeldMessage}
    (adds : ∀ {key d d'}, ui.pddbKey = some key → P key d →
      d.postAdd post.author post.timestamp post.text = some d' → Q key d') :
    All Q (ui.postAdd post) := by
  have others := all.mono weaker
  rw [ChatUi.postAdd]
  split
  case h_2 => exact others
  case h_1 key d named opened =>
    split
    case h_2 => exact ⟨others.disk, others.dialogue⟩
    case h_1 d' added =>
      refine ⟨others.disk, fun named' opened' => ?_⟩
      cases named.symm.trans named'
      cases opened'
      exact adds named (all.dialogue named opened) added

theorem handle (all : All P ui) (new : ∀ key, P key (.new key)) (op : ChatOp)
    (adds : ∀ {src post}, op = .postAdd src post → ui.crashed = false →
      ∀ {key d d'}, ui.pddbKey = some key → P key d →
        d.postAdd post.author post.timestamp post.text = some d' → P key d') :
    All P (ui.handle op) := by
  rw [ChatUi.handle.eq_def]
  split
  case isTrue => exact all
  case isFalse up =>
    rw [Bool.not_eq_true] at up
    cases op with
    | dialogueSet key => exact all.dialogueSet new key
    | dialogueSave => exact all.dialogueSave
    | postAdd src post => exact all.postAdd id (adds rfl up)

theorem postUpdate (all : All P ui) {author : Text} {timestamp : Nat} {text : Text}
    (updates : ∀ {key d d'}, ui.pddbKey = some key → P key d →
      d.postUpdate author timestamp text = some d' → P key d') :
    All P (ui.postUpdate author timestamp text).1 := by
  rw [ChatUi.postUpdate]
  split
  case isTrue => exact all
  case isFalse =>
    split
    case h_2 => exact all
    case h_1 d' updated =>
      obtain ⟨d, opened, replaced⟩ := Option.bind_eq_some_iff.mp updated
      refine ⟨all.disk, fun named opened' => ?_⟩
      cases opened'
      exact updates named (all.dialogue named opened) replaced

end All

end ChatUi

end LxmfChat
