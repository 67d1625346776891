import LxmfChat.App.Desk

/-! Which conversation a message is added to, under every interleaving of the threads. -/

namespace LxmfChat

open Base Relation

def Delivery.committed (d : Delivery) : Bool := d.stage = .showing || d.stage = .posting

namespace Desk

variable {c : Desk}

/-- The conversation that is open once the chat server has handled everything it was sent. -/
def openKey (c : Desk) : Option Text := filing.run none c.chat.sent

def allFiled (c : Desk) : List Filing := filing.outputs none c.chat.sent

theorem mem_allFiled {f : Filing} (there : f ∈ c.filed) : f ∈ c.allFiled :=
  c.chat.mem_outputs_sent filing there

@[simp] theorem openKey_send (op : ChatOp) :
    (c.send op).openKey = filing.next c.openKey op := by
  rw [openKey, send, Mailbox.sent_send, Machine.run_concat]
  rfl

@[simp] theorem allFiled_send (op : ChatOp) :
    (c.send op).allFiled = c.allFiled ++ (filing.emit c.openKey op).toList := by
  rw [allFiled, send, Mailbox.sent_send, Machine.outputs_concat]
  rfl

/-- What holds of the main thread's part, whatever the network threads do. -/
structure Pointed (c : Desk) : Prop where
  target : ∀ {addr}, c.main.addr? = some addr → c.inbox.currentPeer = some addr
  key : c.main.switched = true → ∀ {peer}, c.inbox.currentPeer = some peer →
    c.openKey = some (hex peer.val)

theorem deliverBlock_fields (c : Desk) (d : Delivery) :
    (c.deliverBlock d).1.inbox.currentPeer = c.inbox.currentPeer
      ∧ (c.deliverBlock d).1.main = c.main
      ∧ (c.deliverBlock d).1.deliveries = c.deliveries
      ∧ (c.deliverBlock d).1.openKey = c.openKey := by
  rw [deliverBlock.eq_def]
  split
  all_goals first
    | exact ⟨rfl, rfl, rfl, rfl⟩
    | exact ⟨rfl, rfl, rfl, openKey_send _⟩
    | split <;> exact ⟨rfl, rfl, rfl, rfl⟩

theorem Pointed.act (pointed : c.Pointed) (a : DeskAction) : (c.act a).Pointed := by
  cases a with
  | arrive src shown => exact ⟨pointed.target, pointed.key⟩
  | serve =>
    refine ⟨pointed.target, fun switched peer current => ?_⟩
    rw [← pointed.key switched current]
    exact congrArg (filing.run none) (Mailbox.sent_serve c.chat)
  | activatePeer addr =>
    rw [Desk.act]
    split
    case h_1 => exact ⟨(fun same => same), by rintro ⟨⟩⟩
    case h_2 => exact pointed
  | deliver index =>
    rw [Desk.act]
    split
    case h_1 => exact pointed
    case h_2 d there =>
      obtain ⟨current, main, -, key⟩ := deliverBlock_fields c d
      refine ⟨fun same => ?_, fun switched peer same => ?_⟩
      · exact current.trans (pointed.target (main ▸ same))
      · exact key.trans (pointed.key (main ▸ switched) (current ▸ same))
  | main =>
    rw [Desk.act, mainBlock.eq_def]
    have target := @pointed.target
    have key := @pointed.key
    split
    case h_1 => exact pointed
    all_goals
      rename_i at_
      rw [at_] at target key
    case h_2 => exact ⟨target, by rintro ⟨⟩⟩
    case h_3 addr =>
      -- The server is told about the conversation that is being opened, which is the current one.
      refine ⟨target, fun _ peer same => ?_⟩
      cases (target rfl).symm.trans same
      exact openKey_send _
    case h_4 addr =>
      split
      · exact pointed
      · exact ⟨target, fun _ => key rfl⟩
    case h_5 => exact ⟨target, fun _ => key rfl⟩
    case h_6 => exact ⟨target, fun _ peer same => (openKey_send _).trans (key rfl same)⟩
    case h_7 addr hadQueued =>
      cases hadQueued
      · exact ⟨by rintro _ ⟨⟩, fun _ => key rfl⟩
      · exact ⟨target, fun _ => key rfl⟩
    case h_8 => exact ⟨target, fun _ => key rfl⟩
    case h_9 =>
      exact ⟨by rintro _ ⟨⟩, fun _ peer same => (openKey_send _).trans (key rfl same)⟩

theorem pointed_start (inbox : Inbox) : (start inbox).Pointed := by
  refine ⟨(fun same => nomatch same), fun _ peer current => ?_⟩
  have first : (start inbox).openKey = some (initialKey inbox.currentPeer) := rfl
  have current : inbox.currentPeer = some peer := current
  rw [first, current]
  rfl


theorem deliverBlock_allFiled (c : Desk) (d : Delivery) :
    (c.deliverBlock d).1.allFiled = c.allFiled
      ∨ d.committed = true ∧ (c.deliverBlock d).1.allFiled
        = c.allFiled ++ (filing.emit c.openKey (.postAdd (some d.src) d.shown)).toList := by
  rw [deliverBlock.eq_def]
  split
  case h_3 posting => exact .inr ⟨by simp [Delivery.committed, posting], allFiled_send _⟩
  case h_4 => exact .inl ((allFiled_send _).trans (List.append_nil _))
  all_goals first
    | exact .inl rfl
    | split <;> exact .inl rfl

theorem deliverBlock_committed {c : Desk} {d next : Delivery}
    (moved : (c.deliverBlock d).2 = some next) (commits : next.committed = true) :
    next.src = d.src
      ∧ (d.committed = true ∨ d.stage = .routing ∧ c.inbox.currentPeer = some d.src) := by
  rw [deliverBlock.eq_def] at moved
  split at moved
  case h_1 routing =>
    split at moved
    · rename_i current
      cases moved
      exact ⟨rfl, .inr ⟨routing, current⟩⟩
    · cases moved
      cases commits
  case h_2 showing =>
    cases moved
    exact ⟨rfl, .inl (by simp [Delivery.committed, showing])⟩
  case h_5 holding =>
    split at moved
    · cases moved
      rw [Delivery.committed, holding] at commits
      cases commits
    · cases moved
      cases commits
  all_goals
    cases moved
    try cases commits

theorem mainBlock_chat (c : Desk) :
    c.mainBlock.inbox.currentPeer = c.inbox.currentPeer ∧ c.mainBlock.deliveries = c.deliveries
      ∧ (c.mainBlock.openKey = c.openKey
        ∨ ∃ addr, c.main.addr? = some addr ∧ c.mainBlock.openKey = some (hex addr.val))
      ∧ (c.mainBlock.allFiled = c.allFiled
        ∨ ∃ addr next, c.main.addr? = some addr ∧ c.main.switched = true
          ∧ c.mainBlock.allFiled
            = c.allFiled ++ (filing.emit c.openKey (.postAdd (some addr) next)).toList) := by
  rw [mainBlock.eq_def]
  split
  all_goals rename_i at_
  case h_3 addr =>
    rw [at_]
    exact ⟨rfl, rfl, .inr ⟨addr, rfl, openKey_send _⟩,
      .inl ((allFiled_send _).trans (List.append_nil _))⟩
  case h_4 addr =>
    split <;> exact ⟨rfl, rfl, .inl rfl, .inl rfl⟩
  case h_6 addr next queued hadQueued =>
    rw [at_]
    exact ⟨rfl, rfl, .inl (openKey_send _), .inr ⟨addr, next, rfl, rfl, allFiled_send _⟩⟩
  case h_9 addr =>
    exact ⟨rfl, rfl, .inl (openKey_send _), .inl ((allFiled_send _).trans (List.append_nil _))⟩
  all_goals exact ⟨rfl, rfl, .inl rfl, .inl rfl⟩

/-- What keeps messages in their senders' conversations. -/
structure Orderly (c : Desk) (a : DeskAction) : Prop where
  /-- The chat server knows about a conversation when a delivery finds it open. -/
  samples : ∀ {index d}, a = .deliver index → c.deliveries[index]? = some d →
    d.stage = .routing → c.inbox.currentPeer = some d.src → c.main.switched = true
  /-- Another conversation is opened only when no delivery is about to post. -/
  switches : ∀ {addr}, a = .activatePeer addr → c.main = .idle →
    ∀ d ∈ c.deliveries, d.committed = true → d.src = addr

/-- Every message is, or will be, added to its sender's conversation. -/
structure WellFiled (c : Desk) : Prop where
  pointed : c.Pointed
  right : ∀ f ∈ c.allFiled, ∀ {src}, f.src = some src → f.key = hex src.val
  /-- A post that is about to be sent goes to its sender's conversation. -/
  committed : ∀ d ∈ c.deliveries, d.committed = true →
    c.inbox.currentPeer = some d.src ∧ c.openKey = some (hex d.src.val)

theorem right_emit {filed : List Filing} {key : Option Text} {src : TruncatedHash}
    {post : HeldMessage}
    (right : ∀ f ∈ filed, ∀ {src}, f.src = some src → f.key = hex src.val)
    (opened : key = some (hex src.val)) :
    ∀ f ∈ filed ++ (filing.emit key (.postAdd (some src) post)).toList,
      ∀ {src}, f.src = some src → f.key = hex src.val := by
  intro f there src' from_
  rcases List.mem_append.mp there with before | new
  · exact right f before from_
  · rw [opened] at new
    cases List.mem_singleton.mp new
    cases from_
    rfl

theorem WellFiled.act (filed : c.WellFiled) {a : DeskAction} (orderly : Orderly c a) :
    (c.act a).WellFiled := by
  have pointed := filed.pointed.act a
  cases a with
  | arrive src shown =>
    refine ⟨pointed, filed.right, fun d there commits => ?_⟩
    rcases List.mem_append.mp there with before | new
    · exact filed.committed d before commits
    · cases List.mem_singleton.mp new
      cases commits
  | serve =>
    -- Nothing is sent, so nothing more will be added.
    have sent : (c.act .serve).chat.sent = c.chat.sent := Mailbox.sent_serve c.chat
    refine ⟨pointed, ?_, fun d there commits => ?_⟩
    · rw [allFiled, sent]
      exact filed.right
    · rw [openKey, sent]
      exact filed.committed d there commits
  | activatePeer addr =>
    rw [Desk.act] at pointed ⊢
    split
    case h_1 idle =>
      rw [idle] at pointed
      refine ⟨pointed, filed.right, fun d there commits => ?_⟩
      have same := orderly.switches rfl idle d there commits
      exact ⟨congrArg some same.symm, (filed.committed d there commits).2⟩
    case h_2 => exact filed
  | deliver index =>
    rw [Desk.act] at pointed ⊢
    split
    case h_1 => exact filed
    case h_2 d there =>
      rw [there] at pointed
      obtain ⟨current, -, -, key⟩ := deliverBlock_fields c d
      refine ⟨pointed, ?_, fun d' there' commits => ?_⟩
      · show ∀ f ∈ (c.deliverBlock d).1.allFiled, _
        rcases deliverBlock_allFiled c d with same | ⟨commits, more⟩
        · rw [same]
          exact filed.right
        · rw [more]
          exact right_emit filed.right (filed.committed d (List.mem_of_getElem? there) commits).2
      · show (c.deliverBlock d).1.inbox.currentPeer = _ ∧ (c.deliverBlock d).1.openKey = _
        rw [current, key]
        rcases mem_advance there' with before | moved
        · exact filed.committed d' before commits
        · obtain ⟨same, committed | ⟨routing, found⟩⟩ := deliverBlock_committed moved commits
          · rw [same]
            exact filed.committed d (List.mem_of_getElem? there) committed
          · rw [same]
            exact ⟨found, filed.pointed.key (orderly.samples rfl there routing found) found⟩
  | main =>
    obtain ⟨current, deliveries, key, added⟩ := mainBlock_chat c
    refine ⟨pointed, ?_, fun d there commits => ?_⟩
    · show ∀ f ∈ c.mainBlock.allFiled, _
      rcases added with same | ⟨addr, next, target, switched, more⟩
      · rw [same]
        exact filed.right
      · rw [more]
        exact right_emit filed.right (filed.pointed.key switched (filed.pointed.target target))
    · show c.mainBlock.inbox.currentPeer = _ ∧ c.mainBlock.openKey = _
      have there : d ∈ c.mainBlock.deliveries := there
      rw [deliveries] at there
      obtain ⟨found, opened⟩ := filed.committed d there commits
      rcases key with same | ⟨addr, target, told⟩
      · exact ⟨current.trans found, same.trans opened⟩
      · -- The conversation the server is told about is the sender's, since it is the current one.
        cases (filed.pointed.target target).symm.trans found
        exact ⟨current.trans found, told⟩

/--
In every run in which a delivery finds its sender's conversation open only after the chat server
was told about it, and another conversation is opened only when no delivery is about to post,
every message that is added is added to its sender's conversation.
-/
theorem filed_under_sender {inbox : Inbox} {c : Desk}
    (run : ReflTransGen (Step Orderly) (start inbox) c) :
    ∀ f ∈ c.filed, ∀ src, f.src = some src → f.key = hex src.val := by
  have first : (start inbox).WellFiled :=
    ⟨pointed_start inbox, (fun _ there => nomatch there), (fun _ there => nomatch there)⟩
  have filed : c.WellFiled := by
    refine reachable_of_keeps (I := WellFiled) ?_ first run
    intro before after kept step
    cases step with
    | act a fine => exact kept.act fine
  intro f there src from_
  exact filed.right f (mem_allFiled there) from_

def sampleOpen : TruncatedHash := BytesN.ofBytes 16 [1]

def sampleOther : TruncatedHash := BytesN.ofBytes 16 [2]

def samplePost : HeldMessage := ⟨"peer".toList, 5, "hello".toList⟩

def overtakenRun : List DeskAction :=
  [ .arrive sampleOpen samplePost, .deliver 0, .activatePeer sampleOther, .main, .main,
    .deliver 0, .deliver 0, .serve, .serve, .serve ]

/-- The message is added to the other conversation. -/
theorem overtaken_message_misfiled :
    ((start { currentPeer := some sampleOpen }).actAll overtakenRun).filed
        = [⟨hex sampleOther.val, some sampleOpen, samplePost⟩]
      ∧ hex sampleOther.val ≠ hex sampleOpen.val := by
  decide +kernel

def orderlyRun : List DeskAction :=
  [ .arrive sampleOpen samplePost, .deliver 0, .deliver 0, .deliver 0, .activatePeer sampleOther,
    .serve, .serve ]

theorem orderly_deliver {index : Nat} (switched : c.main.switched = true) :
    Orderly c (.deliver index) :=
  ⟨(fun _ _ _ _ => switched), (fun same => nomatch same)⟩

theorem orderly_activatePeer {addr : TruncatedHash}
    (none : c.deliveries.all fun d => !d.committed) : Orderly c (.activatePeer addr) := by
  refine ⟨(fun same => nomatch same), fun _ _ d there commits => ?_⟩
  have not := List.all_eq_true.mp none d there
  rw [commits] at not
  cases not

theorem orderly_other {a : DeskAction} (deliver : ∀ index, a ≠ .deliver index)
    (activate : ∀ addr, a ≠ .activatePeer addr) : Orderly c a :=
  ⟨(fun same => absurd same (deliver _)), (fun same => absurd same (activate _))⟩

theorem filed_under_sender_orderly :
    ((start { currentPeer := some sampleOpen }).actAll orderlyRun).filed
        = [⟨hex sampleOpen.val, some sampleOpen, samplePost⟩]
      ∧ ∀ f ∈ ((start { currentPeer := some sampleOpen }).actAll orderlyRun).filed,
        ∀ src, f.src = some src → f.key = hex src.val := by
  have permitted : Permitted act Orderly (start { currentPeer := some sampleOpen }) orderlyRun := by
    refine ⟨orderly_other (by simp) (by simp), orderly_deliver (by decide +kernel),
      orderly_deliver (by decide +kernel), orderly_deliver (by decide +kernel),
      orderly_activatePeer (by decide +kernel), orderly_other (by simp) (by simp),
      orderly_other (by simp) (by simp), trivial⟩
  exact ⟨by decide +kernel, filed_under_sender (run_of_allowed permitted)⟩

end Desk

end LxmfChat
