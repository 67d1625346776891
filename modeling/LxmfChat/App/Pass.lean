import LxmfChat.App.Ending
import LxmfChat.Base.Loops

/-! A whole pass over the outbox: it comes to an end, and every message stays within its budgets. -/

namespace LxmfChat

open Base Checked
open Relation (ReflTransGen)

-- Other threads use the transport between the questions a turn asks, so every answer is its own.

/-- What a turn is told whenever it asks the transport or sends something. -/
structure Answers where
  routed : Bool
  nodeKnown : Bool
  nodeRouted : Bool
  nodeLink : Bool
  stored : Option FullHash
  link : Bool
  sent : Option FullHash
  back : Bool
  replied : Option FullHash
  known : Bool
  hasPath : Bool
  asked : Bool
  pending : Bool
  requested : LinkReqOutcome

def OutboundMsg.unproven (pn : Option TruncatedHash) (now : Nat) (m : OutboundMsg) :
    Option OutboundMsg :=
  let m := { m with inFlight := none }
  if !m.viaPn then
    if m.attempts < MAX_ATTEMPTS then some m
    else if !m.triedPn && pn.isSome then some (m.escalate now)
    else none
  else some m

namespace Answers

variable (a : Answers) (pn : Option TruncatedHash) (now : Nat)

def expired (m : OutboundMsg) : Turn :=
  if !m.viaPn && !m.triedPn && pn.isSome then .kept { m.escalate now with nextAction := now }
  else if m.viaPn then .failed .nodeUnconfirmed
  else if m.attempts = 0 && !m.triedPn then
    if a.routed then .failed .linkNotEstablished else .failed .noRouteFound
  else .failed .noAcknowledgement

def propagate (m : OutboundMsg) : Turn :=
  if !a.nodeKnown then .kept { m with awaitingKey := true, nextAction := now + KEY_RETRY }
  else if !a.nodeRouted then .kept { m with awaitingKey := false, nextAction := now + KEY_RETRY }
  else if !a.nodeLink then .kept { m with nextAction := now + LINK_RETRY }
  else
    match m.pnBlob with
    | none => .kept { m with nextAction := now + 1 }
    | some blob =>
      match a.stored with
      | some hash => .kept { m with
          inFlight := some hash, triedPn := true
          nextAction := now + proofWait blob PROOF_TIMEOUT }
      | none => .kept { m with nextAction := now + 2 }

def establish (m : OutboundMsg) : Turn :=
  if !a.known then .kept { m with awaitingKey := true, nextAction := now + KEY_RETRY }
  else if !a.hasPath then
    if MAX_ROUTE_TRIES ≤ m.routeTries && !m.triedPn && pn.isSome then
      .again { m.escalate now with nextAction := now }
    else
      let routeTries := if a.asked then m.routeTries + 1 else m.routeTries
      .kept { m with routeTries, awaitingKey := false, nextAction := now + KEY_RETRY }
  else if !a.pending && MAX_LINK_TRIES ≤ m.linkTries then
    if m.directRounds < MAX_DIRECT_ROUNDS then
      .kept { m with
        directRounds := m.directRounds + 1, linkTries := 0, routeTries := 0
        nextAction := now + 1 }
    else if !m.triedPn && pn.isSome then .again { m.escalate now with nextAction := now }
    else .kept { m with linkTries := 0, nextAction := now + 1 }
  else
    let linkTries := if a.requested = .sent then m.linkTries + 1 else m.linkTries
    .kept { m with linkTries, nextAction := now + 2 }

def direct (m : OutboundMsg) : Turn :=
  if a.link then
    match a.sent with
    | some hash => .kept (m.attempted now hash)
    | none => .kept { m with nextAction := now + 1 }
  else if a.back then
    match a.replied with
    | some hash => .kept (m.attempted now hash)
    | none => a.establish pn now m
  else a.establish pn now m

def send (m : OutboundMsg) : Turn :=
  if m.viaPn then
    match pn with
    | some _ => a.propagate now m
    | none => .crashed
  else a.direct pn now m

def turn (m : OutboundMsg) : Turn :=
  if m.needsStamp.isSome then .kept m
  else if m.deadline < now then a.expired pn now m
  else if m.inFlight.isSome then
    if now < m.nextAction then .kept m
    else
      match m.unproven pn now with
      | some m => a.send pn now m
      | none => .failed .noAcknowledgement
  else if now < m.nextAction then .kept m
  else a.send pn now m

end Answers

section Answered

variable {crypto : Crypto} {pn : Option TruncatedHash} {now : Nat}

def Answers.silent : Answers where
  routed := false
  nodeKnown := false
  nodeRouted := false
  nodeLink := false
  stored := none
  link := false
  sent := none
  back := false
  replied := none
  known := false
  hasPath := false
  asked := false
  pending := false
  requested := .pending

theorem answered_expired (t : Transport) (b : Backchannels) (m : OutboundMsg) :
    ∃ a : Answers, (pumpExpired pn now t b m).turn = a.expired pn now m := by
  refine ⟨{ Answers.silent with routed := t.hasPath m.peer }, ?_⟩
  rw [pumpExpired.eq_def, Answers.expired]
  split
  · rfl
  · split
    · cases pn with
      | none => rfl
      | some node => dsimp only; split <;> rfl
    · split
      · split <;> rfl
      · rfl

theorem answered_propagate (target : TruncatedHash) (t : Transport) (b : Backchannels)
    (m : OutboundMsg) (d : Draw) :
    ∃ a : Answers, (propagate crypto now target t b m d).turn = a.propagate now m := by
  rw [propagate]
  cases t.known.get target with
  | none => exact ⟨.silent, rfl⟩
  | some known =>
    dsimp only
    split
    · exact ⟨{ Answers.silent with nodeKnown := true }, rfl⟩
    · cases t.outboundLinkFor target now with
      | mk u link =>
        cases link with
        | none => exact ⟨{ Answers.silent with nodeKnown := true, nodeRouted := true }, rfl⟩
        | some lid =>
          -- Whether the copy goes out is the last answer.
          let up : Answers :=
            { Answers.silent with nodeKnown := true, nodeRouted := true, nodeLink := true }
          cases copy : m.pnBlob with
          | none => exact ⟨up, by simp [up, Answers.propagate, copy]⟩
          | some blob =>
            cases sent : transmit crypto false u lid blob d with
            | mk v stored =>
              refine ⟨{ up with stored }, ?_⟩
              cases stored <;> simp [up, Answers.propagate, copy, sent]

theorem answered_establish (t : Transport) (b : Backchannels) (m : OutboundMsg) (d : Draw) :
    ∃ a : Answers, (establish crypto pn now t b m d).turn = a.establish pn now m := by
  rw [establish]
  cases t.known.get m.peer with
  | none => exact ⟨.silent, rfl⟩
  | some known =>
    dsimp only
    split
    case isTrue lost =>
      refine ⟨{ Answers.silent with known := true, asked := d.sent }, ?_⟩
      simp only [Answers.establish, Bool.not_true, Bool.false_eq_true, if_false, Answers.silent,
        Bool.not_false, if_true]
      split <;> rfl
    case isFalse routed =>
      cases t.pendingLinkTo m.peer now with
      | mk u pending =>
        refine ⟨{ Answers.silent with
          known := true, hasPath := true, pending := pending
          requested := (sendLinkRequest crypto u m.peer known.identity now d).2 }, ?_⟩
        simp only [Answers.establish, Bool.not_true, Bool.false_eq_true, if_false]
        split
        · split
          · rfl
          · split <;> rfl
        · rfl

theorem answered_direct (t : Transport) (b : Backchannels) (m : OutboundMsg) (d : Draw) :
    ∃ a : Answers, (direct crypto pn now t b m d).turn = a.direct pn now m := by
  rw [direct]
  cases t.outboundLinkFor m.peer now with
  | mk u link =>
    cases link with
    | some lid =>
      dsimp only
      cases transmit crypto false u lid m.packed d with
      | mk v sent =>
        refine ⟨{ Answers.silent with link := true, sent }, ?_⟩
        cases sent <;> rfl
    | none =>
      dsimp only
      cases liveBackchannel now b m.peer with
      | mk b' channel =>
        cases channel with
        | none =>
          obtain ⟨a, same⟩ : ∃ a : Answers,
            (establish crypto pn now u b' m d).turn = a.establish pn now m := answered_establish ..
          exact ⟨{ a with link := false, back := false }, same⟩
        | some lid =>
          dsimp only
          cases transmit crypto true u lid m.packed d with
          | mk v replied =>
            cases replied with
            | some hash =>
              exact ⟨{ Answers.silent with back := true, replied := some hash }, rfl⟩
            | none =>
              obtain ⟨a, same⟩ : ∃ a : Answers,
                (establish crypto pn now v (b'.erase m.peer) m d).turn = a.establish pn now m :=
                answered_establish ..
              exact ⟨{ a with link := false, back := true, replied := none }, same⟩

theorem answered_pumpSend (t : Transport) (b : Backchannels) (m : OutboundMsg) (d : Draw) :
    ∃ a : Answers, (pumpSend crypto pn now t b m d).turn = a.send pn now m := by
  rw [pumpSend.eq_def]
  simp only [Answers.send]
  split
  · cases pn with
    | none => exact ⟨.silent, rfl⟩
    | some target => exact answered_propagate target t b m d
  · exact answered_direct t b m d

theorem pumpUnproven_unproven (syncLink : Option TruncatedHash) (t : Transport) (b : Backchannels)
    (m : OutboundMsg) : (pumpUnproven pn now syncLink t b m).2.2 = m.unproven pn now := by
  rw [pumpUnproven, OutboundMsg.unproven]
  split
  · split
    · rfl
    · split <;> rfl
  · rfl

theorem answered_pumpMessage (syncLink : Option TruncatedHash) (t : Transport) (b : Backchannels)
    (m : OutboundMsg) (d : Draw) :
    ∃ a : Answers, (pumpMessage crypto pn now syncLink t b m d).turn = a.turn pn now m := by
  rw [pumpMessage]
  simp only [Answers.turn]
  split
  · exact ⟨.silent, rfl⟩
  split
  · exact answered_expired t b m
  split
  · split
    · exact ⟨.silent, rfl⟩
    · rw [← pumpUnproven_unproven syncLink t b m]
      generalize pumpUnproven pn now syncLink t b m = next
      obtain ⟨u, b', next⟩ := next
      cases next with
      | none => exact ⟨.silent, rfl⟩
      | some m' => exact answered_pumpSend u b' m' d
  split
  · exact ⟨.silent, rfl⟩
  · exact answered_pumpSend ..

end Answered

/-- What a message has used up, and where it is heading. -/
structure OutboundMsg.Budgeted (pn : Option TruncatedHash) (m : OutboundMsg) : Prop where
  node : m.viaPn = true → pn.isSome = true
  attempts : m.attempts ≤ MAX_ATTEMPTS
  rounds : m.directRounds ≤ MAX_DIRECT_ROUNDS
  left : m.viaPn = false → m.inFlight = none → m.attempts < MAX_ATTEMPTS

inductive Passed (pn : Option TruncatedHash) (m : OutboundMsg) : Turn → Prop
  | kept {m' : OutboundMsg} (follows : m.Follows m') (budgeted : m'.Budgeted pn) :
      Passed pn m (.kept m')
  /-- Only on the way from the peer to the node is a message looked at again. -/
  | again {m' : OutboundMsg} (straight : m.viaPn = false) (via : m'.viaPn = true)
      (follows : m.Follows m') (budgeted : m'.Budgeted pn) : Passed pn m (.again m')
  | failed (why : PumpFailure) : Passed pn m (.failed why)

theorem Passed.after {pn : Option TruncatedHash} {m m' : OutboundMsg} {turn : Turn}
    (first : m.Follows m') (passed : Passed pn m' turn) : Passed pn m turn := by
  cases passed with
  | kept follows budgeted => exact .kept (first.trans follows) budgeted
  | again straight via follows budgeted =>
    have before : m.viaPn = false := by
      rw [Bool.eq_false_iff] at straight ⊢
      exact fun via => straight (first.viaPn via)
    exact .again before via (first.trans follows) budgeted
  | failed why => exact .failed why

namespace OutboundMsg.Budgeted

variable {pn : Option TruncatedHash} {m m' : OutboundMsg} {now : Nat} {a : Answers}

theorem of_eq (budgeted : m.Budgeted pn) (via : m'.viaPn = m.viaPn)
    (attempts : m'.attempts = m.attempts) (rounds : m'.directRounds = m.directRounds)
    (inFlight : m'.inFlight = m.inFlight) : m'.Budgeted pn where
  node := by rw [via]; exact budgeted.node
  attempts := by rw [attempts]; exact budgeted.attempts
  rounds := by rw [rounds]; exact budgeted.rounds
  left := by rw [via, attempts, inFlight]; exact budgeted.left

theorem waits (budgeted : m.Budgeted pn) (follows : m.Follows m') (via : m'.viaPn = m.viaPn)
    (attempts : m'.attempts = m.attempts) (rounds : m'.directRounds = m.directRounds)
    (inFlight : m'.inFlight = m.inFlight) : Passed pn m (.kept m') :=
  .kept follows (budgeted.of_eq via attempts rounds inFlight)

theorem escalate (budgeted : m.Budgeted pn) (node : pn.isSome = true) (next : Nat) :
    { m.escalate now with nextAction := next }.Budgeted pn :=
  ⟨fun _ => node, budgeted.attempts, budgeted.rounds, nofun⟩

theorem expired (budgeted : m.Budgeted pn) : Passed pn m (a.expired pn now m) := by
  rw [Answers.expired]
  split
  case isTrue spent =>
    simp only [Bool.and_eq_true] at spent
    exact .kept ⟨rfl, rfl, rfl, rfl, rfl, rfl, rfl, fun _ => rfl⟩ (budgeted.escalate spent.2 now)
  case isFalse =>
    split
    · exact .failed _
    · split
      · split <;> exact .failed _
      · exact .failed _

theorem propagate (budgeted : m.Budgeted pn) (via : m.viaPn = true) :
    Passed pn m (a.propagate now m) := by
  rw [Answers.propagate]
  split
  · exact budgeted.waits ⟨rfl, rfl, rfl, rfl, rfl, rfl, rfl, id⟩ rfl rfl rfl rfl
  split
  · exact budgeted.waits ⟨rfl, rfl, rfl, rfl, rfl, rfl, rfl, id⟩ rfl rfl rfl rfl
  split
  · exact budgeted.waits ⟨rfl, rfl, rfl, rfl, rfl, rfl, rfl, id⟩ rfl rfl rfl rfl
  cases copy : m.pnBlob with
  | none => exact budgeted.waits ⟨rfl, rfl, rfl, rfl, rfl, rfl, copy.symm, id⟩ rfl rfl rfl rfl
  | some blob =>
    dsimp only
    split
    · -- The node is sent the copy, which no budget counts.
      refine .kept ⟨rfl, rfl, rfl, rfl, rfl, rfl, copy.symm, id⟩ ⟨budgeted.node, budgeted.attempts,
        budgeted.rounds, fun straight => ?_⟩
      simp [via] at straight
    · exact budgeted.waits ⟨rfl, rfl, rfl, rfl, rfl, rfl, copy.symm, id⟩ rfl rfl rfl rfl

theorem establish (budgeted : m.Budgeted pn) (straight : m.viaPn = false) :
    Passed pn m (a.establish pn now m) := by
  have follows : m.Follows { m.escalate now with nextAction := now } :=
    ⟨rfl, rfl, rfl, rfl, rfl, rfl, rfl, fun _ => rfl⟩
  rw [Answers.establish]
  split
  · exact budgeted.waits ⟨rfl, rfl, rfl, rfl, rfl, rfl, rfl, id⟩ rfl rfl rfl rfl
  split
  · split
    case isTrue spent =>
      simp only [Bool.and_eq_true] at spent
      exact .again straight rfl follows (budgeted.escalate spent.2 now)
    case isFalse => exact budgeted.waits ⟨rfl, rfl, rfl, rfl, rfl, rfl, rfl, id⟩ rfl rfl rfl rfl
  split
  · split
    case isTrue more =>
      have within : m.directRounds + 1 ≤ MAX_DIRECT_ROUNDS := by grind
      exact .kept ⟨rfl, rfl, rfl, rfl, rfl, rfl, rfl, id⟩
        ⟨budgeted.node, budgeted.attempts, within, budgeted.left⟩
    case isFalse =>
      split
      case isTrue spent =>
        simp only [Bool.and_eq_true] at spent
        exact .again straight rfl follows (budgeted.escalate spent.2 now)
      case isFalse => exact budgeted.waits ⟨rfl, rfl, rfl, rfl, rfl, rfl, rfl, id⟩ rfl rfl rfl rfl
  · exact budgeted.waits ⟨rfl, rfl, rfl, rfl, rfl, rfl, rfl, id⟩ rfl rfl rfl rfl

theorem attempted (budgeted : m.Budgeted pn) (straight : m.viaPn = false)
    (idle : m.inFlight = none) (hash : FullHash) :
    Passed pn m (.kept (m.attempted now hash)) := by
  have left := budgeted.left straight idle
  have within : m.attempts + 1 ≤ MAX_ATTEMPTS := by grind
  exact .kept (follows_attempted m hash) ⟨budgeted.node, within, budgeted.rounds, nofun⟩

theorem direct (budgeted : m.Budgeted pn) (straight : m.viaPn = false)
    (idle : m.inFlight = none) : Passed pn m (a.direct pn now m) := by
  rw [Answers.direct]
  split
  · split
    · exact budgeted.attempted straight idle _
    · exact budgeted.waits ⟨rfl, rfl, rfl, rfl, rfl, rfl, rfl, id⟩ rfl rfl rfl rfl
  · split
    · split
      · exact budgeted.attempted straight idle _
      · exact budgeted.establish straight
    · exact budgeted.establish straight

theorem send (budgeted : m.Budgeted pn) (idle : m.inFlight = none) :
    Passed pn m (a.send pn now m) := by
  rw [Answers.send.eq_def]
  split
  case isTrue via =>
    obtain ⟨target, rfl⟩ := Option.isSome_iff_exists.mp (budgeted.node via)
    exact budgeted.propagate via
  case isFalse straight => exact budgeted.direct (by simpa using straight) idle

theorem unproven (budgeted : m.Budgeted pn) (next : m.unproven pn now = some m') :
    m.Follows m' ∧ m'.Budgeted pn ∧ m'.inFlight = none := by
  rw [OutboundMsg.unproven] at next
  split at next
  · split at next
    case isTrue more =>
      cases next
      exact ⟨⟨rfl, rfl, rfl, rfl, rfl, rfl, rfl, id⟩,
        ⟨budgeted.node, budgeted.attempts, budgeted.rounds, fun _ _ => more⟩, rfl⟩
    case isFalse =>
      split at next
      case isTrue spent =>
        cases next
        simp only [Bool.and_eq_true] at spent
        exact ⟨⟨rfl, rfl, rfl, rfl, rfl, rfl, rfl, fun _ => rfl⟩,
          ⟨fun _ => spent.2, budgeted.attempts, budgeted.rounds, nofun⟩, rfl⟩
      case isFalse => cases next
  case isFalse via =>
    cases next
    exact ⟨⟨rfl, rfl, rfl, rfl, rfl, rfl, rfl, id⟩,
      ⟨budgeted.node, budgeted.attempts, budgeted.rounds, fun straight => absurd straight (by
        simpa using via)⟩, rfl⟩

theorem turn (budgeted : m.Budgeted pn) (a : Answers) (now : Nat) :
    Passed pn m (a.turn pn now m) := by
  rw [Answers.turn]
  split
  · exact .kept (.refl m) budgeted
  split
  · exact budgeted.expired
  split
  · split
    · exact .kept (.refl m) budgeted
    · cases next : m.unproven pn now with
      | none => exact .failed _
      | some m' =>
        obtain ⟨follows, within, idle⟩ := budgeted.unproven next
        exact (within.send idle).after follows
  case isFalse grounded =>
    split
    · exact .kept (.refl m) budgeted
    · exact budgeted.send (by simpa using grounded)

end OutboundMsg.Budgeted

namespace System

variable {cfg : Config} {s s' : System}

/-- Every message is within its budgets. -/
def Frugal (pn : Option TruncatedHash) (outbox : List OutboundMsg) : Prop :=
  ∀ m ∈ outbox, m.Budgeted pn

variable {pn : Option TruncatedHash} {outbox outbox' : List OutboundMsg}

theorem Frugal.subset (frugal : Frugal pn outbox) (fewer : outbox' ⊆ outbox) :
    Frugal pn outbox' :=
  fun m there => frugal m (fewer there)

theorem Frugal.changes (frugal : Frugal pn outbox)
    (changed : List.Forall₂ (fun m m' => m.Budgeted pn → m'.Budgeted pn) outbox outbox') :
    Frugal pn outbox' := by
  intro m' there
  obtain ⟨m, before, keeps⟩ := Tracked.exists_of_mem_right changed there
  exact keeps (frugal m before)

theorem frugal_post (frugal : Frugal pn s.shared.outbox) (displayTs : Nat) (peer : TruncatedHash)
    (text : Text) : Frugal pn (s.act cfg (.post displayTs peer text)).shared.outbox := by
  intro m there
  obtain ⟨tickets, same⟩ := takeTicket_shared s.clock peer s.shared
  simp only [System.act, LxmfChat.post, enqueueOutbound, same, List.mem_append,
    List.mem_singleton] at there
  rcases there with before | rfl
  · exact frugal m before
  · exact ⟨by simp, (by decide : (0 : UInt8) ≤ MAX_ATTEMPTS),
      (by decide : (0 : UInt8) ≤ MAX_DIRECT_ROUNDS), fun _ _ => (by decide : (0 : UInt8) < MAX_ATTEMPTS)⟩

theorem frugal_handle (frugal : Frugal pn s.shared.outbox) (index : Nat) :
    Frugal pn (s.handle cfg index).shared.outbox := by
  rw [System.handle]
  cases s.events[index]? with
  | none => exact frugal
  | some event =>
    cases event with
    | announce dest info =>
      simp only [handleEvent, announced]
      split
      · exact frugal
      split
      · exact frugal
      split
      · exact frugal
      split
      · exact frugal
      -- A message that waits for the peer acts at once, and may have to be stamped first.
      refine frugal.changes (List.forall₂_map_right_iff.mpr (List.forall₂_same.mpr fun m _ => ?_))
      intro budgeted
      rw [OutboundMsg.heard]
      split
      · exact budgeted.of_eq rfl rfl rfl rfl
      · exact budgeted
    | delivered h =>
      simp only [handleEvent, markDelivered]
      split
      · exact frugal
      · exact frugal.subset (List.eraseP_subset ..)
    | _ => exact frugal

theorem frugal_turn (frugal : Frugal cfg.propagationNode s.shared.outbox) (index now : Nat)
    (d : Draw) : Frugal cfg.propagationNode (s.turn cfg index now d).shared.outbox := by
  rw [System.turn]
  cases there : s.shared.outbox[index]? with
  | none => exact frugal
  | some m =>
    have budgeted := frugal m (List.mem_of_getElem? there)
    obtain ⟨a, answered⟩ : ∃ a : Answers,
      (s.turnOf cfg m now d).turn = a.turn cfg.propagationNode now m := answered_pumpMessage ..
    have passed := budgeted.turn a now
    rw [← answered] at passed
    simp only [System.afterTurn]
    generalize (s.turnOf cfg m now d).turn = turn at passed
    cases passed with
    | kept follows within => exact frugal.changes (Tracked.forall₂_set (fun _ => id) there fun _ => within)
    | again straight via follows within =>
      exact frugal.changes (Tracked.forall₂_set (fun _ => id) there fun _ => within)
    | failed why => exact frugal.subset (List.eraseIdx_subset ..)

theorem frugal_endStamp (frugal : Frugal pn s.shared.outbox) (stamp : BytesN 32) :
    Frugal pn (s.endStamp stamp).shared.outbox := by
  rw [System.endStamp]
  cases s.stampJob with
  | none => exact frugal
  | some job =>
    dsimp only
    split
    · exact frugal.subset List.filter_sublist.subset
    split
    · exact frugal
    · exact frugal.subset List.filter_sublist.subset
    · refine frugal.changes (Tracked.forall₂_replaceF (fun _ => id) ?_ _)
      intro m m' stamped budgeted
      rw [StampJob.stampOn] at stamped
      split at stamped
      · cases stamped
        exact budgeted.of_eq rfl rfl rfl rfl
      · cases stamped

theorem frugal_endBlob (frugal : Frugal pn s.shared.outbox) (eph : KeyHalf) (iv : Iv)
    (stamp : BytesN 32) : Frugal pn (s.endBlob cfg eph iv stamp).shared.outbox := by
  rw [System.endBlob]
  cases s.blobJob with
  | none => exact frugal
  | some job =>
    refine frugal.changes (Tracked.forall₂_replaceF (fun _ => id) ?_ _)
    intro m m' copied budgeted
    rw [BlobJob.copyOn] at copied
    split at copied
    · cases copied
      exact budgeted.of_eq rfl rfl rfl rfl
    · cases copied

theorem frugal_step {allowed : System → Action → Prop} (step : Step cfg allowed s s')
    (frugal : Frugal cfg.propagationNode s.shared.outbox) :
    Frugal cfg.propagationNode s'.shared.outbox := by
  cases step with
  | reorder t same => exact frugal
  | act a enabled fine =>
    cases a with
    | post displayTs peer text => exact frugal_post frugal displayTs peer text
    | handle index => exact frugal_handle frugal index
    | turn index now d => exact frugal_turn frugal index now d
    | beginStamp =>
      rw [System.act, System.beginStamp]
      split <;> exact frugal
    | endStamp stamp => exact frugal_endStamp frugal stamp
    | beginBlob =>
      rw [System.act, System.beginBlob]
      split
      · split <;> exact frugal
      · exact frugal
    | endBlob eph iv stamp => exact frugal_endBlob frugal eph iv stamp
    | mark index =>
      rw [System.act, System.mark]
      split <;> exact frugal
    | clearHistory peer => exact frugal.subset List.filter_sublist.subset
    | tick _ | frame _ _ _ | other _ | reconnect | setSyncLink _ | storeTicket _ _ _ => exact frugal

theorem frugal_run {allowed : System → Action → Prop} {identity : PrivateIdentity}
    (run : ReflTransGen (Step cfg allowed) (start identity) s) :
    Frugal cfg.propagationNode s.shared.outbox := by
  induction run with
  | refl => exact nofun
  | tail _ step frugal => exact frugal_step step frugal

end System

structure Pass where
  i : Nat := 0
  outbox : List OutboundMsg
  failures : List Mark := []
  /-- The messages that had a turn, in order. -/
  turns : List (TruncatedHash × Nat) := []

section Loop

variable (pn : Option TruncatedHash) (now : Nat) (answers : Nat → Answers)

def pumpRound (s : Pass) : Checked Pass := do
  let m ← index s.outbox s.i
  let s := { s with turns := s.turns ++ [m.key] }
  match (answers s.turns.length).turn pn now m with
  | .kept m' => return { s with outbox := s.outbox.set s.i m', i := s.i + 1 }
  | .again m' => return { s with outbox := s.outbox.set s.i m' }
  | .failed why => return { s with
      outbox := s.outbox.eraseIdx s.i
      failures := s.failures ++ [m.mark .failed (.unsent why)] }
  | .crashed => crash "called `Option::unwrap()` on a `None` value"

def pumpLoop (steps : Nat) (s : Pass) : Checked Pass :=
  Checked.loop (fun s => decide (s.i < s.outbox.length))
    (fun s => do return .yield (← pumpRound pn now answers s)) steps s

def pumpOutbox (steps : Nat) (outbox : List OutboundMsg) : Checked Pass :=
  pumpLoop pn now answers steps { outbox }

/-- What a pass makes of messages: each in its turn, at most twice, stays or fails. -/
inductive PassedOver : List OutboundMsg → List OutboundMsg → List (TruncatedHash × Nat) → Prop
  | nil : PassedOver [] [] []
  | stays {m m' : OutboundMsg} {rest out : List OutboundMsg} {turns : List (TruncatedHash × Nat)}
      {n : Nat} (twice : n ≤ 2) (follows : m.Follows m') (budgeted : m'.Budgeted pn)
      (later : PassedOver rest out turns) :
      PassedOver (m :: rest) (m' :: out) (List.replicate n m.key ++ turns)
  | fails {m : OutboundMsg} {rest out : List OutboundMsg} {turns : List (TruncatedHash × Nat)}
      {n : Nat} (twice : n ≤ 2) (later : PassedOver rest out turns) :
      PassedOver (m :: rest) out (List.replicate n m.key ++ turns)

end Loop

section Ends

variable {pn : Option TruncatedHash} {now : Nat} {answers : Nat → Answers}

namespace PassedOver

variable {outbox out : List OutboundMsg} {turns : List (TruncatedHash × Nat)}

theorem frugal (passed : PassedOver pn outbox out turns) : System.Frugal pn out := by
  induction passed with
  | nil => exact nofun
  | stays twice follows budgeted later ih =>
    intro m there
    rcases List.mem_cons.mp there with rfl | after
    · exact budgeted
    · exact ih m after
  | fails twice later ih => exact ih

theorem survivors (passed : PassedOver pn outbox out turns) :
    ∃ kept, kept.Sublist outbox ∧ List.Forall₂ OutboundMsg.Follows kept out := by
  induction passed with
  | nil => exact ⟨[], .slnil, .nil⟩
  | @stays m _ _ _ _ _ twice follows budgeted later ih =>
    obtain ⟨kept, inside, all⟩ := ih
    exact ⟨m :: kept, inside.cons_cons m, .cons follows all⟩
  | @fails m _ _ _ _ twice later ih =>
    obtain ⟨kept, inside, all⟩ := ih
    exact ⟨kept, inside.cons m, all⟩

theorem count_le (passed : PassedOver pn outbox out turns) (key : TruncatedHash × Nat) :
    turns.count key ≤ 2 * (outbox.map OutboundMsg.key).count key := by
  induction passed with
  | nil => simp
  | @stays m _ _ _ _ n twice follows budgeted later ih =>
    rw [List.count_append, List.count_replicate, List.map_cons, List.count_cons]
    split <;> omega
  | @fails m _ _ _ n twice later ih =>
    rw [List.count_append, List.count_replicate, List.map_cons, List.count_cons]
    split <;> omega

end PassedOver

inductive Rounded (pn : Option TruncatedHash) (done : List OutboundMsg) (m : OutboundMsg)
    (rest : List OutboundMsg) (turns : List (TruncatedHash × Nat)) : Pass → Prop
  | kept {m' : OutboundMsg} {failures : List Mark} (follows : m.Follows m')
      (budgeted : m'.Budgeted pn) :
      Rounded pn done m rest turns
        ⟨done.length + 1, done ++ m' :: rest, failures, turns ++ [m.key]⟩
  | again {m' : OutboundMsg} {failures : List Mark} (straight : m.viaPn = false)
      (via : m'.viaPn = true) (follows : m.Follows m') (budgeted : m'.Budgeted pn) :
      Rounded pn done m rest turns ⟨done.length, done ++ m' :: rest, failures, turns ++ [m.key]⟩
  | failed {failures : List Mark} :
      Rounded pn done m rest turns ⟨done.length, done ++ rest, failures, turns ++ [m.key]⟩

theorem pumpRound_returns {m : OutboundMsg} (budgeted : m.Budgeted pn)
    (done rest : List OutboundMsg) (failures : List Mark) (turns : List (TruncatedHash × Nat)) :
    (pumpRound pn now answers ⟨done.length, done ++ m :: rest, failures, turns⟩).Returns
      (Rounded pn done m rest turns) := by
  have here : index (done ++ m :: rest) done.length = .ok m := by simp [index]
  simp only [pumpRound, here, ok_bind]
  have passed := budgeted.turn (answers (turns ++ [m.key]).length) now
  generalize (answers (turns ++ [m.key]).length).turn pn now m = turn at passed
  cases passed with
  | kept follows within =>
    refine .ok ?_
    simp only [List.set_append_right _ _ le_rfl, Nat.sub_self, List.set_cons_zero]
    exact .kept follows within
  | again straight via follows within =>
    refine .ok ?_
    simp only [List.set_append_right _ _ le_rfl, Nat.sub_self, List.set_cons_zero]
    exact .again straight via follows within
  | failed why =>
    refine .ok ?_
    simp only [List.eraseIdx_append_of_length_le le_rfl, Nat.sub_self, List.eraseIdx_cons_zero]
    exact .failed

theorem pumpLoop_more {s : Pass} (more : s.i < s.outbox.length) (steps : Nat) :
    pumpLoop pn now answers (steps + 1) s =
      pumpRound pn now answers s >>= pumpLoop pn now answers steps := by
  rw [pumpLoop, Checked.loop, if_pos (decide_eq_true more), bind_assoc]
  rfl

/-- Where a pass has ended that still had some messages to go. -/
def Ended (pn : Option TruncatedHash) (done rest : List OutboundMsg)
    (turns : List (TruncatedHash × Nat)) (last : Pass) : Prop :=
  ∃ out later, PassedOver pn rest out later ∧ last.outbox = done ++ out ∧ last.turns = turns ++ later

namespace Ended

variable {done rest : List OutboundMsg} {m m' : OutboundMsg} {turns : List (TruncatedHash × Nat)}
  {n : Nat} {last : Pass}

theorem stays (twice : n ≤ 2) (follows : m.Follows m') (budgeted : m'.Budgeted pn)
    (ended : Ended pn (done ++ [m']) rest (turns ++ List.replicate n m.key) last) :
    Ended pn done (m :: rest) turns last := by
  obtain ⟨out, later, passed, outbox, had⟩ := ended
  rw [List.append_assoc] at outbox had
  exact ⟨m' :: out, _, .stays twice follows budgeted passed, outbox, had⟩

theorem fails (twice : n ≤ 2) (ended : Ended pn done rest (turns ++ List.replicate n m.key) last) :
    Ended pn done (m :: rest) turns last := by
  obtain ⟨out, later, passed, outbox, had⟩ := ended
  rw [List.append_assoc] at had
  exact ⟨out, _, .fails twice passed, outbox, had⟩

end Ended

/-- A pass over messages within their budgets ends, after at most two turns for each of them. -/
theorem pumpLoop_returns (now : Nat) (answers : Nat → Answers) (done rest : List OutboundMsg)
    (frugal : System.Frugal pn rest) (failures : List Mark) (turns : List (TruncatedHash × Nat))
    {steps : Nat} (enough : 2 * rest.length < steps) :
    (pumpLoop pn now answers steps ⟨done.length, done ++ rest, failures, turns⟩).Returns
      (Ended pn done rest turns) := by
  induction rest generalizing done failures turns steps with
  | nil =>
    obtain ⟨steps, rfl⟩ : ∃ k, steps = k + 1 := ⟨steps - 1, by omega⟩
    rw [pumpLoop, Checked.loop, if_neg (by simp)]
    exact .ok ⟨[], [], .nil, rfl, by simp⟩
  | cons m rest ih =>
    have budgeted := frugal m List.mem_cons_self
    have others : System.Frugal pn rest := fun m there => frugal m (List.mem_cons_of_mem _ there)
    rw [List.length_cons] at enough
    obtain ⟨steps, rfl⟩ : ∃ k, steps = k + 2 := ⟨steps - 2, by omega⟩
    -- Once the message has had its last turn, the pass goes on with the rest.
    have stays (m' : OutboundMsg) (n : Nat) (failures : List Mark) {steps : Nat} (twice : n ≤ 2)
        (follows : m.Follows m') (within : m'.Budgeted pn) (enough : 2 * rest.length < steps) :
        (pumpLoop pn now answers steps
          ⟨done.length + 1, done ++ m' :: rest, failures, turns ++ List.replicate n m.key⟩).Returns
          (Ended pn done (m :: rest) turns) := by
      have next := ih (done ++ [m']) others failures (turns ++ List.replicate n m.key) enough
      rw [List.length_append, List.append_assoc] at next
      exact next.mono fun last => .stays twice follows within
    have fails (n : Nat) (failures : List Mark) {steps : Nat} (twice : n ≤ 2)
        (enough : 2 * rest.length < steps) :
        (pumpLoop pn now answers steps
          ⟨done.length, done ++ rest, failures, turns ++ List.replicate n m.key⟩).Returns
          (Ended pn done (m :: rest) turns) :=
      (ih done others failures _ enough).mono fun last => .fails twice
    rw [pumpLoop_more (by simp)]
    refine (pumpRound_returns budgeted done rest failures turns).bind fun next rounded => ?_
    cases rounded with
    | kept follows within => exact stays _ 1 _ (by omega) follows within (by omega)
    | failed => exact fails 1 _ (by omega) (by omega)
    | again straight via follows within =>
      -- The message is on its way to the node now, so its second turn is the last one.
      rw [pumpLoop_more (by simp)]
      refine (pumpRound_returns within done rest _ _).bind fun next rounded => ?_
      have both (key : TruncatedHash × Nat) :
          turns ++ [key] ++ [key] = turns ++ List.replicate 2 key := List.append_assoc ..
      cases rounded with
      | kept follows' within' =>
        rw [follows.key, both]
        exact stays _ 2 _ le_rfl (follows.trans follows') within' (by omega)
      | failed =>
        rw [follows.key, both]
        exact fails 2 _ le_rfl (by omega)
      | again straight' => rw [via] at straight'; cases straight'

/--
A pass over the outbox ends, whatever it is told, and keeps every message within its budgets.

Each message has at most two turns, and those that stay are followed from before the pass.
-/
theorem pass_within_budgets {cfg : Config} {identity : PrivateIdentity} {s : System}
    (run : ReflTransGen (System.Step cfg fun _ _ => True) (System.start identity) s)
    (now : Nat) (answers : Nat → Answers) :
    ∃ last, pumpOutbox cfg.propagationNode now answers (2 * s.shared.outbox.length + 1)
        s.shared.outbox = .ok last
      ∧ (∀ key, last.turns.count key ≤ 2 * (s.shared.outbox.map OutboundMsg.key).count key)
      ∧ (∀ m ∈ last.outbox, (m.viaPn = true → cfg.propagationNode.isSome = true)
        ∧ m.attempts ≤ MAX_ATTEMPTS ∧ m.directRounds ≤ MAX_DIRECT_ROUNDS)
      ∧ ∃ kept, kept.Sublist s.shared.outbox
        ∧ List.Forall₂ (fun m m' => m'.key = m.key ∧ (m.viaPn = true → m'.viaPn = true))
          kept last.outbox := by
  have frugal := System.frugal_run run
  obtain ⟨last, result, out, later, passed, outbox, turns⟩ :=
    pumpLoop_returns now answers [] s.shared.outbox frugal [] [] (Nat.lt_succ_self _)
  obtain ⟨kept, inside, all⟩ := passed.survivors
  refine ⟨last, result, ?_, ?_, kept, inside, ?_⟩
  · intro key
    rw [turns]
    exact passed.count_le key
  · intro m there
    rw [outbox] at there
    have budgeted := passed.frugal m there
    exact ⟨budgeted.node, budgeted.attempts, budgeted.rounds⟩
  · rw [outbox]
    exact all.imp fun m m' follows => ⟨follows.key, follows.viaPn⟩

/-- A pass over a message that was just queued, while nothing is known about its peer. -/
theorem pass_within_budgets_queued :
    (System.sampleEnd none [.post 0 System.samplePeer ['h', 'i']]).shared.outbox.length = 1
    ∧ ∃ last, pumpOutbox none 5 (fun _ => .silent) 3
        (System.sampleEnd none [.post 0 System.samplePeer ['h', 'i']]).shared.outbox = .ok last
      ∧ last.turns.count (System.samplePeer, 0) ≤ 2 := by
  have permitted : System.Permits (System.sampleConfig none) (fun _ _ => True)
      (System.start (Transport.sampleIdentity 1)) [.post 0 System.samplePeer ['h', 'i']] :=
    ⟨⟨by decide, by decide⟩, trivial, trivial⟩
  obtain ⟨last, result, twice, -⟩ :=
    pass_within_budgets (System.run_actAll permitted) 5 fun _ => .silent
  have single : (System.sampleEnd none [.post 0 System.samplePeer ['h', 'i']]).shared.outbox.map
      OutboundMsg.key = [(System.samplePeer, 0)] := rfl
  have length : (System.sampleEnd none [.post 0 System.samplePeer ['h', 'i']]).shared.outbox.length
      = 1 := by rw [← List.length_map, single, List.length_singleton]
  rw [System.sampleEnd] at single length ⊢
  rw [length] at result
  have most := twice (System.samplePeer, 0)
  rw [single, List.count_singleton_self] at most
  exact ⟨length, last, result, most⟩

end Ends

end LxmfChat
