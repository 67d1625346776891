import LxmfChat.App.Turns
import LxmfChat.Base.Tracked

/-! A message's way through the outbox: it enters once and leaves once, with one final mark. -/

namespace LxmfChat

open Base

variable {pn syncLink : Option TruncatedHash} {now : Nat} {t : Transport} {b : Backchannels}
  {o : Outcome}

/-- A message to the peer as it is packed without a ticket, with four payload elements. -/
def Unstamped (cfg : Config) (peer : TruncatedHash) (packed : Bytes) : Prop :=
  ∃ source now content, content.length < 2 ^ 31
    ∧ packed = (Message.pack cfg.crypto source peer cfg.ourDh (Double.ofNat now)
        [] content [] none).packed

/-- A message that an announced stamp cost makes mine a stamp. -/
def OutboundMsg.Arms (m : OutboundMsg) : Prop :=
  m.attempts = 0 ∧ m.inFlight = none ∧ m.stamped = false ∧ m.needsStamp = none

/-- What the steps of a run are confined to: which messages may be armed and stamped, and clearing. -/
structure Limits where
  mayArm : OutboundMsg → Prop := fun _ => True
  mayStamp : OutboundMsg → Prop := fun _ => True
  mayClear : Prop := True

/-- What changing a message in its place never does. -/
structure OutboundMsg.Evolves (mayArm : OutboundMsg → Prop) (m m' : OutboundMsg) : Prop where
  peer : m'.peer = m.peer
  displayTs : m'.displayTs = m.displayTs
  packed : m'.packed = m.packed
  stamped : m'.stamped = m.stamped
  held : m.needsStamp.isSome → m'.needsStamp = m.needsStamp ∧ m'.inFlight = m.inFlight
  armed : m.needsStamp = none → m'.needsStamp.isSome → m.Arms ∧ m'.inFlight = none ∧ mayArm m

/-- The part of the system that the way of a message runs through. -/
structure Core where
  outbox : List OutboundMsg
  stampJob : Option StampJob
  blobJob : Option BlobJob
  decided : List Mark
  marks : List Mark
  posted : List (TruncatedHash × Nat)
  mined : List (TruncatedHash × Nat)

/-- Everything a step can do to the way of a message. -/
inductive Moves (cfg : Config) (limits : Limits) (c : Core) : Core → Prop
  | stays : Moves cfg limits c c
  | posts {m : OutboundMsg} (fresh : m.key ∉ c.posted) (idle : m.inFlight = none)
      (plain : m.stamped = false → Unstamped cfg m.peer m.packed)
      (ticketed : m.stamped = true → m.needsStamp = none) (bare : m.pnBlob = none) :
      Moves cfg limits c { c with outbox := c.outbox ++ [m], posted := c.posted ++ [m.key] }
  | changes {outbox : List OutboundMsg}
      (evolves : List.Forall₂ (fun m m' => m.Evolves limits.mayArm m' ∧ m'.pnBlob = m.pnBlob)
        c.outbox outbox) :
      Moves cfg limits c { c with outbox }
  | retires {m : OutboundMsg} {outbox : List OutboundMsg} {status : Status} {note : Note}
      (leaves : c.outbox.Perm (m :: outbox)) (cause : m.needsStamp = none ∨ m.inFlight.isSome)
      (stampable : note ≠ .couldNotStamp) :
      Moves cfg limits c { c with outbox, decided := c.decided ++ [m.mark status note] }
  | begins {m : OutboundMsg} (free : c.stampJob = none) (alone : c.blobJob = none)
      (there : m ∈ c.outbox) (needs : m.needsStamp.isSome) :
      Moves cfg limits c { c with
        stampJob := some ⟨m.peer, m.displayTs, m.text, m.packed, m.needsStamp.getD 0⟩ }
  | stamps {job : StampJob} {stamped : Bytes} {now : Nat} (taken : c.stampJob = some job)
      (may : ∀ m ∈ c.outbox, m.key = job.key → limits.mayStamp m) :
      Moves cfg limits c { c with
        outbox := c.outbox.replaceF (job.stampOn stamped now)
        stampJob := none
        mined := c.mined ++ [job.key] }
  | refuses {job : StampJob} {why : Note} (taken : c.stampJob = some job)
      (reason : why = .couldNotStamp →
        ∃ stamp : Bytes, Message.appendStamp job.packed stamp = .ok none) :
      Moves cfg limits c { c with
        outbox := c.outbox.filter fun m => m.key ≠ job.key
        stampJob := none
        decided := c.decided ++ [⟨job.peer, job.displayTs, job.text, .failed, why⟩] }
  | takes {m : OutboundMsg} {known : KnownDest} (alone : c.stampJob = none) (there : m ∈ c.outbox)
      (bare : m.pnBlob = none) :
      Moves cfg limits c { c with blobJob := some ⟨m.peer, m.displayTs, m.packed, known⟩ }
  | copies {job : BlobJob} {eph : KeyHalf} {iv : Iv} {now : Nat} {stamp : BytesN 32}
      (taken : c.blobJob = some job) :
      Moves cfg limits c { c with
        outbox := c.outbox.replaceF (job.copyOn (job.blob cfg eph iv now stamp))
        blobJob := none }
  | marks {index : Nat} {mark : Mark} (found : c.decided[index]? = some mark) :
      Moves cfg limits c { c with
        decided := c.decided.eraseIdx index, marks := c.marks ++ [mark] }
  | clears (peer : TruncatedHash) (may : limits.mayClear) :
      Moves cfg limits c { c with outbox := c.outbox.filter fun m => m.peer ≠ peer }

namespace System

def core (s : System) : Core where
  outbox := s.shared.outbox
  stampJob := s.stampJob
  blobJob := s.blobJob
  decided := s.decided
  marks := s.marks
  posted := s.history.posted
  mined := s.history.mined

end System

namespace OutboundMsg.Evolves

variable {mayArm : OutboundMsg → Prop} {m m' : OutboundMsg}

theorem refl (m : OutboundMsg) : m.Evolves mayArm m :=
  ⟨rfl, rfl, rfl, rfl, fun _ => ⟨rfl, rfl⟩, fun none some => by simp [none] at some⟩

theorem key (evolves : m.Evolves mayArm m') : m'.key = m.key := by
  rw [OutboundMsg.key, evolves.peer, evolves.displayTs, OutboundMsg.key]

theorem of_follows (follows : m.Follows m') (ready : m.needsStamp = none) :
    m.Evolves mayArm m' where
  peer := follows.peer
  displayTs := follows.displayTs
  packed := follows.packed
  stamped := follows.stamped
  held unmined := by simp [ready] at unmined
  armed _ unmined := by simp [follows.needsStamp, ready] at unmined

theorem heard (m : OutboundMsg) (dest : TruncatedHash) (cost : Option Nat)
    (may : cost.isSome → m.peer = dest → m.Arms → mayArm m) :
    m.Evolves mayArm (m.heard dest cost) := by
  rw [OutboundMsg.heard]
  split
  case isFalse => exact .refl m
  case isTrue waiting =>
    obtain ⟨same, unsent, idle⟩ := waiting
    refine ⟨rfl, rfl, rfl, rfl, fun unmined => ?_, fun ready unmined => ?_⟩
    · simp [Option.isNone_iff_eq_none, Option.isSome_iff_ne_none.mp unmined]
    · -- Without a ticket stamp the announced cost is what the message now needs.
      simp only [ready, Option.isNone_none, Bool.and_true, Bool.not_eq_eq_eq_not,
        Bool.not_true] at unmined
      split at unmined
      case isFalse => simp at unmined
      case isTrue plain =>
        have arms : m.Arms := ⟨unsent, idle, plain, ready⟩
        exact ⟨arms, idle, may unmined same arms⟩

end OutboundMsg.Evolves

theorem OutboundMsg.heard_pnBlob (m : OutboundMsg) (dest : TruncatedHash) (cost : Option Nat) :
    (m.heard dest cost).pnBlob = m.pnBlob := by
  rw [OutboundMsg.heard]
  split <;> rfl

theorem evolves_copyOn (mayArm : OutboundMsg → Prop) (job : BlobJob) (blob : Bytes)
    (outbox : List OutboundMsg) :
    List.Forall₂ (OutboundMsg.Evolves mayArm) outbox (outbox.replaceF (job.copyOn blob)) := by
  refine Tracked.forall₂_replaceF .refl ?_ outbox
  intro m m' copied
  rw [BlobJob.copyOn] at copied
  split at copied
  · cases copied
    exact ⟨rfl, rfl, rfl, rfl, fun _ => ⟨rfl, rfl⟩, fun none some => by simp [none] at some⟩
  · cases copied

theorem Turned.follows {m m' : OutboundMsg} (turned : Turned pn now syncLink t b m o)
    (stays : o.turn = .kept m' ∨ o.turn = .again m') :
    m.Follows m' ∧ (m' = m ∨ m.needsStamp = none) := by
  cases turned with
  | waits waiting =>
    rcases stays with same | same <;> cases same
    exact ⟨.refl m, .inl rfl⟩
  | late ready past straight untried node =>
    rcases stays with same | same <;> cases same
    exact ⟨⟨rfl, rfl, rfl, rfl, rfl, rfl, rfl, fun _ => rfl⟩, .inr ready⟩
  | expires ready past looks => rcases stays with same | same <;> cases same
  | unproven ready due => rcases stays with same | same <;> cases same
  | attempts ready due within follows idle attempt =>
    cases attempt with
    | moves looks within follows' inFlight stays' =>
      rcases stays' with rfl | rfl <;> rcases stays with same | same <;> cases same <;>
        exact ⟨follows.trans follows', .inr ready⟩
    | delivers straight looks within follows' inFlight far sends =>
      rcases stays with same | same <;> cases same
      exact ⟨follows.trans follows', .inr ready⟩
    | stores via node looks follows' inFlight far copy sends =>
      rcases stays with same | same <;> cases same
      exact ⟨follows.trans follows', .inr ready⟩
    | crashed via missing => rcases stays with same | same <;> cases same

theorem Turned.evolves {mayArm : OutboundMsg → Prop} {m m' : OutboundMsg}
    (turned : Turned pn now syncLink t b m o) (stays : o.turn = .kept m' ∨ o.turn = .again m') :
    m.Evolves mayArm m' ∧ m'.pnBlob = m.pnBlob := by
  obtain ⟨follows, rfl | ready⟩ := turned.follows stays
  · exact ⟨.refl m', rfl⟩
  · exact ⟨.of_follows follows ready, follows.pnBlob⟩

theorem Turned.ready_of_failed {m : OutboundMsg} {why : PumpFailure}
    (turned : Turned pn now syncLink t b m o) (failed : o.turn = .failed why) :
    m.needsStamp = none := by
  cases turned with
  | waits waiting => cases failed
  | late ready past straight untried node => cases failed
  | expires ready past looks => exact ready
  | unproven ready due => exact ready
  | attempts ready due within follows idle attempt => exact ready

/-- The peer and the stamp cost that an event makes known, if it is a peer's announce of one. -/
def armedBy (cfg : Config) : Event → Option (TruncatedHash × Nat)
  | .announce dest info =>
    if dest = cfg.ourDh then none
    else if info.nameHash = nomadNodeNameHash cfg then none
    else if info.nameHash ≠ lxmfDeliveryNameHash cfg then none
    else
      match lxmfStampCost info.appData with
      | .ok (some cost) => some (dest, cost)
      | _ => none
  | _ => none

def System.Respects (cfg : Config) (limits : Limits) (s : System) : Action → Prop
  | .handle index => ∀ event ∈ s.events[index]?, ∀ known ∈ armedBy cfg event,
      ∀ m ∈ s.shared.outbox, m.peer = known.1 → m.Arms → limits.mayArm m
  | .endStamp _ => ∀ job ∈ s.stampJob, ∀ m ∈ s.shared.outbox, m.key = job.key → limits.mayStamp m
  | .clearHistory _ => limits.mayClear
  | _ => True

namespace System

variable {cfg : Config} {limits : Limits} {mayArm : OutboundMsg → Prop} {s : System}

theorem takeTicket_shared (now : Nat) (peer : TruncatedHash) (s : Shared) :
    ∃ tickets, (takeTicket now peer s).1 = { s with tickets := tickets } := by
  rw [takeTicket]
  split
  · exact ⟨s.tickets, rfl⟩
  · split
    · exact ⟨s.tickets.erase peer, rfl⟩
    · exact ⟨s.tickets, rfl⟩

theorem moves_post {displayTs : Nat} {peer : TruncatedHash} {text : Text}
    (enabled : s.Enabled (.post displayTs peer text)) :
    Moves cfg limits s.core (s.act cfg (.post displayTs peer text)).core := by
  obtain ⟨fresh, short⟩ := enabled
  -- Whether there is a ticket decides both flags and the payload.
  obtain ⟨tickets, same⟩ := takeTicket_shared s.clock peer s.shared
  cases ticket : takeTicket s.clock peer s.shared with
  | mk shared found =>
    simp only [ticket] at same
    have outbox : shared.outbox = s.shared.outbox := by
      rw [same]
    simp only [System.act, System.core, LxmfChat.post, ticket, enqueueOutbound, outbox]
    refine .posts (c := s.core) fresh rfl ?_ ?_ rfl
    · intro plain
      have missing : found = none := by simpa using plain
      exact ⟨shared.transport.identity, s.clock, utf8Encode text, short, by rw [missing]⟩
    · intro ticketed
      rw [if_pos ticketed]

theorem moves_announced {dest : TruncatedHash} {info : KnownDest}
    (may : ∀ known ∈ armedBy cfg (.announce dest info), ∀ m ∈ s.shared.outbox,
      m.peer = known.1 → m.Arms → mayArm m) :
    List.Forall₂ (fun m m' => m.Evolves mayArm m' ∧ m'.pnBlob = m.pnBlob) s.shared.outbox
      (announced cfg dest info s.shared).outbox := by
  have unchanged : List.Forall₂ (fun m m' => m.Evolves mayArm m' ∧ m'.pnBlob = m.pnBlob)
      s.shared.outbox s.shared.outbox :=
    List.forall₂_same.mpr fun m _ => ⟨.refl m, rfl⟩
  rw [announced]
  split
  · exact unchanged
  case isFalse notOurs =>
    split
    · exact unchanged
    case isFalse notNode =>
      split
      · exact unchanged
      case isFalse delivery =>
        cases cost : lxmfStampCost info.appData with
        | error fault => exact unchanged
        | ok found =>
          refine List.forall₂_map_right_iff.mpr (List.forall₂_same.mpr fun m there => ?_)
          refine ⟨.heard m dest found fun some same arms => ?_, OutboundMsg.heard_pnBlob ..⟩
          obtain ⟨c, rfl⟩ := Option.isSome_iff_exists.mp some
          refine may (dest, c) ?_ m there same arms
          simp only [armedBy, if_neg notOurs, if_neg notNode, if_neg delivery, cost, Option.mem_def]

theorem moves_markDelivered (h : FullHash) :
    Moves cfg limits s.core
      { s with
        shared := (markDelivered h s.shared).1
        decided := s.decided ++ (markDelivered h s.shared).2 }.core := by
  cases found : s.shared.outbox.find? fun m => m.inFlight = some h with
  | none =>
    simp only [markDelivered, found, List.append_nil]
    exact .stays
  | some m =>
    have flying : m.inFlight = some h := by simpa using List.find?_some found
    have leaves : s.shared.outbox.Perm
        (m :: s.shared.outbox.eraseP fun m => m.inFlight = some h) :=
      Tracked.perm_cons_eraseP found
    simp only [markDelivered, found]
    split
    · exact .retires (c := s.core) leaves (.inr (by simp [flying])) Note.noConfusion
    · exact .retires (c := s.core) leaves (.inr (by simp [flying])) Note.noConfusion

theorem moves_handle {index : Nat} (may : s.Respects cfg limits (.handle index)) :
    Moves cfg limits s.core (s.handle cfg index).core := by
  rw [System.handle]
  cases reported : s.events[index]? with
  | none => exact .stays
  | some event =>
    cases event with
    | announce dest info =>
      have evolves := moves_announced fun known armed => may _ reported known armed
      simp only [handleEvent, core, List.append_nil]
      exact .changes (c := s.core) evolves
    | delivered h => exact moves_markDelivered h
    | _ =>
      simp only [handleEvent, core, List.append_nil]
      exact .stays

theorem moves_turn (index now : Nat) (d : Draw) :
    Moves cfg limits s.core (s.turn cfg index now d).core := by
  rw [System.turn]
  cases there : s.shared.outbox[index]? with
  | none => exact .stays
  | some m =>
    have turned : Turned cfg.propagationNode now s.shared.syncLink s.shared.transport
        s.shared.backchannels m (s.turnOf cfg m now d) := pumpMessage_turned _ _ _ _ _
    dsimp only
    generalize s.turnOf cfg m now d = o at turned ⊢
    rw [System.afterTurn]
    cases next : o.turn with
    | kept m' =>
      exact .changes (c := s.core)
        (Tracked.forall₂_set (fun m => ⟨.refl m, rfl⟩) there (turned.evolves (.inl next)))
    | again m' =>
      exact .changes (c := s.core)
        (Tracked.forall₂_set (fun m => ⟨.refl m, rfl⟩) there (turned.evolves (.inr next)))
    | failed why =>
      exact .retires (c := s.core) (Tracked.perm_cons_eraseIdx there)
        (.inl (turned.ready_of_failed next)) Note.noConfusion
    | crashed => exact .stays

theorem moves_beginStamp (alone : s.blobJob = none) :
    Moves cfg limits s.core s.beginStamp.core := by
  rw [System.beginStamp]
  split
  case h_1 m free found =>
    have needs : m.needsStamp.isSome := by
      simpa using List.find?_some found
    exact .begins (c := s.core) free alone (List.mem_of_find?_eq_some found) needs
  case h_2 => exact .stays

theorem moves_endStamp (stamp : BytesN 32) (may : s.Respects cfg limits (.endStamp stamp)) :
    Moves cfg limits s.core (s.endStamp stamp).core := by
  rw [System.endStamp]
  cases taken : s.stampJob with
  | none => exact .stays
  | some job =>
    dsimp only
    split
    case isTrue costly => exact .refuses (c := s.core) taken Note.noConfusion
    case isFalse =>
      cases appended : Message.appendStamp job.packed stamp.val with
      | error fault => exact .stays
      | ok result =>
        cases result with
        | none => exact .refuses (c := s.core) taken fun _ => ⟨stamp.val, appended⟩
        | some stamped => exact .stamps (c := s.core) taken (may job taken)

theorem moves_beginBlob (alone : s.stampJob = none) : Moves cfg limits s.core s.beginBlob.core := by
  rw [System.beginBlob]
  split
  case h_1 m free found =>
    have lacks := List.find?_some found
    simp only [Bool.and_eq_true, Option.isNone_iff_eq_none] at lacks
    cases s.shared.transport.known.get m.peer with
    | none => exact .stays
    | some known => exact .takes (c := s.core) alone (List.mem_of_find?_eq_some found) lacks.2
  case h_2 => exact .stays

theorem moves_endBlob (eph : KeyHalf) (iv : Iv) (stamp : BytesN 32) :
    Moves cfg limits s.core (s.endBlob cfg eph iv stamp).core := by
  rw [System.endBlob]
  cases taken : s.blobJob with
  | none => exact .stays
  | some job => exact .copies (c := s.core) taken

theorem moves_act (a : Action) (enabled : s.Enabled a) (may : s.Respects cfg limits a) :
    Moves cfg limits s.core (s.act cfg a).core := by
  cases a with
  | post displayTs peer text => exact moves_post enabled
  | handle index => exact moves_handle may
  | turn index now d => exact moves_turn index now d
  | beginStamp => exact moves_beginStamp enabled
  | endStamp stamp => exact moves_endStamp stamp may
  | beginBlob => exact moves_beginBlob enabled
  | endBlob eph iv stamp => exact moves_endBlob eph iv stamp
  | mark index =>
    rw [System.act, System.mark]
    cases found : s.decided[index]? with
    | none => exact .stays
    | some mark => exact .marks (c := s.core) found
  | clearHistory peer => exact .clears (c := s.core) peer may
  | tick _ | frame _ _ _ | other _ | reconnect | setSyncLink _ | storeTicket _ _ _ => exact .stays

theorem moves_step {allowed : System → Action → Prop} {s' : System}
    (step : Step cfg allowed s s') (may : ∀ a, allowed s a → s.Respects cfg limits a) :
    Moves cfg limits s.core s'.core := by
  cases step with
  | act a enabled fine => exact moves_act a enabled (may a fine)
  | reorder t same => exact .stays

theorem respects_all (s : System) (a : Action) : s.Respects cfg {} a := by
  cases a with
  | handle index => exact fun _ _ _ _ _ _ _ _ => trivial
  | endStamp stamp => exact fun _ _ _ _ _ => trivial
  | _ => trivial

end System

end LxmfChat
