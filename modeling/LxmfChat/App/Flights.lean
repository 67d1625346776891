import LxmfChat.App.Ending

/-! What awaits its proof: which message it belongs to and which link it went out on. -/

namespace LxmfChat

open Base

/-- The message awaits the same proof as before, by the same route and until the same time. -/
structure OutboundMsg.Rides (m m' : OutboundMsg) : Prop where
  key : m'.key = m.key
  inFlight : m'.inFlight = m.inFlight
  viaPn : m'.viaPn = m.viaPn
  nextAction : m'.nextAction = m.nextAction

theorem OutboundMsg.Rides.refl (m : OutboundMsg) : m.Rides m := ⟨rfl, rfl, rfl, rfl⟩

theorem OutboundMsg.heard_of_inFlight {m : OutboundMsg} {dest : TruncatedHash} {cost : Option Nat}
    {h : FullHash} (flies : (m.heard dest cost).inFlight = some h) : m.heard dest cost = m := by
  rw [OutboundMsg.heard] at flies ⊢
  split
  case isTrue idle =>
    -- A message that is woken has nothing in flight, and waking it sends nothing.
    rw [if_pos idle, idle.2.2] at flies
    cases flies
  case isFalse => rfl

/-- The data went out where a message of the peer's, or its copy for the node, may go. -/
inductive Goes (pn : Option TruncatedHash) (t : Transport) (b : Backchannels) (m : OutboundMsg)
    (x : Transmission) : Prop
  | out (straight : m.viaPn = false) (far : t.OpenTo x.link m.peer)
  | back (straight : m.viaPn = false) (seen : Nat) (far : b.lookup m.peer = some (x.link, seen))
  /-- As the copy for the propagation node, on a link to it. -/
  | stored (via : m.viaPn = true) (target : TruncatedHash) (node : pn = some target)
      (far : t.OpenTo x.link target) (copy : m.pnBlob = some x.data)

section Turns

variable {pn : Option TruncatedHash} {now : Nat} {syncLink : Option TruncatedHash}
  {t u : Transport} {b : Backchannels} {m m' : OutboundMsg} {o : Outcome} {h : FullHash}

theorem looks_suspectLink (pn : Option TruncatedHash) (now : Nat)
    (syncLink : Option TruncatedHash) (t : Transport) (m : OutboundMsg) :
    Transport.Looks now t (suspectLink pn now syncLink t m).1 := by
  rw [suspectLink.eq_def]
  split
  case isTrue =>
    -- In the direct phase it is the link to the peer, while attempts are left.
    split
    · exact Transport.looks_outboundLinkFor now t m.peer
    · exact .refl t
  case isFalse =>
    -- In the propagation phase it is the link to the node.
    cases pn with
    | none => exact .refl t
    | some target =>
      have looked := Transport.looks_outboundLinkFor now t target
      cases found : t.outboundLinkFor target now with
      | mk u link =>
        rw [found] at looked
        cases link <;> simpa only [found] using looked

theorem openTo_attemptFrom {lid target : TruncatedHash}
    (held : (attemptFrom pn now syncLink t m).OpenTo lid target) : t.OpenTo lid target := by
  rw [attemptFrom] at held
  split at held
  case isFalse => exact held
  case isTrue =>
    have looks := looks_suspectLink pn now syncLink t m
    rw [dropSuspect] at held
    cases found : suspectLink pn now syncLink t m with
    | mk u suspect =>
      rw [found] at looks held
      cases suspect with
      | none => exact looks.openTo held
      | some blamed =>
        -- The blamed link is gone; every other one is as it was.
        obtain ⟨link, open_, same⟩ := held
        refine looks.openTo ⟨link, ?_, same⟩
        by_cases gone : lid = blamed
        · simp [Transport.dropOutLink, Transport.removeOutLink, Capped.get_forget, gone] at open_
        · simpa [Transport.dropOutLink, Transport.removeOutLink, Capped.get_forget, gone] using open_

theorem Turned.loses (turned : Turned pn now syncLink t b m o) :
    (∀ {lid target}, o.transport.OpenTo lid target → t.OpenTo lid target)
      ∧ o.backchannels.Within b := by
  cases turned with
  | waits waiting => exact ⟨id, .refl b⟩
  | late ready past straight untried node => exact ⟨id, .refl b⟩
  | expires ready past looks => exact ⟨looks.openTo, .refl b⟩
  | unproven ready due => exact ⟨openTo_attemptFrom, .refl b⟩
  | attempts ready due within follows idle attempt =>
    cases attempt with
    | moves looks within' follows' inFlight stays =>
      exact ⟨fun held => openTo_attemptFrom (looks.openTo held), within'.trans within⟩
    | delivers straight looks within' follows' inFlight far sends =>
      -- Registering what is sent opens no link.
      refine ⟨fun held => openTo_attemptFrom (looks.openTo ?_), within'.trans within⟩
      cases sends <;> exact held
    | stores via node looks follows' inFlight far copy sends =>
      refine ⟨fun held => openTo_attemptFrom (looks.openTo ?_), within⟩
      cases sends <;> exact held
    | crashed via missing => exact ⟨openTo_attemptFrom, within⟩

/--
Everything that a turn can leave in flight.

It is what was in flight before, or what has just been sent.
-/
theorem Turned.flies (turned : Turned pn now syncLink t b m o)
    (stays : o.turn = .kept m' ∨ o.turn = .again m') (flies : m'.inFlight = some h) :
    (m' = m ∧ o = ⟨t, b, .kept m, none⟩)
    ∨ (m' = { m.escalate now with nextAction := now } ∧ m.inFlight = some h
        ∧ m.needsStamp = none ∧ m.deadline < now ∧ m.viaPn = false ∧ m.triedPn = false ∧ pn.isSome)
    ∨ ∃ x, o.sent = some x ∧ x.hash = h ∧ m.Follows m' ∧ Goes pn t b m' x := by
  cases turned with
  | waits waiting =>
    rcases stays with same | same <;> cases same
    exact .inl ⟨rfl, rfl⟩
  | late ready past straight untried node =>
    rcases stays with same | same <;> cases same
    exact .inr (.inl ⟨rfl, flies, ready, past, straight, untried, node⟩)
  | expires ready past looks => rcases stays with same | same <;> cases same
  | unproven ready due => rcases stays with same | same <;> cases same
  | @attempts b' idle' o ready due within follows idle attempt =>
    cases attempt with
    | moves looks within' follows' inFlight stays' =>
      -- An attempt that sends nothing leaves nothing in flight.
      have grounded : m'.inFlight = none := by
        rcases stays' with rfl | rfl <;> rcases stays with same | same <;> cases same <;>
          exact inFlight.trans idle
      rw [grounded] at flies
      cases flies
    | delivers straight looks within' follows' inFlight far sends =>
      rcases stays with same | same <;> cases same
      have follows'' := follows.trans follows'
      refine .inr (.inr ⟨_, rfl, Option.some.inj (inFlight.symm.trans flies), follows'', ?_⟩)
      rcases far with own | ⟨seen, theirs⟩
      · rw [← follows'.peer] at own
        exact .out straight (openTo_attemptFrom (looks.openTo own))
      · rw [← follows'.peer] at theirs
        exact .back straight seen (within _ _ theirs)
    | stores via node looks follows' inFlight far copy sends =>
      rcases stays with same | same <;> cases same
      have follows'' := follows.trans follows'
      refine .inr (.inr ⟨_, rfl, Option.some.inj (inFlight.symm.trans flies), follows'', ?_⟩)
      exact .stored (follows'.viaPn via) _ node (openTo_attemptFrom (looks.openTo far))
        (follows'.pnBlob.trans copy)
    | crashed via missing => rcases stays with same | same <;> cases same

end Turns

namespace System

variable {cfg : Config} {s : System} {a : Action} {m' : OutboundMsg} {h : FullHash}

theorem rides_stampOn {job : StampJob} {stamped : Bytes} {now : Nat} {m m' : OutboundMsg}
    (mined : job.stampOn stamped now m = some m') : m.Rides m' ∧ m'.pnBlob = m.pnBlob := by
  rw [StampJob.stampOn] at mined
  split at mined
  · cases mined
    exact ⟨⟨rfl, rfl, rfl, rfl⟩, rfl⟩
  · cases mined

theorem rides_replaceF_stampOn (job : StampJob) (stamped : Bytes) (now : Nat)
    (outbox : List OutboundMsg) :
    List.Forall₂ (fun m m' => m.Rides m' ∧ m'.pnBlob = m.pnBlob) outbox
      (outbox.replaceF (job.stampOn stamped now)) := by
  refine Tracked.forall₂_replaceF (fun m => ⟨.refl m, rfl⟩) ?_ outbox
  exact fun m m' mined => rides_stampOn mined

theorem rides_copyOn {job : BlobJob} {blob : Bytes} {m m' : OutboundMsg}
    (copied : job.copyOn blob m = some m') : m.Rides m' ∧ m.key = job.key := by
  rw [BlobJob.copyOn] at copied
  split at copied
  case isTrue same =>
    cases copied
    exact ⟨⟨rfl, rfl, rfl, rfl⟩, same⟩
  case isFalse => cases copied

theorem mem_handle_of_inFlight {index : Nat} (there : m' ∈ (s.handle cfg index).shared.outbox)
    (flies : m'.inFlight = some h) : m' ∈ s.shared.outbox := by
  rw [handle] at there
  cases reported : s.events[index]? with
  | none =>
    rw [reported] at there
    exact there
  | some event =>
    rw [reported] at there
    cases event with
    | announce dest info =>
      -- An announce that changes the outbox wakes the messages of its destination.
      simp only [handleEvent, announced] at there
      split at there
      · exact there
      · split at there
        · exact there
        · split at there
          · exact there
          · cases cost : lxmfStampCost info.appData with
            | error fault =>
              rw [cost] at there
              exact there
            | ok found =>
              rw [cost] at there
              obtain ⟨m, old, rfl⟩ := List.mem_map.mp there
              rw [OutboundMsg.heard_of_inFlight flies]
              exact old
    | delivered packetHash =>
      -- A proof only takes a message away.
      simp only [handleEvent, markDelivered] at there
      split at there
      · exact there
      · exact List.mem_of_mem_eraseP there
    | _ => exact there

theorem rides_endStamp {stamp : BytesN 32} (there : m' ∈ (s.endStamp stamp).shared.outbox) :
    ∃ m ∈ s.shared.outbox, m.Rides m' ∧ m'.pnBlob = m.pnBlob := by
  have unchanged {m : OutboundMsg} (old : m ∈ s.shared.outbox) :
      ∃ m₀ ∈ s.shared.outbox, m₀.Rides m ∧ m.pnBlob = m₀.pnBlob :=
    ⟨m, old, .refl m, rfl⟩
  rw [endStamp] at there
  cases taken : s.stampJob with
  | none =>
    rw [taken] at there
    exact unchanged there
  | some job =>
    simp only [taken] at there
    -- A stamp that costs too much or cannot be appended takes the message away.
    split at there
    · exact unchanged (List.mem_of_mem_filter there)
    · cases appended : Message.appendStamp job.packed stamp.val with
      | error fault =>
        rw [appended] at there
        exact unchanged there
      | ok result =>
        rw [appended] at there
        cases result with
        | none => exact unchanged (List.mem_of_mem_filter there)
        | some stamped =>
          exact Tracked.exists_of_mem_right (rides_replaceF_stampOn job stamped s.clock _) there

theorem rides_endBlob {eph : KeyHalf} {iv : Iv} {stamp : BytesN 32}
    (there : m' ∈ (s.endBlob cfg eph iv stamp).shared.outbox) :
    ∃ m ∈ s.shared.outbox, m.Rides m'
      ∧ (m'.pnBlob = m.pnBlob ∨ ∃ job ∈ s.blobJob, m.key = job.key) := by
  rw [endBlob] at there
  cases taken : s.blobJob with
  | none =>
    rw [taken] at there
    exact ⟨m', there, .refl m', .inl rfl⟩
  | some job =>
    rw [taken] at there
    obtain ⟨m, old, rides, same⟩ := Tracked.exists_of_mem_right
      (Tracked.forall₂_replaceF
        (R := fun m m' => m.Rides m' ∧ (m'.pnBlob = m.pnBlob ∨ m.key = job.key))
        (fun m => ⟨.refl m, .inl rfl⟩)
        (fun m m' copied => ⟨(rides_copyOn copied).1, .inr (rides_copyOn copied).2⟩) _) there
    exact ⟨m, old, rides, same.imp id fun key => ⟨job, rfl, key⟩⟩

theorem rides_act (noTurn : ∀ index now d, a ≠ .turn index now d)
    (there : m' ∈ (s.act cfg a).shared.outbox) (flies : m'.inFlight = some h) :
    ∃ m ∈ s.shared.outbox, m.Rides m'
      ∧ (m'.pnBlob = m.pnBlob ∨ ∃ job ∈ s.blobJob, m.key = job.key) := by
  have unchanged {m : OutboundMsg} (old : m ∈ s.shared.outbox) : ∃ m₀ ∈ s.shared.outbox,
      m₀.Rides m ∧ (m.pnBlob = m₀.pnBlob ∨ ∃ job ∈ s.blobJob, m₀.key = job.key) :=
    ⟨m, old, .refl m, .inl rfl⟩
  cases a with
  | turn index now d => exact absurd rfl (noTurn index now d)
  | post displayTs peer text =>
    -- The new message awaits nothing; the others are as they were.
    obtain ⟨tickets, same⟩ := takeTicket_shared s.clock peer s.shared
    simp only [act, LxmfChat.post, enqueueOutbound, same] at there
    rcases List.mem_append.mp there with old | new
    · exact unchanged old
    · rw [List.mem_singleton.mp new] at flies
      cases flies
  | handle index => exact unchanged (mem_handle_of_inFlight there flies)
  | endStamp stamp =>
    obtain ⟨m, old, rides, same⟩ := rides_endStamp there
    exact ⟨m, old, rides, .inl same⟩
  | endBlob eph iv stamp => exact rides_endBlob there
  | clearHistory peer => exact unchanged (List.mem_of_mem_filter there)
  | beginStamp =>
    rw [act, beginStamp] at there
    split at there <;> exact unchanged there
  | beginBlob =>
    rw [act, beginBlob] at there
    split at there
    · split at there <;> exact unchanged there
    · exact unchanged there
  | mark index =>
    rw [act, mark] at there
    split at there <;> exact unchanged there
  | tick _ | frame _ _ _ | other _ | reconnect | setSyncLink _ | storeTicket _ _ _ =>
    exact unchanged there

/-- The action concerns neither the clock nor the transport and its events nor what is sent. -/
def Inner : Action → Prop
  | .tick _ | .frame _ _ _ | .handle _ | .turn _ _ _ | .other _ | .reconnect => False
  | _ => True

theorem act_inner (cfg : Config) (a : Action) (inner : Inner a) :
    (s.act cfg a).shared.transport = s.shared.transport
      ∧ (s.act cfg a).shared.backchannels = s.shared.backchannels
      ∧ (s.act cfg a).events = s.events ∧ (s.act cfg a).clock = s.clock
      ∧ (s.act cfg a).history.ends = s.history.ends
      ∧ (s.act cfg a).history.sends = s.history.sends := by
  cases a with
  | tick _ | frame _ _ _ | handle _ | turn _ _ _ | other _ | reconnect => cases inner
  | post displayTs peer text =>
    obtain ⟨tickets, same⟩ := takeTicket_shared s.clock peer s.shared
    simp [act, LxmfChat.post, enqueueOutbound, same]
  | endStamp stamp =>
    rw [act, endStamp]
    split
    · exact ⟨rfl, rfl, rfl, rfl, rfl, rfl⟩
    · -- The stamp is too costly, or it can or cannot be appended.
      split
      · exact ⟨rfl, rfl, rfl, rfl, rfl, rfl⟩
      · split <;> exact ⟨rfl, rfl, rfl, rfl, rfl, rfl⟩
  | beginStamp =>
    rw [act, beginStamp]
    split <;> exact ⟨rfl, rfl, rfl, rfl, rfl, rfl⟩
  | beginBlob =>
    rw [act, beginBlob]
    split
    · split <;> exact ⟨rfl, rfl, rfl, rfl, rfl, rfl⟩
    · exact ⟨rfl, rfl, rfl, rfl, rfl, rfl⟩
  | endBlob eph iv stamp =>
    rw [act, endBlob]
    split <;> exact ⟨rfl, rfl, rfl, rfl, rfl, rfl⟩
  | mark index =>
    rw [act, mark]
    split <;> exact ⟨rfl, rfl, rfl, rfl, rfl, rfl⟩
  | setSyncLink _ | storeTicket _ _ _ | clearHistory _ => exact ⟨rfl, rfl, rfl, rfl, rfl, rfl⟩

theorem mem_afterTurn_key (orderly : s.core.Orderly) {index : Nat} {m : OutboundMsg} {o : Outcome}
    (found : s.shared.outbox[index]? = some m)
    (there : m' ∈ (s.afterTurn index m o).shared.outbox) :
    (m' ∈ s.shared.outbox ∧ m'.key ≠ m.key) ∨ o.turn = .kept m' ∨ o.turn = .again m'
      ∨ (o.turn = .crashed ∧ m' = m) := by
  rw [afterTurn] at there
  cases next : o.turn with
  | kept m₁ | again m₁ =>
    rw [next] at there
    rcases Tracked.mem_set_key orderly.held_nodup found there with rfl | old
    · simp
    · exact .inl old
  | failed why =>
    rw [next] at there
    exact .inl (Tracked.mem_of_leaves orderly.held_nodup (Tracked.perm_cons_eraseIdx found) there)
  | crashed =>
    rw [next] at there
    by_cases same : m'.key = m.key
    · -- The pass broke off at this message, which stays as it was.
      have unique := orderly.eq_of_key (List.mem_of_getElem? found) there same
      exact .inr (.inr (.inr ⟨rfl, unique⟩))
    · exact .inl ⟨there, same⟩

end System

end LxmfChat
