import LxmfChat.App.Confirmations
import LxmfChat.App.Copies
import LxmfChat.App.Flights

/-! Which route a confirmed message took, and what its final mark says about it. -/

namespace LxmfChat

open Base
open Relation (ReflTransGen)

theorem Transport.openTo_handleFrame {crypto : Crypto} {t : Transport} {raw : Bytes}
    {ephemeral : KeyHalf} {iface : PathIface} {lid target : TruncatedHash}
    (held : (t.handleFrame crypto raw ephemeral iface).1.OpenTo lid target) :
    t.OpenTo lid target
      ∨ (t.handleFrame crypto raw ephemeral iface).2 = .outboundLinkUp lid target := by
  rcases @handleFrame_cases crypto t raw ephemeral iface with
    ⟨p, -, effect⟩ | ⟨reason, result⟩
  · generalize t.handleFrame crypto raw ephemeral iface = handled at effect held ⊢
    obtain ⟨u, event⟩ := handled
    obtain ⟨link, held, rfl⟩ := held
    cases effect with
    | @linkUp pend key kind context pending completed =>
      by_cases same : lid = p.destinationHash
      · -- The new link leads to the destination it was requested for.
        subst same
        cases (Capped.get_insert_self MAX_OUT_LINKS _ _ t.outLinks).symm.trans held
        exact .inr rfl
      · exact .inl ⟨link, Capped.get_of_get_insert same held, rfl⟩
    | outLinkClosed kind context open_ named =>
      simp only [Capped.get_forget] at held
      split at held
      · cases held
      · exact .inl ⟨link, held, rfl⟩
    | _ => exact .inl ⟨link, held, rfl⟩
  · rw [result] at held
    exact .inl held

namespace Core

variable {cfg : Config} {limits : Limits} {c c' : Core}

/-- The message that is being copied for the node has no copy yet. -/
structure Uncopied (c : Core) : Prop where
  bare : ∀ job ∈ c.blobJob, ∀ m ∈ c.outbox, m.key = job.key → m.pnBlob = none
  posted : ∀ job ∈ c.blobJob, job.key ∈ c.posted

namespace Uncopied

theorem subset (uncopied : c.Uncopied) {outbox : List OutboundMsg}
    (stays : ∀ m ∈ outbox, m ∈ c.outbox) : Uncopied { c with outbox } :=
  { uncopied with bare := fun job taken m there => uncopied.bare job taken m (stays m there) }

theorem changed (uncopied : c.Uncopied) {outbox : List OutboundMsg}
    (same : List.Forall₂ (fun m m' => m'.key = m.key ∧ m'.pnBlob = m.pnBlob) c.outbox outbox) :
    Uncopied { c with outbox } := by
  refine { uncopied with bare := fun job taken m' there key => ?_ }
  obtain ⟨m, old, sameKey, sameCopy⟩ := Tracked.exists_of_mem_right same there
  rw [sameCopy]
  exact uncopied.bare job taken m old (sameKey ▸ key)

theorem keeps (uncopied : c.Uncopied) (orderly : c.Orderly) (moves : Moves cfg limits c c') :
    c'.Uncopied := by
  cases moves with
  | stays => exact uncopied
  | @posts m fresh idle plain ticketed bare =>
    refine ⟨fun job taken other there key => ?_, fun job taken => ?_⟩
    · rcases List.mem_append.mp there with old | new
      · exact uncopied.bare job taken other old key
      · rw [List.mem_singleton.mp new]
        exact bare
    · exact List.mem_append_left _ (uncopied.posted job taken)
  | changes evolves =>
    exact uncopied.changed (evolves.imp fun m m' both => ⟨both.1.key, both.2⟩)
  | retires leaves cause fine =>
    have fewer := uncopied.subset fun m there => leaves.mem_iff.mpr (List.mem_cons_of_mem _ there)
    exact { fewer with }
  | begins free alone there needs => exact { uncopied with }
  | @stamps job stamped now taken may =>
    -- A stamp changes neither the key nor the copy.
    have same := uncopied.changed ((System.rides_replaceF_stampOn job stamped now c.outbox).imp
      fun m m' both => ⟨both.1.key, both.2⟩)
    exact { same with }
  | @refuses job why taken reason =>
    have fewer : Uncopied { c with outbox := c.outbox.filter fun m => m.key ≠ job.key } :=
      uncopied.subset fun m there => List.mem_of_mem_filter there
    exact { fewer with }
  | @takes m known alone there bare =>
    refine ⟨?_, ?_⟩
    · -- The message of a key is the only one of it.
      rintro _ ⟨⟩ other otherThere same
      rw [← orderly.eq_of_key there otherThere same] at bare
      exact bare
    · rintro _ ⟨⟩
      exact orderly.posted _ (mem_keys_of_mem there)
  | copies taken => exact ⟨(fun _ none => nomatch none), fun _ none => nomatch none⟩
  | marks found => exact { uncopied with }
  | clears peer may => exact uncopied.subset fun m there => List.mem_of_mem_filter there

end Uncopied

end Core

namespace System

variable {cfg : Config} {s s' : System}

/-- Every link that data may be sent on is known to lead where the data is for. -/
structure Charted (cfg : Config) (s : System) : Prop where
  out : ∀ lid target, s.shared.transport.OpenTo lid target → (lid, target) ∈ s.history.ends
  back : ∀ peer lid seen, s.shared.backchannels.lookup peer = some (lid, seen) →
    (lid, peer) ∈ s.history.ends
  /-- So it is for links whose initiator has identified itself but is not noted yet. -/
  reported : ∀ lid identity, .linkIdentified lid identity ∈ s.events →
    (lid, deliveryDestination cfg identity) ∈ s.history.ends

namespace Charted

theorem fewer (charted : s.Charted cfg) (ends : s'.history.ends = s.history.ends)
    (out : ∀ lid target, s'.shared.transport.OpenTo lid target →
      s.shared.transport.OpenTo lid target)
    (back : ∀ peer lid seen, s'.shared.backchannels.lookup peer = some (lid, seen) →
      ∃ before, s.shared.backchannels.lookup peer = some (lid, before))
    (reported : ∀ event ∈ s'.events, event ∈ s.events) : s'.Charted cfg where
  out lid target held := ends ▸ charted.out lid target (out lid target held)
  back peer lid seen held := by
    obtain ⟨before, held⟩ := back peer lid seen held
    exact ends ▸ charted.back peer lid before held
  reported lid identity event := ends ▸ charted.reported lid identity (reported _ event)

theorem unmoved (charted : s.Charted cfg) (ends : s'.history.ends = s.history.ends)
    (transport : s'.shared.transport = s.shared.transport)
    (backchannels : s'.shared.backchannels = s.shared.backchannels)
    (events : s'.events = s.events) : s'.Charted cfg :=
  charted.fewer ends (fun _ _ held => transport ▸ held)
    (fun _ _ seen held => ⟨seen, backchannels ▸ held⟩) fun _ there => events ▸ there

theorem frame (charted : s.Charted cfg) (raw : Bytes) (ephemeral : KeyHalf) (iface : PathIface) :
    (s.frame cfg raw ephemeral iface).Charted cfg := by
  have ends : (s.frame cfg raw ephemeral iface).history.ends = s.history.ends
      ++ (farEnd cfg (s.shared.transport.handleFrame cfg.crypto raw ephemeral iface).2).toList := rfl
  refine ⟨fun lid target held => ?_, fun peer lid seen held => ?_, fun lid identity event => ?_⟩
  all_goals rw [ends]
  · rcases Transport.openTo_handleFrame held with old | up
    · exact List.mem_append_left _ (charted.out lid target old)
    · rw [up]
      exact List.mem_append_right _ (List.mem_singleton_self _)
  · exact List.mem_append_left _ (charted.back peer lid seen held)
  · rcases List.mem_append.mp event with old | new
    · exact List.mem_append_left _ (charted.reported lid identity old)
    · -- The event is the one of this frame.
      have same : (s.shared.transport.handleFrame cfg.crypto raw ephemeral iface).2
          = .linkIdentified lid identity := (List.mem_singleton.mp new).symm
      rw [same]
      exact List.mem_append_right _ (List.mem_singleton_self _)

theorem handle (charted : s.Charted cfg) (index : Nat) : (s.handle cfg index).Charted cfg := by
  rw [System.handle]
  cases found : s.events[index]? with
  | none => exact charted
  | some event =>
    have rest : ∀ other ∈ s.events.eraseIdx index, other ∈ s.events :=
      fun other there => List.mem_of_mem_eraseIdx there
    cases event with
    | linkIdentified lid identity =>
      refine ⟨fun lid target held => ?_, fun peer other seen held => ?_, fun lid identity there =>
        charted.reported lid identity (rest _ there)⟩
      · -- The peer may become known; no link changes.
        refine charted.out lid target ?_
        simp only [handleEvent, identified] at held
        split at held <;> exact held
      · simp only [handleEvent, identified] at held
        by_cases same : peer = deliveryDestination cfg identity
        · rw [same, AList.lookup_insert] at held
          cases held
          rw [same]
          exact charted.reported lid identity (List.mem_of_getElem? found)
        · rw [AList.lookup_insert_ne same] at held
          exact charted.back peer other seen held
    | linkData lid _ _ | linkKeepalive lid _ =>
      -- Traffic refreshes the time a backchannel was last used.
      refine charted.fewer rfl (fun _ _ held => held) (fun peer other seen held => ?_) rest
      simp only [handleEvent, refreshed, Table.lookup_mapValues, Option.map_eq_some_iff] at held
      obtain ⟨e, before, changed⟩ := held
      refine ⟨e.2, before.trans ?_⟩
      split at changed <;> cases changed <;> rfl
    | inLinkClosed lid =>
      refine charted.fewer rfl (fun _ _ held => held) (fun peer other seen held => ?_) rest
      exact ⟨seen, Table.lookup_of_lookup_retain held⟩
    | announce dest info =>
      -- An announce changes stamp costs and the outbox at most.
      refine charted.fewer rfl (fun _ _ held => ?_) (fun _ _ seen held => ⟨seen, ?_⟩) rest
      all_goals
        simp only [handleEvent, announced] at held
        split at held
        · exact held
        · split at held
          · exact held
          · split at held
            · exact held
            · split at held <;> exact held
    | delivered packetHash =>
      refine charted.fewer rfl (fun _ _ held => ?_) (fun _ _ seen held => ⟨seen, ?_⟩) rest
      all_goals
        simp only [handleEvent, markDelivered] at held
        split at held <;> exact held
    | _ => exact charted.fewer rfl (fun _ _ held => held) (fun _ _ seen held => ⟨seen, held⟩) rest

theorem turn (charted : s.Charted cfg) (index now : Nat) (d : Draw) :
    (s.turn cfg index now d).Charted cfg := by
  rw [System.turn]
  cases there : s.shared.outbox[index]? with
  | none => exact charted
  | some m =>
    have turned : Turned cfg.propagationNode now s.shared.syncLink s.shared.transport
        s.shared.backchannels m (s.turnOf cfg m now d) := pumpMessage_turned _ _ _ _ _
    dsimp only
    generalize s.turnOf cfg m now d = o at turned ⊢
    have shared : (s.afterTurn index m o).shared.transport = o.transport
        ∧ (s.afterTurn index m o).shared.backchannels = o.backchannels
        ∧ (s.afterTurn index m o).events = s.events
        ∧ (s.afterTurn index m o).history.ends = s.history.ends := by
      rw [afterTurn]
      split <;> exact ⟨rfl, rfl, rfl, rfl⟩
    obtain ⟨transport, backchannels, events, ends⟩ := shared
    refine charted.fewer ends (fun lid target held => turned.loses.1 (transport ▸ held))
      (fun peer lid seen held => ⟨seen, turned.loses.2 peer _ (backchannels ▸ held)⟩)
      (fun event there => events ▸ there)

theorem act (charted : s.Charted cfg) {a : Action} (enabled : s.Enabled a) :
    (s.act cfg a).Charted cfg := by
  by_cases inner : Inner a
  · obtain ⟨transport, backchannels, events, -, ends, -⟩ := act_inner (s := s) cfg a inner
    exact charted.unmoved ends transport backchannels events
  cases a with
  | tick time => exact charted.unmoved rfl rfl rfl rfl
  | frame raw ephemeral iface => exact charted.frame raw ephemeral iface
  | handle index => exact charted.handle index
  | turn index now d => exact charted.turn index now d
  | other op =>
    refine charted.fewer rfl (fun lid target held => ?_) (fun _ _ seen held => ⟨seen, held⟩)
      fun _ there => there
    obtain ⟨link, held, rfl⟩ := held
    rcases Transport.outLinks_perform held with
      ⟨old, before, same⟩ | ⟨raw, ephemeral, iface, -, -, -, frame, -⟩
    · exact ⟨old, before, by rw [same]⟩
    · exact absurd frame (enabled raw ephemeral iface)
  | reconnect =>
    -- Nothing is open any more.
    refine charted.fewer rfl (fun lid target held => ?_) (fun peer lid seen held => ?_)
      fun _ there => there
    · obtain ⟨link, held, -⟩ := held
      cases held
    · cases held
  | _ => exact absurd trivial inner

end Charted

/-- The data was sent for the message and went where the route the message is on leads. -/
structure Traces (cfg : Config) (history : History) (m : OutboundMsg) (x : Transmission) :
    Prop where
  sent : (m.key, x) ∈ history.sends
  straight : m.viaPn = false → (x.link, m.peer) ∈ history.ends
  stored : m.viaPn = true → m.pnBlob = some x.data
    ∧ ∃ node, cfg.propagationNode = some node ∧ (x.link, node) ∈ history.ends

/-- Every proof that is awaited is for data that was sent on the route of its message. -/
def Routed (cfg : Config) (s : System) : Prop :=
  ∀ m ∈ s.shared.outbox, ∀ h ∈ m.inFlight, ∃ x, x.hash = h ∧ Traces cfg s.history m x

/-- No turn moves a message that still awaits a proof on to the propagation node. -/
def SwitchesIdle (cfg : Config) (s : System) : Action → Prop
  | .turn index now _ => ∀ m ∈ s.shared.outbox[index]?, m.needsStamp = none → m.deadline < now →
      m.viaPn = false → m.triedPn = false → cfg.propagationNode.isSome → m.inFlight = none
  | _ => True

theorem Traces.rides {history history' : History} {m m' : OutboundMsg} {x : Transmission}
    (traces : Traces cfg history m x) (rides : m.Rides m')
    (copy : m.viaPn = true → m'.pnBlob = m.pnBlob)
    (sends : ∀ e ∈ history.sends, e ∈ history'.sends)
    (ends : ∀ e ∈ history.ends, e ∈ history'.ends) : Traces cfg history' m' x where
  sent := rides.key ▸ sends _ traces.sent
  straight direct := by
    have peer : m'.peer = m.peer := congrArg Prod.fst rides.key
    rw [peer]
    exact ends _ (traces.straight (rides.viaPn ▸ direct))
  stored via := by
    have before : m.viaPn = true := rides.viaPn ▸ via
    obtain ⟨data, node, configured, far⟩ := traces.stored before
    exact ⟨(copy before).trans data, node, configured, ends _ far⟩

theorem history_act (s : System) (a : Action) :
    (∀ e ∈ s.history.sends, e ∈ (s.act cfg a).history.sends)
      ∧ ∀ e ∈ s.history.ends, e ∈ (s.act cfg a).history.ends := by
  by_cases inner : Inner a
  · obtain ⟨-, -, -, -, ends, sends⟩ := act_inner (s := s) cfg a inner
    rw [ends, sends]
    exact ⟨fun _ => id, fun _ => id⟩
  cases a with
  | frame raw ephemeral iface => exact ⟨fun _ => id, fun _ old => List.mem_append_left _ old⟩
  | handle index =>
    rw [act, handle]
    split <;> exact ⟨fun _ => id, fun _ => id⟩
  | turn index now d =>
    rw [act, turn]
    split
    · exact ⟨fun _ => id, fun _ => id⟩
    · rw [afterTurn]
      split <;> exact ⟨fun _ old => List.mem_append_left _ old, fun _ => id⟩
  | tick _ | other _ | reconnect => exact ⟨fun _ => id, fun _ => id⟩
  | _ => exact absurd trivial inner

theorem traces_of_goes (charted : s.Charted cfg) {history : History} {m m' : OutboundMsg}
    {x : Transmission}
    (goes : Goes cfg.propagationNode s.shared.transport s.shared.backchannels m' x)
    (key : m'.key = m.key) (sent : (m.key, x) ∈ history.sends)
    (ends : ∀ e ∈ s.history.ends, e ∈ history.ends) : Traces cfg history m' x := by
  have noted : (m'.key, x) ∈ history.sends := key ▸ sent
  cases goes with
  | out straight far =>
    exact ⟨noted, fun _ => ends _ (charted.out _ _ far), fun via => by simp [straight] at via⟩
  | back straight seen far =>
    exact ⟨noted, fun _ => ends _ (charted.back _ _ _ far), fun via => by simp [straight] at via⟩
  | stored via target node far copy =>
    refine ⟨noted, fun straight => by simp [via] at straight, fun _ => ⟨copy, target, node, ?_⟩⟩
    exact ends _ (charted.out _ _ far)

theorem routed_act (routed : Routed cfg s) (charted : s.Charted cfg) (orderly : s.core.Orderly)
    (uncopied : s.core.Uncopied) {a : Action} (fine : SwitchesIdle cfg s a) :
    Routed cfg (s.act cfg a) := by
  intro m' there h flies
  obtain ⟨sends, ends⟩ := @history_act cfg s a
  have before {m : OutboundMsg} (old : m ∈ s.shared.outbox) (flew : m.inFlight = some h)
      (rides : m.Rides m') (copy : m.viaPn = true → m'.pnBlob = m.pnBlob) :
      ∃ x, x.hash = h ∧ Traces cfg (s.act cfg a).history m' x := by
    obtain ⟨x, named, traces⟩ := routed m old h flew
    exact ⟨x, named, traces.rides rides copy sends ends⟩
  by_cases isTurn : ∃ index now d, a = .turn index now d
  · obtain ⟨index, now, d, rfl⟩ := isTurn
    cases found : s.shared.outbox[index]? with
    | none =>
      simp only [act, turn, found] at there
      exact before there flies (.refl m') fun _ => rfl
    | some m =>
      have turned : Turned cfg.propagationNode now s.shared.syncLink s.shared.transport
          s.shared.backchannels m (s.turnOf cfg m now d) := pumpMessage_turned _ _ _ _ _
      have next : s.act cfg (.turn index now d) = s.afterTurn index m (s.turnOf cfg m now d) := by
        simp only [act, turn, found]
      rw [next] at there
      rcases mem_afterTurn_key orderly found there with ⟨old, -⟩ | stays
      · exact before old flies (.refl m') fun _ => rfl
      rcases or_assoc.mpr stays with stays | ⟨-, rfl⟩
      · rcases turned.flies stays flies with
          ⟨rfl, -⟩ | ⟨-, flew, ready, past, straight, untried, node⟩ | ⟨x, sent, named, follows, goes⟩
        · exact before (List.mem_of_getElem? found) flies (.refl m') fun _ => rfl
        · -- This is the step that is excluded.
          rw [fine m found ready past straight untried node] at flew
          cases flew
        · refine ⟨x, named, traces_of_goes charted goes follows.key ?_ ends⟩
          rw [next]
          have noted : (s.afterTurn index m (s.turnOf cfg m now d)).history.sends
              = s.history.sends ++ [(m.key, x)] := by
            rw [afterTurn, sent]
            split <;> rfl
          rw [noted]
          exact List.mem_append_right _ (List.mem_singleton_self _)
      · exact before (List.mem_of_getElem? found) flies (.refl m') fun _ => rfl
  · obtain ⟨m, old, rides, copy⟩ :=
      rides_act (fun index now d same => isTurn ⟨index, now, d, same⟩) there flies
    have flew : m.inFlight = some h := rides.inFlight ▸ flies
    refine before old flew rides fun via => ?_
    -- A message on its way to the node was sent its copy, so none is being made of it.
    rcases copy with same | ⟨job, taken, key⟩
    · exact same
    · obtain ⟨x, -, traces⟩ := routed m old h flew
      have bare : m.pnBlob = none := uncopied.bare job taken m old key
      have copied := (traces.stored via).1
      rw [bare] at copied
      cases copied

theorem routed_run {identity : PrivateIdentity}
    (run : ReflTransGen (Step cfg (SwitchesIdle cfg)) (start identity) s) : Routed cfg s := by
  -- What a link leads to and what is being copied are carried along.
  have all : (s.core.Orderly ∧ s.core.Uncopied) ∧ s.Charted cfg ∧ Routed cfg s := by
    refine reachable_of_keeps
      (I := fun s : System => (s.core.Orderly ∧ s.core.Uncopied) ∧ s.Charted cfg ∧ Routed cfg s)
      ?_ ?_ run
    · intro s s' ⟨⟨orderly, uncopied⟩, charted, routed⟩ step
      have moves : Moves cfg {} s.core s'.core := moves_step step fun a _ => respects_all s a
      refine ⟨⟨orderly.keeps moves, uncopied.keeps orderly moves⟩, ?_⟩
      cases step with
      | act a enabled fine => exact ⟨charted.act enabled, routed_act routed charted orderly uncopied fine⟩
      | reorder t same =>
        refine ⟨charted.fewer rfl (fun lid target held => ?_) (fun _ _ seen held => ⟨seen, held⟩)
          fun _ there => there, routed⟩
        obtain ⟨link, held, rfl⟩ := held
        exact ⟨link, (same.outLinks.get lid).trans held, rfl⟩
    · refine ⟨⟨orderly_start identity, (fun _ none => nomatch none), fun _ none => nomatch none⟩,
        ⟨fun lid target held => ?_, fun peer lid seen held => ?_, fun _ _ there => nomatch there⟩,
        fun m there => nomatch there⟩
      · obtain ⟨link, held, -⟩ := held
        cases held
      · cases held
  exact all.2.2

/--
A confirmation marks a message by the route that the confirmed data took.

It is marked as delivered only if the data went out on a link to its peer, and as stored only if it is the copy that went out on a link to the propagation node.
-/
theorem mark_tells_route {identity : PrivateIdentity} {h : FullHash} {mark : Mark}
    (run : ReflTransGen (Step cfg (SwitchesIdle cfg)) (start identity) s)
    (decided : mark ∈ (markDelivered h s.shared).2) :
    ∃ m ∈ s.shared.outbox, ∃ x, (m.key, x) ∈ s.history.sends ∧ m.key = mark.key ∧ x.hash = h
      ∧ ((mark.status = .delivered ∧ (x.link, m.peer) ∈ s.history.ends)
        ∨ (mark.status = .queued ∧ m.pnBlob = some x.data
          ∧ ∃ node, cfg.propagationNode = some node ∧ (x.link, node) ∈ s.history.ends)) := by
  have routed := routed_run run
  rw [markDelivered] at decided
  cases current : s.shared.outbox.find? fun m => m.inFlight = some h with
  | none =>
    rw [current] at decided
    cases decided
  | some m =>
    have flies : m.inFlight = some h := by simpa using List.find?_some current
    have there := List.mem_of_find?_eq_some current
    obtain ⟨x, named, traces⟩ := routed m there h flies
    rw [current] at decided
    refine ⟨m, there, x, traces.sent, ?_⟩
    -- The mark is chosen by the route the message is on now.
    cases route : m.viaPn with
    | false =>
      rw [List.mem_singleton.mp decided, route]
      exact ⟨rfl, named, .inl ⟨rfl, traces.straight route⟩⟩
    | true =>
      rw [List.mem_singleton.mp decided, route]
      exact ⟨rfl, named, .inr ⟨rfl, traces.stored route⟩⟩

section Samples

open LxmfChat.Transport (sampleSeed sampleIdentity)

/-- A peer's link comes up shortly before the time for a direct delivery is up, and the reply to it rides that link. -/
def lateReplyRun : List Action :=
  [ .other (.registerDestination (sampleConfig (some sampleNode)).ourDh),
    .post 0 samplePeer ['h', 'i'],
    .tick 85,
    .frame backRequest.encode (sampleSeed 9) .hub,
    .frame backIdentify (sampleSeed 0) .hub,
    .handle 1,
    .turn 0 85 sampleDraw ]

def lateReplyMarked : List Action :=
  lateReplyRun ++
    [.tick 91, .turn 0 91 sampleDraw, .frame replyProof (sampleSeed 0) .hub, .handle 1, .mark 0]

/--
A message that its peer confirmed is marked as stored at the propagation node.

Nothing was ever sent to the node: the message was moved on to it while its proof was on the way.
-/
theorem delivered_marked_stored :
    Permits (sampleConfig (some sampleNode)) (fun _ _ => True) (start (sampleIdentity 1))
      lateReplyMarked
    ∧ (sampleEnd (some sampleNode) lateReplyMarked).marks.map (fun mark => (mark.key, mark.status))
      = [((samplePeer, 0), .queued)]
    ∧ (sampleEnd (some sampleNode) lateReplyMarked).history.sends.map
        (fun e => (e.1, e.2.link, e.2.hash)) = [((samplePeer, 0), backLink, replyHash)]
    ∧ (sampleEnd (some sampleNode) lateReplyMarked).history.ends = [(backLink, samplePeer)]
    ∧ samplePeer ≠ sampleNode := by
  refine ⟨?_, by decide +kernel⟩
  exact ⟨nofun, trivial, ⟨by decide +kernel, by decide⟩, trivial, trivial, trivial, trivial, trivial,
    trivial, trivial, trivial, trivial, trivial, trivial, trivial, trivial, trivial, trivial, trivial,
    trivial, trivial, trivial, trivial, trivial, trivial⟩

/-- A reply that is proven in time is marked as delivered, and it went out to its peer. -/
theorem mark_tells_route_reply :
    ∃ mark ∈ (markDelivered replyHash (sampleEnd none replyProven).shared).2,
      mark.status = .delivered
      ∧ ∃ m ∈ (sampleEnd none replyProven).shared.outbox, ∃ x,
        (m.key, x) ∈ (sampleEnd none replyProven).history.sends ∧ m.key = mark.key
        ∧ x.hash = replyHash ∧ (x.link, m.peer) ∈ (sampleEnd none replyProven).history.ends := by
  have permitted : Permits (sampleConfig none) (SwitchesIdle (sampleConfig none))
      (start (sampleIdentity 1)) replyProven :=
    ⟨nofun, trivial, trivial, trivial, trivial, trivial, trivial, trivial,
      ⟨by decide +kernel, by decide⟩, trivial, trivial, (fun _ _ _ _ _ _ node => nomatch node),
      trivial, trivial, trivial⟩
  have run : ReflTransGen (Step (sampleConfig none) (SwitchesIdle (sampleConfig none)))
      (start (sampleIdentity 1)) (sampleEnd none replyProven) := run_actAll permitted
  have marked : (markDelivered replyHash (sampleEnd none replyProven).shared).2.any
      (fun mark => mark.status = .delivered) = true := by
    decide +kernel
  obtain ⟨mark, decided, status⟩ := List.any_eq_true.mp marked
  have delivered : mark.status = .delivered := of_decide_eq_true status
  obtain ⟨m, there, x, sent, key, named, route⟩ := mark_tells_route run decided
  rcases route with ⟨-, far⟩ | ⟨queued, -⟩
  · exact ⟨mark, decided, delivered, m, there, x, sent, key, named, far⟩
  · rw [delivered] at queued
    cases queued

end Samples

end System

end LxmfChat
