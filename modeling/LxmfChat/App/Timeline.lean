import LxmfChat.App.Filing
import LxmfChat.App.Phone

/-! Our own message comes last in its conversation, as long as the times shown can be trusted. -/

namespace LxmfChat

open Base Relation

namespace Phone

variable {p : Phone}

def latest (p : Phone) : Nat := max p.before p.inbox.lastTs

/-- Nothing in a conversation is later than a given time. -/
def Until (limit : Nat) (d : Dialogue) : Prop :=
  d.WellNamed ∧ ∀ q ∈ d.posts, q.timestamp ≤ limit

theorem until_new (limit : Nat) (key : Text) : Until limit (.new key) :=
  ⟨Dialogue.wellNamed_new key, (fun _ there => nomatch there)⟩

theorem Until.mono {limit limit' : Nat} {d : Dialogue} (dated : Until limit d)
    (later : limit ≤ limit') : Until limit' d :=
  ⟨dated.1, fun q there => (dated.2 q there).trans later⟩

theorem Until.postAdd {limit : Nat} {d d' : Dialogue} {author text : Text} {timestamp : Nat}
    (dated : Until limit d) (early : timestamp ≤ limit)
    (added : d.postAdd author timestamp text = some d') : Until limit d' := by
  obtain ⟨named, posts⟩ := Dialogue.postAdd_spec dated.1 added
  refine ⟨named, fun q there => ?_⟩
  rcases posts q there with ⟨new, -, -⟩ | ⟨old, -⟩
  · exact new ▸ early
  · exact dated.2 q old

theorem Until.postUpdate {limit : Nat} {d d' : Dialogue} {author text : Text} {timestamp : Nat}
    (dated : Until limit d) (updated : d.postUpdate author timestamp text = some d') :
    Until limit d' := by
  refine ⟨dated.1.postUpdate updated, fun q there => ?_⟩
  rcases Dialogue.mem_postUpdate updated there with before | ⟨old, before, -, -, rfl⟩
  · exact dated.2 q before
  · exact dated.2 old before

/-- The latest time is no earlier than anything in the conversations or anything we wrote. -/
structure Dated (p : Phone) : Prop where
  threads : p.ui.All fun _ => Until p.latest
  created : ∀ m ∈ p.created, m.displayTs ≤ p.latest

structure Timely (p : Phone) (a : PhoneAction) : Prop where
  /-- The clock has passed what was shown before the restart, unless what was shown since has. -/
  passes : ∀ {text}, a = .post text → p.before < max p.clock (p.inbox.lastTs + 1)
  /-- There is a time after the last one. -/
  room : ∀ {text}, a = .post text → p.inbox.lastTs + 1 < 2 ^ 64

theorem latest_lt_displayTs {text : Text} (timely : Timely p (.post text)) :
    p.latest < p.displayTs := by
  have passes := timely.passes rfl
  rw [displayTs, Nat.mod_eq_of_lt (timely.room rfl), latest]
  omega

theorem until_handle {ui : ChatUi} {limit : Nat} (dated : ui.All fun _ => Until limit) (op : ChatOp)
    (adds : ∀ {src post}, op = .postAdd src post → post.timestamp ≤ limit) :
    (ui.handle op).All fun _ => Until limit :=
  dated.handle (until_new limit) op fun same _ _ _ _ _ early added =>
    early.postAdd (adds same) added

theorem until_remark {ui : ChatUi} {limit : Nat} (dated : ui.All fun _ => Until limit)
    (u : DeliveryUpdate) : (ui.remark u).1.All fun _ => Until limit :=
  dated.postUpdate fun _ early updated => early.postUpdate updated

theorem Dated.display (dated : p.Dated) (src : TruncatedHash) (shown : HeldMessage) :
    (p.display src shown).Dated := by
  have latest : (p.display src shown).latest = max p.latest shown.timestamp :=
    (Nat.max_assoc p.before p.inbox.lastTs shown.timestamp).symm
  have later : p.latest ≤ (p.display src shown).latest := latest ▸ Nat.le_max_left _ _
  refine ⟨?_, fun m there => (dated.created m there).trans later⟩
  refine until_handle (dated.threads.mono fun early => early.mono later)
    (.postAdd (some src) shown) ?_
  rintro src' post ⟨⟩
  rw [latest]
  exact Nat.le_max_right _ _

theorem Dated.save (dated : p.Dated) : p.save.Dated :=
  ⟨until_handle dated.threads .dialogueSave (fun same => nomatch same), dated.created⟩

theorem Dated.flush (dated : p.Dated) (addr : TruncatedHash) : (p.flush addr).Dated := by
  have shown : ∀ (queued : List HeldMessage) (p : Phone), p.Dated →
      (queued.foldl (Phone.display addr) p).Dated := by
    intro queued
    induction queued with
    | nil => exact fun p dated => dated
    | cons m rest ih => exact fun p dated => ih _ (dated.display addr m)
  rw [Phone.flush]
  have flushed := shown ((p.inbox.pending.lookup addr).getD [])
    { p with inbox := { p.inbox with pending := p.inbox.pending.erase addr } }
    ⟨dated.threads, dated.created⟩
  dsimp only
  split
  · exact ⟨flushed.threads, flushed.created⟩
  · exact Dated.save ⟨flushed.threads, flushed.created⟩

theorem Dated.applyDeliveryUpdates (dated : p.Dated) (addr : TruncatedHash) :
    (p.applyDeliveryUpdates addr).Dated := by
  rw [Phone.applyDeliveryUpdates]
  split
  case h_1 => exact dated
  case h_2 updates _ =>
    have marked : ∀ (updates : List DeliveryUpdate) (ui : ChatUi),
        (ui.All fun _ => Until p.latest) →
        (ui.remarkAll updates).All fun _ => Until p.latest := by
      intro updates
      induction updates with
      | nil => exact fun ui dated => dated
      | cons u rest ih => exact fun ui dated => ih _ (until_remark dated u)
    exact ⟨until_handle (marked updates p.ui dated.threads) .dialogueSave
      (fun same => nomatch same), dated.created⟩

theorem Dated.post (dated : p.Dated) (text : Text) (after : p.latest < p.displayTs) :
    (p.post text).Dated := by
  rw [Phone.post]
  split
  case h_1 => exact dated
  case h_2 peer _ =>
    -- The new message is the latest.
    have now : max p.before p.displayTs = p.displayTs := by
      rw [latest] at after
      omega
    refine ⟨?_, fun m there => ?_⟩
    · show ChatUi.All (fun _ => Until (max p.before p.displayTs)) _
      rw [now]
      refine until_handle (until_handle
        (dated.threads.mono fun early => early.mono (Nat.le_of_lt after))
        (.postAdd none ⟨SELF_AUTHOR, p.displayTs, bubbleText text MARK_PENDING⟩) ?_)
        .dialogueSave (fun same => nomatch same)
      rintro src post ⟨⟩
      exact Nat.le_refl _
    · show m.displayTs ≤ max p.before p.displayTs
      rw [now]
      rcases List.mem_append.mp there with old | new
      · exact (dated.created m old).trans (Nat.le_of_lt after)
      · cases List.mem_singleton.mp new
        exact Nat.le_refl _

theorem Dated.deliver (dated : p.Dated) (src : TruncatedHash) (shown : HeldMessage) :
    (p.deliver src shown).Dated := by
  rw [Phone.deliver]
  split
  · exact (dated.display src shown).save
  · exact ⟨dated.threads, dated.created⟩

theorem Dated.switch (dated : p.Dated) (addr : TruncatedHash) : (p.switch addr).Dated :=
  ⟨until_handle dated.threads (.dialogueSet (hex addr.val)) (fun same => nomatch same),
    dated.created⟩

theorem Dated.updateMark (dated : p.Dated) (m : Sent) (status : Status) :
    (p.updateMark m status).Dated := by
  have marked := until_remark dated.threads ⟨m.displayTs, m.text, status⟩
  rw [Phone.updateMark]
  split
  all_goals
    rename_i ui outcome
    rw [outcome] at marked
  · exact Dated.save (p := { p with ui }) ⟨marked, dated.created⟩
  · exact ⟨marked, dated.created⟩

theorem Dated.restart (dated : p.Dated) : p.restart.Dated := by
  have latest : p.restart.latest = p.latest := Nat.max_eq_left (Nat.zero_le _)
  refine ⟨?_, fun m there => latest ▸ dated.created m there⟩
  rw [latest]
  exact until_handle dated.threads.stored (.dialogueSet (Desk.initialKey p.keyPeer))
    (fun same => nomatch same)

theorem Dated.act (dated : p.Dated) {a : PhoneAction} (timely : Timely p a) : (p.act a).Dated := by
  cases a with
  | tick time => exact ⟨dated.threads, dated.created⟩
  | post text => exact dated.post text (latest_lt_displayTs timely)
  | deliver src shown => exact dated.deliver src shown
  | activatePeer addr => exact ((dated.switch addr).flush addr).applyDeliveryUpdates addr
  | mark index status =>
    rw [Phone.act]
    split
    case h_1 m _ => exact dated.updateMark m status
    case h_2 => exact dated
  | restart => exact dated.restart

theorem dated_first : first.Dated := by
  refine ⟨?_, (fun _ there => nomatch there)⟩
  have empty : ({} : ChatUi).All fun _ => Until first.latest :=
    ⟨(fun there => nomatch there), (fun named => nomatch named)⟩
  exact until_handle empty (.dialogueSet (Desk.initialKey none)) (fun same => nomatch same)

/--
In every history in which, whenever we write a message, the clock has passed what was shown
before the last restart and the last time shown is not the largest there is, our message is
shown after everything in the open conversation and after everything we wrote before.
-/
theorem own_message_last {p : Phone} (run : ReflTransGen (Step Timely) first p) (text : Text)
    (timely : Timely p (.post text)) :
    (∀ key d, p.ui.pddbKey = some key → p.ui.dialogue = some d →
      ∀ q ∈ d.posts, q.timestamp < p.displayTs)
    ∧ ∀ m ∈ p.created, m.displayTs < p.displayTs := by
  have dated : p.Dated := by
    refine reachable_of_keeps (I := Dated) ?_ dated_first run
    intro before after kept step
    cases step with
    | act a fine => exact kept.act fine
  have after := latest_lt_displayTs timely
  refine ⟨fun key d named opened q there => ?_, fun m there => ?_⟩
  · exact Nat.lt_of_le_of_lt ((dated.threads.dialogue named opened).2 q there) after
  · exact Nat.lt_of_le_of_lt (dated.created m there) after

def times (p : Phone) : List Nat :=
  ((p.ui.dialogue.map Dialogue.posts).getD []).map Post.timestamp

def behindRun : List PhoneAction :=
  [ .tick 10, .activatePeer Desk.sampleOpen, .deliver Desk.sampleOpen ⟨"peer".toList, 100, []⟩,
    .restart ]

/-- Our message is shown above the peer's. -/
theorem message_shown_above :
    (first.actAll behindRun).times = [100] ∧ (first.actAll behindRun).displayTs = 10
      ∧ (first.actAll (behindRun ++ [.post []])).times = [10, 100] := by
  decide +kernel

def aheadRun : List PhoneAction :=
  [ .tick 10, .activatePeer Desk.sampleOpen, .deliver Desk.sampleOpen ⟨"peer".toList, 100, []⟩ ]

theorem timely_other {a : PhoneAction} (other : ∀ text, a ≠ .post text) : Timely p a :=
  ⟨(fun same => absurd same (other _)), (fun same => absurd same (other _))⟩

theorem own_message_last_ahead :
    (first.actAll aheadRun).displayTs = 101
      ∧ ((∀ key d, (first.actAll aheadRun).ui.pddbKey = some key →
          (first.actAll aheadRun).ui.dialogue = some d →
          ∀ q ∈ d.posts, q.timestamp < (first.actAll aheadRun).displayTs)
        ∧ ∀ m ∈ (first.actAll aheadRun).created,
          m.displayTs < (first.actAll aheadRun).displayTs) := by
  have permitted : Permitted act Timely first aheadRun :=
    ⟨timely_other (by simp), timely_other (by simp), timely_other (by simp), trivial⟩
  have timely : Timely (first.actAll aheadRun) (.post []) :=
    ⟨fun _ => by decide +kernel, fun _ => by decide +kernel⟩
  exact ⟨by decide +kernel, own_message_last (run_of_allowed permitted) [] timely⟩

end Phone

end LxmfChat
