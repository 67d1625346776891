import LxmfChat.App.Filing
import LxmfChat.App.Phone

/-! A delivery mark goes to the bubble of its own message, as long as the bubbles can be told apart. -/

namespace LxmfChat

open Base Relation

def Post.shape (q : Post) : UInt16 × Nat := (q.authorId, q.timestamp)

theorem Post.map_shape_set {posts : List Post} {i : Nat} {q : Post} {text : Text}
    (there : posts[i]? = some q) :
    (posts.set i { q with text }).map Post.shape = posts.map Post.shape := by
  have same : (posts.map Post.shape)[i]? = some q.shape := by rw [List.getElem?_map, there]; rfl
  obtain ⟨inside, value⟩ := List.getElem?_eq_some_iff.mp same
  rw [List.map_set]
  show (posts.map Post.shape).set i q.shape = _
  rw [← value, List.set_getElem_self]

/-- Two posts are not both ours and of the same time. -/
def Dialogue.Apart (d : Dialogue) (p q : Post) : Prop :=
  d.By p SELF_AUTHOR → d.By q SELF_AUTHOR → p.timestamp ≠ q.timestamp

/-- What a conversation shows under our name are the messages we wrote in it. -/
structure Dialogue.Owned (created : List Sent) (key : Text) (d : Dialogue) : Prop where
  named : d.WellNamed
  ours : ∀ q ∈ d.posts, d.By q SELF_AUTHOR →
    ∃ m ∈ created, key = hex m.peer.val ∧ q.timestamp = m.displayTs
      ∧ ∃ mark, q.text = bubbleText m.text mark
  apart : d.posts.Pairwise d.Apart

namespace Dialogue.Owned

variable {created created' : List Sent} {key author text : Text} {d d' : Dialogue}
  {timestamp : Nat}

theorem new (created : List Sent) (key : Text) : Owned created key (.new key) :=
  ⟨wellNamed_new key, (fun _ there => nomatch there), .nil⟩

theorem mono (owned : Owned created key d) (more : ∀ m ∈ created, m ∈ created') :
    Owned created' key d := by
  refine ⟨owned.named, fun q there under => ?_, owned.apart⟩
  obtain ⟨m, before, rest⟩ := owned.ours q there under
  exact ⟨m, more m before, rest⟩

theorem apart_postAdd (owned : Owned created key d)
    (alone : author = SELF_AUTHOR → ∀ q ∈ d.posts, d.By q SELF_AUTHOR → q.timestamp ≠ timestamp)
    (added : d.postAdd author timestamp text = some d') : d'.posts.Pairwise d'.Apart := by
  obtain ⟨id, numbered, posts, known, some_, rfl⟩ := postAdd_subperm added
  obtain ⟨same, named, author_, kept⟩ := authorId_spec owned.named known
  -- The new post comes first here; where it stands does not matter to the condition.
  have all : (⟨id, timestamp, text⟩ :: numbered.posts).Pairwise numbered.Apart := by
    rw [same]
    refine List.pairwise_cons.mpr ⟨fun q there mine yours => ?_, ?_⟩
    · exact (alone (named.injective author_ mine) q there (kept q there _ yours)).symm
    · refine owned.apart.imp_of_mem fun {p q} first second apart mine yours => ?_
      exact apart (kept p first _ mine) (kept q second _ yours)
  obtain ⟨list, perm, sublist⟩ := some_
  have symmetric : ∀ {p q}, numbered.Apart p q → numbered.Apart q p :=
    fun apart mine yours => (apart yours mine).symm
  exact (perm.pairwise_iff symmetric).mp (all.sublist sublist)

theorem postAdd_other (owned : Owned created key d) (other : author ≠ SELF_AUTHOR)
    (added : d.postAdd author timestamp text = some d') : Owned created key d' := by
  obtain ⟨named, posts⟩ := postAdd_spec owned.named added
  refine ⟨named, fun q there under => ?_,
    owned.apart_postAdd (fun same => absurd same other) added⟩
  rcases posts q there with ⟨-, -, by_⟩ | ⟨old, kept⟩
  · exact absurd (named.injective by_ under) other
  · exact owned.ours q old (kept _ under)

theorem postAdd_own (owned : Owned created key d) {m : Sent} {mark : Text}
    (keyed : key = hex m.peer.val) (fresh : ∀ m' ∈ created, m'.displayTs ≠ m.displayTs)
    (added : d.postAdd SELF_AUTHOR m.displayTs (bubbleText m.text mark) = some d') :
    Owned (created ++ [m]) key d' := by
  obtain ⟨named, posts⟩ := postAdd_spec owned.named added
  refine ⟨named, fun q there under => ?_, owned.apart_postAdd (fun _ q there under => ?_) added⟩
  · rcases posts q there with ⟨time, body, -⟩ | ⟨old, kept⟩
    · exact ⟨m, by simp, keyed, time, mark, body⟩
    · obtain ⟨m', before, rest⟩ := owned.ours q old (kept _ under)
      exact ⟨m', List.mem_append_left _ before, rest⟩
  · -- Every bubble that is there has the time of an earlier message.
    obtain ⟨m', before, -, time, -⟩ := owned.ours q there under
    exact time ▸ fresh m' before

theorem unique (owned : Owned created key d) {i j : Nat} {p q : Post} (first : d.posts[i]? = some p)
    (second : d.posts[j]? = some q) (mine : d.By p SELF_AUTHOR) (yours : d.By q SELF_AUTHOR)
    (same : p.timestamp = q.timestamp) : i = j := by
  obtain ⟨inside, rfl⟩ := List.getElem?_eq_some_iff.mp first
  obtain ⟨inside', rfl⟩ := List.getElem?_eq_some_iff.mp second
  have apart := List.pairwise_iff_getElem.mp owned.apart
  rcases Nat.lt_trichotomy i j with below | at_ | above
  · exact absurd same (apart i j inside inside' below mine yours)
  · exact at_
  · exact absurd same.symm (apart j i inside' inside above yours mine)

theorem postUpdate (owned : Owned created key d)
    (marks : ∀ m ∈ created, m.displayTs = timestamp → ∃ mark, text = bubbleText m.text mark)
    (updated : d.postUpdate SELF_AUTHOR timestamp text = some d') : Owned created key d' := by
  have named := owned.named.postUpdate updated
  have posts := fun {q} => @mem_postUpdate d d' SELF_AUTHOR text timestamp updated q
  obtain ⟨i, found, there, -, -, rfl⟩ := postUpdate_spec updated
  refine ⟨named, fun q there under => ?_, ?_⟩
  · rcases posts there with before | ⟨old, before, time, mine, rfl⟩
    · exact owned.ours q before under
    · obtain ⟨m, written, keyed, at_, -⟩ := owned.ours old before mine
      exact ⟨m, written, keyed, at_, marks m written (at_.symm.trans time)⟩
  · -- Whether two posts are apart depends on their authors and times, which do not change.
    let R : UInt16 × Nat → UInt16 × Nat → Prop := fun a b =>
      d.authorLookup.lookup SELF_AUTHOR = some a.1 →
        d.authorLookup.lookup SELF_AUTHOR = some b.1 → a.2 ≠ b.2
    have before : (d.posts.map Post.shape).Pairwise R := List.pairwise_map.mpr owned.apart
    rw [← Post.map_shape_set there] at before
    exact (List.pairwise_map (R := R) (f := Post.shape)).mp before

end Dialogue.Owned

/-- The server has a conversation open, and the conversations show our messages as ours. -/
structure ChatUi.Showing (created : List Sent) (key : Text) (ui : ChatUi) : Prop where
  threads : ui.All (Dialogue.Owned created)
  opened : ui.crashed = false → ui.pddbKey = some key

namespace ChatUi.Showing

variable {created : List Sent} {key : Text} {ui : ChatUi}

theorem all_handle (threads : ui.All (Dialogue.Owned created)) (op : ChatOp)
    (adds : ∀ {src post}, op = .postAdd src post → post.author ≠ SELF_AUTHOR) :
    (ui.handle op).All (Dialogue.Owned created) :=
  threads.handle (.new created) op fun same _ _ _ _ _ before added =>
    before.postAdd_other (adds same) added

theorem dialogueSet (threads : ui.All (Dialogue.Owned created)) (key : Text) :
    Showing created key (ui.handle (.dialogueSet key)) :=
  ⟨all_handle threads (.dialogueSet key) (fun same => nomatch same),
    fun up => (pddbKey_handle up).2⟩

theorem handle (showing : Showing created key ui) (op : ChatOp)
    (adds : ∀ {src post}, op = .postAdd src post → post.author ≠ SELF_AUTHOR)
    (stays : filing.next (some key) op = some key) : Showing created key (ui.handle op) := by
  refine ⟨all_handle showing.threads op adds, fun up => ?_⟩
  obtain ⟨running, next⟩ := pddbKey_handle up
  rw [next, showing.opened running, stays]

theorem save (showing : Showing created key ui) :
    Showing created key (ui.handle .dialogueSave) :=
  showing.handle .dialogueSave (fun same => nomatch same) rfl

theorem own (showing : Showing created key ui) {m : Sent} (keyed : key = hex m.peer.val)
    (fresh : ∀ m' ∈ created, m'.displayTs ≠ m.displayTs) (mark : Text) :
    Showing (created ++ [m]) key
      (ui.handle (.postAdd none ⟨SELF_AUTHOR, m.displayTs, bubbleText m.text mark⟩)) := by
  refine ⟨?_, fun up => ?_⟩
  · have more : ∀ {key d}, Dialogue.Owned created key d → Dialogue.Owned (created ++ [m]) key d :=
      fun owned => owned.mono fun _ => List.mem_append_left _
    rw [ChatUi.handle.eq_def]
    split
    case isTrue => exact showing.threads.mono more
    case isFalse up =>
      refine showing.threads.postAdd more fun {key' d d'} named owned added => ?_
      -- The conversation that is open is that of the message.
      have same : key' = key :=
        Option.some.inj (named.symm.trans (showing.opened (by simpa using up)))
      exact owned.postAdd_own (same.trans keyed) fresh added
  · obtain ⟨running, next⟩ := pddbKey_handle up
    rw [next]
    exact showing.opened running

theorem remark (showing : Showing created key ui)
    (once : ∀ m ∈ created, ∀ m' ∈ created, m.displayTs = m'.displayTs → m = m') {m : Sent}
    (written : m ∈ created) (status : Status) :
    Showing created key (ui.remark ⟨m.displayTs, m.text, status⟩).1 := by
  refine ⟨?_, fun up => ?_⟩
  · refine showing.threads.postUpdate fun _ owned updated => owned.postUpdate ?_ updated
    intro m' written' time
    cases once m' written' m written time
    exact ⟨statusMark status, rfl⟩
  · rw [ChatUi.remark, pddbKey_postUpdate]
    rw [ChatUi.remark, crashed_postUpdate] at up
    exact showing.opened up

theorem remarkAll (showing : Showing created key ui)
    (once : ∀ m ∈ created, ∀ m' ∈ created, m.displayTs = m'.displayTs → m = m')
    {peer : TruncatedHash} {updates : List DeliveryUpdate}
    (written : ∀ u ∈ updates, ⟨peer, u.displayTs, u.text⟩ ∈ created) :
    Showing created key (ui.remarkAll updates) := by
  induction updates generalizing ui with
  | nil => exact showing
  | cons u rest ih =>
    exact ih (showing.remark once (written u List.mem_cons_self) u.status)
      fun u there => written u (List.mem_cons_of_mem _ there)

end ChatUi.Showing

namespace Phone

variable {p : Phone}

/--
A mark for a message changed at most the bubble of that message.

Its conversation is the same but for the mark of the only bubble of ours at that time, and all
others are the same.
-/
def Remarked (m : Sent) (ui ui' : ChatUi) : Prop :=
  ∀ key, ui'.thread key = ui.thread key
    ∨ key = hex m.peer.val ∧ ∃ d i q mark mark', ui.thread key = some d ∧ d.posts[i]? = some q
      ∧ d.By q SELF_AUTHOR ∧ q.timestamp = m.displayTs ∧ q.text = bubbleText m.text mark
      ∧ (∀ j q', d.posts[j]? = some q' → d.By q' SELF_AUTHOR → q'.timestamp = m.displayTs → j = i)
      ∧ ui'.thread key
        = some { d with posts := d.posts.set i { q with text := bubbleText m.text mark' } }

theorem Remarked.save {m : Sent} {ui ui' : ChatUi} (marked : Remarked m ui ui') :
    Remarked m ui (ui'.handle .dialogueSave) := by
  intro key
  rw [ChatUi.thread_handle_dialogueSave]
  exact marked key

theorem remarked_remark {created : List Sent} {ui : ChatUi}
    (threads : ui.All (Dialogue.Owned created))
    (once : ∀ m ∈ created, ∀ m' ∈ created, m.displayTs = m'.displayTs → m = m') {m : Sent}
    (written : m ∈ created) (status : Status) :
    Remarked m ui (ui.remark ⟨m.displayTs, m.text, status⟩).1 := by
  intro key
  rw [ChatUi.remark, ChatUi.postUpdate]
  split
  case isTrue => exact .inl rfl
  case isFalse =>
    split
    case h_2 => exact .inl rfl
    case h_1 d' updated =>
      obtain ⟨d, opened, replaced⟩ := Option.bind_eq_some_iff.mp updated
      by_cases named : ui.pddbKey = some key
      · -- The bubble that was found is that of a message we wrote here at that time.
        have owned := threads.dialogue named opened
        obtain ⟨i, q, there, time, ours, rfl⟩ := Dialogue.postUpdate_spec replaced
        obtain ⟨m', written', keyed, at_, mark, shows⟩ :=
          owned.ours q (List.mem_of_getElem? there) ours
        cases once m' written' m written (at_.symm.trans time)
        refine .inr ⟨keyed, d, i, q, mark, statusMark status, ?_, there, ours, time, shows, ?_, ?_⟩
        · rw [ChatUi.thread, if_pos named, opened]
        · intro j q' there' ours' time'
          exact owned.unique there' there ours' ours (time'.trans time.symm)
        · rw [ChatUi.thread, if_pos named]
      · -- Only the open conversation is looked at.
        left
        rw [ChatUi.thread, ChatUi.thread, if_neg named, if_neg named]

/-- Everything shown under our name is ours, and no two of our messages share a time. -/
structure Attributed (p : Phone) : Prop where
  showing : p.ui.Showing p.created (Desk.initialKey p.inbox.currentPeer)
  once : ∀ m ∈ p.created, ∀ m' ∈ p.created, m.displayTs = m'.displayTs → m = m'
  sent : ∀ m ∈ p.sent, m ∈ p.created
  waiting : p.deliveryUpdates.Each fun peer u => ⟨peer, u.displayTs, u.text⟩ ∈ p.created
  kept : p.keptUpdates.Each fun peer u => ⟨peer, u.displayTs, u.text⟩ ∈ p.created
  pending : p.inbox.pending.Each fun _ m => m.author ≠ SELF_AUTHOR
  persisted : p.inbox.persisted.Each fun _ m => m.author ≠ SELF_AUTHOR

structure Distinct (p : Phone) (a : PhoneAction) : Prop where
  /-- None of our messages was ever shown at the time of the next one. -/
  fresh : ∀ {text}, a = .post text → ∀ m ∈ p.created, m.displayTs ≠ p.displayTs
  others : ∀ {src shown}, a = .deliver src shown → shown.author ≠ SELF_AUTHOR

namespace Attributed

theorem display (attributed : p.Attributed) (src : TruncatedHash) {shown : HeldMessage}
    (other : shown.author ≠ SELF_AUTHOR) : (p.display src shown).Attributed := by
  refine { attributed with showing := attributed.showing.handle (.postAdd (some src) shown) ?_ rfl }
  rintro src' post ⟨⟩
  exact other

theorem save (attributed : p.Attributed) : p.save.Attributed :=
  { attributed with showing := attributed.showing.save }

theorem post (attributed : p.Attributed) (fresh : ∀ m ∈ p.created, m.displayTs ≠ p.displayTs)
    (text : Text) : (p.post text).Attributed := by
  rw [Phone.post]
  split
  case h_1 => exact attributed
  case h_2 peer current =>
    have keyed : Desk.initialKey p.inbox.currentPeer = hex peer.val := by rw [current]; rfl
    have more : ∀ m ∈ p.created, m ∈ p.created ++ [⟨peer, p.displayTs, text⟩] :=
      fun _ => List.mem_append_left _
    refine ⟨(attributed.showing.own (m := ⟨peer, p.displayTs, text⟩) keyed fresh MARK_PENDING).save,
      ?_, ?_, attributed.waiting.mono (more _), attributed.kept.mono (more _), attributed.pending,
      attributed.persisted⟩
    · -- The new message shares its time with no other.
      intro m there m' there' same
      rcases List.mem_append.mp there with old | new <;>
        rcases List.mem_append.mp there' with old' | new'
      · exact attributed.once m old m' old' same
      · cases List.mem_singleton.mp new'
        exact absurd same (fresh m old)
      · cases List.mem_singleton.mp new
        exact absurd same.symm (fresh m' old')
      · exact (List.mem_singleton.mp new).trans (List.mem_singleton.mp new').symm
    · intro m there
      rcases List.mem_append.mp there with old | new
      · exact more m (attributed.sent m old)
      · exact List.mem_append_right _ new

theorem deliver (attributed : p.Attributed) (src : TruncatedHash) {shown : HeldMessage}
    (other : shown.author ≠ SELF_AUTHOR) : (p.deliver src shown).Attributed := by
  rw [Phone.deliver]
  split
  · exact (attributed.display src other).save
  · refine { attributed with pending := attributed.pending.push other, persisted := ?_ }
    refine attributed.persisted.insert fun m there => ?_
    rcases List.mem_append.mp there with old | new
    · exact attributed.pending.getD src m old
    · exact List.mem_singleton.mp new ▸ other

theorem switch (attributed : p.Attributed) (addr : TruncatedHash) : (p.switch addr).Attributed :=
  { attributed with showing := .dialogueSet attributed.showing.threads (hex addr.val) }

theorem flush (attributed : p.Attributed) (addr : TruncatedHash) : (p.flush addr).Attributed := by
  have shown : ∀ (queued : List HeldMessage) (p : Phone), p.Attributed →
      (∀ m ∈ queued, m.author ≠ SELF_AUTHOR) →
      (queued.foldl (Phone.display addr) p).Attributed := by
    intro queued
    induction queued with
    | nil => exact fun p attributed _ => attributed
    | cons m rest ih =>
      intro p attributed others
      exact ih _ (attributed.display addr (others m List.mem_cons_self))
        fun m there => others m (List.mem_cons_of_mem _ there)
  have flushed := shown _ { p with inbox := { p.inbox with pending := p.inbox.pending.erase addr } }
    { attributed with pending := attributed.pending.erase addr } (attributed.pending.getD addr)
  rw [Phone.flush]
  dsimp only
  split
  · exact { flushed with }
  · exact save { flushed with persisted := flushed.persisted.erase addr }

theorem applyDeliveryUpdates (attributed : p.Attributed) (addr : TruncatedHash) :
    (p.applyDeliveryUpdates addr).Attributed := by
  rw [Phone.applyDeliveryUpdates]
  split
  case h_1 => exact attributed
  case h_2 updates waiting =>
    exact { attributed with
      showing := (attributed.showing.remarkAll attributed.once (attributed.waiting waiting)).save
      waiting := attributed.waiting.erase addr
      kept := attributed.kept.erase addr }

theorem updateMark (attributed : p.Attributed) {m : Sent} (written : m ∈ p.created)
    (status : Status) : (p.updateMark m status).Attributed := by
  have showing := attributed.showing.remark attributed.once written status
  rw [Phone.updateMark]
  split
  all_goals
    rename_i ui outcome
    rw [outcome] at showing
  · exact save (p := { p with ui }) { attributed with showing }
  · refine { attributed with
      showing, waiting := attributed.waiting.push written, kept := ?_ }
    refine attributed.kept.insert fun u there => ?_
    rcases List.mem_append.mp there with old | new
    · exact attributed.waiting.getD m.peer u old
    · exact List.mem_singleton.mp new ▸ written

theorem restart (attributed : p.Attributed) : p.restart.Attributed where
  showing := .dialogueSet attributed.showing.threads.stored (Desk.initialKey p.keyPeer)
  once := attributed.once
  sent := (fun _ there => nomatch there)
  waiting := attributed.kept
  kept := attributed.kept
  pending := attributed.persisted.retain _
  persisted := attributed.persisted

theorem act (attributed : p.Attributed) {a : PhoneAction} (distinct : Distinct p a) :
    (p.act a).Attributed := by
  cases a with
  | tick time => exact { attributed with }
  | post text => exact attributed.post (distinct.fresh rfl) text
  | deliver src shown => exact attributed.deliver src (distinct.others rfl)
  | activatePeer addr => exact ((attributed.switch addr).flush addr).applyDeliveryUpdates addr
  | mark index status =>
    rw [Phone.act]
    split
    case h_2 => exact attributed
    case h_1 m there =>
      exact attributed.updateMark (attributed.sent m (List.mem_of_getElem? there)) status
  | restart => exact attributed.restart

end Attributed

theorem attributed_first : first.Attributed where
  showing := by
    have empty : ({} : ChatUi).All (Dialogue.Owned []) :=
      ⟨(fun there => nomatch there), (fun named => nomatch named)⟩
    exact .dialogueSet empty (Desk.initialKey none)
  once := (fun _ there => nomatch there)
  sent := (fun _ there => nomatch there)
  waiting := .empty _
  kept := .empty _
  pending := (Table.Each.empty _).retain fun list => !list.isEmpty
  persisted := .empty _

/-- Marks for some messages, one after the other. -/
def RemarkedAll : List Sent → ChatUi → ChatUi → Prop
  | [], ui, ui' => ∀ key, ui'.thread key = ui.thread key
  | m :: rest, ui, ui' => ∃ next, Remarked m ui next ∧ RemarkedAll rest next ui'

def awaiting (p : Phone) (addr : TruncatedHash) : List Sent :=
  ((p.deliveryUpdates.lookup addr).getD []).map fun u => ⟨addr, u.displayTs, u.text⟩

theorem remarkedAll_remarkAll {created : List Sent} {key : Text} {ui : ChatUi}
    (showing : ui.Showing created key)
    (once : ∀ m ∈ created, ∀ m' ∈ created, m.displayTs = m'.displayTs → m = m')
    {peer : TruncatedHash} {updates : List DeliveryUpdate}
    (written : ∀ u ∈ updates, ⟨peer, u.displayTs, u.text⟩ ∈ created) :
    RemarkedAll (updates.map fun u => ⟨peer, u.displayTs, u.text⟩) ui
      ((ui.remarkAll updates).handle .dialogueSave) := by
  induction updates generalizing ui with
  | nil => exact fun key => ChatUi.thread_handle_dialogueSave ui key
  | cons u rest ih =>
    have here := written u List.mem_cons_self
    refine ⟨_, remarked_remark showing.threads once here u.status, ?_⟩
    exact ih (showing.remark once here u.status)
      fun u there => written u (List.mem_cons_of_mem _ there)

theorem Attributed.remarkedAll (attributed : p.Attributed) (addr : TruncatedHash) :
    RemarkedAll (p.awaiting addr) p.ui (p.applyDeliveryUpdates addr).ui
      ∧ ∀ m ∈ p.awaiting addr, m ∈ p.created := by
  rw [awaiting, Phone.applyDeliveryUpdates]
  split
  case h_1 none_ =>
    rw [none_]
    exact ⟨fun _ => rfl, (fun _ there => nomatch there)⟩
  case h_2 updates waiting =>
    have written := attributed.waiting waiting
    rw [waiting]
    refine ⟨remarkedAll_remarkAll attributed.showing attributed.once written, fun m there => ?_⟩
    obtain ⟨u, listed, rfl⟩ := List.mem_map.mp there
    exact written u listed

theorem Attributed.remarked (attributed : p.Attributed) {m : Sent} (written : m ∈ p.created)
    (status : Status) : Remarked m p.ui (p.updateMark m status).ui := by
  have marked := remarked_remark attributed.showing.threads attributed.once written status
  rw [Phone.updateMark]
  split
  all_goals
    rename_i ui outcome
    rw [outcome] at marked
  · exact marked.save
  · exact marked

/--
In every history in which no message of ours is shown at a time that an earlier one had, and in
which nobody else goes by our name, a mark changes at most the bubble of its own message, both
when its fate becomes known and when its conversation is opened.
-/
theorem marks_own_bubble {p : Phone} (run : ReflTransGen (Step Distinct) first p) :
    (∀ m ∈ p.sent, ∀ status, Remarked m p.ui (p.updateMark m status).ui)
    ∧ ∀ addr,
      RemarkedAll (((p.switch addr).flush addr).awaiting addr) ((p.switch addr).flush addr).ui
        (p.activatePeer addr).ui
      ∧ ∀ m ∈ ((p.switch addr).flush addr).awaiting addr,
        m ∈ ((p.switch addr).flush addr).created := by
  have attributed : p.Attributed := by
    refine reachable_of_keeps (I := Attributed) ?_ attributed_first run
    intro before after kept step
    cases step with
    | act a fine => exact kept.act fine
  refine ⟨fun m there status => attributed.remarked (attributed.sent m there) status, fun addr => ?_⟩
  exact ((attributed.switch addr).flush addr).remarkedAll addr

def texts (p : Phone) (addr : TruncatedHash) : List Text :=
  (((p.ui.thread (hex addr.val)).map Dialogue.posts).getD []).map Post.text

def reusedRun : List PhoneAction :=
  [ .tick 100, .activatePeer Desk.sampleOther, .post "b".toList, .restart,
    .activatePeer Desk.sampleOpen, .post "a".toList, .activatePeer Desk.sampleOther ]

/-- The mark of the message to one peer overwrites the message to the other. -/
theorem other_bubble_overwritten :
    (first.actAll reusedRun).sent = [⟨Desk.sampleOpen, 100, "a".toList⟩]
      ∧ (first.actAll reusedRun).texts Desk.sampleOther = ["b  ○".toList]
      ∧ (first.actAll (reusedRun ++ [.mark 0 .delivered])).texts Desk.sampleOther
        = ["a  ✓".toList]
      ∧ (first.actAll (reusedRun ++ [.mark 0 .delivered])).texts Desk.sampleOpen
        = ["a  ○".toList] := by
  decide +kernel

def awayRun : List PhoneAction :=
  [ .tick 100, .activatePeer Desk.sampleOpen, .post "a".toList, .activatePeer Desk.sampleOther,
    .mark 0 .delivered ]

theorem distinct_other {a : PhoneAction} (unwritten : ∀ text, a ≠ .post text)
    (undelivered : ∀ src shown, a ≠ .deliver src shown) : Distinct p a :=
  ⟨(fun same => absurd same (unwritten _)), (fun same => absurd same (undelivered _ _))⟩

theorem marks_own_bubble_away :
    (first.actAll awayRun).texts Desk.sampleOpen = ["a  ○".toList]
      ∧ ((first.actAll awayRun).activatePeer Desk.sampleOpen).texts Desk.sampleOpen
        = ["a  ✓".toList]
      ∧ ((∀ m ∈ (first.actAll awayRun).sent, ∀ status,
          Remarked m (first.actAll awayRun).ui ((first.actAll awayRun).updateMark m status).ui)
        ∧ ∀ addr,
          RemarkedAll ((((first.actAll awayRun).switch addr).flush addr).awaiting addr)
            (((first.actAll awayRun).switch addr).flush addr).ui
            ((first.actAll awayRun).activatePeer addr).ui
          ∧ ∀ m ∈ (((first.actAll awayRun).switch addr).flush addr).awaiting addr,
            m ∈ (((first.actAll awayRun).switch addr).flush addr).created) := by
  have unused : ((first.act (.tick 100)).act (.activatePeer Desk.sampleOpen)).created = [] := by
    decide +kernel
  have written : Distinct ((first.act (.tick 100)).act (.activatePeer Desk.sampleOpen))
      (.post "a".toList) := by
    refine ⟨fun _ m there => ?_, (fun same => nomatch same)⟩
    rw [unused] at there
    cases there
  have permitted : Permitted act Distinct first awayRun :=
    ⟨distinct_other (by simp) (by simp), distinct_other (by simp) (by simp), written,
      distinct_other (by simp) (by simp), distinct_other (by simp) (by simp), trivial⟩
  exact ⟨by decide +kernel, by decide +kernel, marks_own_bubble (run_of_allowed permitted)⟩

end Phone

end LxmfChat
