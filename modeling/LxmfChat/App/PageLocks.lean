import LxmfChat.App.Browser

/-! The browser's threads, which take turns at the critical sections of its lock. -/

namespace LxmfChat

open Base
open Relation (ReflTransGen)

/-- Why a page was asked for. -/
inductive Intent
  /-- A link was followed, and the page that is shown is to be kept. -/
  | follow
  | back
  /-- The page is shown in place of the one before, as when it is loaded again. -/
  | neither
deriving DecidableEq, Repr

/-- The threads that work on a fetch: the browser's own, and those that read from an interface. -/
inductive Worker
  | browser
  | reader (n : Nat)
deriving DecidableEq, Repr

inductive Stand
  | resting
  /-- The request was taken, and the fetch has not begun. -/
  | holding (addr : PageAddr) (intent : Intent)
  /-- The fetch has begun, and there may be a link for it. -/
  | connecting
  | sending
  | sent
  | answering
  | failing
deriving DecidableEq

/-- Where the user's thread stands in going back. -/
inductive UiStand
  | free
  /-- The page on top of the stack was read. -/
  | peeked (prev : PageAddr)
  /-- That page was asked for, and is not marked to come off the stack yet. -/
  | asked
deriving DecidableEq

/--
The browser and its threads.

The intents are history variables: they go along with a request from where it is made to where
its page is shown, and nothing reads them.
-/
structure Pages (Link : Type*) where
  b : BrowserState := {}
  /-- The links of the page that is shown. -/
  links : List Link := []
  currentTitle : Option Text := none
  ui : UiStand := .free
  stand : Worker → Stand := fun _ => .resting
  requestIntent : Intent := .neither
  fetchIntent : Intent := .neither

/-- One critical section of a thread. -/
inductive Move (Link : Type*)
  | requestPage (addr : PageAddr) (pushBack : Bool)
  | backPeek
  | backRequest
  | backFlag
  | suspend
  /-- The browser thread finds that the fetch takes too long. -/
  | stall (now : Nat)
  | relink (written : Bool)
  | take (now : Nat)
  | rearm (now : Nat)
  | beginFetch (deadline : Nat)
  | reuse (lid : TruncatedHash)
  | contact (written : Bool)
  | linkUp (reader : Nat) (lid target : TruncatedHash)
  | send (w : Worker)
  | written (w : Worker) (done : Bool)
  | data (reader : Nat) (lid : TruncatedHash)
  | progress (reader : Nat) (deadline : Nat)
  | receive (reader : Nat) (receiver : Option ResourceReceiver)
  /-- What arrived was not a page, or not all of it; the fetch may fail over it. -/
  | noPage (reader : Nat) (fails : Bool)
  | render (reader : Nat) (links : List Link) (title : Option Text)
  /-- The link or the connection is gone while a fetch is under way. -/
  | lost (reader : Nat)
  | dropLink (reader : Nat)
  | finish (w : Worker)

def Intent.ofPush (pushBack : Bool) : Intent := if pushBack then .follow else .neither

namespace Pages

variable {Link : Type*} {s s' : Pages Link}

def setStand (s : Pages Link) (w : Worker) (next : Stand) : Pages Link :=
  { s with stand := Function.update s.stand w next }

def request (s : Pages Link) (addr : PageAddr) (pushBack : Bool) (intent : Intent) : Pages Link :=
  { s with
    b := { s.b with
      requested := some addr, pendingPush := pushBack, pendingPop := false
      nextAttempt := 0, routeTries := 0 }
    requestIntent := intent }

/-- What a critical section does; nothing if it is not that thread's turn to enter it. -/
def act (s : Pages Link) : Move Link → Option (Pages Link)
  | .requestPage addr pushBack =>
    if s.ui ≠ .free then none
    else if s.b.phase ≠ .idle then some s
    else some (s.request addr pushBack (.ofPush pushBack))
  | .backPeek =>
    if s.ui ≠ .free then none
    else
      match s.b.back.getLast? with
      | some prev => some { s with ui := .peeked prev }
      | none => some s
  | .backRequest =>
    match s.ui with
    | .peeked prev =>
      if s.b.phase ≠ .idle then some { s with ui := .free }
      else some { s.request prev false .back with ui := .asked }
    | _ => none
  | .backFlag =>
    if s.ui = .asked then some { s with b := { s.b with pendingPop := true }, ui := .free }
    else none
  | .suspend =>
    if s.ui ≠ .free then none else some { s with b := { s.b.reset with viewing := false } }
  | .stall now =>
    if s.stand .browser = .resting ∧ s.b.phase ≠ .idle ∧ s.b.deadline < now then
      some (s.setStand .browser .failing)
    else none
  | .relink written =>
    if s.stand .browser = .resting ∧ s.b.phase = .linking then
      if written then some { s with b := { s.b with linkTries := countTry s.b.linkTries } }
      else some (s.setStand .browser .failing)
    else none
  | .take now =>
    if s.stand .browser = .resting ∧ s.b.phase = .idle ∧ s.b.nextAttempt ≤ now then
      s.b.requested.map fun addr =>
        { s with b := { s.b with requested := none } }.setStand .browser
          (.holding addr s.requestIntent)
    else none
  | .rearm now =>
    match s.stand .browser with
    | .holding addr intent =>
      let tries := countTry s.b.routeTries
      let b := { s.b with routeTries := tries }
      if tries ≤ BROWSER_ROUTE_TRIES then
        some ({ s with
          b := { b with requested := some addr, nextAttempt := now + BROWSER_ROUTE_RETRY_SECS }
          requestIntent := intent }.setStand .browser .resting)
      else some ({ s with b }.setStand .browser .failing)
    | _ => none
  | .beginFetch deadline =>
    match s.stand .browser with
    | .holding addr intent =>
      some ({ s with b := s.b.begun addr deadline, fetchIntent := intent }.setStand .browser
        .connecting)
    | _ => none
  | .reuse lid =>
    if s.stand .browser = .connecting then
      some ({ s with b := { s.b with linkId := some lid } }.setStand .browser .sending)
    else none
  | .contact written =>
    if s.stand .browser = .connecting then
      if written then
        some ({ s with b := { s.b with linkTries := 1 } }.setStand .browser .resting)
      else some (s.setStand .browser .failing)
    else none
  | .linkUp reader lid target =>
    if s.stand (.reader reader) ≠ .resting then none
    else if s.b.phase = .linking ∧ s.b.node = some target then
      some ({ s with b := { s.b with linkId := some lid } }.setStand (.reader reader) .sending)
    else some s
  | .send w =>
    if s.stand w = .sending then
      some ({ s with b := { s.b with phase := .fetching } }.setStand w .sent)
    else none
  | .written w done =>
    if s.stand w = .sent then some (s.setStand w (if done then .resting else .failing)) else none
  | .data reader lid =>
    if s.stand (.reader reader) ≠ .resting then none
    else if s.b.linkId = some lid ∧ s.b.phase = .fetching then
      some (s.setStand (.reader reader) .answering)
    else some s
  | .progress reader deadline =>
    if s.stand (.reader reader) = .answering then some { s with b := { s.b with deadline } }
    else none
  | .receive reader receiver =>
    if s.stand (.reader reader) = .answering then some { s with b := { s.b with receiver } }
    else none
  | .noPage reader fails =>
    if s.stand (.reader reader) = .answering then
      some (s.setStand (.reader reader) (if fails then .failing else .resting))
    else none
  | .render reader links title =>
    if s.stand (.reader reader) = .answering then
      match s.b.node with
      | none => some (s.setStand (.reader reader) .resting)
      | some node =>
        some ({ s with b := s.b.shown node, links, currentTitle := title }.setStand
          (.reader reader) .resting)
    else none
  | .lost reader =>
    if s.stand (.reader reader) = .resting ∧ s.b.phase ≠ .idle then
      some (s.setStand (.reader reader) .failing)
    else none
  | .dropLink reader =>
    if s.stand (.reader reader) = .resting then some { s with b := { s.b with linkId := none } }
    else none
  | .finish w =>
    if s.stand w = .failing then some ({ s with b := s.b.reset }.setStand w .resting) else none

def run (s : Pages Link) (moves : List (Move Link)) : Option (Pages Link) := moves.foldlM act s

/-- A job that was taken off the requests has not begun. -/
def Holding (s : Pages Link) : Prop := ∃ addr intent, s.stand .browser = .holding addr intent

/--
Nobody touches the request while the browser thread holds it, and no page is shown while the user
goes back.
-/
def Undisturbed (s : Pages Link) : Move Link → Prop
  | .requestPage _ _ | .backRequest | .suspend | .finish _ => ¬ s.Holding
  | .render _ _ _ => s.ui = .free
  | _ => True

/-- An undisturbed critical section. -/
def Step (s s' : Pages Link) : Prop := ∃ m, s.Undisturbed m ∧ s.act m = some s'

def view (s : Pages Link) :=
  (s.ui, s.b.node, s.b.path, s.b.vars, s.b.requested, s.b.pendingPush, s.b.pendingPop,
    s.b.current, s.b.back, s.links, s.currentTitle, s.requestIntent, s.fetchIntent)

/-- The section does nothing to the stack of pages, nor to what will be done to it. -/
structure Quiet (s s' : Pages Link) : Prop where
  view : s'.view = s.view
  holding : ∀ {addr intent}, s'.stand .browser = .holding addr intent →
    s.stand .browser = .holding addr intent
  idle : s'.b.phase = .idle → s.b.phase = .idle

theorem holding_setStand {w : Worker} {next : Stand} {addr : PageAddr} {intent : Intent}
    (other : ∀ addr intent, next ≠ .holding addr intent)
    (held : (s.setStand w next).stand .browser = .holding addr intent) :
    s.stand .browser = .holding addr intent := by
  rw [setStand] at held
  dsimp only at held
  by_cases same : w = .browser
  · rw [same, Function.update_self] at held
    exact absurd held (other addr intent)
  · rwa [Function.update_of_ne (Ne.symm same)] at held

/-- What a critical section can do, one case for each way in which it is not quiet. -/
inductive Effect (s : Pages Link) : Move Link → Pages Link → Prop
  | quiet {m : Move Link} {s' : Pages Link} (same : Quiet s s') : Effect s m s'
  | request {addr : PageAddr} {pushBack : Bool} (free : s.ui = .free) (idle : s.b.phase = .idle) :
      Effect s (.requestPage addr pushBack) (s.request addr pushBack (.ofPush pushBack))
  | peek {prev : PageAddr} (free : s.ui = .free) (top : s.b.back.getLast? = some prev) :
      Effect s .backPeek { s with ui := .peeked prev }
  | refuse {prev : PageAddr} (peeked : s.ui = .peeked prev) :
      Effect s .backRequest { s with ui := .free }
  | back {prev : PageAddr} (peeked : s.ui = .peeked prev) (idle : s.b.phase = .idle) :
      Effect s .backRequest { s.request prev false .back with ui := .asked }
  | flag (asked : s.ui = .asked) :
      Effect s .backFlag { s with b := { s.b with pendingPop := true }, ui := .free }
  | suspend (free : s.ui = .free) :
      Effect s .suspend { s with b := { s.b.reset with viewing := false } }
  | take {now : Nat} {addr : PageAddr} (requested : s.b.requested = some addr) :
      Effect s (.take now) ({ s with b := { s.b with requested := none } }.setStand .browser
        (.holding addr s.requestIntent))
  | rearm {now : Nat} {addr : PageAddr} {intent : Intent} {tries : UInt8} {nextAttempt : Nat}
      (held : s.stand .browser = .holding addr intent) :
      Effect s (.rearm now) ({ s with
        b := { s.b with routeTries := tries, requested := some addr, nextAttempt }
        requestIntent := intent }.setStand .browser .resting)
  | begun {addr : PageAddr} {intent : Intent} {deadline : Nat}
      (held : s.stand .browser = .holding addr intent) :
      Effect s (.beginFetch deadline) ({ s with
        b := s.b.begun addr deadline, fetchIntent := intent }.setStand .browser .connecting)
  | render {reader : Nat} {links : List Link} {title : Option Text} {node : TruncatedHash}
      (target : s.b.node = some node) :
      Effect s (.render reader links title) ({ s with
        b := s.b.shown node, links, currentTitle := title }.setStand (.reader reader) .resting)
  | finish {w : Worker} :
      Effect s (.finish w) ({ s with b := s.b.reset }.setStand w .resting)

theorem Quiet.refl (s : Pages Link) : Quiet s s := ⟨rfl, id, id⟩

theorem Quiet.setStand (same : Quiet s s') {w : Worker} {next : Stand}
    (other : ∀ addr intent, next ≠ .holding addr intent) : Quiet s (s'.setStand w next) :=
  ⟨same.view, fun held => same.holding (holding_setStand other held), same.idle⟩

theorem effect {m : Move Link} (acted : s.act m = some s') : Effect s m s' := by
  cases m with
  | requestPage addr pushBack =>
    simp only [act] at acted
    split_ifs at acted with busy under <;> cases acted
    · exact .quiet (.refl s)
    · exact .request (not_not.mp busy) (not_not.mp under)
  | backPeek =>
    simp only [act] at acted
    split_ifs at acted with busy
    cases top : s.b.back.getLast? with
    | none =>
      rw [top] at acted
      cases acted
      exact .quiet (.refl s)
    | some prev =>
      rw [top] at acted
      cases acted
      exact .peek (not_not.mp busy) top
  | backRequest =>
    simp only [act] at acted
    split at acted
    case h_1 prev peeked =>
      split_ifs at acted with under <;> cases acted
      · exact .refuse peeked
      · exact .back peeked (not_not.mp under)
    case h_2 => cases acted
  | backFlag =>
    simp only [act] at acted
    split_ifs at acted with asked
    cases acted
    exact .flag asked
  | suspend =>
    simp only [act] at acted
    split_ifs at acted with busy
    cases acted
    exact .suspend (not_not.mp busy)
  | stall now =>
    simp only [act] at acted
    split_ifs at acted
    cases acted
    exact .quiet (.setStand (.refl s) fun _ _ => Stand.noConfusion)
  | relink written =>
    simp only [act] at acted
    split_ifs at acted <;> cases acted
    · exact .quiet ⟨rfl, id, id⟩
    · exact .quiet (.setStand (.refl s) fun _ _ => Stand.noConfusion)
  | take now =>
    simp only [act] at acted
    split_ifs at acted
    obtain ⟨addr, requested, rfl⟩ := Option.map_eq_some_iff.mp acted
    exact .take requested
  | rearm now =>
    simp only [act] at acted
    split at acted
    case h_1 addr intent held =>
      split_ifs at acted <;> cases acted
      · exact .rearm held
      · refine .quiet (.setStand ?_ fun _ _ => Stand.noConfusion)
        exact ⟨rfl, id, id⟩
    case h_2 => cases acted
  | beginFetch deadline =>
    simp only [act] at acted
    split at acted
    case h_1 addr intent held =>
      cases acted
      exact .begun held
    case h_2 => cases acted
  | reuse lid =>
    simp only [act] at acted
    split_ifs at acted
    cases acted
    refine .quiet (.setStand ?_ fun _ _ => Stand.noConfusion)
    exact ⟨rfl, id, id⟩
  | contact written =>
    simp only [act] at acted
    split_ifs at acted <;> cases acted
    · refine .quiet (.setStand ?_ fun _ _ => Stand.noConfusion)
      exact ⟨rfl, id, id⟩
    · exact .quiet (.setStand (.refl s) fun _ _ => Stand.noConfusion)
  | linkUp reader lid target =>
    simp only [act] at acted
    split_ifs at acted <;> cases acted
    · refine .quiet (.setStand ?_ fun _ _ => Stand.noConfusion)
      exact ⟨rfl, id, id⟩
    · exact .quiet (.refl s)
  | send w =>
    simp only [act] at acted
    split_ifs at acted
    cases acted
    refine .quiet (.setStand ?_ fun _ _ => Stand.noConfusion)
    exact ⟨rfl, id, fun idle => BrowserPhase.noConfusion idle⟩
  | written w done =>
    simp only [act] at acted
    split_ifs at acted <;> cases acted <;>
      exact .quiet (.setStand (.refl s) fun _ _ => Stand.noConfusion)
  | data reader lid =>
    simp only [act] at acted
    split_ifs at acted <;> cases acted
    · exact .quiet (.setStand (.refl s) fun _ _ => Stand.noConfusion)
    · exact .quiet (.refl s)
  | progress reader deadline =>
    simp only [act] at acted
    split_ifs at acted
    cases acted
    exact .quiet ⟨rfl, id, id⟩
  | receive reader receiver =>
    simp only [act] at acted
    split_ifs at acted
    cases acted
    exact .quiet ⟨rfl, id, id⟩
  | noPage reader fails =>
    simp only [act] at acted
    split_ifs at acted <;> cases acted <;>
      exact .quiet (.setStand (.refl s) fun _ _ => Stand.noConfusion)
  | render reader links title =>
    simp only [act] at acted
    split_ifs at acted
    split at acted
    case h_1 =>
      cases acted
      exact .quiet (.setStand (.refl s) fun _ _ => Stand.noConfusion)
    case h_2 node target =>
      cases acted
      exact .render target
  | lost reader =>
    simp only [act] at acted
    split_ifs at acted
    cases acted
    exact .quiet (.setStand (.refl s) fun _ _ => Stand.noConfusion)
  | dropLink reader =>
    simp only [act] at acted
    split_ifs at acted
    cases acted
    exact .quiet ⟨rfl, id, id⟩
  | finish w =>
    simp only [act] at acted
    split_ifs at acted
    cases acted
    exact .finish

theorem act_requestPage {c : Client} (same : c.browser = s.b) (free : s.ui = .free)
    (addr : PageAddr) (pushBack : Bool) : ∃ s', s.act (.requestPage addr pushBack) = some s' ∧
      (c.requestPage addr pushBack).1.browser = s'.b ∧ s'.ui = .free := by
  by_cases idle : s.b.phase = .idle
  · refine ⟨s.request addr pushBack (.ofPush pushBack), ?_, ?_, free⟩
    · simp [act, free, idle]
    · simp [Client.requestPage, same, idle, request]
  · refine ⟨s, ?_, ?_, free⟩
    · simp [act, free, idle]
    · simp [Client.requestPage, same, idle]

theorem run_back {c : Client} (same : c.browser = s.b) (free : s.ui = .free) :
    ∃ moves s', moves <+: [.backPeek, .backRequest, .backFlag] ∧ s.run moves = some s' ∧
      c.browserBack.browser = s'.b ∧ s'.ui = .free := by
  cases top : s.b.back.getLast? with
  | none =>
    refine ⟨[.backPeek], s, ⟨_, rfl⟩, ?_, ?_, free⟩
    · simp [run, act, free, top]
    · rw [Client.browserBack, same, top]
      exact same
  | some prev =>
    by_cases idle : s.b.phase = .idle
    · refine ⟨[.backPeek, .backRequest, .backFlag], { s.request prev false .back with
        b := { (s.request prev false .back).b with pendingPop := true } }, ⟨_, rfl⟩, ?_, ?_, free⟩
      · simp [run, act, free, top, idle, request]
      · rw [Client.browserBack, same, top]
        simp [Client.requestPage, same, idle, request]
    · -- A fetch is under way, so the request is not taken and no flag is set.
      refine ⟨[.backPeek, .backRequest], s, ⟨_, rfl⟩, ?_, ?_, free⟩
      · have peeked : s.act .backPeek = some { s with ui := .peeked prev } := by
          simp [act, free, top]
        have refused : ({ s with ui := .peeked prev } : Pages Link).act .backRequest = some s := by
          simp [act, idle, ← free]
        simp [run, peeked, refused]
      · rw [Client.browserBack, same, top]
        simp [Client.requestPage, same, idle]

theorem act_pageReceived {c : Client} (same : c.browser = s.b) {reader : Nat}
    (answering : s.stand (.reader reader) = .answering) (links : List Link) (title : Option Text)
    (content : Bytes) : ∃ s', s.act (.render reader links title) = some s' ∧
      (c.pageReceived (.bin content)).browser = s'.b := by
  cases target : s.b.node with
  | none =>
    refine ⟨s.setStand (.reader reader) .resting, ?_, ?_⟩
    · simp [act, answering, target]
    · simp [Client.pageReceived, same, target, setStand]
  | some node =>
    refine ⟨{ s with b := s.b.shown node, links, currentTitle := title }.setStand
      (.reader reader) .resting, ?_, ?_⟩
    · simp [act, answering, target]
    · simp [Client.pageReceived, same, target, setStand]

end Pages

end LxmfChat
