import LxmfChat.App.PageLocks

/-! The browser's stack of pages in every interleaving of its threads. -/

namespace LxmfChat

open Base
open Relation (ReflTransGen)

def newest (pages : List PageAddr) : List PageAddr := pages.drop (pages.length - BACK_STACK_MAX)

namespace BrowserState

variable {b : BrowserState} {node : TruncatedHash}

theorem pendingPop_pushed : b.pushed.pendingPop = b.pendingPop := by
  rw [pushed]
  split_ifs
  · cases b.current <;> rfl
  · rfl

theorem back_shown :
    (b.shown node).back = if b.pendingPop then b.pushed.back.dropLast else b.pushed.back := by
  show b.pushed.popped.back = _
  rw [popped, pendingPop_pushed]
  split_ifs <;> rfl

theorem back_pushed (push : b.pendingPush = true) (bounded : b.back.length ≤ BACK_STACK_MAX) :
    b.pushed.back = newest (b.back ++ b.current.toList) := by
  rw [pushed, if_pos push]
  cases prev : b.current with
  | none =>
    rw [Option.toList_none, List.append_nil, newest, Nat.sub_eq_zero_of_le bounded, List.drop_zero]
  | some page =>
    have length : (b.back ++ [page]).length = b.back.length + 1 := by simp
    simp only [Option.toList_some, newest]
    -- At most one page too many is on the stack.
    split_ifs with beyond
    · rw [show (b.back ++ [page]).length - BACK_STACK_MAX = 1 by omega]
    · rw [show (b.back ++ [page]).length - BACK_STACK_MAX = 0 by omega, List.drop_zero]

theorem pushed_of_not (push : b.pendingPush = false) : b.pushed = b := by
  rw [pushed, push]
  rfl

theorem length_back_shown_le (bounded : b.back.length ≤ BACK_STACK_MAX) :
    (b.shown node).back.length ≤ BACK_STACK_MAX := by
  have pushed_le : b.pushed.back.length ≤ BACK_STACK_MAX := by
    cases push : b.pendingPush with
    | true =>
      rw [back_pushed push bounded, newest, List.length_drop]
      omega
    | false =>
      rw [pushed_of_not push]
      exact bounded
  rw [back_shown]
  split_ifs
  · rw [List.length_dropLast]
    omega
  · exact pushed_le

end BrowserState

namespace Pages

variable {Link : Type*} {s s' : Pages Link}

/-- The flags do to the stack what the request for the page is for. -/
def Meant (s : Pages Link) (addr : PageAddr) : Intent → Prop
  | .follow => s.b.pendingPush = true ∧ s.b.pendingPop = false ∧ s.ui ≠ .asked
  -- The second flag is set in a section of its own.
  | .back => s.b.pendingPush = false ∧ (s.b.pendingPop = true ∨ s.ui = .asked)
      ∧ s.b.back.getLast? = some addr
  | .neither => s.b.pendingPush = false ∧ s.b.pendingPop = false ∧ s.ui ≠ .asked

/-- Wherever a request is, the flags are still its own. -/
structure Paired (s : Pages Link) : Prop where
  busy : s.b.node.isSome → s.b.phase ≠ .idle
  requested : ∀ {addr}, s.b.requested = some addr → s.b.node = none ∧ s.Meant addr s.requestIntent
  held : ∀ {addr intent}, s.stand .browser = .holding addr intent →
    s.b.node = none ∧ s.b.requested = none ∧ s.Meant addr intent
  fetching : ∀ {node}, s.b.node = some node → s.Meant ⟨node, s.b.path, s.b.vars⟩ s.fetchIntent
  peeked : ∀ {prev}, s.ui = .peeked prev → s.b.back.getLast? = some prev
  bounded : s.b.back.length ≤ BACK_STACK_MAX

namespace Paired

theorem start : Paired ({} : Pages Link) where
  busy := by simp
  requested := by simp
  held := by simp
  fetching := by simp
  peeked := by simp
  bounded := by simp

theorem quiet (paired : s.Paired) (same : Quiet s s') : s'.Paired := by
  obtain ⟨view, holding, idle⟩ := same
  simp only [Pages.view, Prod.mk.injEq] at view
  obtain ⟨ui, node, path, vars, requested, push, pop, -, back, -, -, requestIntent, fetchIntent⟩ :=
    view
  have meant : ∀ {addr intent}, s.Meant addr intent → s'.Meant addr intent := by
    intro addr intent
    cases intent <;> simp only [Meant, ui, push, pop, back] <;> exact id
  refine ⟨?_, ?_, ?_, ?_, ?_, ?_⟩
  · intro target stop
    exact paired.busy (node ▸ target) (idle stop)
  · intro addr there
    rw [requested] at there
    rw [node, requestIntent]
    exact ⟨(paired.requested there).1, meant (paired.requested there).2⟩
  · intro addr intent there
    obtain ⟨none_, none', flags⟩ := paired.held (holding there)
    exact ⟨node.trans none_, requested.trans none', meant flags⟩
  · intro target there
    rw [node] at there
    rw [path, vars, fetchIntent]
    exact meant (paired.fetching there)
  · intro prev there
    rw [ui] at there
    rw [back]
    exact paired.peeked there
  · rw [back]
    exact paired.bounded

theorem request (paired : s.Paired) (idle : s.b.phase = .idle) (fine : ¬ s.Holding)
    {addr : PageAddr} {pushBack : Bool} {intent : Intent} (ui : UiStand)
    (meant : ({ s.request addr pushBack intent with ui } : Pages Link).Meant addr intent)
    (away : ∀ prev, ui ≠ .peeked prev) :
    ({ s.request addr pushBack intent with ui } : Pages Link).Paired := by
  have nothing : s.b.node = none := by
    cases target : s.b.node with
    | none => rfl
    | some node => exact absurd idle (paired.busy (by rw [target]; rfl))
  refine ⟨paired.busy, ?_, ?_, ?_, ?_, paired.bounded⟩
  · rintro _ ⟨⟩
    exact ⟨nothing, meant⟩
  · intro addr intent there
    exact absurd ⟨addr, intent, there⟩ fine
  · intro node there
    rw [show (s.request addr pushBack intent).b.node = s.b.node from rfl, nothing] at there
    cases there
  · intro prev there
    exact absurd there (away prev)

theorem reset (paired : s.Paired) (fine : ¬ s.Holding) {viewing : Bool} :
    ({ s with b := { s.b.reset with viewing } } : Pages Link).Paired where
  busy := by simp [BrowserState.reset]
  requested := by simp [BrowserState.reset]
  held := fun there => absurd ⟨_, _, there⟩ fine
  fetching := by simp [BrowserState.reset]
  peeked := paired.peeked
  bounded := paired.bounded

/-- A section that writes only the second flag and the UI's place keeps what it keeps of the flags. -/
theorem of_meant (paired : s.Paired) {pendingPop : Bool} {ui : UiStand}
    (meant : ∀ {addr intent}, s.Meant addr intent →
      ({ s with b := { s.b with pendingPop }, ui } : Pages Link).Meant addr intent)
    (top : ∀ {prev}, ui = .peeked prev → s.b.back.getLast? = some prev) :
    ({ s with b := { s.b with pendingPop }, ui } : Pages Link).Paired := by
  refine ⟨paired.busy, ?_, ?_, ?_, top, paired.bounded⟩
  · intro addr there
    exact ⟨(paired.requested there).1, meant (paired.requested there).2⟩
  · intro addr intent there
    obtain ⟨nothing, nobody, flags⟩ := paired.held there
    exact ⟨nothing, nobody, meant flags⟩
  · intro node there
    exact meant (paired.fetching there)

theorem look (paired : s.Paired) {ui : UiStand} (before : s.ui ≠ .asked) (after : ui ≠ .asked)
    (top : ∀ {prev}, ui = .peeked prev → s.b.back.getLast? = some prev) :
    ({ s with ui } : Pages Link).Paired := by
  refine paired.of_meant ?_ top
  intro addr intent flags
  cases intent with
  | follow => exact ⟨flags.1, flags.2.1, after⟩
  | back => exact ⟨flags.1, .inl (flags.2.1.resolve_right before), flags.2.2⟩
  | neither => exact ⟨flags.1, flags.2.1, after⟩

theorem flag (paired : s.Paired) (asked : s.ui = .asked) :
    ({ s with b := { s.b with pendingPop := true }, ui := .free } : Pages Link).Paired := by
  refine paired.of_meant ?_ fun there => UiStand.noConfusion there
  intro addr intent flags
  cases intent with
  | follow => exact absurd asked flags.2.2
  | back => exact ⟨flags.1, .inl rfl, flags.2.2⟩
  | neither => exact absurd asked flags.2.2

theorem take (paired : s.Paired) {addr : PageAddr} (requested : s.b.requested = some addr) :
    ({ s with b := { s.b with requested := none } }.setStand .browser
      (.holding addr s.requestIntent) : Pages Link).Paired := by
  obtain ⟨nothing, flags⟩ := paired.requested requested
  refine ⟨paired.busy, ?_, ?_, ?_, paired.peeked, paired.bounded⟩
  · rintro addr' ⟨⟩
  · intro addr' intent there
    simp only [setStand, Function.update_self, Stand.holding.injEq] at there
    obtain ⟨rfl, rfl⟩ := there
    exact ⟨nothing, rfl, flags⟩
  · intro node there
    rw [show s.b.node = some node from there] at nothing
    cases nothing

theorem rearm (paired : s.Paired) {addr : PageAddr} {intent : Intent} {tries : UInt8}
    {nextAttempt : Nat} (held : s.stand .browser = .holding addr intent) :
    ({ s with
      b := { s.b with routeTries := tries, requested := some addr, nextAttempt }
      requestIntent := intent }.setStand .browser .resting : Pages Link).Paired := by
  obtain ⟨nothing, -, flags⟩ := paired.held held
  refine ⟨paired.busy, ?_, ?_, ?_, paired.peeked, paired.bounded⟩
  · rintro _ ⟨⟩
    exact ⟨nothing, flags⟩
  · intro addr' intent' there
    simp [setStand] at there
  · intro node there
    rw [show s.b.node = some node from there] at nothing
    cases nothing

theorem begun (paired : s.Paired) {addr : PageAddr} {intent : Intent} {deadline : Nat}
    (held : s.stand .browser = .holding addr intent) :
    ({ s with b := s.b.begun addr deadline, fetchIntent := intent }.setStand .browser
      .connecting : Pages Link).Paired := by
  obtain ⟨-, nobody, flags⟩ := paired.held held
  refine ⟨fun _ idle => BrowserPhase.noConfusion idle, ?_, ?_, ?_, paired.peeked, paired.bounded⟩
  · intro addr' there
    rw [show s.b.requested = some addr' from there] at nobody
    cases nobody
  · intro addr' intent' there
    simp [setStand] at there
  · rintro _ ⟨⟩
    exact flags

theorem shown (paired : s.Paired) (free : s.ui = .free) {links : List Link} {title : Option Text}
    {node : TruncatedHash} (target : s.b.node = some node) :
    ({ s with b := s.b.shown node, links, currentTitle := title } : Pages Link).Paired := by
  have requested : (s.b.shown node).requested = s.b.requested := by
    simp only [BrowserState.shown, BrowserState.popped, BrowserState.pushed]
    split_ifs <;> cases s.b.current <;> rfl
  refine ⟨fun there => Bool.noConfusion there, ?_, ?_, ?_, ?_,
    BrowserState.length_back_shown_le paired.bounded⟩
  · intro addr there
    have nothing := (paired.requested (requested.symm.trans there)).1
    rw [target] at nothing
    cases nothing
  · intro addr intent there
    have nothing := (paired.held there).1
    rw [target] at nothing
    cases nothing
  · rintro node' ⟨⟩
  · intro prev there
    rw [show s.ui = .peeked prev from there] at free
    cases free

theorem step (paired : s.Paired) {m : Move Link} (fine : s.Undisturbed m)
    (effect : Effect s m s') : s'.Paired := by
  cases effect with
  | quiet same => exact paired.quiet same
  | @request addr pushBack free idle =>
    refine paired.request idle fine s.ui ?_ ?_
    · cases pushBack
      · exact ⟨rfl, rfl, free ▸ UiStand.noConfusion⟩
      · exact ⟨rfl, rfl, free ▸ UiStand.noConfusion⟩
    · intro prev there
      rw [free] at there
      cases there
  | peek free top =>
    refine paired.look (free ▸ UiStand.noConfusion) UiStand.noConfusion ?_
    rintro _ ⟨⟩
    exact top
  | refuse peeked =>
    exact paired.look (peeked ▸ UiStand.noConfusion) UiStand.noConfusion
      fun there => UiStand.noConfusion there
  | back peeked idle =>
    exact paired.request idle fine .asked ⟨rfl, .inr rfl, paired.peeked peeked⟩
      fun _ => UiStand.noConfusion
  | flag asked => exact paired.flag asked
  | suspend free => exact paired.reset fine
  | take requested => exact paired.take requested
  | rearm held => exact paired.rearm held
  | begun held => exact paired.begun held
  | render target =>
    exact (paired.shown fine target).quiet (.setStand (.refl _) fun _ _ => Stand.noConfusion)
  | finish =>
    exact (paired.reset fine).quiet (.setStand (.refl _) fun _ _ => Stand.noConfusion)

end Paired

def rendered (s : Pages Link) : Move Link → Option PageAddr
  | .render _ _ _ => s.b.node.map fun node => ⟨node, s.b.path, s.b.vars⟩
  | _ => none

/-- What the user sees and can go back to is the same. -/
def Unchanged (s s' : Pages Link) : Prop :=
  s'.b.current = s.b.current ∧ s'.b.back = s.b.back ∧ s'.links = s.links
    ∧ s'.currentTitle = s.currentTitle

theorem Effect.unchanged {m : Move Link} (effect : Effect s m s') (none_ : s.rendered m = none) :
    s.Unchanged s' := by
  cases effect with
  | quiet same =>
    have view := same.view
    simp only [Pages.view, Prod.mk.injEq] at view
    exact ⟨view.2.2.2.2.2.2.2.1, view.2.2.2.2.2.2.2.2.1, view.2.2.2.2.2.2.2.2.2.1,
      view.2.2.2.2.2.2.2.2.2.2.1⟩
  | render target => simp [rendered, target] at none_
  | request | peek | refuse | back | flag | suspend | take | rearm | begun | finish =>
    exact ⟨rfl, rfl, rfl, rfl⟩

end Pages

end LxmfChat
