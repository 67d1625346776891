import Mathlib.Logic.Relation
import Mathlib.Order.WellFounded

/-! Runs of a transition system: invariants, and goals that every run must reach. -/

namespace Base

open Relation (ReflTransGen)

variable {σ : Type*} {step : σ → σ → Prop}

theorem reachable_of_keeps {I : σ → Prop} (keeps : ∀ s t, I s → step s t → I t)
    {s t : σ} (start : I s) (run : ReflTransGen step s t) : I t := by
  -- The run is extended one step at a time at its far end.
  induction run with
  | refl => exact start
  | tail _ last ih => exact keeps _ _ ih last

/--
Every run from the state reaches the goal after finitely many steps.

Until the goal holds some step is possible, so no run stops short of it.
-/
inductive Inevitable (step : σ → σ → Prop) (goal : σ → Prop) : σ → Prop
  | now {s : σ} : goal s → Inevitable step goal s
  | later {s : σ} : (∃ t, step s t) → (∀ t, step s t → Inevitable step goal t) →
      Inevitable step goal s

theorem Inevitable.of_measure {μ : Type*} {lt : μ → μ → Prop} (founded : WellFounded lt)
    {goal inv : σ → Prop} (measure : σ → μ)
    (keeps : ∀ s t, inv s → step s t → inv t)
    (decreases : ∀ s t, inv s → step s t → lt (measure t) (measure s))
    (moves : ∀ s, inv s → ¬ goal s → ∃ t, step s t) {s : σ} (start : inv s) :
    Inevitable step goal s := by
  -- The induction is on the measure, with the state free at every value of it.
  revert start
  refine (InvImage.wf measure founded).induction
    (C := fun s => inv s → Inevitable step goal s) s ?_
  intro s ih start
  by_cases reached : goal s
  · exact .now reached
  · refine .later (moves s start reached) fun t taken => ?_
    exact ih t (decreases s t start taken) (keeps s t start taken)

theorem Inevitable.exists_reachable {goal : σ → Prop} {s : σ}
    (inevitable : Inevitable step goal s) : ∃ t, ReflTransGen step s t ∧ goal t := by
  induction inevitable with
  | @now s reached => exact ⟨s, .refl, reached⟩
  | @later s moves _ ih =>
    obtain ⟨t, taken⟩ := moves
    obtain ⟨u, run, reached⟩ := ih t taken
    exact ⟨u, .head taken run, reached⟩

/-- The states a run has passed through so far, the latest first. -/
inductive Trace (step : σ → σ → Prop) (start : σ) : List σ → Prop
  | start : Trace step start [start]
  | step {s t : σ} {past : List σ} : Trace step start (s :: past) → step s t →
      Trace step start (t :: s :: past)

/-- Actions are allowed one after the other, each in the state the ones before lead to. -/
def Permitted {α : Type*} (act : σ → α → σ) (allowed : σ → α → Prop) : σ → List α → Prop
  | _, [] => True
  | s, a :: rest => allowed s a ∧ Permitted act allowed (act s a) rest

theorem run_of_permitted {α : Type*} {act : σ → α → σ} {allowed : σ → α → Prop}
    (takes : ∀ s a, allowed s a → step s (act s a)) {s : σ} {actions : List α}
    (permitted : Permitted act allowed s actions) : ReflTransGen step s (actions.foldl act s) := by
  induction actions generalizing s with
  | nil => exact .refl
  | cons a rest ih =>
    obtain ⟨fine, later⟩ := permitted
    exact .head (takes s a fine) (ih later)

end Base
