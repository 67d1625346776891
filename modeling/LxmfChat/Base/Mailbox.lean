import Mathlib.Data.List.Basic

/-! A process that handles messages in the order they arrive, and what it puts out meanwhile. -/

namespace Base

variable {κ μ α : Type*}

/-- A process: how a message changes its state, and what it puts out. -/
structure Machine (κ μ α : Type*) where
  next : κ → μ → κ
  emit : κ → μ → Option α

namespace Machine

variable (M : Machine κ μ α)

def run (k : κ) (ms : List μ) : κ := ms.foldl M.next k

def outputs : κ → List μ → List α
  | _, [] => []
  | k, m :: rest => (M.emit k m).toList ++ outputs (M.next k m) rest

@[simp] theorem run_concat (k : κ) (ms : List μ) (m : μ) :
    M.run k (ms ++ [m]) = M.next (M.run k ms) m := by
  rw [run, List.foldl_append]
  rfl

theorem outputs_append (k : κ) (ms ms' : List μ) :
    M.outputs k (ms ++ ms') = M.outputs k ms ++ M.outputs (M.run k ms) ms' := by
  induction ms generalizing k with
  | nil => rfl
  | cons m rest ih =>
    -- The first message moves the state that the others start from.
    rw [List.cons_append, outputs, outputs, ih, List.append_assoc]
    rfl

@[simp] theorem outputs_concat (k : κ) (ms : List μ) (m : μ) :
    M.outputs k (ms ++ [m]) = M.outputs k ms ++ (M.emit (M.run k ms) m).toList := by
  rw [outputs_append, outputs, outputs, List.append_nil]

end Machine

/-- What was sent to a process: what it has handled, and what waits. -/
structure Mailbox (μ : Type*) where
  handled : List μ := []
  queue : List μ := []

namespace Mailbox

variable (b : Mailbox μ)

def sent : List μ := b.handled ++ b.queue

def send (m : μ) : Mailbox μ := { b with queue := b.queue ++ [m] }

def serve : Mailbox μ :=
  match b.queue with
  | [] => b
  | m :: rest => { handled := b.handled ++ [m], queue := rest }

@[simp] theorem sent_send (m : μ) : (b.send m).sent = b.sent ++ [m] := by
  rw [sent, send, sent, List.append_assoc]

@[simp] theorem sent_serve : b.serve.sent = b.sent := by
  rw [serve]
  split
  case h_1 => rfl
  case h_2 m rest waiting =>
    rw [sent, sent, waiting, List.append_assoc]
    rfl

theorem mem_outputs_sent (M : Machine κ μ α) {k : κ} {a : α}
    (out : a ∈ M.outputs k b.handled) : a ∈ M.outputs k b.sent := by
  rw [sent, M.outputs_append]
  exact List.mem_append_left _ out

end Mailbox

end Base
