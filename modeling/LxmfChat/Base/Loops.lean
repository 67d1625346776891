import LxmfChat.Base.Checked

/-! Loops that run while a condition holds. -/

namespace Base.Checked

variable {σ : Type}

/-- Run the body while the condition holds; a loop that needs more steps than it is given panics. -/
def loop (more : σ → Bool) (body : σ → Checked (ForInStep σ)) : Nat → σ → Checked σ
  | 0, _ => crash "out of steps"
  | steps + 1, s =>
    if more s then do
      match ← body s with
      | .yield next => loop more body steps next
      | .done last => return last
    else return s

/-- A round of a loop goes on with less to do, or breaks off. -/
def Round (I post : σ → Prop) (measure : σ → Nat) (s : σ) : ForInStep σ → Prop
  | .yield next => I next ∧ measure next < measure s
  | .done last => post last

theorem Returns.loop {more : σ → Bool} {body : σ → Checked (ForInStep σ)} {post : σ → Prop}
    (I : σ → Prop) (measure : σ → Nat)
    (round : ∀ s, I s → more s = true → Returns (body s) (Round I post measure s))
    (ends : ∀ s, I s → more s = false → post s) {steps : Nat} {s : σ} (start : I s)
    (enough : measure s < steps) : Returns (Checked.loop more body steps s) post := by
  induction steps generalizing s with
  | zero => omega
  | succ steps ih =>
    rw [Checked.loop]
    split
    case isTrue goes =>
      refine (round s start goes).bind fun next kept => ?_
      cases next with
      | yield next => exact ih kept.1 (by have := kept.2; omega)
      | done last => exact .ok kept
    case isFalse stops => exact .ok (ends s start (by simpa using stops))

end Base.Checked
