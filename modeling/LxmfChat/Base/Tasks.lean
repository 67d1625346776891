import Mathlib.Data.List.Basic

/-! Tasks in progress at the same time, of which one moves on while the others stand still. -/

namespace Base

variable {τ : Type*}

def advance (tasks : List τ) (i : Nat) (next : Option τ) : List τ :=
  tasks.take i ++ (next.toList ++ tasks.drop (i + 1))

theorem mem_advance {tasks : List τ} {i : Nat} {next : Option τ} {t : τ}
    (there : t ∈ advance tasks i next) : t ∈ tasks ∨ next = some t := by
  rcases List.mem_append.mp there with before | rest
  · exact .inl (List.mem_of_mem_take before)
  · rcases List.mem_append.mp rest with new | after
    · exact .inr (Option.mem_toList.mp new)
    · exact .inl (List.mem_of_mem_drop after)

theorem countP_advance {tasks : List τ} {i : Nat} {t : τ} (there : tasks[i]? = some t)
    (p : τ → Bool) (next : Option τ) :
    (advance tasks i next).countP p + [t].countP p = tasks.countP p + next.toList.countP p := by
  have whole : tasks = tasks.take i ++ ([t] ++ tasks.drop (i + 1)) := by
    obtain ⟨inside, rfl⟩ := List.getElem?_eq_some_iff.mp there
    rw [List.singleton_append, List.getElem_cons_drop, List.take_append_drop]
  -- Both lists are cut at the same place.
  rw [advance]
  conv_rhs => rw [whole]
  simp only [List.countP_append]
  omega

end Base
