import LxmfChat.App.Tickets
import LxmfChat.Lxmf.ReadBack

/-! The names in announces: written as plain text, and read in two formats. -/

namespace LxmfChat

open Base

/-- A name with nothing to take away: not blank, trimmed, and without zero characters. -/
structure Tidy (name : Text) : Prop where
  nonempty : name ≠ []
  trimmed : trim name = name
  solid : '\x00' ∉ name

variable {name : Text} {b0 : UInt8} {more appData : Bytes}

theorem Tidy.clean (tidy : Tidy name) : cleanName name = some name := by
  have kept : name.filter (· ≠ '\x00') = name :=
    List.filter_eq_self.mpr fun c there => decide_eq_true fun same => tidy.solid (same ▸ there)
  simp only [cleanName, kept, tidy.trimmed]
  rw [if_neg (by simpa using tidy.nonempty)]

end LxmfChat
