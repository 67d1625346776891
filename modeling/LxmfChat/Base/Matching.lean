import Mathlib.Data.Multiset.MapFold
import Mathlib.Data.Multiset.Filter

/-! Ledgers in which every confirmation is for a registration of its own. -/

namespace Base

variable {R C D : Type*}

/--
Every confirmation is matched with a registration it satisfies, no registration twice.

What is still live is covered by the registrations that are not matched yet, where a
registration covers the record it leaves.
-/
def Matched (record : R → C) (satisfies : R → D → Prop) (live : Multiset C)
    (registered : Multiset R) (confirmed : Multiset D) : Prop :=
  ∃ unmatched matched, unmatched + matched = registered
    ∧ Multiset.Rel satisfies matched confirmed ∧ live ≤ unmatched.map record

namespace Matched

variable {record : R → C} {satisfies : R → D → Prop} {live live' : Multiset C}
  {registered : Multiset R} {confirmed : Multiset D}

theorem nil : Matched record satisfies 0 0 0 :=
  ⟨0, 0, rfl, .zero, le_rfl⟩

theorem of_le (ledger : Matched record satisfies live registered confirmed)
    (shrinks : live' ≤ live) : Matched record satisfies live' registered confirmed := by
  obtain ⟨unmatched, matched, whole, pairs, covered⟩ := ledger
  exact ⟨unmatched, matched, whole, pairs, shrinks.trans covered⟩

theorem register (ledger : Matched record satisfies live registered confirmed) (r : R)
    (grows : live' ≤ record r ::ₘ live) :
    Matched record satisfies live' (r ::ₘ registered) confirmed := by
  obtain ⟨unmatched, matched, whole, pairs, covered⟩ := ledger
  refine ⟨r ::ₘ unmatched, matched, by rw [Multiset.cons_add, whole], pairs, ?_⟩
  rw [Multiset.map_cons]
  exact grows.trans (Multiset.cons_le_cons _ covered)

theorem confirm (ledger : Matched record satisfies live registered confirmed) (c : C) (d : D)
    (uses : c ::ₘ live' ≤ live) (settles : ∀ r ∈ registered, record r = c → satisfies r d) :
    Matched record satisfies live' registered (d ::ₘ confirmed) := by
  obtain ⟨unmatched, matched, whole, pairs, covered⟩ := ledger
  have left : c ::ₘ live' ≤ unmatched.map record := uses.trans covered
  -- The record is covered by some registration, which is matched now.
  obtain ⟨r, waiting, rfl⟩ := Multiset.mem_map.mp (Multiset.mem_of_le left (Multiset.mem_cons_self _ _))
  obtain ⟨rest, split⟩ := Multiset.exists_cons_of_mem waiting
  subst split
  have holds : satisfies r d := by
    refine settles r ?_ rfl
    rw [← whole]
    exact Multiset.mem_add.mpr (.inl waiting)
  refine ⟨rest, r ::ₘ matched, ?_, .cons holds pairs, ?_⟩
  · rw [Multiset.add_cons, ← whole, Multiset.cons_add]
  · rwa [Multiset.map_cons, Multiset.cons_le_cons_iff] at left

theorem imp {weaker : R → D → Prop}
    (ledger : Matched record satisfies live registered confirmed)
    (weaken : ∀ r ∈ registered, ∀ d ∈ confirmed, satisfies r d → weaker r d) :
    Matched record weaker live registered confirmed := by
  obtain ⟨unmatched, matched, whole, pairs, covered⟩ := ledger
  refine ⟨unmatched, matched, whole, pairs.mono fun r inMatched d inConfirmed => ?_, covered⟩
  refine weaken r ?_ d inConfirmed
  rw [← whole]
  exact Multiset.mem_add.mpr (.inr inMatched)

theorem exists_matched (ledger : Matched record satisfies live registered confirmed) :
    ∃ matched ≤ registered, Multiset.Rel satisfies matched confirmed := by
  obtain ⟨unmatched, matched, whole, pairs, -⟩ := ledger
  exact ⟨matched, whole ▸ Multiset.le_add_left _ _, pairs⟩

theorem countP_le {H : Type*} [DecidableEq H] {name : R → H} {named : D → H}
    (ledger : Matched record satisfies live registered confirmed)
    (same : ∀ r d, satisfies r d → name r = named d) (h : H) :
    confirmed.countP (named · = h) ≤ registered.countP (name · = h) := by
  obtain ⟨matched, within, pairs⟩ := ledger.exists_matched
  have names : matched.map name = confirmed.map named :=
    Multiset.rel_eq.mp (Multiset.rel_map.mpr (pairs.mono fun r _ d _ => same r d))
  calc confirmed.countP (named · = h)
      = (confirmed.map named).countP (· = h) := by
        rw [Multiset.countP_map, Multiset.countP_eq_card_filter]
    _ = matched.countP (name · = h) := by
        rw [← names, Multiset.countP_map, Multiset.countP_eq_card_filter]
    _ ≤ registered.countP (name · = h) := Multiset.countP_le_of_le _ within

end Matched

end Base
