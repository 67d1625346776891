import LxmfChat.Reticulum.Transport.Runs

/-! Looking links up and asking for new ones: what such calls leave alone. -/

namespace LxmfChat

open Base

namespace Transport

/-- A link that is open, whoever opened it. -/
def Live (t : Transport) (lid : TruncatedHash) : Prop :=
  (t.outLinks.get lid).isSome ∨ (t.links.get lid).isSome

instance (t : Transport) (lid : TruncatedHash) : Decidable (t.Live lid) :=
  inferInstanceAs (Decidable (_ ∨ _))

/-- A link we opened to the destination. -/
def OpenTo (t : Transport) (lid target : TruncatedHash) : Prop :=
  ∃ link, t.outLinks.get lid = some link ∧ link.target = target

/--
The transport after looking links up and asking for new ones.

Nothing that awaits a proof is lost unless an idle link is dropped.
-/
structure Looks (now : Nat) (t u : Transport) : Prop where
  links : u.links = t.links
  receipts : u.receipts = t.receipts
  outLinks : ∀ {lid link}, u.outLinks.get lid = some link →
    ∃ old, t.outLinks.get lid = some old ∧ link = { old with lastActivity := link.lastActivity }
  kept : now < 2 ^ 64 → t.expiredOutLinks now = [] →
    (∀ {lid}, (t.outLinks.get lid).isSome → (u.outLinks.get lid).isSome)
      ∧ u.outResources = t.outResources ∧ u.expiredOutLinks now = []

namespace Looks

variable {now : Nat} {t u v : Transport}

theorem refl (t : Transport) : Looks now t t :=
  ⟨rfl, rfl, fun held => ⟨_, held, rfl⟩, fun _ none => ⟨id, rfl, none⟩⟩

theorem trans (first : Looks now t u) (second : Looks now u v) : Looks now t v where
  links := second.links.trans first.links
  receipts := second.receipts.trans first.receipts
  outLinks held := by
    obtain ⟨mid, held, same⟩ := second.outLinks held
    obtain ⟨old, held, same'⟩ := first.outLinks held
    exact ⟨old, held, by rw [same, same']⟩
  kept small none := by
    obtain ⟨stays, resources, none⟩ := first.kept small none
    obtain ⟨stays', resources', none⟩ := second.kept small none
    exact ⟨fun there => stays' (stays there), resources'.trans resources, none⟩

theorem of_eq (links : u.links = t.links) (receipts : u.receipts = t.receipts)
    (outLinks : u.outLinks = t.outLinks) (outResources : u.outResources = t.outResources) :
    Looks now t u where
  links := links
  receipts := receipts
  outLinks held := ⟨_, outLinks ▸ held, rfl⟩
  kept _ none := by
    refine ⟨fun there => outLinks ▸ there, outResources, ?_⟩
    rw [expiredOutLinks, outLinks]
    exact none

theorem openTo (looks : Looks now t u) {lid target : TruncatedHash} (held : u.OpenTo lid target) :
    t.OpenTo lid target := by
  obtain ⟨link, held, rfl⟩ := held
  obtain ⟨old, held, same⟩ := looks.outLinks held
  exact ⟨old, held, by rw [same]⟩

end Looks

variable {now : Nat}

theorem expiredOutLinks_eq_nil {t : Transport} : t.expiredOutLinks now = []
    ↔ ∀ e ∈ t.outLinks.table.entries,
      ¬ saturatingAdd e.2.lastActivity OUT_LINK_INACTIVITY_SECS < now := by
  rw [expiredOutLinks, List.map_eq_nil_iff, List.filter_eq_nil_iff]
  simp only [decide_eq_true_eq]

theorem not_idle_of_now (small : now < 2 ^ 64) :
    ¬ saturatingAdd now OUT_LINK_INACTIVITY_SECS < now := by
  rw [saturatingAdd]
  omega

theorem expiredOutLinks_refresh {t : Transport} {lid : TruncatedHash} (small : now < 2 ^ 64)
    (none : t.expiredOutLinks now = []) :
    { t with outLinks := t.outLinks.modify lid fun l => { l with lastActivity := now }
      }.expiredOutLinks now = [] := by
  rw [expiredOutLinks_eq_nil] at none ⊢
  intro e there
  obtain ⟨old, before, rfl⟩ := List.mem_map.mp there
  simp only [Sigma.map]
  split
  · exact not_idle_of_now small
  · exact none old before

theorem looks_outboundLinkFor (now : Nat) (t : Transport) (target : TruncatedHash) :
    Looks now t (t.outboundLinkFor target now).1 := by
  have loses := loses_outboundLinkFor t target now
  refine ⟨?links, ?receipts, fun held => loses.outLinks held, ?kept⟩
  case kept =>
    intro small none
    -- Nothing is idle, so the only change is the refresh of the link that is found.
    rw [outboundLinkFor, none, List.foldl_nil]
    cases t.outLinks.table.entries.find? fun e => e.2.target = target with
    | none => exact ⟨id, rfl, none⟩
    | some e =>
      refine ⟨fun there => ?_, rfl, expiredOutLinks_refresh small none⟩
      rw [Capped.get_modify, Option.isSome_map]
      exact there
  all_goals
    rw [outboundLinkFor, foldl_removeOutLink]
    split <;> rfl

theorem openTo_of_outboundLinkFor {t u : Transport} {target lid : TruncatedHash}
    (found : t.outboundLinkFor target now = (u, some lid)) : u.OpenTo lid target := by
  rw [outboundLinkFor] at found
  generalize (t.expiredOutLinks now).foldl removeOutLink t = dropped at found
  cases entry : dropped.outLinks.table.entries.find? fun e => e.2.target = target with
  | none => simp [entry] at found
  | some e =>
    simp only [entry, Prod.mk.injEq, Option.some.injEq] at found
    obtain ⟨rfl, rfl⟩ := found
    have held : dropped.outLinks.get e.1 = some e.2 :=
      AList.mem_lookup_iff.mpr (List.mem_of_find?_eq_some entry)
    have same : e.2.target = target := by simpa using List.find?_some entry
    refine ⟨{ e.2 with lastActivity := now }, ?_, same⟩
    rw [Capped.get_modify, held]
    simp

theorem looks_pendingLinkTo (now : Nat) (t : Transport) (target : TruncatedHash) :
    Looks now t (t.pendingLinkTo target now).1 := by
  rw [pendingLinkTo, foldl_forgetPendingLink]
  exact .of_eq rfl rfl rfl rfl

theorem looks_expirePath (now : Nat) (t : Transport) (hash : TruncatedHash) :
    Looks now t (t.expirePath hash).1 :=
  have same := untouched_expirePath t hash
  .of_eq same.links same.receipts same.outLinks same.outResources

end Transport

end LxmfChat
