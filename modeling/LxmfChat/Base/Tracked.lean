import Mathlib.Data.List.Forall2
import Mathlib.Data.List.Perm.Basic

/-! Items that are held until each leaves with a verdict, and verdicts that are then announced. -/

namespace Base.Tracked

theorem perm_cons_eraseP {α : Type*} {test : α → Bool} {items : List α} {item : α}
    (found : items.find? test = some item) : items.Perm (item :: items.eraseP test) := by
  obtain ⟨passes, before, after, split, fail⟩ := List.find?_eq_some_iff_append.mp found
  have erased : items.eraseP test = before ++ after := by
    rw [split, List.eraseP_append_right _ (by simpa using fail), List.eraseP_cons_of_pos passes]
  rw [erased, split]
  exact List.perm_middle

theorem perm_cons_eraseIdx {α : Type*} {items : List α} {index : Nat} {item : α}
    (found : items[index]? = some item) : items.Perm (item :: items.eraseIdx index) := by
  obtain ⟨inside, rfl⟩ := List.getElem?_eq_some_iff.mp found
  exact (List.getElem_cons_eraseIdx_perm inside).symm

section InPlace

variable {α : Type*} {R : α → α → Prop} {items items' : List α}

theorem forall₂_set (refl : ∀ x, R x x) {index : Nat} {item item' : α}
    (found : items[index]? = some item) (changes : R item item') :
    List.Forall₂ R items (items.set index item') := by
  induction items generalizing index with
  | nil => cases found
  | cons head rest ih =>
    cases index with
    | zero =>
      cases found
      exact .cons changes (List.forall₂_same.mpr fun x _ => refl x)
    | succ index => exact .cons (refl head) (ih found)

theorem forall₂_replaceF (refl : ∀ x, R x x) {replace : α → Option α}
    (changes : ∀ x y, replace x = some y → R x y) (items : List α) :
    List.Forall₂ R items (items.replaceF replace) := by
  induction items with
  | nil => exact .nil
  | cons head rest ih =>
    cases replaced : replace head with
    | none =>
      rw [List.replaceF_cons_of_none _ replaced]
      exact .cons (refl head) ih
    | some item =>
      rw [List.replaceF_cons_of_some _ replaced]
      exact .cons (changes head item replaced) (List.forall₂_same.mpr fun x _ => refl x)

theorem exists_of_mem_right (changed : List.Forall₂ R items items') {y : α} (there : y ∈ items') :
    ∃ x ∈ items, R x y := by
  induction changed with
  | nil => cases there
  | cons first _ ih =>
    rcases List.mem_cons.mp there with rfl | later
    · exact ⟨_, List.mem_cons_self, first⟩
    · obtain ⟨x, mem, related⟩ := ih later
      exact ⟨x, List.mem_cons_of_mem _ mem, related⟩

theorem map_eq_of_forall₂ {β : Type*} {f : α → β} (same : ∀ x y, R x y → f y = f x)
    (changed : List.Forall₂ R items items') : items'.map f = items.map f := by
  induction changed with
  | nil => rfl
  | cons first _ ih => rw [List.map_cons, same _ _ first, ih, List.map_cons]

end InPlace

variable {Item Verdict K : Type*} (itemKey : Item → K) (verdictKey : Verdict → K)

def keys (held : List Item) (decided announced : List Verdict) : List K :=
  held.map itemKey ++ (decided.map verdictKey ++ announced.map verdictKey)

variable {itemKey verdictKey} {held held' : List Item} {decided announced : List Verdict}

theorem keys_enter (item : Item) :
    (keys itemKey verdictKey (held ++ [item]) decided announced).Perm
      (itemKey item :: keys itemKey verdictKey held decided announced) := by
  simp only [keys, List.map_append, List.map_cons, List.map_nil, List.append_assoc]
  exact List.perm_middle

theorem keys_leave {item : Item} {verdict : Verdict} (leaves : held.Perm (item :: held'))
    (same : verdictKey verdict = itemKey item) :
    (keys itemKey verdictKey held' (decided ++ [verdict]) announced).Perm
      (keys itemKey verdictKey held decided announced) := by
  have before : (held.map itemKey).Perm (itemKey item :: held'.map itemKey) := leaves.map itemKey
  simp only [keys, List.map_append, List.map_cons, List.map_nil, same, List.append_assoc]
  -- The key moves from the front of the held items to behind the decided ones.
  have moved : (decided.map verdictKey ++ (itemKey item :: announced.map verdictKey)).Perm
      (itemKey item :: (decided.map verdictKey ++ announced.map verdictKey)) := List.perm_middle
  refine (List.Perm.append_left _ moved).trans ?_
  refine List.perm_middle.trans ?_
  exact (before.append_right _).symm

theorem keys_announce {index : Nat} {verdict : Verdict} (found : decided[index]? = some verdict) :
    (keys itemKey verdictKey held (decided.eraseIdx index) (announced ++ [verdict])).Perm
      (keys itemKey verdictKey held decided announced) := by
  simp only [keys, List.map_append, List.map_cons, List.map_nil]
  refine List.Perm.append_left _ ?_
  refine (List.perm_append_comm_assoc _ _ _).trans ?_
  have swapped : (announced.map verdictKey ++ ((decided.eraseIdx index).map verdictKey
      ++ [verdictKey verdict])).Perm (((decided.eraseIdx index).map verdictKey
      ++ [verdictKey verdict]) ++ announced.map verdictKey) := List.perm_append_comm
  refine swapped.trans (List.Perm.append_right _ ?_)
  exact (List.perm_append_singleton _ _).trans ((perm_cons_eraseIdx found).symm.map verdictKey)

theorem keys_decide (verdict : Verdict) :
    (keys itemKey verdictKey held (decided ++ [verdict]) announced).Perm
      (verdictKey verdict :: keys itemKey verdictKey held decided announced) := by
  simp only [keys, List.map_append, List.map_cons, List.map_nil, List.append_assoc,
    List.singleton_append]
  exact (List.Perm.append_left _ List.perm_middle).trans List.perm_middle

theorem perm_cons_filter_ne [DecidableEq K] {item : Item} (distinct : (held.map itemKey).Nodup)
    (there : item ∈ held) :
    held.Perm (item :: held.filter fun other => itemKey other ≠ itemKey item) := by
  obtain ⟨before, after, rfl⟩ := List.append_of_mem there
  have moved : (before ++ item :: after).Perm (item :: (before ++ after)) := List.perm_middle
  have alone : itemKey item ∉ (before ++ after).map itemKey :=
    (List.nodup_cons.mp ((moved.map itemKey).nodup_iff.mp distinct)).1
  have others : ∀ other ∈ before ++ after, itemKey other ≠ itemKey item :=
    fun other mem same => alone (List.mem_map.mpr ⟨other, mem, same⟩)
  have kept : (before ++ item :: after).filter (fun other => itemKey other ≠ itemKey item)
      = before ++ after := by
    rw [List.filter_append, List.filter_cons_of_neg (by simp), ← List.filter_append]
    exact List.filter_eq_self.mpr fun other mem => decide_eq_true (others other mem)
  rw [kept]
  exact moved

theorem mem_set_key (distinct : (held.map itemKey).Nodup) {index : Nat} {item item' other : Item}
    (found : held[index]? = some item) (there : other ∈ held.set index item') :
    other = item' ∨ (other ∈ held ∧ itemKey other ≠ itemKey item) := by
  obtain ⟨j, here⟩ := List.mem_iff_getElem?.mp there
  rw [List.getElem?_set] at here
  split at here
  case isTrue =>
    split at here
    · exact .inl (Option.some.inj here).symm
    · cases here
  case isFalse elsewhere =>
    refine .inr ⟨List.mem_of_getElem? here, fun same => elsewhere ?_⟩
    -- Equal keys stand at equal positions.
    have inside : index < (held.map itemKey).length := by
      rw [List.length_map]
      exact (List.getElem?_eq_some_iff.mp found).1
    refine (List.getElem?_inj inside distinct).mp ?_
    rw [List.getElem?_map, List.getElem?_map, found, here, Option.map_some, Option.map_some, same]

theorem mem_of_leaves (distinct : (held.map itemKey).Nodup) {item other : Item}
    (leaves : held.Perm (item :: held')) (there : other ∈ held') :
    other ∈ held ∧ itemKey other ≠ itemKey item := by
  refine ⟨leaves.mem_iff.mpr (List.mem_cons_of_mem _ there), fun same => ?_⟩
  have nodup : ((item :: held').map itemKey).Nodup := (leaves.map itemKey).nodup_iff.mp distinct
  exact (List.nodup_cons.mp nodup).1 (List.mem_map.mpr ⟨other, there, same⟩)

theorem mem_replaceF_key [DecidableEq K] (distinct : (held.map itemKey).Nodup) {k : K}
    {change : Item → Item} {item : Item}
    (there : item ∈ held.replaceF fun x => if itemKey x = k then some (change x) else none) :
    (item ∈ held ∧ itemKey item ≠ k) ∨ ∃ x ∈ held, itemKey x = k ∧ item = change x := by
  induction held with
  | nil => cases there
  | cons head rest ih =>
    rw [List.map_cons, List.nodup_cons] at distinct
    by_cases same : itemKey head = k
    · -- The first item is the one of this key, and the keys of the others differ from its key.
      simp only [List.replaceF_cons, if_pos same] at there
      rcases List.mem_cons.mp there with rfl | later
      · exact .inr ⟨head, List.mem_cons_self, same, rfl⟩
      · refine .inl ⟨List.mem_cons_of_mem _ later, fun other => distinct.1 ?_⟩
        exact List.mem_map.mpr ⟨item, later, other.trans same.symm⟩
    · -- The first item stays, and the search goes on behind it.
      simp only [List.replaceF_cons, if_neg same] at there
      rcases List.mem_cons.mp there with rfl | later
      · exact .inl ⟨List.mem_cons_self, same⟩
      · rcases ih distinct.2 later with ⟨mem, other⟩ | ⟨x, mem, found, changed⟩
        · exact .inl ⟨List.mem_cons_of_mem _ mem, other⟩
        · exact .inr ⟨x, List.mem_cons_of_mem _ mem, found, changed⟩

theorem keys_change (same : held'.map itemKey = held.map itemKey) :
    keys itemKey verdictKey held' decided announced
      = keys itemKey verdictKey held decided announced := by
  rw [keys, same, keys]

end Base.Tracked
