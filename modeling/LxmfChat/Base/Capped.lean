import Mathlib.Data.List.AList
import Mathlib.Data.Multiset.MapFold

/-! Finite tables, and tables of bounded size that evict their oldest key first. -/

namespace Base

/-- A finite map from keys to values, iterated over in the order of its entries. -/
abbrev Table (K V : Type*) := AList fun _ : K => V

namespace Table

variable {K V : Type*}

def pairs (t : Table K V) : Multiset (K × V) :=
  (t.entries : Multiset (Sigma fun _ : K => V)).map fun e => (e.1, e.2)

def retain (keep : V → Bool) (t : Table K V) : Table K V :=
  ⟨t.entries.filter fun e => keep e.2, t.nodupKeys.sublist List.filter_sublist⟩

def mapValues (change : V → V) (t : Table K V) : Table K V :=
  ⟨t.entries.map (.map id fun _ value => change value), t.nodupKeys.map₂ _ _⟩

/-- Two tables with the same entries, possibly iterated over in another order. -/
def Same (t u : Table K V) : Prop := t.entries.Perm u.entries

theorem Same.pairs {t u : Table K V} (same : Same t u) : t.pairs = u.pairs :=
  congrArg (Multiset.map _) (Multiset.coe_eq_coe.mpr same)

variable [DecidableEq K]

def modify (key : K) (change : V → V) (t : Table K V) : Table K V :=
  ⟨t.entries.map (.map id fun k value => if k = key then change value else value),
    t.nodupKeys.map₂ _ _⟩

theorem lookup_modify (t : Table K V) (key other : K) (change : V → V) :
    AList.lookup other (t.modify key change)
      = (t.lookup other).map fun value => if other = key then change value else value :=
  List.dlookup_map₂ other

theorem lookup_mapValues (t : Table K V) (key : K) (change : V → V) :
    AList.lookup key (t.mapValues change) = (t.lookup key).map change :=
  List.dlookup_map₂ key

theorem lookup_of_lookup_retain {t : Table K V} {key : K} {value : V} {keep : V → Bool}
    (held : AList.lookup key (t.retain keep) = some value) : t.lookup key = some value := by
  have kept := List.mem_filter.mp (AList.mem_lookup_iff.mp held)
  exact AList.mem_lookup_iff.mpr kept.1

theorem Same.lookup {t u : Table K V} (same : Same t u) (key : K) :
    t.lookup key = u.lookup key :=
  AList.perm_lookup same

theorem pairs_erase_le (t : Table K V) (key : K) : Table.pairs (t.erase key) ≤ t.pairs :=
  Multiset.map_le_map (Multiset.coe_le.mpr (List.kerase_sublist key t.entries).subperm)

theorem pairs_erase_of_lookup {t : Table K V} {key : K} {value : V}
    (held : t.lookup key = some value) :
    (key, value) ::ₘ Table.pairs (t.erase key) = t.pairs := by
  have there : key ∈ t.entries.keys := AList.lookup_isSome.mp (by simp [held])
  obtain ⟨found, before, after, absent, split, erased⟩ := List.exists_of_kerase there
  -- The entry that goes is the one the lookup finds, since keys are distinct.
  have same : found = value := by
    have here : ⟨key, found⟩ ∈ t.entries := by simp [split]
    have looked := AList.mem_lookup_iff.mpr here
    rw [held] at looked
    exact (Option.some.inj looked).symm
  subst same
  have whole : (t.entries : Multiset (Sigma fun _ : K => V))
      = ⟨key, found⟩ ::ₘ ((t.erase key).entries : Multiset (Sigma fun _ : K => V)) := by
    have left : (t.erase key).entries = before ++ after := erased
    rw [left, split, Multiset.cons_coe]
    exact Multiset.coe_eq_coe.mpr List.perm_middle
  rw [pairs, pairs, whole, Multiset.map_cons]

theorem length_erase {t : Table K V} {key : K} (held : key ∈ t.keys) :
    (t.erase key).keys.length + 1 = t.keys.length := by
  have some := List.length_pos_of_mem held
  rw [AList.keys_erase, List.length_erase_of_mem held]
  omega

theorem length_insert {t : Table K V} {key : K} (value : V) :
    (t.insert key value).keys.length = if key ∈ t.keys then t.keys.length else t.keys.length + 1 := by
  rw [AList.keys_insert, List.length_cons]
  split
  case isTrue held =>
    rw [← AList.keys_erase]
    exact length_erase held
  case isFalse new => rw [List.erase_of_not_mem new]

theorem pairs_foldl_erase_le (t : Table K V) (keys : List K) :
    Table.pairs (keys.foldl (fun table key => table.erase key) t) ≤ t.pairs := by
  induction keys generalizing t with
  | nil => exact le_rfl
  | cons key rest ih => exact (ih _).trans (pairs_erase_le t key)

theorem pairs_insert_le (t : Table K V) (key : K) (value : V) :
    Table.pairs (t.insert key value) ≤ (key, value) ::ₘ t.pairs := by
  have entries : Table.pairs (t.insert key value) = (key, value) ::ₘ Table.pairs (t.erase key) := rfl
  rw [entries]
  exact Multiset.cons_le_cons _ (pairs_erase_le t key)

theorem map_pairs_le {W : Type*} {t u : Table K V} (feature : V → W)
    (within : ∀ key value, u.lookup key = some value →
      ∃ old, t.lookup key = some old ∧ feature old = feature value) :
    u.pairs.map (fun e => feature e.2) ≤ t.pairs.map (fun e => feature e.2) := by
  -- Keys are distinct, so with the key beside it every feature occurs once.
  have tagged : ∀ v : Table K V, v.pairs.map (fun e => feature e.2)
      = (v.pairs.map fun e => (e.1, feature e.2)).map Prod.snd := by
    intro v
    rw [Multiset.map_map]
    rfl
  rw [tagged, tagged]
  refine Multiset.map_le_map ((Multiset.le_iff_subset ?_).mpr ?_)
  · have keys : ((u.pairs.map fun e => (e.1, feature e.2)).map Prod.fst).Nodup := by
      rw [Multiset.map_map, pairs, Multiset.map_map]
      exact u.nodupKeys
    exact keys.of_map
  · intro e there
    obtain ⟨found, pair, rfl⟩ := Multiset.mem_map.mp there
    obtain ⟨entry, inside, rfl⟩ := Multiset.mem_map.mp pair
    obtain ⟨old, held, same⟩ := within entry.1 entry.2 (AList.mem_lookup_iff.mpr inside)
    refine Multiset.mem_map.mpr ⟨(entry.1, old), ?_, by rw [same]⟩
    exact Multiset.mem_map.mpr ⟨⟨entry.1, old⟩, AList.mem_lookup_iff.mp held, rfl⟩

def Each (P : K → V → Prop) (t : Table K (List V)) : Prop :=
  ∀ ⦃key list⦄, t.lookup key = some list → ∀ value ∈ list, P key value

namespace Each

variable {P Q : K → V → Prop} {t : Table K (List V)}

theorem empty (P : K → V → Prop) : Each P ∅ := fun _ _ held => nomatch held

theorem mono (each : Each P t) (weaker : ∀ {key value}, P key value → Q key value) : Each Q t :=
  fun _ _ held value there => weaker (each held value there)

theorem getD (each : Each P t) (key : K) : ∀ value ∈ (t.lookup key).getD [], P key value := by
  cases held : t.lookup key with
  | none => exact fun _ there => nomatch there
  | some list => exact each held

theorem erase (each : Each P t) (key : K) : Each P (t.erase key) := by
  intro other list held
  by_cases same : other = key
  · rw [same, AList.lookup_erase] at held
    cases held
  · rw [AList.lookup_erase_ne same] at held
    exact each held

theorem insert (each : Each P t) {key : K} {list : List V} (new : ∀ value ∈ list, P key value) :
    Each P (AList.insert key list t) := by
  intro other list' held
  by_cases same : other = key
  · subst same
    rw [AList.lookup_insert] at held
    exact Option.some.inj held ▸ new
  · rw [AList.lookup_insert_ne same] at held
    exact each held

theorem push (each : Each P t) {key : K} {value : V} (new : P key value) :
    Each P (AList.insert key ((t.lookup key).getD [] ++ [value]) t) := by
  refine each.insert fun other there => ?_
  rcases List.mem_append.mp there with old | last
  · exact each.getD key other old
  · exact List.mem_singleton.mp last ▸ new

theorem retain (each : Each P t) (keep : List V → Bool) : Each P (t.retain keep) :=
  fun _ _ held => each (lookup_of_lookup_retain held)

end Each

end Table

/-- A table together with the order its keys were added in. -/
structure Capped (K V : Type*) where
  table : Table K V
  order : List K

namespace Capped

variable {K V : Type*}

def empty : Capped K V := ⟨∅, []⟩

variable [DecidableEq K]

def get (c : Capped K V) (key : K) : Option V := c.table.lookup key

/-- The keys past the cap go, oldest first, with their entries; the newest key keeps its entry. -/
def evict (cap : Nat) (newest : K) : List K → Table K V → Capped K V
  | [], table => ⟨table, []⟩
  | old :: rest, table =>
    if cap < (old :: rest).length then
      evict cap newest rest (if old ≠ newest then table.erase old else table)
    else ⟨table, old :: rest⟩

/-- Insert or refresh an entry; a key that is new is queued and the oldest past the cap evicted. -/
def insert (cap : Nat) (key : K) (value : V) (c : Capped K V) : Capped K V :=
  let table := c.table.insert key value
  if (c.get key).isNone then evict cap key (c.order ++ [key]) table else ⟨table, c.order⟩

def modify (key : K) (change : V → V) (c : Capped K V) : Capped K V :=
  { c with table := c.table.modify key change }

def remove (key : K) (c : Capped K V) : Capped K V := { c with table := c.table.erase key }

def forget (key : K) (c : Capped K V) : Capped K V :=
  ⟨c.table.erase key, c.order.filter (· ≠ key)⟩

def retain (keep : V → Bool) (c : Capped K V) : Capped K V :=
  let table := c.table.retain keep
  ⟨table, c.order.filter fun key => (table.lookup key).isSome⟩

/-- The same entries in the same queue, possibly iterated over in another order. -/
def Same (c d : Capped K V) : Prop := c.table.Same d.table ∧ c.order = d.order

theorem Same.get {c d : Capped K V} (same : Same c d) (key : K) : c.get key = d.get key :=
  same.1.lookup key

theorem get_evict_newest (cap : Nat) (newest : K) (order : List K) (table : Table K V) :
    (evict cap newest order table).get newest = table.lookup newest := by
  -- The table shrinks as the queue is walked, so it stays quantified over.
  induction order generalizing table with
  | nil => rfl
  | cons old rest ih =>
    rw [evict]
    split
    · rw [ih]
      split
      case isTrue other => exact AList.lookup_erase_ne (Ne.symm other)
      case isFalse => rfl
    · rfl

theorem table_of_get_evict {cap : Nat} {newest key : K} {order : List K} {table : Table K V}
    {value : V} (held : (evict cap newest order table).get key = some value) :
    table.lookup key = some value := by
  induction order generalizing table with
  | nil => exact held
  | cons old rest ih =>
    rw [evict] at held
    split at held
    · have kept := ih held
      split at kept
      · by_cases same : key = old
        · rw [same, AList.lookup_erase] at kept
          cases kept
        · rwa [AList.lookup_erase_ne same] at kept
      · exact kept
    · exact held

theorem evict_of_le {cap : Nat} {newest : K} {order : List K} {table : Table K V}
    (room : order.length ≤ cap) : evict cap newest order table = ⟨table, order⟩ := by
  cases order with
  | nil => rfl
  | cons old rest => rw [evict, if_neg (Nat.not_lt.mpr room)]

theorem pairs_evict_le (cap : Nat) (newest : K) (order : List K) (table : Table K V) :
    (evict cap newest order table).table.pairs ≤ table.pairs := by
  induction order generalizing table with
  | nil => exact le_rfl
  | cons old rest ih =>
    rw [evict]
    split
    · refine (ih _).trans ?_
      split
      · exact Table.pairs_erase_le table old
      · exact le_rfl
    · exact le_rfl

@[simp] theorem get_insert_self (cap : Nat) (key : K) (value : V) (c : Capped K V) :
    (c.insert cap key value).get key = some value := by
  rw [insert]
  split
  · rw [get_evict_newest, AList.lookup_insert]
  · exact AList.lookup_insert _

theorem get_of_get_insert {cap : Nat} {key other : K} {value found : V} {c : Capped K V}
    (differ : other ≠ key) (held : (c.insert cap key value).get other = some found) :
    c.get other = some found := by
  rw [insert] at held
  split at held
  · have kept := table_of_get_evict held
    rwa [AList.lookup_insert_ne differ] at kept
  · exact (AList.lookup_insert_ne differ).symm.trans held

theorem get_insert_ne {cap : Nat} {key other : K} {value : V} {c : Capped K V}
    (differ : other ≠ key) (room : c.order.length < cap ∨ (c.get key).isSome) :
    (c.insert cap key value).get other = c.get other := by
  have kept : (c.table.insert key value).lookup other = c.get other :=
    AList.lookup_insert_ne differ
  rw [insert]
  split
  case isTrue new =>
    have below : c.order.length < cap := room.resolve_right (by simp [Option.isNone_iff_eq_none.mp new])
    rw [evict_of_le (by simp; omega)]
    exact kept
  case isFalse => exact kept

/-- Inserting under the key evicts nothing. -/
def Spares (cap : Nat) (key : K) (c : Capped K V) : Prop :=
  ∀ value other, other ≠ key → (c.insert cap key value).get other = c.get other

theorem Spares.isSome_insert {cap : Nat} {key other : K} {value : V} {c : Capped K V}
    (spares : c.Spares cap key) (held : (c.get other).isSome) :
    ((c.insert cap key value).get other).isSome := by
  by_cases same : other = key
  · rw [same, get_insert_self]
    rfl
  · rw [spares value other same]
    exact held

theorem pairs_insert_le (cap : Nat) (key : K) (value : V) (c : Capped K V) :
    (c.insert cap key value).table.pairs ≤ (key, value) ::ₘ c.table.pairs := by
  rw [insert]
  split
  · exact (pairs_evict_le cap key _ _).trans (Table.pairs_insert_le c.table key value)
  · exact Table.pairs_insert_le c.table key value

theorem get_remove (key other : K) (c : Capped K V) :
    (c.remove key).get other = if other = key then none else c.get other := by
  by_cases same : other = key
  · rw [if_pos same, same]
    exact AList.lookup_erase key c.table
  · rw [if_neg same]
    exact AList.lookup_erase_ne same

theorem get_forget (key other : K) (c : Capped K V) :
    (c.forget key).get other = if other = key then none else c.get other :=
  get_remove key other c

theorem get_foldl_forget (c : Capped K V) (keys : List K) (other : K) :
    (keys.foldl (fun table key => table.forget key) c).get other
      = if other ∈ keys then none else c.get other := by
  induction keys generalizing c with
  | nil => simp
  | cons key rest ih =>
    rw [List.foldl_cons, ih, get_forget]
    by_cases same : other = key <;> simp [same]

theorem get_modify (key other : K) (change : V → V) (c : Capped K V) :
    (c.modify key change).get other
      = (c.get other).map fun value => if other = key then change value else value :=
  Table.lookup_modify c.table key other change

end Capped

end Base
