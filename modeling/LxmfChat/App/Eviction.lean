import LxmfChat.App.Anonymity
import Mathlib.Data.Finset.Max

/-! Which of the resources that peers are sending is given up for a new one. -/

namespace LxmfChat

open Base

def started (plaintext : Bytes) : Option ResourceReceiver :=
  match ResourceReceiver.accept plaintext with
  | .error _ => none
  | .ok rx =>
    match rx.nextRequest with
    | .ok (_, rx) => some rx
    | .error _ => none

/-- A packet of a resource transfer on a link of either kind. -/
structure ResourceMessage where
  decrypt : Bytes → Option Bytes
  lid : TruncatedHash
  context : UInt8
  plaintext : Bytes

/-- A message changes the transfers; who advertised and was accepted is noted, the last one first. -/
def Client.hear (cfg : ClientConfig) :
    Client × List TruncatedHash → ResourceMessage → Client × List TruncatedHash
  | (c, accepted), m =>
    (c.receiveMessage cfg m.decrypt m.lid m.context m.plaintext,
      if m.context = CONTEXT_RESOURCE_ADV ∧ (started m.plaintext).isSome then m.lid :: accepted
      else accepted)

/-- Of the links that are held, this one's latest advertisement was accepted first. -/
def Oldest (accepted held : List TruncatedHash) (lid : TruncatedHash) : Prop :=
  lid ∈ held ∧ ∀ other ∈ held, accepted.idxOf other ≤ accepted.idxOf lid

/-- The id comes first in the order of the table. -/
def Least (held : List TruncatedHash) (lid : TruncatedHash) : Prop :=
  lid ∈ held ∧ ∀ other ∈ held, ¬ other.val < lid.val

variable {held accepted : List TruncatedHash} {a b lid : TruncatedHash}
  {table : Table TruncatedHash ResourceReceiver}

theorem exists_least (nonempty : held ≠ []) : ∃ lid, Least held lid := by
  induction held with
  | nil => contradiction
  | cons k rest ih =>
    by_cases alone : rest = []
    · subst alone
      exact ⟨k, List.mem_singleton_self k, fun other there => by
        rw [List.mem_singleton.mp there]
        exact List.lt_irrefl _⟩
    obtain ⟨m, there, least⟩ := ih alone
    -- The first id comes before the least of the others, or that one stays the least.
    by_cases before : k.val < m.val
    · refine ⟨k, List.mem_cons_self, List.forall_mem_cons.mpr ⟨List.lt_irrefl _, fun other held => ?_⟩⟩
      exact fun less => least other held (List.lt_trans less before)
    · exact ⟨m, List.mem_cons_of_mem k there, List.forall_mem_cons.mpr ⟨before, least⟩⟩

theorem Least.unique (first : Least held a) (second : Least held b) : a = b :=
  Subtype.ext (List.le_antisymm (List.not_lt.mp (first.2 b second.1))
    (List.not_lt.mp (second.2 a first.1)))

theorem find_least (nonempty : held ≠ []) :
    ∃ lid, Least held lid
      ∧ held.find? (fun k => held.all fun other => ¬ other.val < k.val) = some lid := by
  obtain ⟨m, there, least⟩ := exists_least nonempty
  cases found : held.find? fun k => held.all fun other => ¬ other.val < k.val with
  | none =>
    have := List.find?_eq_none.mp found m there
    simp only [decide_not, List.all_eq_true, Bool.not_eq_true', decide_eq_false_iff_not] at this
    exact absurd least this
  | some lid =>
    refine ⟨lid, ⟨List.mem_of_find?_eq_some found, ?_⟩, rfl⟩
    simpa using List.find?_some found

theorem exists_oldest (nonempty : held ≠ []) (noted : held ⊆ accepted) :
    ∃ oldest, ∀ lid, Oldest accepted held lid ↔ lid = oldest := by
  obtain ⟨oldest, there, latest⟩ := held.toFinset.exists_max_image (accepted.idxOf ·)
    (by simpa using nonempty)
  simp only [List.mem_toFinset] at there latest
  -- Different links stand at different places, so only one stands furthest back.
  refine ⟨oldest, fun lid => ⟨fun ⟨inside, first⟩ => ?_, ?_⟩⟩
  · exact (List.idxOf_inj (noted inside)).mp (le_antisymm (latest lid inside) (first oldest there))
  · rintro rfl
    exact ⟨there, latest⟩

namespace Client

theorem evictResources_of_room (room : table.keys.length < MAX_IN_RESOURCES ∨ lid ∈ table.keys)
    (fuel : Nat) : evictResources lid fuel table = table := by
  cases fuel with
  | zero => rfl
  | succ fuel => rw [evictResources, if_pos room]

theorem evictResources_of_full (new : lid ∉ table.keys)
    (full : table.keys.length = MAX_IN_RESOURCES) :
    ∃ least, Least table.keys least
      ∧ evictResources lid table.keys.length table = table.erase least := by
  have nonempty : table.keys ≠ [] := by
    rintro none
    rw [none] at full
    exact absurd full (by decide)
  obtain ⟨least, isLeast, found⟩ := find_least nonempty
  refine ⟨least, isLeast, ?_⟩
  rw [full, MAX_IN_RESOURCES, evictResources, if_neg (by simp [full, new])]
  simp only [found]
  -- One transfer less is few enough, so the loop ends there.
  refine evictResources_of_room (.inl ?_) _
  have fewer := Table.length_erase isLeast.1
  omega

theorem evictResources_leaves (few : table.keys.length ≤ MAX_IN_RESOURCES) (lid : TruncatedHash)
    (rx : ResourceReceiver) :
    let left := (evictResources lid table.keys.length table).insert lid rx
    left.keys.length ≤ MAX_IN_RESOURCES ∧ left.keys ⊆ lid :: table.keys := by
  intro left
  have within : ∀ t : Table TruncatedHash ResourceReceiver, t.keys ⊆ table.keys →
      (t.insert lid rx).keys ⊆ lid :: table.keys := fun t inside k there =>
    ((AList.mem_insert t).mp (AList.mem_keys.mpr there)).elim (by simp +contextual) fun held =>
      List.mem_cons_of_mem _ (inside (AList.mem_keys.mp held))
  by_cases room : table.keys.length < MAX_IN_RESOURCES ∨ lid ∈ table.keys
  · rw [show left = table.insert lid rx by simp only [left, evictResources_of_room room]]
    refine ⟨?_, within table fun _ there => there⟩
    rw [Table.length_insert]
    split
    · exact few
    · exact room.resolve_right ‹_›
  · rw [not_or, not_lt] at room
    obtain ⟨least, isLeast, same⟩ := evictResources_of_full room.2 (le_antisymm few room.1)
    rw [show left = (table.erase least).insert lid rx by simp only [left, same]]
    have fewer := Table.length_erase isLeast.1
    refine ⟨?_, within _ fun k there => ?_⟩
    · rw [Table.length_insert]
      split <;> omega
    · exact AList.mem_keys.mp (AList.mem_erase.mp (AList.mem_keys.mpr there)).2

variable {cfg : ClientConfig} {c : Client} {decrypt : Bytes → Option Bytes} {context : UInt8}
  {plaintext : Bytes} {rx : ResourceReceiver}

theorem receiveMessage_advertised :
    (c.receiveMessage cfg decrypt lid CONTEXT_RESOURCE_ADV plaintext).inResources
      = (started plaintext).elim c.inResources
        fun rx => (evictResources lid c.inResources.keys.length c.inResources).insert lid rx := by
  rw [receiveMessage, started]
  cases accepted : ResourceReceiver.accept plaintext with
  | error fault => cases fault <;> simp [arrive, accepted]
  | ok rx =>
    simp only [arrive, accepted, if_true, Arrival.next]
    cases rx.nextRequest with
    | error fault => rfl
    | ok next => rfl

theorem receiveMessage_other (other : context ≠ CONTEXT_RESOURCE_ADV) (c : Client) (lid : TruncatedHash) :
    let left := (c.receiveMessage cfg decrypt lid context plaintext).inResources
    left.keys.length ≤ c.inResources.keys.length ∧ left.keys ⊆ c.inResources.keys := by
  have fewer : List.Sublist (c.inResources.erase lid).keys c.inResources.keys :=
    (List.kerase_sublist lid c.inResources.entries).map Sigma.fst
  rw [receiveMessage]
  split
  case h_1 rx going =>
    have known : lid ∈ c.inResources.keys := by
      cases held : c.inResources.lookup lid with
      | none => simp [arrive, other, held] at going
      | some _ => exact AList.mem_keys.mp (AList.lookup_isSome.mp (by simp [held]))
    simp only [evictResources_of_room (.inr known)]
    rw [Table.length_insert, if_pos known]
    refine ⟨le_rfl, fun k there => ?_⟩
    rcases (AList.mem_insert _).mp (AList.mem_keys.mpr there) with rfl | held
    · exact known
    · exact AList.mem_keys.mp held
  case h_2 => exact ⟨fewer.length_le, fewer.subset⟩
  case h_3 => exact ⟨fewer.length_le, fewer.subset⟩
  all_goals exact ⟨le_rfl, List.Subset.refl _⟩

end Client

/-- At most so many transfers are held, each of them for an advertisement that was accepted. -/
structure Noted (table : Table TruncatedHash ResourceReceiver) (accepted : List TruncatedHash) :
    Prop where
  few : table.keys.length ≤ MAX_IN_RESOURCES
  noted : table.keys ⊆ accepted

namespace Noted

variable {cfg : ClientConfig} {s : Client × List TruncatedHash}

theorem hear (kept : Noted s.1.inResources s.2) (m : ResourceMessage) :
    Noted (Client.hear cfg s m).1.inResources (Client.hear cfg s m).2 := by
  obtain ⟨c, accepted⟩ := s
  obtain ⟨decrypt, lid, context, plaintext⟩ := m
  rw [Client.hear]
  by_cases advertised : context = CONTEXT_RESOURCE_ADV
  · simp only [advertised, true_and, Client.receiveMessage_advertised]
    cases started plaintext with
    | none => exact kept
    | some rx =>
      obtain ⟨few, within⟩ := Client.evictResources_leaves kept.few lid rx
      exact ⟨few, List.Subset.trans within (List.cons_subset_cons lid kept.noted)⟩
  · simp only [advertised, false_and, if_false]
    obtain ⟨few, within⟩ := Client.receiveMessage_other advertised c lid
    exact ⟨few.trans kept.few, List.Subset.trans within kept.noted⟩

theorem run (kept : Noted s.1.inResources s.2) (messages : List ResourceMessage) :
    Noted (messages.foldl (Client.hear cfg) s).1.inResources (messages.foldl (Client.hear cfg) s).2 := by
  induction messages generalizing s with
  | nil => exact kept
  | cons m rest ih => exact ih (kept.hear m)

end Noted

/--
What a new transfer takes the place of, in every run of messages on links.

There are never too many transfers, and an advertisement on a link that has one replaces that one.
On another link it takes the place of the one with the least id when the table is full.
That is the one whose latest advertisement was accepted first just if this one has the least id.
-/
theorem transfers_give_way (cfg : ClientConfig) (c : Client) (messages : List ResourceMessage) :
    let s := messages.foldl (Client.hear cfg) ({ c with inResources := ∅ }, [])
    let table := s.1.inResources
    table.keys.length ≤ MAX_IN_RESOURCES
    ∧ ∀ decrypt lid plaintext rx, started plaintext = some rx →
      let table' := (s.1.receiveMessage cfg decrypt lid CONTEXT_RESOURCE_ADV plaintext).inResources
      (lid ∈ table.keys ∨ table.keys.length < MAX_IN_RESOURCES → table' = table.insert lid rx)
      ∧ (lid ∉ table.keys → table.keys.length = MAX_IN_RESOURCES →
        ∃ oldest gone, (∀ k, Oldest s.2 table.keys k ↔ k = oldest)
          ∧ Least table.keys gone ∧ table' = (table.erase gone).insert lid rx
          ∧ (gone = oldest ↔ Least table.keys oldest)) := by
  intro s table
  have kept : Noted table s.2 := Noted.run ⟨Nat.zero_le _, List.nil_subset _⟩ messages
  refine ⟨kept.few, ?_⟩
  intro decrypt lid plaintext rx starts table'
  refine ⟨fun room => ?_, fun new full => ?_⟩
  · simp only [table', Client.receiveMessage_advertised, starts, Option.elim_some]
    rw [Client.evictResources_of_room room.symm]
  · obtain ⟨gone, least, same⟩ := Client.evictResources_of_full new full
    obtain ⟨oldest, only⟩ := exists_oldest (List.ne_nil_of_mem least.1) kept.noted
    refine ⟨oldest, gone, only, least, ?_, fun same => same ▸ least, fun least' => least.unique least'⟩
    simp only [table', Client.receiveMessage_advertised, starts, Option.elim_some]
    rw [same]

def oneAdvertisement : Bytes :=
  [0x84, 0xa1, 0x68, 0xc4, 32] ++ List.replicate 32 0 ++ [0xa1, 0x72, 0xc4, 4, 0, 0, 0, 0, 0xa1, 0x6e, 1,
    0xa1, 0x6d, 0xc4, 4, 0, 0, 0, 0]

def advertisedOn (first : UInt8) : ResourceMessage where
  decrypt := some
  lid := BytesN.ofBytes 16 (first :: List.replicate 15 0)
  context := CONTEXT_RESOURCE_ADV
  plaintext := oneAdvertisement

def hearSample : Client × List TruncatedHash → ResourceMessage → Client × List TruncatedHash :=
  Client.hear (Client.sampleConfig none)

def fullTable : Client × List TruncatedHash :=
  ([5, 1, 2, 3].map advertisedOn).foldl hearSample (Client.start (Transport.sampleIdentity 1), [])

/-- The transfer on the link with the least id is given up, though another one is older. -/
theorem youngest_gives_way :
    Oldest fullTable.2 fullTable.1.inResources.keys (advertisedOn 5).lid
    ∧ (advertisedOn 1).lid ∈ fullTable.1.inResources.keys
    ∧ (advertisedOn 1).lid ∉ (hearSample fullTable (advertisedOn 4)).1.inResources.keys
    ∧ (advertisedOn 5).lid ∈ (hearSample fullTable (advertisedOn 4)).1.inResources.keys :=
  ⟨⟨by decide +kernel, by decide +kernel⟩, by decide +kernel, by decide +kernel, by decide +kernel⟩

end LxmfChat
