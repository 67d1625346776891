import LxmfChat.Reticulum.Transport.Queues

/-! Which resources are still being sent on a link that is gone. -/

namespace LxmfChat.Transport

open Base
open Relation (ReflTransGen)

/-- A link with this id is open, whoever opened it. -/
def Linked (t : Transport) (lid : TruncatedHash) : Prop :=
  (t.outLinks.get lid).isSome ∨ (t.links.get lid).isSome

/-- Every resource that is being sent has its link. -/
def Attached (t : Transport) : Prop :=
  ∀ lid, (t.outResources.lookup lid).isSome → t.Linked lid

/-- The inbound link that goes with an event: closed by its peer, or evicted by a new one. -/
def lostInbound (t : Transport) : Event → Option TruncatedHash
  | .inLinkClosed lid => some lid
  | .linkEstablished lid _ => t.links.evicted MAX_LINKS lid
  | _ => none

def lostOutbound (t : Transport) : Event → Option TruncatedHash
  | .outboundLinkUp lid _ => t.outLinks.evicted MAX_OUT_LINKS lid
  | _ => none

/-- No resource is being sent on a link that goes with the event, unless its id is open twice. -/
def Spares (t : Transport) (event : Event) : Prop :=
  (∀ lid ∈ t.lostInbound event,
    (t.outResources.lookup lid).isSome → (t.outLinks.get lid).isSome)
  ∧ ∀ lid ∈ t.lostOutbound event,
    (t.outResources.lookup lid).isSome → (t.links.get lid).isSome

/-- A call takes no link away from under the resource being sent on it. -/
def OpSpares (crypto : Crypto) (t : Transport) : Op → Prop
  | .handleFrame raw ephemeral iface => t.Spares (t.handleFrame crypto raw ephemeral iface).2
  | _ => True

variable {crypto : Crypto} {t u : Transport}

theorem Attached.of_more (attached : t.Attached)
    (fewer : ∀ lid, (u.outResources.lookup lid).isSome → (t.outResources.lookup lid).isSome)
    (more : ∀ lid, (u.outResources.lookup lid).isSome → t.Linked lid → u.Linked lid) :
    u.Attached :=
  fun lid sending => more lid sending (attached lid (fewer lid sending))

theorem Attached.congr (attached : t.Attached) (outLinks : u.outLinks = t.outLinks)
    (links : u.links = t.links) (resources : u.outResources = t.outResources) : u.Attached := by
  intro lid sending
  rw [resources] at sending
  rw [Linked, outLinks, links]
  exact attached lid sending

theorem Attached.removeOutLinks (attached : t.Attached) (lids : List TruncatedHash) :
    (lids.foldl removeOutLink t).Attached := by
  induction lids generalizing t with
  | nil => exact attached
  | cons lid rest ih =>
    refine ih (attached.of_more (fun other sending => ?_) fun other sending linked => ?_)
    · by_cases same : other = lid
      · rw [same, removeOutLink, AList.lookup_erase] at sending
        cases sending
      · rwa [removeOutLink, AList.lookup_erase_ne same] at sending
    · by_cases same : other = lid
      · rw [same, removeOutLink, AList.lookup_erase] at sending
        cases sending
      · rw [Linked, removeOutLink, Capped.get_forget, if_neg same]
        exact linked

theorem Attached.outboundLinkFor (attached : t.Attached) (target : TruncatedHash) (now : Nat) :
    (t.outboundLinkFor target now).1.Attached := by
  have dropped := attached.removeOutLinks (t.expiredOutLinks now)
  rw [Transport.outboundLinkFor]
  generalize (t.expiredOutLinks now).foldl removeOutLink t = v at dropped
  cases v.outLinks.table.entries.find? fun e => e.2.target = target with
  | none => exact dropped
  | some e =>
    refine dropped.of_more (fun _ sending => sending) fun other _ linked => ?_
    simpa [Linked, Capped.get_modify] using linked

/-- The queues of the two tables of links are exact, and every resource has its link. -/
structure Holding (t : Transport) : Prop where
  links : t.links.Exact MAX_LINKS
  outLinks : t.outLinks.Exact MAX_OUT_LINKS
  attached : t.Attached

theorem kept_iff_of_lost {K : Type*} {sending one after two : K → Prop} {lost : Option K}
    (kept : ∀ key, sending key → one key ∨ two key)
    (stays : ∀ key, key ∉ lost → one key → after key) (gone : ∀ key ∈ lost, ¬ after key) :
    (∀ key, sending key → after key ∨ two key) ↔ ∀ key ∈ lost, sending key → two key := by
  constructor
  · intro holds key left busy
    exact (holds key busy).resolve_left (gone key left)
  · intro spared key busy
    by_cases left : key ∈ lost
    · exact .inr (spared key left busy)
    · exact (kept key busy).imp_left (stays key left)

theorem Attached.iff_lostInbound {lost : Option TruncatedHash} (attached : t.Attached)
    (resources : u.outResources = t.outResources) (outLinks : u.outLinks = t.outLinks)
    (stays : ∀ lid, lid ∉ lost → (t.links.get lid).isSome → (u.links.get lid).isSome)
    (gone : ∀ lid ∈ lost, u.links.get lid = none) :
    u.Attached ↔ ∀ lid ∈ lost, (t.outResources.lookup lid).isSome → (t.outLinks.get lid).isSome := by
  rw [Attached, resources]
  simp only [Linked, outLinks, or_comm]
  exact kept_iff_of_lost (fun lid sending => (attached lid sending).symm) stays
    fun lid left => by simp [gone lid left]

theorem Attached.iff_lostOutbound {lost : Option TruncatedHash} (attached : t.Attached)
    (resources : u.outResources = t.outResources) (links : u.links = t.links)
    (stays : ∀ lid, lid ∉ lost → (t.outLinks.get lid).isSome → (u.outLinks.get lid).isSome)
    (gone : ∀ lid ∈ lost, u.outLinks.get lid = none) :
    u.Attached ↔ ∀ lid ∈ lost, (t.outResources.lookup lid).isSome → (t.links.get lid).isSome := by
  rw [Attached, resources]
  simp only [Linked, links]
  exact kept_iff_of_lost attached stays fun lid left => by simp [gone lid left]

theorem spares_iff_inbound {event : Event} (outbound : t.lostOutbound event = none) :
    t.Spares event ↔ ∀ lid ∈ t.lostInbound event,
      (t.outResources.lookup lid).isSome → (t.outLinks.get lid).isSome := by
  rw [Spares, outbound]
  exact and_iff_left fun _ lost => nomatch lost

theorem spares_iff_outbound {event : Event} (inbound : t.lostInbound event = none) :
    t.Spares event ↔ ∀ lid ∈ t.lostOutbound event,
      (t.outResources.lookup lid).isSome → (t.links.get lid).isSome := by
  rw [Spares, inbound]
  exact and_iff_right fun _ lost => nomatch lost

theorem spares_of_none {event : Event} (inbound : t.lostInbound event = none)
    (outbound : t.lostOutbound event = none) : t.Spares event := by
  rw [Spares, inbound, outbound]
  exact ⟨fun _ lost => (nomatch lost), fun _ lost => (nomatch lost)⟩

theorem spares_of_quiet {event : Event} (inert : event.Quiet) : t.Spares event := by
  cases event with
  | linkEstablished lid proof => cases inert
  | inLinkClosed lid => cases inert
  | outboundLinkUp lid target => cases inert
  | _ => exact spares_of_none rfl rfl

theorem Effect.attached_iff {ephemeral : KeyHalf} {p : Packet} {event : Event}
    (holding : Holding t) (effect : Effect crypto t ephemeral p u event) :
    u.Attached ↔ t.Spares event := by
  have attached := holding.attached
  cases effect with
  | linkUp kind context pending completed =>
    -- The new outbound link may evict the oldest one.
    rw [spares_iff_outbound rfl]
    refine attached.iff_lostOutbound rfl rfl (fun lid kept held => ?_) fun lid lost => ?_
    · exact holding.outLinks.isSome_get_insert (by decide) kept held _
    · exact holding.outLinks.get_insert_evicted (by decide) lost _
  | accepted kind ours fresh established =>
    -- The new inbound link may evict the oldest one.
    rw [spares_iff_inbound rfl]
    refine attached.iff_lostInbound rfl rfl (fun lid kept held => ?_) fun lid lost => ?_
    · exact holding.links.isSome_get_insert (by decide) kept held _
    · exact holding.links.get_insert_evicted (by decide) lost _
  | inLinkClosed kind context held named =>
    -- The peer closes its link, and what we send on it is left as it is.
    rw [spares_iff_inbound rfl]
    refine attached.iff_lostInbound rfl rfl (fun lid kept held => ?_) fun lid lost => ?_
    · have differ : lid ≠ p.destinationHash := fun same => kept (by rw [same]; rfl)
      rwa [Capped.get_forget, if_neg differ]
    · rw [Capped.get_forget, if_pos (Option.some.inj lost).symm]
  | repeated kind ours held =>
    -- A link that is open already evicts none.
    refine iff_of_true attached (spares_of_none ?_ rfl)
    simp [lostInbound, Capped.evicted, held]
  | resourceProven kind context sending valid =>
    refine iff_of_true (attached.of_more (fun lid busy => ?_) fun _ _ linked => linked)
      (spares_of_none rfl rfl)
    by_cases same : lid = p.destinationHash
    · rw [same, AList.lookup_erase] at busy
      cases busy
    · rwa [AList.lookup_erase_ne same] at busy
  | identified kind context held decrypted signed =>
    refine iff_of_true (attached.of_more (fun _ busy => busy) fun lid _ linked => ?_)
      (spares_of_none rfl rfl)
    simpa [Linked, Capped.get_modify] using linked
  | outLinkClosed kind context held named =>
    exact iff_of_true (attached.removeOutLinks [p.destinationHash]) (spares_of_none rfl rfl)
  | linkRefused kind context pending failed => exact iff_of_true attached (spares_of_none rfl rfl)
  | receiptProven kind context key waiting valid =>
    exact iff_of_true attached (spares_of_none rfl rfl)
  | oppProven kind waiting valid => exact iff_of_true attached (spares_of_none rfl rfl)
  | learned kind valid => exact iff_of_true attached (spares_of_none rfl rfl)
  | quiet inert => exact iff_of_true attached (spares_of_quiet inert)

theorem linked_of_anyLinkKey {lid : TruncatedHash} {key : SessionKey}
    (held : t.anyLinkKey lid = some key) : t.Linked lid := by
  rw [anyLinkKey, Option.or_eq_some_iff] at held
  rcases held with outbound | ⟨-, inbound⟩
  · obtain ⟨link, found, -⟩ := Option.map_eq_some_iff.mp outbound
    exact .inl (Option.isSome_iff_exists.mpr ⟨link, found⟩)
  · obtain ⟨st, found, -⟩ := Option.map_eq_some_iff.mp inbound
    exact .inr (Option.isSome_iff_exists.mpr ⟨st, found⟩)

/-- After a call every resource has its link exactly if the call spares those with one. -/
theorem Holding.attached_perform_iff (holding : Holding t) (op : Op) :
    (t.perform crypto op).Attached ↔ OpSpares crypto t op := by
  have attached := holding.attached
  cases op with
  | handleFrame raw ephemeral iface =>
    rcases handleFrame_cases t raw ephemeral iface with ⟨p, decoded, effect⟩ | ⟨reason, result⟩
    · exact effect.attached_iff holding
    · rw [perform, OpSpares, result]
      exact iff_of_true attached (spares_of_none rfl rfl)
  | outboundLinkFor target now => exact iff_of_true (attached.outboundLinkFor target now) trivial
  | dropOutLink linkId => exact iff_of_true (attached.removeOutLinks [linkId]) trivial
  | connectionReset =>
    refine iff_of_true ?_ trivial
    intro lid sending
    cases sending
  | makeLinkResource linkId data r streamPrefix iv advIv =>
    refine iff_of_true ?_ trivial
    cases held : t.anyLinkKey linkId with
    | none =>
      simp only [perform, makeLinkResource, held]
      exact attached
    | some key =>
      obtain ⟨tx, adv, -, result⟩ := makeLinkResource_eq crypto held data r streamPrefix iv advIv
      simp only [perform, result]
      intro lid sending
      -- A resource is only started on a link that is there.
      by_cases same : lid = linkId
      · have there : t.Linked linkId := linked_of_anyLinkKey held
        rw [same]
        exact there
      · exact attached lid (by rwa [AList.lookup_insert_ne same] at sending)
  | pendingLinkTo target now =>
    refine iff_of_true ?_ trivial
    rw [perform, pendingLinkTo, foldl_forgetPendingLink]
    exact attached
  | expirePath hash =>
    have same := untouched_expirePath t hash
    exact iff_of_true (attached.congr same.outLinks same.links same.outResources) trivial
  | registerDestination hash =>
    have same := untouched_registerDestination t hash
    exact iff_of_true (attached.congr same.outLinks same.links same.outResources) trivial
  | makeLinkData linkId plaintext iv =>
    refine iff_of_true ?_ trivial
    rw [perform, makeLinkData]
    split
    · exact attached
    · rw [registerLinkData_eq]
      exact attached
  | makeInLinkData linkId plaintext iv =>
    refine iff_of_true ?_ trivial
    rw [perform, makeInLinkData]
    split
    · exact attached
    · split
      · exact attached
      · rw [registerLinkData_eq]
        exact attached
  | dropPathsOn iface => exact iff_of_true attached trivial
  | remember hash info => exact iff_of_true attached trivial
  | makeOpportunisticTracked recipientHash recipient ratchet plaintext ephemeralSecret iv =>
    exact iff_of_true attached trivial
  | makeLinkRequest target peerIdentity ephX25519 ephEd25519 now =>
    exact iff_of_true attached trivial
  | forgetPendingLink linkId => exact iff_of_true attached trivial

variable (crypto) in
/-- One step of a run in which no link goes while a resource is being sent on it. -/
inductive Careful (t : Transport) : Transport → Prop
  | call (op : Op) (spares : OpSpares crypto t op) : Careful t (t.perform crypto op)
  | reorder {u : Transport} (same : t.Same u) : Careful t u

theorem Same.attached (same : t.Same u) (attached : t.Attached) : u.Attached := by
  intro lid sending
  rw [← same.outResources.lookup lid] at sending
  rw [Linked, ← same.outLinks.get lid, ← same.links.get lid]
  exact attached lid sending

theorem Holding.next (holding : Holding t) (step : Careful crypto t u) : Holding u := by
  have evolves : Evolves t u := by
    cases step with
    | call op spares => exact evolves_perform t op
    | reorder same => exact same.evolves
  refine ⟨(evolves.links holding.links).1, (evolves.outLinks holding.outLinks).1, ?_⟩
  cases step with
  | call op spares => exact (holding.attached_perform_iff op).mpr spares
  | reorder same => exact same.attached holding.attached

theorem holding_new (identity : PrivateIdentity) : Holding (new identity) where
  links := (Capped.InOrder.start MAX_LINKS []).toExact
  outLinks := (Capped.InOrder.start MAX_OUT_LINKS []).toExact
  attached := fun _ sending => nomatch sending

theorem Holding.resources_le (holding : Holding t) :
    t.outResources.entries.length ≤ MAX_OUT_LINKS + MAX_LINKS := by
  have within : t.outResources.keys ⊆ t.outLinks.order ++ t.links.order := by
    intro lid there
    have sending := AList.lookup_isSome.mpr (AList.mem_keys.mpr there)
    rcases holding.attached lid sending with outbound | inbound
    · exact List.mem_append_left _ ((holding.outLinks.listed lid).mpr outbound)
    · exact List.mem_append_right _ ((holding.links.listed lid).mpr inbound)
  have count := (t.outResources.keys_nodup.subperm within).length_le
  have entries : t.outResources.keys.length = t.outResources.entries.length := List.length_map _
  have outbound := holding.outLinks.short
  have inbound := holding.links.short
  rw [List.length_append] at count
  omega

/--
As long as no link goes while a resource is being sent on it, every resource has its link.

The condition on a step is exact: a call that does not meet it leaves a resource without its link.
-/
theorem resources_linked {identity : PrivateIdentity}
    (run : ReflTransGen (Careful crypto) (new identity) t) :
    t.Attached ∧ t.outResources.entries.length ≤ MAX_OUT_LINKS + MAX_LINKS
      ∧ ∀ op, (t.perform crypto op).Attached ↔ OpSpares crypto t op := by
  have holding : Holding t := reachable_of_keeps (I := Holding)
    (fun _ _ before step => before.next step) (holding_new identity) run
  exact ⟨holding.attached, holding.resources_le, holding.attached_perform_iff⟩

def sendingRun : List Op :=
  [ .registerDestination sampleDest,
    .handleFrame sampleRequest.encode (sampleSeed 9) .hub,
    .makeLinkResource sampleLink [1, 2, 3] (BytesN.ofBytes 4 []) (BytesN.ofBytes 4 []) sampleIv
      sampleIv ]

def sendingState : Transport := sendingRun.foldl (perform Crypto.sample) (new (sampleIdentity 1))

def sampleClose : Bytes :=
  (sendingState.makeInLinkContext Crypto.sample sampleLink CONTEXT_LINKCLOSE sampleLink.val
    sampleIv).getD []

/-- Once the peer closes its link, the resource is still kept, and there is no link for it. -/
theorem resource_outlives_link :
    let t := sendingState.perform Crypto.sample (.handleFrame sampleClose (sampleSeed 0) .hub)
    (t.outResources.lookup sampleLink).isSome ∧ t.outLinks.get sampleLink = none
      ∧ t.links.get sampleLink = none := by
  decide +kernel

/-- While the link is open, the resource has its link. -/
theorem resources_linked_sending :
    (sendingState.outResources.lookup sampleLink).isSome ∧ sendingState.Attached := by
  have run : ReflTransGen (Careful Crypto.sample) (new (sampleIdentity 1)) sendingState := by
    refine ((ReflTransGen.single (.call (.registerDestination _) trivial)).tail
      (.call (.handleFrame _ _ _) ?_)).tail (.call (.makeLinkResource _ _ _ _ _ _) trivial)
    exact spares_of_none (by decide +kernel) (by decide +kernel)
  exact ⟨by decide +kernel, (resources_linked run).1⟩

end LxmfChat.Transport
