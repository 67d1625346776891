import LxmfChat.Reticulum.Transport.Effects
import LxmfChat.Reticulum.Transport.Ops

/-! Runs of a transport: every call that can change it, in any order. -/

namespace LxmfChat.Transport

open Base

variable (crypto : Crypto)

/-- A call that may change the transport; every other method only reads it. -/
inductive Op
  | dropPathsOn (iface : PathIface)
  | expirePath (hash : TruncatedHash)
  | registerDestination (hash : TruncatedHash)
  | remember (hash : TruncatedHash) (info : KnownDest)
  | handleFrame (raw : Bytes) (ephemeral : KeyHalf) (iface : PathIface)
  | makeOpportunisticTracked (recipientHash : TruncatedHash) (recipient : PublicIdentity)
      (ratchet : Option KeyHalf) (plaintext : Bytes) (ephemeralSecret : KeyHalf) (iv : Iv)
  | makeLinkRequest (target : TruncatedHash) (peerIdentity : PublicIdentity)
      (ephX25519 ephEd25519 : KeyHalf) (now : Nat)
  | outboundLinkFor (target : TruncatedHash) (now : Nat)
  | pendingLinkTo (target : TruncatedHash) (now : Nat)
  | dropOutLink (linkId : TruncatedHash)
  | forgetPendingLink (linkId : TruncatedHash)
  | connectionReset
  | makeLinkData (linkId : TruncatedHash) (plaintext : Bytes) (iv : Iv)
  | makeInLinkData (linkId : TruncatedHash) (plaintext : Bytes) (iv : Iv)
  | makeLinkResource (linkId : TruncatedHash) (data : Bytes) (r streamPrefix : BytesN 4)
      (iv advIv : Iv)

def perform (t : Transport) : Op → Transport
  | .dropPathsOn iface => t.dropPathsOn iface
  | .expirePath hash => (t.expirePath hash).1
  | .registerDestination hash => t.registerDestination hash
  | .remember hash info => t.remember hash info
  | .handleFrame raw ephemeral iface => (t.handleFrame crypto raw ephemeral iface).1
  | .makeOpportunisticTracked recipientHash recipient ratchet plaintext ephemeralSecret iv =>
    (t.makeOpportunisticTracked crypto recipientHash recipient ratchet plaintext
      ephemeralSecret iv).1
  | .makeLinkRequest target peerIdentity ephX25519 ephEd25519 now =>
    (t.makeLinkRequest crypto target peerIdentity ephX25519 ephEd25519 now).1
  | .outboundLinkFor target now => (t.outboundLinkFor target now).1
  | .pendingLinkTo target now => (t.pendingLinkTo target now).1
  | .dropOutLink linkId => t.dropOutLink linkId
  | .forgetPendingLink linkId => t.forgetPendingLink linkId
  | .connectionReset => t.connectionReset
  | .makeLinkData linkId plaintext iv => (t.makeLinkData crypto linkId plaintext iv).1
  | .makeInLinkData linkId plaintext iv => (t.makeInLinkData crypto linkId plaintext iv).1
  | .makeLinkResource linkId data r streamPrefix iv advIv =>
    (t.makeLinkResource crypto linkId data r streamPrefix iv advIv).1

/--
The same tables, possibly iterated over in another order.

A hash map may iterate over its entries in any order, and in another one after any change.
-/
structure Same (t u : Transport) : Prop where
  identity : t.identity = u.identity
  ourDests : t.ourDests = u.ourDests
  known : t.known.Same u.known
  paths : t.paths.Same u.paths
  links : t.links.Same u.links
  pendingOut : t.pendingOut.Same u.pendingOut
  outLinks : t.outLinks.Same u.outLinks
  receipts : t.receipts.Same u.receipts
  outResources : Table.Same t.outResources u.outResources
  oppReceipts : t.oppReceipts.Same u.oppReceipts

variable {crypto}

/-- The tables of links and of what awaits a proof are all as they were. -/
structure Untouched (t u : Transport) : Prop where
  links : u.links = t.links
  pendingOut : u.pendingOut = t.pendingOut
  outLinks : u.outLinks = t.outLinks
  receipts : u.receipts = t.receipts
  outResources : u.outResources = t.outResources
  oppReceipts : u.oppReceipts = t.oppReceipts

theorem untouched_learn (t : Transport) (hash : TruncatedHash) (info : KnownDest)
    (path : PathEntry) : Untouched t ((t.insertKnown hash info).insertPath hash path) :=
  ⟨rfl, rfl, rfl, rfl, rfl, rfl⟩

theorem untouched_expirePath (t : Transport) (hash : TruncatedHash) :
    Untouched t (t.expirePath hash).1 := by
  rw [expirePath]
  split <;> exact ⟨rfl, rfl, rfl, rfl, rfl, rfl⟩

theorem untouched_registerDestination (t : Transport) (hash : TruncatedHash) :
    Untouched t (t.registerDestination hash) := by
  rw [registerDestination]
  split <;> exact ⟨rfl, rfl, rfl, rfl, rfl, rfl⟩

theorem foldl_removeOutLink (t : Transport) (lids : List TruncatedHash) :
    lids.foldl removeOutLink t
      = { t with
          outResources := lids.foldl (fun table lid => table.erase lid) t.outResources
          outLinks := lids.foldl (fun table lid => table.forget lid) t.outLinks } := by
  -- The transport changes with every link, so it stays quantified over.
  induction lids generalizing t with
  | nil => rfl
  | cons lid rest ih =>
    rw [List.foldl_cons, ih]
    rfl

theorem foldl_forgetPendingLink (t : Transport) (lids : List TruncatedHash) :
    lids.foldl forgetPendingLink t
      = { t with pendingOut := lids.foldl (fun table lid => table.forget lid) t.pendingOut } := by
  induction lids generalizing t with
  | nil => rfl
  | cons lid rest ih =>
    rw [List.foldl_cons, ih]
    rfl

/--
No link and no link request appears.

A peer may identify itself on an inbound link, and an outbound link may be refreshed.
-/
structure Loses (t u : Transport) : Prop where
  links : ∀ {lid st}, u.links.get lid = some st →
    ∃ old, t.links.get lid = some old ∧ st = { old with peerIdentity := st.peerIdentity }
  pendingOut : ∀ {lid pend}, u.pendingOut.get lid = some pend →
    t.pendingOut.get lid = some pend
  outLinks : ∀ {lid link}, u.outLinks.get lid = some link →
    ∃ old, t.outLinks.get lid = some old ∧ link = { old with lastActivity := link.lastActivity }

theorem Untouched.loses {t u : Transport} (same : Untouched t u) : Loses t u where
  links held := ⟨_, same.links ▸ held, rfl⟩
  pendingOut held := same.pendingOut ▸ held
  outLinks held := ⟨_, same.outLinks ▸ held, rfl⟩

theorem Same.loses {t u : Transport} (same : t.Same u) : Loses t u where
  links held := ⟨_, (same.links.get _).trans held, rfl⟩
  pendingOut held := (same.pendingOut.get _).trans held
  outLinks held := ⟨_, (same.outLinks.get _).trans held, rfl⟩

theorem loses_removeOutLinks (t : Transport) (lids : List TruncatedHash) :
    Loses t (lids.foldl removeOutLink t) := by
  rw [foldl_removeOutLink]
  refine ⟨fun held => ⟨_, held, rfl⟩, fun held => held, ?_⟩
  intro lid link held
  rw [Capped.get_foldl_forget] at held
  split at held
  · cases held
  · exact ⟨link, held, rfl⟩

theorem loses_outboundLinkFor (t : Transport) (target : TruncatedHash) (now : Nat) :
    Loses t (t.outboundLinkFor target now).1 := by
  have dropped := loses_removeOutLinks t (t.expiredOutLinks now)
  rw [outboundLinkFor]
  generalize (t.expiredOutLinks now).foldl removeOutLink t = u at dropped
  cases u.outLinks.table.entries.find? fun e => e.2.target = target with
  | none => exact dropped
  | some e =>
    refine ⟨dropped.links, dropped.pendingOut, ?_⟩
    intro lid link held
    rw [Capped.get_modify, Option.map_eq_some_iff] at held
    obtain ⟨old, there, refreshed⟩ := held
    obtain ⟨older, before, same⟩ := dropped.outLinks there
    refine ⟨older, before, ?_⟩
    rw [← refreshed, same]
    split <;> rfl

theorem loses_forgetPendingLinks (t : Transport) (lids : List TruncatedHash) :
    Loses t (lids.foldl forgetPendingLink t) := by
  rw [foldl_forgetPendingLink]
  refine ⟨fun held => ⟨_, held, rfl⟩, ?_, fun held => ⟨_, held, rfl⟩⟩
  intro lid pend held
  rw [Capped.get_foldl_forget] at held
  split at held
  · cases held
  · exact held

theorem loses_connectionReset (t : Transport) : Loses t t.connectionReset where
  links held := nomatch held
  pendingOut held := nomatch held
  outLinks held := nomatch held

theorem loses_forgetLink (t : Transport) (lid : TruncatedHash) :
    Loses t { t with links := t.links.forget lid } where
  links held := by
    rw [Capped.get_forget] at held
    split at held
    · cases held
    · exact ⟨_, held, rfl⟩
  pendingOut held := held
  outLinks held := ⟨_, held, rfl⟩

theorem loses_identify (t : Transport) (lid : TruncatedHash) (identity : PublicIdentity) :
    Loses t { t with links := t.links.modify lid fun st =>
      { st with peerIdentity := some identity } } where
  links held := by
    rw [Capped.get_modify, Option.map_eq_some_iff] at held
    obtain ⟨old, there, marked⟩ := held
    refine ⟨old, there, ?_⟩
    rw [← marked]
    split <;> rfl
  pendingOut held := held
  outLinks held := ⟨_, held, rfl⟩

theorem loses_removePending (t : Transport) (lid : TruncatedHash) :
    Loses t { t with pendingOut := t.pendingOut.remove lid } where
  links held := ⟨_, held, rfl⟩
  pendingOut held := by
    rw [Capped.get_remove] at held
    split at held
    · cases held
    · exact held
  outLinks held := ⟨_, held, rfl⟩

variable (crypto) in
/-- The calls that add a link or a link request, with what they add. -/
inductive Opens (t : Transport) : Op → Transport → Prop
  | requested (target : TruncatedHash) (peer : PublicIdentity) (ephX25519 ephEd25519 : KeyHalf)
      (now : Nat) :
      Opens t (.makeLinkRequest target peer ephX25519 ephEd25519 now)
        (t.makeLinkRequest crypto target peer ephX25519 ephEd25519 now).1
  | up {raw : Bytes} {ephemeral : KeyHalf} {iface : PathIface} {p : Packet} {pend : PendingOut}
      {key : SessionKey} (decoded : Packet.decode raw = .ok p)
      (pending : t.pendingOut.get p.destinationHash = some pend)
      (completed : Link.completeHandshake crypto p.destinationHash pend.ephSecret p.data
        pend.identity = some key) :
      Opens t (.handleFrame raw ephemeral iface)
        ({ t with pendingOut := t.pendingOut.remove p.destinationHash }.insertOutLink
          p.destinationHash (pend.opened key))
  | accepted {raw : Bytes} {ephemeral : KeyHalf} {iface : PathIface} {p : Packet}
      {est : EstablishedLink} (decoded : Packet.decode raw = .ok p)
      (ours : p.destinationHash ∈ t.ourDests)
      (fresh : t.links.get (Link.linkId crypto p) = none)
      (established : Link.acceptRequest crypto p t.identity ephemeral = some est)
      (answered : (t.handleFrame crypto raw ephemeral iface).2
        = .linkEstablished est.linkId est.proofPacket) :
      Opens t (.handleFrame raw ephemeral iface) (t.insertLink est.linkId est.opened)

theorem handleFrame_opens (t : Transport) (raw : Bytes) (ephemeral : KeyHalf) (iface : PathIface) :
    Loses t (t.handleFrame crypto raw ephemeral iface).1
      ∨ Opens crypto t (.handleFrame raw ephemeral iface)
        (t.handleFrame crypto raw ephemeral iface).1 := by
  have same : Loses t t := Untouched.loses ⟨rfl, rfl, rfl, rfl, rfl, rfl⟩
  rcases handleFrame_cases t raw ephemeral iface with ⟨p, decoded, effect⟩ | ⟨reason, result⟩
  · generalize result : t.handleFrame crypto raw ephemeral iface = handled at effect
    obtain ⟨u, event⟩ := handled
    cases effect with
    | linkUp kind context pending completed => exact .inr (.up decoded pending completed)
    | linkRefused kind context pending failed =>
      exact .inl (loses_removePending t p.destinationHash)
    | resourceProven kind context sending valid =>
      exact .inl ⟨same.links, same.pendingOut, same.outLinks⟩
    | receiptProven kind context key waiting valid =>
      exact .inl ⟨same.links, same.pendingOut, same.outLinks⟩
    | oppProven kind waiting valid => exact .inl ⟨same.links, same.pendingOut, same.outLinks⟩
    | outLinkClosed kind context held named =>
      exact .inl (loses_removeOutLinks t [p.destinationHash])
    | identified kind context held decrypted signed =>
      exact .inl (loses_identify t p.destinationHash _)
    | inLinkClosed kind context held named => exact .inl (loses_forgetLink t p.destinationHash)
    | learned kind valid => exact .inl (untouched_learn t _ _ _).loses
    | repeated kind ours held => exact .inl same
    | accepted kind ours fresh established =>
      exact .inr (.accepted decoded ours fresh established (by rw [result]))
    | quiet inert => exact .inl same
  · rw [result]
    exact .inl same

theorem perform_cases (t : Transport) (op : Op) :
    Loses t (t.perform crypto op) ∨ Opens crypto t op (t.perform crypto op) := by
  have same : Loses t t := Untouched.loses ⟨rfl, rfl, rfl, rfl, rfl, rfl⟩
  cases op with
  | dropPathsOn iface => exact .inl (Untouched.loses ⟨rfl, rfl, rfl, rfl, rfl, rfl⟩)
  | expirePath hash => exact .inl (untouched_expirePath t hash).loses
  | registerDestination hash => exact .inl (untouched_registerDestination t hash).loses
  | remember hash info => exact .inl (Untouched.loses ⟨rfl, rfl, rfl, rfl, rfl, rfl⟩)
  | makeOpportunisticTracked recipientHash recipient ratchet plaintext ephemeralSecret iv =>
    exact .inl ⟨same.links, same.pendingOut, same.outLinks⟩
  | makeLinkRequest target peerIdentity ephX25519 ephEd25519 now =>
    exact .inr (.requested target peerIdentity ephX25519 ephEd25519 now)
  | outboundLinkFor target now => exact .inl (loses_outboundLinkFor t target now)
  | pendingLinkTo target now => exact .inl (loses_forgetPendingLinks t _)
  | dropOutLink linkId => exact .inl (loses_removeOutLinks t [linkId])
  | forgetPendingLink linkId => exact .inl (loses_forgetPendingLinks t [linkId])
  | connectionReset => exact .inl (loses_connectionReset t)
  | makeLinkData linkId plaintext iv =>
    left
    cases held : t.outLinks.get linkId with
    | none =>
      simp only [perform, makeLinkData, held]
      exact same
    | some link =>
      simp only [perform, makeLinkData, held, registerLinkData_eq]
      exact ⟨same.links, same.pendingOut, same.outLinks⟩
  | makeInLinkData linkId plaintext iv =>
    left
    cases held : t.links.get linkId with
    | none =>
      simp only [perform, makeInLinkData, held]
      exact same
    | some st =>
      cases identified : st.peerIdentity with
      | none =>
        simp only [perform, makeInLinkData, held, identified]
        exact same
      | some peer =>
        simp only [perform, makeInLinkData, held, identified, registerLinkData_eq]
        exact ⟨same.links, same.pendingOut, same.outLinks⟩
  | makeLinkResource linkId data r streamPrefix iv advIv =>
    left
    cases held : t.anyLinkKey linkId with
    | none =>
      simp only [perform, makeLinkResource, held]
      exact same
    | some key =>
      obtain ⟨tx, adv, -, result⟩ := makeLinkResource_eq crypto held data r streamPrefix iv advIv
      simp only [perform, result]
      exact ⟨same.links, same.pendingOut, same.outLinks⟩
  | handleFrame raw ephemeral iface => exact handleFrame_opens t raw ephemeral iface

theorem pendingOut_perform {t : Transport} {op : Op} {lid : TruncatedHash} {pend : PendingOut}
    (held : (t.perform crypto op).pendingOut.get lid = some pend) :
    t.pendingOut.get lid = some pend
    ∨ ∃ target ephX25519 ephEd25519 now,
        op = .makeLinkRequest target pend.identity ephX25519 ephEd25519 now
        ∧ lid = Link.linkId crypto (Link.requestPacket crypto target ephX25519 ephEd25519)
        ∧ pend.ephSecret = ephX25519 := by
  rcases perform_cases t op with loses | opens
  · exact .inl (loses.pendingOut held)
  · generalize t.perform crypto op = u at opens held
    cases opens with
    | requested target peer ephX25519 ephEd25519 now =>
      by_cases same : lid = Link.linkId crypto (Link.requestPacket crypto target ephX25519 ephEd25519)
      · subst same
        have inserted := (Capped.get_insert_self MAX_PENDING_OUT _ _ t.pendingOut).symm.trans held
        cases inserted
        exact .inr ⟨target, ephX25519, ephEd25519, now, rfl, rfl, rfl⟩
      · exact .inl (Capped.get_of_get_insert same held)
    | up decoded pending completed =>
      exact .inl ((loses_removePending t _).pendingOut held)
    | accepted decoded ours fresh established answered => exact .inl held

theorem outLinks_perform {t : Transport} {op : Op} {lid : TruncatedHash} {link : OutLink}
    (held : (t.perform crypto op).outLinks.get lid = some link) :
    (∃ old, t.outLinks.get lid = some old ∧ link = { old with lastActivity := link.lastActivity })
    ∨ ∃ raw ephemeral iface p pend key, op = .handleFrame raw ephemeral iface
        ∧ Packet.decode raw = .ok p ∧ t.pendingOut.get lid = some pend
        ∧ Link.completeHandshake crypto lid pend.ephSecret p.data pend.identity = some key
        ∧ link = pend.opened key := by
  rcases perform_cases t op with loses | opens
  · exact .inl (loses.outLinks held)
  · generalize t.perform crypto op = u at opens held
    cases opens with
    | requested target peer ephX25519 ephEd25519 now => exact .inl ⟨_, held, rfl⟩
    | @up raw ephemeral iface p pend key decoded pending completed =>
      by_cases same : lid = p.destinationHash
      · subst same
        have inserted := (Capped.get_insert_self MAX_OUT_LINKS _ _ t.outLinks).symm.trans held
        cases inserted
        exact .inr ⟨raw, ephemeral, iface, p, pend, key, rfl, decoded, pending, completed, rfl⟩
      · exact .inl ⟨_, Capped.get_of_get_insert same held, rfl⟩
    | accepted decoded ours fresh established answered => exact .inl ⟨_, held, rfl⟩

theorem links_perform {t : Transport} {op : Op} {lid : TruncatedHash} {st : LinkState}
    (held : (t.perform crypto op).links.get lid = some st) :
    (∃ old, t.links.get lid = some old ∧ st = { old with peerIdentity := st.peerIdentity })
    ∨ ∃ raw ephemeral iface p est, op = .handleFrame raw ephemeral iface
        ∧ Packet.decode raw = .ok p ∧ p.destinationHash ∈ t.ourDests
        ∧ t.links.get lid = none ∧ lid = est.linkId
        ∧ Link.acceptRequest crypto p t.identity ephemeral = some est
        ∧ (t.handleFrame crypto raw ephemeral iface).2
            = .linkEstablished est.linkId est.proofPacket
        ∧ st = est.opened := by
  rcases perform_cases t op with loses | opens
  · exact .inl (loses.links held)
  · generalize t.perform crypto op = u at opens held
    cases opens with
    | requested target peer ephX25519 ephEd25519 now => exact .inl ⟨_, held, rfl⟩
    | up decoded pending completed => exact .inl ⟨_, held, rfl⟩
    | @accepted raw ephemeral iface p est decoded ours fresh established answered =>
      by_cases same : lid = est.linkId
      · have named := Link.acceptRequest_linkId crypto established
        subst same
        have inserted := (Capped.get_insert_self MAX_LINKS _ _ t.links).symm.trans held
        cases inserted
        exact .inr ⟨raw, ephemeral, iface, p, est, rfl, decoded, ours, named ▸ fresh, rfl,
          established, answered, rfl⟩
      · exact .inl ⟨_, Capped.get_of_get_insert same held, rfl⟩

end LxmfChat.Transport
