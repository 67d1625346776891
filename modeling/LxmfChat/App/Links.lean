import LxmfChat.App.Browser

/-! Whom a link belongs to: who asked for it, where it leads, and which client uses it. -/

namespace LxmfChat

open Base

namespace Transport

/-- A link to the destination is pending or open. -/
def Heading (t : Transport) (lid target : TruncatedHash) : Prop :=
  (∃ pend, t.pendingOut.get lid = some pend ∧ pend.target = target) ∨ t.OpenTo lid target

variable {crypto : Crypto} {t u : Transport} {lid target : TruncatedHash}

theorem Loses.heading (loses : Loses t u) (heads : u.Heading lid target) :
    t.Heading lid target := by
  rcases heads with ⟨pend, held, same⟩ | ⟨link, held, same⟩
  · exact .inl ⟨pend, loses.pendingOut held, same⟩
  · obtain ⟨old, before, refreshed⟩ := loses.outLinks held
    refine .inr ⟨old, before, ?_⟩
    rw [← same, refreshed]

theorem heading_handleFrame {raw : Bytes} {ephemeral : KeyHalf} {iface : PathIface}
    (heads : (t.handleFrame crypto raw ephemeral iface).1.Heading lid target) :
    t.Heading lid target := by
  rcases @perform_cases crypto t (.handleFrame raw ephemeral iface) with loses | opens
  · exact loses.heading heads
  · simp only [perform] at opens
    generalize (t.handleFrame crypto raw ephemeral iface).1 = u at opens heads
    cases opens with
    | @up _ _ _ p pend key decoded pending completed =>
      rcases heads with ⟨other, held, same⟩ | ⟨link, held, same⟩
      · exact .inl ⟨other, (loses_removePending t _).pendingOut held, same⟩
      · by_cases this : lid = p.destinationHash
        · -- The link that just came up leads where its request was to lead.
          subst this
          have opened := (Capped.get_insert_self MAX_OUT_LINKS _ _ t.outLinks).symm.trans held
          cases opened
          exact .inl ⟨pend, pending, same⟩
        · exact .inr ⟨link, Capped.get_of_get_insert this held, same⟩
    | accepted decoded ours fresh established answered => exact heads

theorem heading_of_linkUp {raw : Bytes} {ephemeral : KeyHalf} {iface : PathIface}
    (up : (t.handleFrame crypto raw ephemeral iface).2 = .outboundLinkUp lid target) :
    t.Heading lid target := by
  rcases handleFrame_cases t raw ephemeral iface with ⟨p, decoded, effect⟩ | ⟨reason, result⟩
  · generalize t.handleFrame crypto raw ephemeral iface = handled at effect up
    obtain ⟨u, event⟩ := handled
    cases effect with
    | linkUp kind context pending completed =>
      cases up
      exact .inl ⟨_, pending, rfl⟩
    | quiet inert =>
      subst up
      exact inert.elim
    | _ => cases up
  · rw [result] at up
    cases up

end Transport

def ClientDraw.linkTo (crypto : Crypto) (d : ClientDraw) (target : TruncatedHash) :
    TruncatedHash :=
  (Link.initiateRequest crypto target d.ephX25519 d.ephEd25519).2

/-- Asking for a link adds that link, unless one is pending or open. -/
theorem heading_sendLinkRequest {crypto : Crypto} {t : Transport} {identity : PublicIdentity}
    {now : Nat} {d : ClientDraw} {lid target asked : TruncatedHash}
    (heads : (sendLinkRequest crypto t asked identity now d.toDraw).1.Heading lid target) :
    t.Heading lid target
    ∨ (sendLinkRequest crypto t asked identity now d.toDraw).2 ≠ .pending
      ∧ lid = d.linkTo crypto asked ∧ target = asked := by
  have first := Transport.loses_forgetPendingLinks t (t.expiredPending now)
  rw [sendLinkRequest, Transport.pendingLinkTo] at heads ⊢
  generalize (t.expiredPending now).foldl Transport.forgetPendingLink t = t₁ at first heads ⊢
  dsimp only at heads ⊢
  split at heads
  case isTrue => exact .inl (first.heading heads)
  case isFalse free =>
    have second := Transport.loses_outboundLinkFor t₁ asked now
    rw [if_neg free]
    generalize t₁.outboundLinkFor asked now = found at second heads ⊢
    obtain ⟨t₂, link⟩ := found
    dsimp only at second heads ⊢
    split at heads
    case isTrue => exact .inl (first.heading (second.heading heads))
    case isFalse absent =>
      rw [if_neg absent]
      -- Nothing is pending or open, so the request is made, whether or not it is taken.
      have made : (t₂.makeLinkRequest crypto asked identity d.ephX25519 d.ephEd25519 now).1.Heading
          lid target := by
        split at heads
        case isTrue => exact heads
        case isFalse =>
          exact (Transport.loses_forgetPendingLinks _ [d.linkTo crypto asked]).heading heads
      have asks : ∀ outcome : Transport × LinkReqOutcome,
          outcome = (if d.sent then
            ((t₂.makeLinkRequest crypto asked identity d.ephX25519 d.ephEd25519 now).1, .sent)
            else ((t₂.makeLinkRequest crypto asked identity d.ephX25519 d.ephEd25519
              now).1.forgetPendingLink (d.linkTo crypto asked), .writeFailed)) →
          outcome.2 ≠ .pending := by
        rintro _ rfl
        split <;> simp
      rcases made with ⟨pend, held, same⟩ | ⟨link', held, same⟩
      · by_cases this : lid = d.linkTo crypto asked
        · subst this
          have inserted :=
            (Capped.get_insert_self MAX_PENDING_OUT _ _ t₂.pendingOut).symm.trans held
          cases inserted
          exact .inr ⟨asks _ rfl, rfl, same.symm⟩
        · left
          exact first.heading (second.heading (.inl ⟨pend, Capped.get_of_get_insert this held, same⟩))
      · left
        exact first.heading (second.heading (.inr ⟨link', held, same⟩))

def Emission.linkRequest? : Emission → Option (Purpose × TruncatedHash × TruncatedHash)
  | .linkRequest who lid target => some (who, lid, target)
  | _ => none

def Emission.identify? : Emission → Option TruncatedHash
  | .identify lid => some lid
  | _ => none

namespace Client

def linkRequests (c : Client) : List (Purpose × TruncatedHash × TruncatedHash) :=
  c.log.filterMap Emission.linkRequest?

def identified (c : Client) : List TruncatedHash := c.log.filterMap Emission.identify?

theorem mem_linkRequests {c : Client} {who : Purpose} {lid target : TruncatedHash} :
    (who, lid, target) ∈ c.linkRequests ↔ Emission.linkRequest who lid target ∈ c.log := by
  refine List.mem_filterMap.trans ⟨fun ⟨e, there, same⟩ => ?_, fun there => ⟨_, there, rfl⟩⟩
  cases e with
  | linkRequest who' lid' target' =>
    cases same
    exact there
  | _ => cases same

theorem mem_identified {c : Client} {lid : TruncatedHash} :
    lid ∈ c.identified ↔ Emission.identify lid ∈ c.log := by
  refine List.mem_filterMap.trans ⟨fun ⟨e, there, same⟩ => ?_, fun there => ⟨_, there, rfl⟩⟩
  cases e with
  | identify lid' =>
    cases same
    exact there
  | _ => cases same

end Client

def BrowserState.aims (b : BrowserState) : List TruncatedHash :=
  b.node.toList ++ (b.requested.map (·.node)).toList

def BrowserState.nodes (b : BrowserState) : List TruncatedHash :=
  b.aims ++ (b.current.map (·.node)).toList ++ b.back.map (·.node)

theorem BrowserState.mem_nodes {b : BrowserState} {node : TruncatedHash} :
    node ∈ b.nodes ↔ b.node = some node ∨ (∃ addr, b.requested = some addr ∧ addr.node = node)
      ∨ (∃ addr, b.current = some addr ∧ addr.node = node) ∨ ∃ addr ∈ b.back, addr.node = node := by
  simp only [nodes, aims, List.mem_append, Option.mem_toList, Option.map_eq_some_iff, List.mem_map,
    or_assoc]

theorem BrowserState.mem_nodes_requested {b b' : BrowserState} {node : TruncatedHash}
    (there : node ∈ b'.nodes) (fetched : b'.node = b.node) (current : b'.current = b.current)
    (back : b'.back = b.back) :
    node ∈ b.nodes ∨ ∃ addr, b'.requested = some addr ∧ addr.node = node := by
  rw [mem_nodes, fetched, current, back] at there
  rw [mem_nodes]
  rcases there with same | asked | shown | before
  · exact .inl (.inl same)
  · exact .inr asked
  · exact .inl (.inr (.inr (.inl shown)))
  · exact .inl (.inr (.inr (.inr before)))

/--
A change that asks for no link, says nowhere who we are, and takes up no link and no node.

Links, events and nodes may only be lost.
-/
structure Client.Wanes (c c' : Client) : Prop where
  heading : ∀ {lid target}, c'.transport.Heading lid target → c.transport.Heading lid target
  events : ∀ {event}, event ∈ c'.events → event ∈ c.events
  linkRequests : c'.linkRequests = c.linkRequests
  identified : c'.identified = c.identified
  syncLink : ∀ {lid}, c'.sync.linkId = some lid → c.sync.linkId = some lid
  browserLink : ∀ {lid}, c'.browser.linkId = some lid → c.browser.linkId = some lid
  nodes : ∀ {node}, node ∈ c'.browser.nodes → node ∈ c.browser.nodes

namespace Client.Wanes

variable {c c' c'' : Client}

theorem refl (c : Client) : Wanes c c := ⟨id, id, rfl, rfl, id, id, id⟩

theorem trans (first : Wanes c c') (second : Wanes c' c'') : Wanes c c'' where
  heading heads := first.heading (second.heading heads)
  events there := first.events (second.events there)
  linkRequests := second.linkRequests.trans first.linkRequests
  identified := second.identified.trans first.identified
  syncLink held := first.syncLink (second.syncLink held)
  browserLink held := first.browserLink (second.browserLink held)
  nodes there := first.nodes (second.nodes there)

theorem of_loses (c : Client) {t : Transport} (loses : c.transport.Loses t) :
    Wanes c { c with transport := t } :=
  ⟨loses.heading, id, rfl, rfl, id, id, id⟩

theorem dropLink (c : Client) (link : Option TruncatedHash) : Wanes c (c.dropLink link) := by
  cases link with
  | none => exact refl c
  | some lid => exact of_loses c (Transport.loses_removeOutLinks c.transport [lid])

theorem sendRequest (cfg : ClientConfig) (c : Client) (who : Purpose) (lid : TruncatedHash)
    (asked : Asked) (iv : Iv) : Wanes c (c.sendRequest cfg who lid asked iv).1 where
  heading := id
  events := id
  linkRequests := by simp [Client.linkRequests, Client.sendRequest, Emission.linkRequest?]
  identified := by simp [Client.identified, Client.sendRequest, Emission.identify?]
  syncLink := id
  browserLink := id
  nodes := id

theorem sync (c : Client) (s : SyncState)
    (fewer : ∀ {lid}, s.linkId = some lid → c.sync.linkId = some lid) :
    Wanes c { c with sync := s } :=
  ⟨id, id, rfl, rfl, fewer, id, id⟩

theorem withBrowser (wanes : Wanes c c') (b : BrowserState)
    (link : ∀ {lid}, b.linkId = some lid → c.browser.linkId = some lid)
    (nodes : ∀ {node}, node ∈ b.nodes → node ∈ c.browser.nodes) :
    Wanes c { c' with browser := b } :=
  ⟨wanes.heading, wanes.events, wanes.linkRequests, wanes.identified, wanes.syncLink, link, nodes⟩

theorem browser (c : Client) (b : BrowserState)
    (link : ∀ {lid}, b.linkId = some lid → c.browser.linkId = some lid)
    (nodes : ∀ {node}, node ∈ b.nodes → node ∈ c.browser.nodes) :
    Wanes c { c with browser := b } :=
  (refl c).withBrowser b link nodes

theorem inbox (c : Client) (i : Inbox) (r : Table TruncatedHash ResourceReceiver) :
    Wanes c { c with inbox := i, inResources := r } :=
  ⟨id, id, rfl, rfl, id, id, id⟩

end Client.Wanes

namespace BrowserState

variable {b : BrowserState} {node : TruncatedHash}

theorem nodes_reset (there : node ∈ b.reset.nodes) : node ∈ b.nodes := by
  rw [mem_nodes] at there ⊢
  rcases there with none | ⟨addr, none, -⟩ | current | back
  · cases none
  · cases none
  · exact .inr (.inr (.inl current))
  · exact .inr (.inr (.inr back))

theorem pushed_fields (b : BrowserState) :
    b.pushed.requested = b.requested ∧ b.pushed.linkId = b.linkId
      ∧ ∀ addr ∈ b.pushed.back, addr ∈ b.back ∨ b.current = some addr := by
  rw [pushed]
  split
  case isFalse => exact ⟨rfl, rfl, fun _ => .inl⟩
  case isTrue =>
    cases b.current with
    | none => exact ⟨rfl, rfl, fun _ => .inl⟩
    | some prev =>
      refine ⟨rfl, rfl, fun addr there => ?_⟩
      -- The oldest page may fall off the stack.
      have kept : addr ∈ b.back ++ [prev] := by
        dsimp only at there
        split at there
        · exact List.mem_of_mem_drop there
        · exact there
      simpa [eq_comm] using kept

theorem popped_fields (b : BrowserState) :
    b.popped.requested = b.requested ∧ b.popped.linkId = b.linkId
      ∧ ∀ addr ∈ b.popped.back, addr ∈ b.back := by
  rw [popped]
  split
  · exact ⟨rfl, rfl, fun _ there => (List.dropLast_sublist b.back).subset there⟩
  · exact ⟨rfl, rfl, fun _ => id⟩

theorem shown_linkId (b : BrowserState) (node : TruncatedHash) :
    (b.shown node).linkId = b.linkId :=
  (popped_fields b.pushed).2.1.trans (pushed_fields b).2.1

theorem nodes_shown (fetched : b.node = some node) {other : TruncatedHash}
    (there : other ∈ (b.shown node).nodes) : other ∈ b.nodes := by
  obtain ⟨popRequested, -, popBack⟩ := popped_fields b.pushed
  obtain ⟨pushRequested, -, pushBack⟩ := pushed_fields b
  rw [mem_nodes] at there ⊢
  rcases there with none | ⟨addr, same, rfl⟩ | ⟨addr, same, rfl⟩ | ⟨addr, back, rfl⟩
  · cases none
  · -- What was asked for meanwhile is still asked for.
    exact .inr (.inl ⟨addr, pushRequested ▸ popRequested ▸ same, rfl⟩)
  · cases same
    exact .inl fetched
  · -- The stack holds earlier pages and at most the one that was shown.
    rcases pushBack addr (popBack addr back) with earlier | shown
    · exact .inr (.inr (.inr ⟨addr, earlier, rfl⟩))
    · exact .inr (.inr (.inl ⟨addr, shown, rfl⟩))

end BrowserState

namespace Client

variable (cfg : ClientConfig) (c : Client)

theorem wanes_syncFinish : Wanes c c.syncFinish :=
  (Wanes.sync c c.sync.ended fun held => nomatch held).trans (.dropLink _ _)

theorem wanes_syncDefer : Wanes c c.syncDefer := by
  have counted : Wanes c
      { c with sync := { c.sync with routeTries := countTry c.sync.routeTries } } := .sync c _ id
  rw [syncDefer]
  dsimp only
  split
  · exact counted.trans (.sync _ _ id)
  · exact counted.trans (wanes_syncFinish _)

theorem wanes_syncListed (lid : TruncatedHash) (ids : List Value) (d : ClientDraw) :
    Wanes c (c.syncListed cfg lid ids d) := by
  rw [syncListed]
  split
  · exact wanes_syncFinish c
  · exact (Wanes.sendRequest cfg c _ _ _ _).trans (.sync _ _ id)

theorem wanes_syncDownloaded (lid : TruncatedHash) (blobs : List Bytes) (d : ClientDraw) :
    Wanes c (c.syncDownloaded cfg lid blobs d) := by
  rw [syncDownloaded]
  split
  case h_1 inbox delivered => exact .inbox c inbox _
  case h_2 inbox outcomes delivered =>
    refine (Wanes.inbox c inbox c.inResources).trans (.trans ?_ (wanes_syncFinish _))
    split
    · exact .refl _
    · exact .sendRequest cfg _ _ _ _ _

theorem wanes_syncAnswered (lid : TruncatedHash) (payload : Bytes) (d : ClientDraw) :
    Wanes c (c.syncAnswered cfg lid payload d) := by
  rw [syncAnswered]
  split
  case h_2 => exact .refl c
  case h_1 response read =>
    rw [handleSyncResponse.eq_def]
    split
    case h_1 => exact wanes_syncFinish c
    case h_2 =>
      dsimp only
      split
      · exact wanes_syncListed cfg c lid _ d
      · exact wanes_syncDownloaded cfg c lid _ d
      · exact .refl c

theorem wanes_syncOnOutlinkData (lid : TruncatedHash) (context : UInt8) (plaintext : Bytes)
    (d : ClientDraw) : Wanes c (c.syncOnOutlinkData cfg lid context plaintext d) := by
  rw [syncOnOutlinkData]
  split
  case isTrue => exact .refl c
  case isFalse =>
    split
    case isTrue => exact wanes_syncAnswered cfg c lid plaintext d
    case isFalse =>
      split
      · exact .sync c _ id
      · exact (Wanes.sync c { c.sync with receiver := none } id).trans
          (wanes_syncAnswered cfg _ lid _ d)
      · exact wanes_syncFinish c
      · exact wanes_syncFinish c
      · exact .refl c

theorem wanes_browserFinish : Wanes c c.browserFinish :=
  (Wanes.browser c c.browser.reset (fun held => nomatch held) BrowserState.nodes_reset).trans
    (.dropLink _ _)

theorem wanes_browserSuspend : Wanes c c.browserSuspend :=
  (Wanes.browser c { c.browser.reset with viewing := false } (fun held => nomatch held)
    fun there => BrowserState.nodes_reset (b := c.browser) there).trans (.dropLink _ _)

theorem wanes_browserResume (parked : Bool) : Wanes c (c.browserResume parked) := by
  rw [browserResume]
  split
  · exact .refl c
  · split
    · refine .browser c _ id fun there => ?_
      rw [BrowserState.mem_nodes] at there ⊢
      rcases there with fetched | requested | ⟨addr, none, -⟩ | ⟨addr, none, -⟩
      · exact .inl fetched
      · exact .inr (.inl requested)
      · cases none
      · cases none
    · exact .browser c _ id id

theorem wanes_takeRequest :
    Wanes c { c with browser := { c.browser with requested := none } } := by
  refine .browser c _ id fun there => ?_
  rcases BrowserState.mem_nodes_requested (b := c.browser) there rfl rfl rfl with
    before | ⟨_, none, -⟩
  · exact before
  · cases none

theorem wanes_requestPage {addr : PageAddr} (been : addr.node ∈ c.browser.nodes)
    (pushBack : Bool) : Wanes c (c.requestPage addr pushBack).1 := by
  rw [requestPage]
  split
  · exact .refl c
  · refine .browser c _ id fun there => ?_
    rcases BrowserState.mem_nodes_requested (b := c.browser) there rfl rfl rfl with
      before | ⟨_, same, rfl⟩
    · exact before
    · cases same
      exact been

theorem wanes_browserBack : Wanes c c.browserBack := by
  rw [browserBack]
  split
  case h_1 => exact .refl c
  case h_2 prev last =>
    have been : prev.node ∈ c.browser.nodes :=
      BrowserState.mem_nodes.mpr
        (.inr (.inr (.inr ⟨prev, List.mem_of_getLast? last, rfl⟩)))
    have asks := wanes_requestPage c been false
    generalize c.requestPage prev false = result at asks
    obtain ⟨c', taken⟩ := result
    cases taken with
    | true => exact asks.trans (.browser c' _ id id)
    | false => exact asks

theorem wanes_browserSendRequest (node lid : TruncatedHash) (d : ClientDraw) :
    Wanes c (c.browserSendRequest cfg node lid d) := by
  have begins : Wanes c { c with browser := { c.browser with phase := .fetching } } :=
    .browser c _ id id
  rw [browserSendRequest]
  dsimp only
  have sends := Wanes.sendRequest cfg { c with browser := { c.browser with phase := .fetching } }
    .browser lid (.page ⟨node, c.browser.path, c.browser.vars⟩) d.pageIv
  split
  case h_1 c' made =>
    rw [made] at sends
    split
    · exact begins.trans sends
    · exact (begins.trans sends).trans (wanes_browserFinish c')
  case h_2 c' gone =>
    rw [gone] at sends
    exact (begins.trans sends).trans (wanes_browserFinish c')

theorem wanes_browserDefer {c' : Client} (wanes : Wanes c c') {addr : PageAddr}
    (been : addr.node ∈ c.browser.nodes) : Wanes c (c'.browserDefer addr) := by
  have counted : Wanes c'
      { c' with browser := { c'.browser with routeTries := countTry c'.browser.routeTries } } :=
    .browser c' _ id id
  rw [browserDefer]
  dsimp only
  split
  · refine wanes.withBrowser _ wanes.browserLink fun there => ?_
    rcases BrowserState.mem_nodes_requested (b := c'.browser) there rfl rfl rfl with
      before | ⟨_, same, rfl⟩
    · exact wanes.nodes before
    · cases same
      exact been
  · exact (wanes.trans counted).trans (wanes_browserFinish _)

theorem wanes_browserAnswered (payload : Bytes) : Wanes c (c.browserAnswered payload) := by
  have shows_ : ∀ node, c.browser.node = some node →
      Wanes c { c with browser := c.browser.shown node } := fun node fetched =>
    .browser c _ (fun held => (BrowserState.shown_linkId c.browser node).symm.trans held)
      (BrowserState.nodes_shown fetched)
  rw [browserAnswered]
  split
  case h_2 => exact .refl c
  case h_1 response read =>
    rw [pageReceived.eq_def]
    split
    case h_3 => exact wanes_browserFinish c
    all_goals
      split
      case h_1 => exact .refl c
      case h_2 node fetched => exact shows_ node fetched

theorem wanes_browserOnOutlinkData (lid : TruncatedHash) (context : UInt8) (plaintext : Bytes) :
    Wanes c (c.browserOnOutlinkData cfg lid context plaintext) := by
  rw [browserOnOutlinkData]
  split
  case isTrue => exact .refl c
  case isFalse =>
    have later : Wanes c
        { c with browser := { c.browser with deadline := c.clock + PAGE_DEADLINE_SECS } } :=
      .browser c _ id id
    refine later.trans ?_
    dsimp only
    split
    case isTrue => exact wanes_browserAnswered _ plaintext
    case isFalse =>
      split
      · exact .browser _ _ id id
      · refine .trans (.browser _ { c.browser with
          receiver := none, deadline := c.clock + PAGE_DEADLINE_SECS } id id) ?_
        exact wanes_browserAnswered _ _
      · exact wanes_browserFinish _
      · exact wanes_browserFinish _
      · exact .refl _

theorem wanes_receiveMessage (decrypt : Bytes → Option Bytes) (lid : TruncatedHash)
    (context : UInt8) (plaintext : Bytes) :
    Wanes c (c.receiveMessage cfg decrypt lid context plaintext) := by
  rw [receiveMessage]
  split <;> exact .inbox c _ _

theorem wanes_outLinkClosed (lid : TruncatedHash) : Wanes c (c.outLinkClosed lid) := by
  rw [outLinkClosed]
  have synced : Wanes c
      (if c.sync.phase ≠ .idle ∧ c.sync.linkId = some lid then c.syncFinish else c) := by
    split
    · exact wanes_syncFinish c
    · exact .refl c
  dsimp only
  generalize (if c.sync.phase ≠ .idle ∧ c.sync.linkId = some lid then c.syncFinish else c) = c'
    at synced ⊢
  refine synced.trans ?_
  split
  · exact .refl c'
  · split
    · exact wanes_browserFinish c'
    · exact .browser c' { c'.browser with linkId := none } (fun held => nomatch held) id

theorem wanes_reconnected : Wanes c c.reconnected := by
  rw [reconnected]
  have reset : Wanes c
      { c with transport := c.transport.connectionReset, inResources := ∅ } :=
    (Wanes.of_loses c (Transport.loses_connectionReset c.transport)).trans (.inbox _ _ _)
  refine reset.trans ?_
  generalize { c with transport := c.transport.connectionReset, inResources := ∅ } = c₁
  have synced : Wanes c₁ (if c₁.sync.phase ≠ .idle then c₁.syncFinish else c₁) := by
    split
    · exact wanes_syncFinish c₁
    · exact .refl c₁
  dsimp only
  generalize (if c₁.sync.phase ≠ .idle then c₁.syncFinish else c₁) = c₂ at synced ⊢
  refine synced.trans ?_
  split
  · exact wanes_browserFinish c₂
  · exact .browser c₂ { c₂.browser with linkId := none } (fun held => nomatch held) id

end Client

end LxmfChat
