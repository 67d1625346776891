import LxmfChat.App.Links

/-! Everything a step does with links, and what therefore holds of them in every run. -/

namespace LxmfChat

open Base Relation

namespace Client

variable (cfg : ClientConfig)

/-- The destination an action may ask a link to, and for whom. -/
inductive Asks (c : Client) : ClientAction → Purpose → TruncatedHash → ClientDraw → Prop
  | sync {pn : TruncatedHash} {d : ClientDraw} (node : cfg.propagationNode = some pn) :
      Asks c (.syncTick d) .sync pn d
  | browser {node : TruncatedHash} {d : ClientDraw} (aims : node ∈ c.browser.aims) :
      Asks c (.browserTick d) .browser node d
  | outbox {target : TruncatedHash} {identity : PublicIdentity} {d : ClientDraw} :
      Asks c (.outboxLink target identity d) .outbox target d

/-- In the middle of an action that began in one state, the link is known to lead somewhere. -/
def Leads (c₀ c : Client) (lid target : TruncatedHash) : Prop :=
  c.transport.Heading lid target
    ∨ .outboundLinkUp lid target ∈ c₀.events ∧ c.linkRequests = c₀.linkRequests

/-- One thing done on the way, in an action that began in the given state. -/
inductive Doing (c₀ : Client) (a : ClientAction) : Client → Client → Prop
  | wane {c c' : Client} (wanes : Wanes c c') : Doing c₀ a c c'
  /-- A link is asked for, unless one is pending or open. -/
  | ask {c : Client} {who : Purpose} {target : TruncatedHash} {d : ClientDraw}
      (identity : PublicIdentity) (asks : c₀.Asks cfg a who target d)
      (first : c.linkRequests = c₀.linkRequests) :
      Doing c₀ a c (c.requestLink cfg who target identity d).1
  /-- The sync takes up a link to the propagation node. -/
  | sync {c : Client} (s : SyncState) {lid pn : TruncatedHash}
      (node : cfg.propagationNode = some pn) (link : s.linkId = some lid)
      (leads : Leads c₀ c lid pn) : Doing c₀ a c { c with sync := s }
  /-- The browser takes up a link to a node it fetches from. -/
  | browse {c : Client} (b : BrowserState) {lid target : TruncatedHash}
      (link : b.linkId = some lid) (aims : target ∈ c₀.browser.nodes)
      (nodes : ∀ {node}, node ∈ b.nodes → node ∈ c.browser.nodes)
      (leads : Leads c₀ c lid target) : Doing c₀ a c { c with browser := b }
  /-- The sync says who we are. -/
  | tellNode {c : Client} (lid : TruncatedHash) {pn : TruncatedHash} (iv : Iv)
      (node : cfg.propagationNode = some pn) (leads : Leads c₀ c lid pn) :
      Doing c₀ a c (c.identify cfg lid iv)
  /-- We say who we are on a link that just came up, to nobody the browser fetches from. -/
  | tellPeer {c : Client} {index : Nat} {d : ClientDraw} {lid target : TruncatedHash} (iv : Iv)
      (handles : a = .handle index d)
      (up : c₀.events[index]? = some (.outboundLinkUp lid target))
      (peer : cfg.propagationNode ≠ some target) (unseen : c₀.browser.targets target = false)
      (first : c.linkRequests = c₀.linkRequests) : Doing c₀ a c (c.identify cfg lid iv)

variable {cfg} {c₀ : Client} {a : ClientAction}

theorem linkRequests_identify (c : Client) (lid : TruncatedHash) (iv : Iv) :
    (c.identify cfg lid iv).linkRequests = c.linkRequests := by
  rw [identify]
  split
  · simp [linkRequests, Emission.linkRequest?]
  · rfl

theorem identify_fields (c : Client) (lid : TruncatedHash) (iv : Iv) :
    (c.identify cfg lid iv).transport = c.transport
      ∧ (c.identify cfg lid iv).sync = c.sync
      ∧ (c.identify cfg lid iv).browser = c.browser
      ∧ (c.identify cfg lid iv).events = c.events := by
  rw [identify]
  split <;> exact ⟨rfl, rfl, rfl, rfl⟩

/-- Something is done in the middle of an action. -/
abbrev Does (cfg : ClientConfig) (c₀ : Client) (a : ClientAction) : Client → Client → Prop :=
  ReflTransGen (Doing cfg c₀ a)

theorem does_syncSendIdentifyAndList {c : Client} {lid pn : TruncatedHash}
    (node : cfg.propagationNode = some pn) (leads : Leads c₀ c lid pn) (d : ClientDraw) :
    Does cfg c₀ a c (c.syncSendIdentifyAndList cfg lid d) := by
  rw [syncSendIdentifyAndList]
  refine .head (.wane (.sync c { c.sync with phase := .listRequested } id)) ?_
  refine .head (.tellNode lid d.identifyIv node leads) ?_
  exact .single (.wane (.sendRequest cfg _ _ _ _ _))

theorem does_syncConnect {c : Client} {pn : TruncatedHash} {d : ClientDraw}
    (node : cfg.propagationNode = some pn) (first : c.linkRequests = c₀.linkRequests)
    (ticks : a = .syncTick d) (identity : PublicIdentity) :
    Does cfg c₀ a c (c.syncConnect cfg pn identity d) := by
  subst ticks
  rw [syncConnect]
  refine .head (.wane (.sync c (c.sync.begun (c.clock + SYNC_DEADLINE_SECS))
    fun held => nomatch held)) ?_
  dsimp only
  have looks := Transport.loses_outboundLinkFor c.transport pn c.clock
  split
  case h_1 t lid found =>
    -- There is an open link, and it leads to the node.
    rw [found] at looks
    have leads : Transport.Heading t lid pn := .inr (Transport.openTo_of_outboundLinkFor found)
    refine .head (.wane (.of_loses _ looks)) ?_
    refine .head (.sync { c.sync.begun (c.clock + SYNC_DEADLINE_SECS) with linkId := some lid } node
      rfl (.inl leads)) ?_
    exact does_syncSendIdentifyAndList node (.inl leads) d
  case h_2 t absent =>
    rw [absent] at looks
    refine .head (.wane (.of_loses _ looks)) ?_
    refine .head (.ask identity (.sync node) first) ?_
    split
    case h_1 c' failed =>
      rw [failed]
      exact .single (.wane (wanes_syncFinish c'))
    case h_2 c' outcome notFailed made =>
      rw [made]
      exact .single (.wane (.sync c' _ id))

theorem does_startSync {c : Client} {d : ClientDraw} (first : c.linkRequests = c₀.linkRequests)
    (ticks : a = .syncTick d) : Does cfg c₀ a c (c.startSync cfg d) := by
  rw [startSync]
  split
  case h_1 => exact .refl
  case h_2 pn node =>
    split
    case isTrue => exact .refl
    case isFalse =>
      split
      case isTrue => exact .single (.wane (wanes_syncDefer c))
      case isFalse =>
        split
        · exact does_syncConnect node first ticks _
        · exact .single (.wane (wanes_syncDefer c))

theorem does_maybeAutoSync (c : Client) (d : ClientDraw) :
    Does cfg c (.syncTick d) c (c.maybeAutoSync cfg d) := by
  rw [maybeAutoSync]
  split
  case h_1 => exact .single (.wane (.sync c _ id))
  case h_2 pn node =>
    split
    case isTrue =>
      -- The sync has timed out.
      dsimp only
      have loses : c.transport.Loses
          (if c.sync.phase = .linking then (c.transport.expirePath pn).1 else c.transport) := by
        split
        · exact (Transport.untouched_expirePath c.transport pn).loses
        · exact Transport.Untouched.loses ⟨rfl, rfl, rfl, rfl, rfl, rfl⟩
      exact .head (.wane (.of_loses c loses)) (.single (.wane (wanes_syncFinish _)))
    case isFalse =>
      split
      case isTrue =>
        rw [syncRelink]
        split
        case h_1 => exact .refl
        case h_2 known _ =>
          refine .head (.ask known.identity (.sync node) rfl) ?_
          split
          all_goals
            rename_i c' outcome
            rw [outcome]
          · exact .single (.wane (.sync c' _ id))
          · exact .single (.wane (wanes_syncFinish c'))
      case isFalse =>
        -- A sync is started if one was asked for, or once in any case.
        split
        case isTrue =>
          refine .head (.wane (.sync c { c.sync with requested := false } id)) ?_
          exact does_startSync rfl rfl
        case isFalse =>
          split
          case isTrue => exact .refl
          case isFalse =>
            split
            case isTrue =>
              refine .head (.wane (.sync c { c.sync with autoDone := true } id)) ?_
              exact does_startSync rfl rfl
            case isFalse =>
              split
              · exact .single (.wane (.sync c _ id))
              · exact .refl

theorem does_browserConnect {c : Client} {addr : PageAddr} {d : ClientDraw}
    (aims : addr.node ∈ c₀.browser.aims) (wanes : Wanes c₀ c) (ticks : a = .browserTick d)
    (identity : PublicIdentity) : Does cfg c₀ a c₀ (c.browserConnect cfg addr identity d) := by
  subst ticks
  have been : addr.node ∈ c₀.browser.nodes := by
    rw [BrowserState.nodes, List.append_assoc]
    exact List.mem_append_left _ aims
  rw [browserConnect]
  dsimp only
  generalize c.clock + PAGE_DEADLINE_SECS + 12 * max ((c.transport.pathHops addr.node).getD 1).toNat
    1 = deadline
  -- The node of the fetch is one that was asked for.
  have begins : Wanes c₀ { c with browser := c.browser.begun addr deadline } := by
    refine wanes.withBrowser _ (by rintro _ ⟨⟩) fun there => ?_
    rw [BrowserState.mem_nodes] at there
    rcases there with same | requested | current | back
    · cases same
      exact been
    · exact wanes.nodes (BrowserState.mem_nodes.mpr (.inr (.inl requested)))
    · exact wanes.nodes (BrowserState.mem_nodes.mpr (.inr (.inr (.inl current))))
    · exact wanes.nodes (BrowserState.mem_nodes.mpr (.inr (.inr (.inr back))))
  refine .head (.wane begins) ?_
  have looks := Transport.loses_outboundLinkFor c.transport addr.node c.clock
  split
  case h_1 t lid found =>
    -- There is an open link, and it leads to the node.
    rw [found] at looks
    refine .head (.wane (.of_loses _ looks)) ?_
    refine .head (.browse { c.browser.begun addr deadline with linkId := some lid } rfl been id
      (.inl (.inr (Transport.openTo_of_outboundLinkFor found)))) ?_
    exact .single (.wane (wanes_browserSendRequest cfg _ _ lid d))
  case h_2 t absent =>
    rw [absent] at looks
    refine .head (.wane (.of_loses _ looks)) ?_
    refine .head (.ask identity (.browser aims) begins.linkRequests) ?_
    split
    case h_1 c' failed =>
      rw [failed]
      exact .single (.wane (wanes_browserFinish c'))
    case h_2 c' outcome notFailed made =>
      rw [made]
      exact .single (.wane (.browser c' _ id id))

theorem does_browserTick (c : Client) (d : ClientDraw) :
    Does cfg c (.browserTick d) c (c.browserTick cfg d) := by
  rw [browserTick]
  generalize linking : (if c.browser.phase = .linking then c.browser.node else none) = node?
  dsimp only
  split
  case isTrue =>
    -- The fetch has timed out.
    cases node? with
    | some node =>
      refine .head (.wane (.of_loses c (Transport.untouched_expirePath c.transport node).loses)) ?_
      exact .single (.wane (wanes_browserFinish _))
    | none => exact .single (.wane (wanes_browserFinish c))
  case isFalse =>
    cases node? with
    | some node =>
      have aims : node ∈ c.browser.aims := by
        split at linking
        · rw [BrowserState.aims, linking]
          exact List.mem_append_left _ (List.mem_singleton_self node)
        · cases linking
      dsimp only
      rw [browserRelink]
      split
      case h_1 => exact .refl
      case h_2 known _ =>
        refine .head (.ask known.identity (.browser aims) rfl) ?_
        split
        all_goals
          rename_i c' outcome
          rw [outcome]
        · exact .single (.wane (.browser c' _ id id))
        · exact .single (.wane (wanes_browserFinish c'))
    | none =>
      dsimp only
      split
      case isFalse => exact .refl
      case isTrue =>
        split
        case h_2 => exact .refl
        case h_1 addr requested =>
          have aims : addr.node ∈ c.browser.aims := by
            rw [BrowserState.aims, requested]
            exact List.mem_append_right _ (List.mem_singleton_self addr.node)
          have been : addr.node ∈ c.browser.nodes :=
            BrowserState.mem_nodes.mpr (.inr (.inl ⟨addr, requested, rfl⟩))
          -- The request is taken, and put back if nothing comes of it yet.
          have taken := wanes_takeRequest c
          rw [startFetch]
          split
          case isTrue => exact .single (.wane (wanes_browserDefer c taken been))
          case isFalse =>
            split
            · exact does_browserConnect aims taken rfl _
            · exact .single (.wane (wanes_browserDefer c taken been))

theorem does_outboundLinkUp {c c₀ : Client} {index : Nat} {d : ClientDraw}
    {lid target : TruncatedHash} (up : c₀.events[index]? = some (.outboundLinkUp lid target))
    (wanes : Wanes c₀ c) (same : c.browser = c₀.browser) :
    Does cfg c₀ (.handle index d) c (c.outboundLinkUp cfg lid target d) := by
  have reported : Event.outboundLinkUp lid target ∈ c₀.events := List.mem_of_getElem? up
  rw [outboundLinkUp]
  -- First the peer is told, then the sync goes on, then the browser.
  have told : Does cfg c₀ (.handle index d) c
      (if cfg.propagationNode ≠ some target ∧ !c.browser.targets target then
        c.identify cfg lid d.identifyIv else c) := by
    split
    case isTrue peer =>
      refine .single (.tellPeer d.identifyIv rfl up peer.1 ?_ wanes.linkRequests)
      rw [← same]
      simpa using peer.2
    case isFalse => exact .refl
  have kept : (if cfg.propagationNode ≠ some target ∧ !c.browser.targets target then
        c.identify cfg lid d.identifyIv else c).linkRequests = c₀.linkRequests
      ∧ (if cfg.propagationNode ≠ some target ∧ !c.browser.targets target then
        c.identify cfg lid d.identifyIv else c).browser = c₀.browser := by
    split
    · exact ⟨(linkRequests_identify c lid _).trans wanes.linkRequests,
        (identify_fields c lid _).2.2.1.trans same⟩
    · exact ⟨wanes.linkRequests, same⟩
  refine told.trans ?_
  generalize (if cfg.propagationNode ≠ some target ∧ !c.browser.targets target then
    c.identify cfg lid d.identifyIv else c) = c₁ at kept ⊢
  obtain ⟨requests, browser⟩ := kept
  have leads : Leads c₀ c₁ lid target := .inr ⟨reported, requests⟩
  have synced : Does cfg c₀ (.handle index d) c₁ (c₁.syncOnLinkUp cfg lid target d) := by
    rw [syncOnLinkUp]
    split
    case isTrue waits =>
      refine .head (.sync { c₁.sync with linkId := some lid } waits.1 rfl leads) ?_
      apply does_syncSendIdentifyAndList waits.1
      exact .inr ⟨reported, requests⟩
    case isFalse => exact .refl
  have kept : (c₁.syncOnLinkUp cfg lid target d).linkRequests = c₀.linkRequests
      ∧ (c₁.syncOnLinkUp cfg lid target d).browser = c₀.browser := by
    rw [syncOnLinkUp]
    split
    · rw [syncSendIdentifyAndList, syncSendGet]
      refine ⟨?_, ?_⟩
      · rw [(Wanes.sendRequest cfg _ _ _ _ _).linkRequests, linkRequests_identify]
        exact requests
      · refine Eq.trans ?_ browser
        exact (identify_fields _ lid _).2.2.1
    · exact ⟨requests, browser⟩
  refine synced.trans ?_
  generalize c₁.syncOnLinkUp cfg lid target d = c₂ at kept ⊢
  obtain ⟨requests, browser⟩ := kept
  rw [browserOnLinkUp]
  split
  case isTrue waits =>
    have been : target ∈ c₀.browser.nodes := by
      rw [← browser]
      exact BrowserState.mem_nodes.mpr (.inl waits.2)
    refine .head (.browse { c₂.browser with linkId := some lid } rfl been id
      (.inr ⟨reported, requests⟩)) ?_
    exact .single (.wane (wanes_browserSendRequest cfg _ _ lid d))
  case isFalse => exact .refl

theorem does_handle (c : Client) (index : Nat) (d : ClientDraw) :
    Does cfg c (.handle index d) c (c.handle cfg index d) := by
  rw [handle]
  split
  case h_1 => exact .refl
  case h_2 event there =>
    have taken : Wanes c { c with events := c.events.eraseIdx index } :=
      ⟨id, List.mem_of_mem_eraseIdx, rfl, rfl, id, id, id⟩
    refine .head (.wane taken) ?_
    rw [handleEvent.eq_def]
    split
    case h_5 lid target => exact does_outboundLinkUp there taken rfl
    case h_6 lid context plaintext =>
      refine .single (.wane ?_)
      rw [outLinkData]
      split
      · exact .refl _
      · split
        · exact wanes_syncOnOutlinkData cfg _ lid context plaintext d
        · split
          · exact wanes_browserOnOutlinkData cfg _ lid context plaintext
          · exact wanes_receiveMessage cfg _ _ lid context plaintext
    case h_7 lid => exact .single (.wane (wanes_outLinkClosed _ lid))
    case h_3 lid context plaintext =>
      exact .single (.wane (wanes_receiveMessage cfg _ _ lid context plaintext))
    case h_8 => exact .refl
    all_goals exact .single (.wane (.inbox _ _ _))

theorem does_act {c : Client} {a : ClientAction} (enabled : Enabled a)
    (received : ∀ raw ephemeral iface, a ≠ .frame raw ephemeral iface)
    (asked : ∀ addr pushBack, a ≠ .requestPage addr pushBack) :
    Does cfg c a c (c.act cfg a) := by
  cases a with
  | tick time => exact .single (.wane ⟨id, id, rfl, rfl, id, id, id⟩)
  | frame raw ephemeral iface => exact absurd rfl (received raw ephemeral iface)
  | handle index d => exact does_handle c index d
  | syncTick d => exact does_maybeAutoSync c d
  | requestSync => exact .single (.wane (.sync c _ id))
  | browserTick d => exact does_browserTick c d
  | requestPage addr pushBack => exact absurd rfl (asked addr pushBack)
  | browserBack => exact .single (.wane (wanes_browserBack c))
  | browserSuspend => exact .single (.wane (wanes_browserSuspend c))
  | browserResume parked => exact .single (.wane (wanes_browserResume c parked))
  | outboxLink target identity d => exact .single (.ask identity .outbox rfl)
  | other op =>
    refine .single (.wane (.of_loses c ?_))
    rcases Transport.perform_cases c.transport op with loses | opens
    · exact loses
    · -- The calls that open links have actions of their own.
      generalize c.transport.perform cfg.crypto op = t at opens
      cases opens <;> exact enabled.elim
  | reconnect => exact .single (.wane (wanes_reconnected c))
  | setPeer peer => exact .single (.wane (.inbox c _ _))

/--
What is known about links.

Every link that is pending, open or just up was asked for, to one destination and by one client;
the sync's links lead to the propagation node, and the browser's never do.
-/
structure Traced (pn : Option TruncatedHash) (c : Client) : Prop where
  heading : ∀ {lid target}, c.transport.Heading lid target →
    ∃ who, (who, lid, target) ∈ c.linkRequests
  ups : ∀ {lid target}, .outboundLinkUp lid target ∈ c.events →
    ∃ who, (who, lid, target) ∈ c.linkRequests
  once : ∀ {r r'}, r ∈ c.linkRequests → r' ∈ c.linkRequests → r.2.1 = r'.2.1 → r = r'
  syncLink : ∀ {lid}, c.sync.linkId = some lid →
    ∃ who node, pn = some node ∧ (who, lid, node) ∈ c.linkRequests
  browserLink : ∀ {lid}, c.browser.linkId = some lid →
    ∃ who node, pn ≠ some node ∧ (who, lid, node) ∈ c.linkRequests
  nodes : ∀ {node}, node ∈ c.browser.nodes → pn ≠ some node
  browsed : ∀ {lid target}, (.browser, lid, target) ∈ c.linkRequests → pn ≠ some target
  told : ∀ {lid}, lid ∈ c.identified → ∃ who target, (who, lid, target) ∈ c.linkRequests

structure Separate (cfg : ClientConfig) (c : Client) (a : ClientAction) : Prop where
  /-- The keys drawn for a link give it an id of its own. -/
  fresh : ∀ {who target d}, c.Asks cfg a who target d →
    ∀ r ∈ c.linkRequests, r.2.1 ≠ d.linkTo cfg.crypto target
  /-- No page is fetched from the propagation node. -/
  elsewhere : ∀ {addr pushBack}, a = .requestPage addr pushBack →
    cfg.propagationNode ≠ some addr.node

namespace Traced

variable {pn : Option TruncatedHash} {c c' : Client}

theorem wanes (traced : Traced pn c) (wanes : Wanes c c') : Traced pn c' where
  heading heads := wanes.linkRequests ▸ traced.heading (wanes.heading heads)
  ups there := wanes.linkRequests ▸ traced.ups (wanes.events there)
  once := by
    rw [wanes.linkRequests]
    exact traced.once
  syncLink held := wanes.linkRequests ▸ traced.syncLink (wanes.syncLink held)
  browserLink held := wanes.linkRequests ▸ traced.browserLink (wanes.browserLink held)
  nodes there := traced.nodes (wanes.nodes there)
  browsed := by
    rw [wanes.linkRequests]
    exact traced.browsed
  told := by
    rw [wanes.identified, wanes.linkRequests]
    exact traced.told

theorem leads {c₀ : Client} (traced₀ : Traced pn c₀) (traced : Traced pn c)
    {lid target : TruncatedHash} (leads : Leads c₀ c lid target) :
    ∃ who, (who, lid, target) ∈ c.linkRequests := by
  rcases leads with heads | ⟨up, same⟩
  · exact traced.heading heads
  · rw [same]
    exact traced₀.ups up

end Traced

theorem requestLink_cases (c : Client) (who : Purpose) (target : TruncatedHash)
    (identity : PublicIdentity) (d : ClientDraw) :
    ((c.requestLink cfg who target identity d).1.linkRequests = c.linkRequests
      ∧ ∀ {lid target'}, (c.requestLink cfg who target identity d).1.transport.Heading lid target' →
        c.transport.Heading lid target')
    ∨ ((c.requestLink cfg who target identity d).1.linkRequests
        = c.linkRequests ++ [(who, d.linkTo cfg.crypto target, target)]
      ∧ ∀ {lid target'}, (c.requestLink cfg who target identity d).1.transport.Heading lid target' →
        c.transport.Heading lid target' ∨ lid = d.linkTo cfg.crypto target ∧ target' = target) := by
  have heads : ∀ {lid target'},
      (sendLinkRequest cfg.crypto c.transport target identity c.clock d.toDraw).1.Heading lid target' →
      _ := fun heads => heading_sendLinkRequest heads
  rw [requestLink]
  generalize sendLinkRequest cfg.crypto c.transport target identity c.clock d.toDraw = result
    at heads
  obtain ⟨t, outcome⟩ := result
  dsimp only at heads ⊢
  split
  case isTrue pending =>
    refine .inl ⟨rfl, fun after => ?_⟩
    rcases heads after with before | ⟨asked, -⟩
    · exact before
    · exact absurd pending asked
  case isFalse =>
    refine .inr ⟨by simp [linkRequests, Emission.linkRequest?, ClientDraw.linkTo], fun after => ?_⟩
    rcases heads after with before | ⟨-, same⟩
    · exact .inl before
    · exact .inr same

theorem requestLink_fields (c : Client) (who : Purpose) (target : TruncatedHash)
    (identity : PublicIdentity) (d : ClientDraw) :
    (c.requestLink cfg who target identity d).1.sync = c.sync
      ∧ (c.requestLink cfg who target identity d).1.browser = c.browser
      ∧ (c.requestLink cfg who target identity d).1.events = c.events
      ∧ (c.requestLink cfg who target identity d).1.identified = c.identified := by
  rw [requestLink]
  dsimp only
  split
  · exact ⟨rfl, rfl, rfl, rfl⟩
  · exact ⟨rfl, rfl, rfl, by simp [identified, Emission.identify?]⟩

theorem Traced.identify {pn : Option TruncatedHash} {c : Client} (traced : Traced pn c)
    {lid : TruncatedHash} (asked : ∃ who target, (who, lid, target) ∈ c.linkRequests) (iv : Iv) :
    Traced pn (c.identify cfg lid iv) := by
  have requests := @linkRequests_identify cfg c lid iv
  obtain ⟨transport, sync, browser, events⟩ := @identify_fields cfg c lid iv
  refine ⟨?_, ?_, ?_, ?_, ?_, ?_, ?_, ?_⟩
  case refine_8 =>
    intro other there
    rw [requests]
    rw [Client.identify] at there
    split at there
    · -- The only link that is new on the list is the one we just spoke on.
      rw [identified, List.filterMap_append, List.mem_append] at there
      rcases there with before | new
      · exact traced.told before
      · simp only [List.filterMap_cons, Emission.identify?, List.filterMap_nil,
          List.mem_singleton] at new
        exact new ▸ asked
    · exact traced.told there
  all_goals simp only [requests, transport, sync, browser, events]
  · exact traced.heading
  · exact traced.ups
  · exact traced.once
  · exact traced.syncLink
  · exact traced.browserLink
  · exact traced.nodes
  · exact traced.browsed

theorem Traced.requestLink {c : Client} (traced : Traced cfg.propagationNode c) {who : Purpose}
    {target : TruncatedHash} {d : ClientDraw}
    (fresh : ∀ r ∈ c.linkRequests, r.2.1 ≠ d.linkTo cfg.crypto target)
    (elsewhere : who = .browser → cfg.propagationNode ≠ some target) (identity : PublicIdentity) :
    Traced cfg.propagationNode (c.requestLink cfg who target identity d).1 := by
  obtain ⟨sync, browser, events, identified⟩ := @requestLink_fields cfg c who target identity d
  rcases @requestLink_cases cfg c who target identity d with ⟨same, heads⟩ | ⟨more, heads⟩
  · -- A link was pending or open already.
    exact traced.wanes ⟨heads, fun there => events ▸ there, same, identified,
      fun held => sync ▸ held, fun held => browser ▸ held, fun there => browser ▸ there⟩
  · have old : ∀ {r}, r ∈ c.linkRequests →
        r ∈ (c.requestLink cfg who target identity d).1.linkRequests := fun there => by
      rw [more]
      exact List.mem_append_left _ there
    have new : ∀ {r}, r ∈ (c.requestLink cfg who target identity d).1.linkRequests →
        r ∈ c.linkRequests ∨ r = (who, d.linkTo cfg.crypto target, target) := fun there => by
      rw [more, List.mem_append, List.mem_singleton] at there
      exact there
    refine ⟨fun after => ?_, fun there => ?_, fun one two same => ?_, fun held => ?_,
      fun held => ?_, fun there => ?_, fun there => ?_, fun there => ?_⟩
    · rcases heads after with before | ⟨rfl, rfl⟩
      · obtain ⟨asker, there⟩ := traced.heading before
        exact ⟨asker, old there⟩
      · refine ⟨who, ?_⟩
        rw [more]
        exact List.mem_append_right _ (List.mem_singleton_self _)
    · obtain ⟨asker, there⟩ := traced.ups (events ▸ there)
      exact ⟨asker, old there⟩
    · -- The new id is no other link's.
      rcases new one with one | rfl <;> rcases new two with two | rfl
      · exact traced.once one two same
      · exact absurd same (fresh _ one)
      · exact absurd same.symm (fresh _ two)
      · rfl
    · obtain ⟨asker, node, leads, there⟩ := traced.syncLink (sync ▸ held)
      exact ⟨asker, node, leads, old there⟩
    · obtain ⟨asker, node, leads, there⟩ := traced.browserLink (browser ▸ held)
      exact ⟨asker, node, leads, old there⟩
    · exact traced.nodes (browser ▸ there)
    · rcases new there with there | same
      · exact traced.browsed there
      · cases same
        exact elsewhere rfl
    · obtain ⟨asker, node, there⟩ := traced.told (identified ▸ there)
      exact ⟨asker, node, old there⟩

theorem traced_doing {c c' : Client} (separate : Separate cfg c₀ a)
    (traced₀ : Traced cfg.propagationNode c₀) (traced : Traced cfg.propagationNode c)
    (doing : Doing cfg c₀ a c c') : Traced cfg.propagationNode c' := by
  cases doing with
  | wane wanes => exact traced.wanes wanes
  | ask identity asks first =>
    refine traced.requestLink (first ▸ separate.fresh asks) (fun browser => ?_) identity
    -- Only the browser's links must lead away from the node.
    cases asks with
    | browser aims =>
      refine traced₀.nodes ?_
      rw [BrowserState.nodes, List.append_assoc]
      exact List.mem_append_left _ aims
    | sync node => cases browser
    | outbox => cases browser
  | sync s node link leads =>
    obtain ⟨who, there⟩ := traced₀.leads traced leads
    refine ⟨traced.heading, traced.ups, traced.once, fun held => ?_, traced.browserLink,
      traced.nodes, traced.browsed, traced.told⟩
    cases link.symm.trans held
    exact ⟨who, _, node, there⟩
  | browse b link aims nodes leads =>
    obtain ⟨who, there⟩ := traced₀.leads traced leads
    refine ⟨traced.heading, traced.ups, traced.once, traced.syncLink, fun held => ?_,
      fun there => traced.nodes (nodes there), traced.browsed, traced.told⟩
    cases link.symm.trans held
    exact ⟨who, _, traced₀.nodes aims, there⟩
  | tellNode lid iv node leads =>
    obtain ⟨who, there⟩ := traced₀.leads traced leads
    exact traced.identify ⟨who, _, there⟩ iv
  | tellPeer iv handles up peer unseen first =>
    obtain ⟨who, there⟩ := traced₀.ups (List.mem_of_getElem? up)
    exact traced.identify ⟨who, _, first ▸ there⟩ iv

theorem traced_act {c : Client} (enabled : Enabled a) (separate : Separate cfg c a)
    (traced : Traced cfg.propagationNode c) : Traced cfg.propagationNode (c.act cfg a) := by
  cases a with
  | frame raw ephemeral iface =>
    -- A link that comes up was pending, and leads where it was to lead.
    refine ⟨fun after => traced.heading (Transport.heading_handleFrame after), fun there => ?_,
      traced.once, traced.syncLink, traced.browserLink, traced.nodes, traced.browsed, traced.told⟩
    rcases List.mem_append.mp there with before | new
    · exact traced.ups before
    · exact traced.heading (Transport.heading_of_linkUp (List.mem_singleton.mp new).symm)
  | requestPage addr pushBack =>
    simp only [act, requestPage]
    split
    · exact traced
    · refine ⟨traced.heading, traced.ups, traced.once, traced.syncLink, traced.browserLink,
        fun there => ?_, traced.browsed, traced.told⟩
      rw [BrowserState.mem_nodes] at there
      rcases there with fetched | ⟨_, same, rfl⟩ | current | back
      · exact traced.nodes (BrowserState.mem_nodes.mpr (.inl fetched))
      · cases same
        exact separate.elsewhere rfl
      · exact traced.nodes (BrowserState.mem_nodes.mpr (.inr (.inr (.inl current))))
      · exact traced.nodes (BrowserState.mem_nodes.mpr (.inr (.inr (.inr back))))
  | _ =>
    have done := @does_act cfg c _ enabled (by simp) (by simp)
    generalize c.act cfg _ = c' at done
    -- One thing after another.
    induction done with
    | refl => exact traced
    | tail _ last ih => exact traced_doing separate traced ih last

theorem traced_start (pn : Option TruncatedHash) (identity : PrivateIdentity) :
    Traced pn (start identity) := by
  refine ⟨fun heads => ?_, (fun there => nomatch there), (fun there => nomatch there),
    (fun held => nomatch held), (fun held => nomatch held), (fun there => nomatch there),
    (fun there => nomatch there), (fun there => nomatch there)⟩
  rcases heads with ⟨pend, held, -⟩ | ⟨link, held, -⟩
  · cases held
  · cases held

theorem Traced.reorder {pn : Option TruncatedHash} {c : Client} {t : Transport}
    (traced : Traced pn c) (same : c.transport.Same t) : Traced pn { c with transport := t } :=
  traced.wanes (.of_loses c same.loses)

theorem traced_run {c : Client} {identity : PrivateIdentity}
    {allowed : Client → ClientAction → Prop} (apart : ∀ c a, allowed c a → Separate cfg c a)
    (run : ReflTransGen (Step cfg allowed) (start identity) c) : Traced cfg.propagationNode c := by
  refine reachable_of_keeps ?_ (traced_start cfg.propagationNode identity) run
  intro before after traced step
  cases step with
  | act a enabled fine => exact traced_act enabled (apart _ _ fine) traced
  | reorder t same => exact traced.reorder same

end Client

end LxmfChat
