import LxmfChat.App.Synced

/-! Which request a response is taken for: the last one that was sent over its link. -/

namespace LxmfChat

open Base Relation

def Emission.requestOn? (lid : TruncatedHash) : Emission → Option (Purpose × Asked × Option Bytes)
  | .request who link asked packet => if link = lid then some (who, asked, packet) else none
  | _ => none

def lastRequest (log : List Emission) (lid : TruncatedHash) :
    Option (Purpose × Asked × Option Bytes) :=
  log.reverse.findSome? (Emission.requestOn? lid)

theorem lastRequest_self (log : List Emission) (who : Purpose) (lid : TruncatedHash)
    (asked : Asked) (packet : Option Bytes) :
    lastRequest (log ++ [.request who lid asked packet]) lid = some (who, asked, packet) := by
  simp [lastRequest, Emission.requestOn?]

theorem lastRequest_other {log : List Emission} {e : Emission} {lid : TruncatedHash}
    (other : e.requestOn? lid = none) : lastRequest (log ++ [e]) lid = lastRequest log lid := by
  simp [lastRequest, other]

/-- What the sync waits for is what it asked for last over its link. -/
structure SyncMatched (s : SyncState) (log : List Emission) : Prop where
  linking : s.phase = .linking → s.linkId = none
  listing : s.phase = .listRequested →
    ∃ lid packet, s.linkId = some lid ∧ lastRequest log lid = some (.sync, .list, packet)
  getting : s.phase = .getRequested →
    ∃ lid ids packet, s.linkId = some lid
      ∧ lastRequest log lid = some (.sync, .download ids, packet)

/-- The page that the browser waits for is what it asked for last over its link. -/
structure BrowserMatched (b : BrowserState) (log : List Emission) : Prop where
  fetching : b.phase = .fetching →
    ∃ lid node packet, b.linkId = some lid ∧ b.node = some node
      ∧ lastRequest log lid = some (.browser, .page ⟨node, b.path, b.vars⟩, packet)

/-- Both clients wait for what they asked for last. -/
structure Client.Matched (c : Client) : Prop where
  sync : SyncMatched c.sync c.log
  browser : BrowserMatched c.browser c.log

theorem SyncMatched.of_idle {s : SyncState} (idle : s.phase = .idle) (log : List Emission) :
    SyncMatched s log := by
  constructor <;> intro busy <;> rw [idle] at busy <;> cases busy

theorem SyncMatched.of_linking {s : SyncState} (linking : s.phase = .linking)
    (none : s.linkId = none) (log : List Emission) : SyncMatched s log := by
  refine ⟨fun _ => none, fun busy => ?_, fun busy => ?_⟩ <;> rw [linking] at busy <;> cases busy

theorem BrowserMatched.of_not_fetching {b : BrowserState} (idle : b.phase ≠ .fetching)
    (log : List Emission) : BrowserMatched b log :=
  ⟨fun busy => absurd busy idle⟩

theorem SyncMatched.congr {s s' : SyncState} {log log' : List Emission}
    (matched : SyncMatched s log) (phase : s'.phase = s.phase) (link : s'.linkId = s.linkId)
    (last : ∀ {lid}, s.linkId = some lid → lastRequest log' lid = lastRequest log lid) :
    SyncMatched s' log' where
  linking busy := link.trans (matched.linking (phase.symm.trans busy))
  listing busy := by
    obtain ⟨lid, packet, held, asked⟩ := matched.listing (phase.symm.trans busy)
    exact ⟨lid, packet, link.trans held, (last held).trans asked⟩
  getting busy := by
    obtain ⟨lid, ids, packet, held, asked⟩ := matched.getting (phase.symm.trans busy)
    exact ⟨lid, ids, packet, link.trans held, (last held).trans asked⟩

theorem BrowserMatched.congr {b b' : BrowserState} {log log' : List Emission}
    (matched : BrowserMatched b log) (phase : b'.phase = b.phase) (link : b'.linkId = b.linkId)
    (node : b'.node = b.node) (page : b'.path = b.path ∧ b'.vars = b.vars)
    (last : ∀ {lid}, b.linkId = some lid → lastRequest log' lid = lastRequest log lid) :
    BrowserMatched b' log' where
  fetching busy := by
    obtain ⟨lid, fetched, packet, held, from_, asked⟩ := matched.fetching (phase.symm.trans busy)
    rw [page.1, page.2]
    exact ⟨lid, fetched, packet, link.trans held, node.trans from_, (last held).trans asked⟩

namespace Client

variable {cfg : ClientConfig} {c : Client}

theorem syncFinish_fields (c : Client) :
    c.syncFinish.sync = c.sync.ended ∧ c.syncFinish.browser = c.browser
      ∧ c.syncFinish.log = c.log := by
  rw [syncFinish, dropLink.eq_def]
  split <;> exact ⟨rfl, rfl, rfl⟩

theorem browserFinish_fields (c : Client) :
    c.browserFinish.sync = c.sync ∧ c.browserFinish.browser = c.browser.reset
      ∧ c.browserFinish.log = c.log := by
  rw [browserFinish, dropLink.eq_def]
  split <;> exact ⟨rfl, rfl, rfl⟩

theorem matched_syncFinish (browser : BrowserMatched c.browser c.log) : c.syncFinish.Matched := by
  obtain ⟨sync, same, log⟩ := syncFinish_fields c
  refine ⟨?_, by rw [same, log]; exact browser⟩
  rw [sync]
  exact .of_idle rfl _

theorem matched_browserFinish (sync : SyncMatched c.sync c.log) : c.browserFinish.Matched := by
  obtain ⟨same, browser, log⟩ := browserFinish_fields c
  refine ⟨by rw [same, log]; exact sync, ?_⟩
  rw [browser]
  exact .of_not_fetching (b := c.browser.reset) (fun busy => nomatch busy) _

theorem lastRequest_requestLink (who : Purpose) (target : TruncatedHash)
    (identity : PublicIdentity) (d : ClientDraw) (lid : TruncatedHash) :
    lastRequest (c.requestLink cfg who target identity d).1.log lid = lastRequest c.log lid := by
  rw [requestLink]
  dsimp only
  split
  · rfl
  · exact lastRequest_other rfl

theorem lastRequest_identify (link : TruncatedHash) (iv : Iv) (lid : TruncatedHash) :
    lastRequest (c.identify cfg link iv).log lid = lastRequest c.log lid := by
  rw [identify]
  split
  · exact lastRequest_other rfl
  · rfl

theorem Matched.requestLink (matched : c.Matched) (who : Purpose) (target : TruncatedHash)
    (identity : PublicIdentity) (d : ClientDraw) :
    (c.requestLink cfg who target identity d).1.Matched := by
  obtain ⟨sync, browser, -, -⟩ := @requestLink_fields cfg c who target identity d
  refine ⟨?_, ?_⟩
  · rw [sync]
    exact matched.sync.congr rfl rfl fun _ => lastRequest_requestLink who target identity d _
  · rw [browser]
    exact matched.browser.congr rfl rfl rfl ⟨rfl, rfl⟩
      fun _ => lastRequest_requestLink who target identity d _

theorem browserMatched_sendRequest (matched : BrowserMatched c.browser c.log) {who : Purpose}
    {lid : TruncatedHash} (apart : c.browser.linkId ≠ some lid) (asked : Asked) (iv : Iv) :
    BrowserMatched (c.sendRequest cfg who lid asked iv).1.browser
      (c.sendRequest cfg who lid asked iv).1.log := by
  refine matched.congr rfl rfl rfl ⟨rfl, rfl⟩ fun held => lastRequest_other ?_
  rw [Emission.requestOn?, if_neg]
  rintro rfl
  exact apart held

theorem syncMatched_sendRequest (matched : SyncMatched c.sync c.log) {who : Purpose}
    {lid : TruncatedHash} (apart : c.sync.linkId ≠ some lid) (asked : Asked) (iv : Iv) :
    SyncMatched (c.sendRequest cfg who lid asked iv).1.sync
      (c.sendRequest cfg who lid asked iv).1.log := by
  refine matched.congr rfl rfl fun held => lastRequest_other ?_
  rw [Emission.requestOn?, if_neg]
  rintro rfl
  exact apart held

theorem matched_list {lid : TruncatedHash} (link : c.sync.linkId = some lid)
    (apart : c.browser.linkId ≠ some lid) (browser : BrowserMatched c.browser c.log)
    (d : ClientDraw) : (c.syncSendIdentifyAndList cfg lid d).Matched := by
  rw [syncSendIdentifyAndList, syncSendGet]
  dsimp only
  have fields := @identify_fields cfg { c with sync := { c.sync with phase := .listRequested } }
    lid d.identifyIv
  have last := @lastRequest_identify cfg
    { c with sync := { c.sync with phase := .listRequested } } lid d.identifyIv
  generalize { c with sync := { c.sync with phase := .listRequested } }.identify cfg lid
    d.identifyIv = c' at fields last
  obtain ⟨-, sync, browser', -⟩ := fields
  refine ⟨⟨fun busy => ?_, fun _ => ?_, fun busy => ?_⟩, ?_⟩
  · cases (congrArg SyncState.phase sync).symm.trans busy
  · refine ⟨lid, _, ?_, lastRequest_self c'.log .sync lid .list _⟩
    exact (congrArg SyncState.linkId sync).trans link
  · cases (congrArg SyncState.phase sync).symm.trans busy
  · refine browserMatched_sendRequest ?_ (by rw [browser']; exact apart) _ _
    rw [browser']
    exact browser.congr rfl rfl rfl ⟨rfl, rfl⟩ fun _ => last _

theorem Matched.withSync (matched : c.Matched) (s : SyncState) (phase : s.phase = c.sync.phase)
    (link : s.linkId = c.sync.linkId) : { c with sync := s }.Matched :=
  ⟨matched.sync.congr phase link fun _ => rfl, matched.browser⟩

theorem Matched.syncDefer (matched : c.Matched) : c.syncDefer.Matched := by
  rw [Client.syncDefer]
  dsimp only
  split
  · exact matched.withSync _ rfl rfl
  · exact matched_syncFinish matched.browser

theorem Traced.browserLink_ne {pn : Option TruncatedHash} (traced : Traced pn c)
    {lid node : TruncatedHash} {who : Purpose} (asked : (who, lid, node) ∈ c.linkRequests)
    (leads : pn = some node) : c.browser.linkId ≠ some lid := by
  intro held
  obtain ⟨who', node', elsewhere, there⟩ := traced.browserLink held
  cases traced.once there asked rfl
  exact elsewhere leads

theorem Traced.syncLink_ne {pn : Option TruncatedHash} (traced : Traced pn c)
    {lid node : TruncatedHash} {who : Purpose} (asked : (who, lid, node) ∈ c.linkRequests)
    (elsewhere : pn ≠ some node) : c.sync.linkId ≠ some lid := by
  intro held
  obtain ⟨who', node', leads, there⟩ := traced.syncLink held
  cases traced.once there asked rfl
  exact elsewhere leads

theorem Matched.syncConnect (matched : c.Matched) (traced : Traced cfg.propagationNode c)
    {pn : TruncatedHash} (node : cfg.propagationNode = some pn) (identity : PublicIdentity)
    (d : ClientDraw) : (c.syncConnect cfg pn identity d).Matched := by
  rw [Client.syncConnect]
  dsimp only
  have looks := Transport.loses_outboundLinkFor c.transport pn c.clock
  split
  case h_1 t lid found =>
    -- The link that is found leads to the node, so the browser does not use it.
    rw [found] at looks
    obtain ⟨who, asked⟩ := traced.heading
      (looks.heading (.inr (Transport.openTo_of_outboundLinkFor found)))
    exact matched_list (c := { c with
      transport := t
      sync := { c.sync.begun (c.clock + SYNC_DEADLINE_SECS) with linkId := some lid } })
      rfl (traced.browserLink_ne asked node) matched.browser d
  case h_2 t absent =>
    have linking : Matched { c with
        transport := t, sync := c.sync.begun (c.clock + SYNC_DEADLINE_SECS) } :=
      ⟨.of_linking rfl rfl _, matched.browser⟩
    have asks := @Matched.requestLink cfg _ linking .sync pn identity d
    split
    case h_1 c' failed =>
      rw [failed] at asks
      exact matched_syncFinish asks.browser
    case h_2 c' outcome notFailed made =>
      rw [made] at asks
      exact asks.withSync _ rfl rfl

theorem Matched.startSync (matched : c.Matched) (traced : Traced cfg.propagationNode c)
    (d : ClientDraw) : (c.startSync cfg d).Matched := by
  rw [Client.startSync]
  split
  case h_1 => exact matched
  case h_2 pn node =>
    split
    case isTrue => exact matched
    case isFalse =>
      split
      case isTrue => exact matched.syncDefer
      case isFalse =>
        split
        · exact matched.syncConnect traced node _ d
        · exact matched.syncDefer

theorem Matched.maybeAutoSync (matched : c.Matched) (traced : Traced cfg.propagationNode c)
    (d : ClientDraw) : (c.maybeAutoSync cfg d).Matched := by
  rw [Client.maybeAutoSync]
  split
  case h_1 => exact matched.withSync _ rfl rfl
  case h_2 pn node =>
    split
    case isTrue => exact matched_syncFinish matched.browser
    case isFalse =>
      split
      case isTrue =>
        -- Still waiting for the link, it asks again unless a request is pending.
        rw [syncRelink]
        split
        case h_1 => exact matched
        case h_2 known _ =>
          have asks := @Matched.requestLink cfg _ matched .sync pn known.identity d
          split
          all_goals
            rename_i c' outcome
            rw [outcome] at asks
          · exact asks.withSync _ rfl rfl
          · exact matched_syncFinish asks.browser
          · exact asks
      case isFalse =>
        split
        case isTrue =>
          exact (matched.withSync { c.sync with requested := false } rfl rfl).startSync
            (traced.wanes (.sync c _ id)) d
        case isFalse =>
          split
          case isTrue => exact matched
          case isFalse =>
            split
            case isTrue =>
              exact (matched.withSync { c.sync with autoDone := true } rfl rfl).startSync
                (traced.wanes (.sync c _ id)) d
            case isFalse =>
              split
              · exact matched.withSync _ rfl rfl
              · exact matched

theorem Matched.syncAnswered (matched : c.Matched) {lid : TruncatedHash}
    (link : c.sync.linkId = some lid) (apart : c.browser.linkId ≠ some lid) (payload : Bytes)
    (d : ClientDraw) : (c.syncAnswered cfg lid payload d).Matched := by
  rw [Client.syncAnswered]
  split
  case h_2 => exact matched
  case h_1 response read =>
    rw [handleSyncResponse.eq_def]
    split
    case h_1 => exact matched_syncFinish matched.browser
    case h_2 =>
      dsimp only
      split
      case h_1 =>
        rw [syncListed]
        split
        case isTrue => exact matched_syncFinish matched.browser
        case isFalse =>
          -- The download is what is asked for last over the link.
          refine ⟨⟨by rintro ⟨⟩, by rintro ⟨⟩, fun _ => ?_⟩, ?_⟩
          · exact ⟨lid, _, _, link, lastRequest_self c.log .sync lid _ _⟩
          · exact browserMatched_sendRequest matched.browser apart _ _
      case h_2 =>
        rw [syncDownloaded]
        split
        case h_1 inbox delivered => exact ⟨matched.sync, matched.browser⟩
        case h_2 inbox outcomes delivered =>
          dsimp only
          split
          · exact matched_syncFinish matched.browser
          · exact matched_syncFinish
              (@browserMatched_sendRequest cfg { c with inbox } matched.browser .sync lid apart _ _)
      case h_3 => exact matched

theorem Matched.syncOnOutlinkData (matched : c.Matched) {lid : TruncatedHash}
    (apart : c.sync.linkId = some lid → c.browser.linkId ≠ some lid) (context : UInt8)
    (plaintext : Bytes) (d : ClientDraw) :
    (c.syncOnOutlinkData cfg lid context plaintext d).Matched := by
  rw [Client.syncOnOutlinkData]
  split
  case isTrue => exact matched
  case isFalse active =>
    have link : c.sync.linkId = some lid := by
      by_contra other
      exact active (.inl other)
    split
    case isTrue => exact matched.syncAnswered link (apart link) plaintext d
    case isFalse =>
      split
      · exact matched.withSync _ rfl rfl
      · exact (matched.withSync { c.sync with receiver := none } rfl rfl).syncAnswered link
          (apart link) _ d
      · exact matched_syncFinish matched.browser
      · exact matched_syncFinish matched.browser
      · exact matched

theorem matched_fetch {lid node : TruncatedHash} (link : c.browser.linkId = some lid)
    (fetched : c.browser.node = some node) (apart : c.sync.linkId ≠ some lid)
    (sync : SyncMatched c.sync c.log) (d : ClientDraw) :
    (c.browserSendRequest cfg node lid d).Matched := by
  have kept := @syncMatched_sendRequest cfg
    { c with browser := { c.browser with phase := .fetching } } sync .browser lid apart
    (.page ⟨node, c.browser.path, c.browser.vars⟩) d.pageIv
  rw [browserSendRequest]
  dsimp only
  split
  case h_1 c' made =>
    rw [made] at kept
    split
    case isTrue =>
      refine ⟨kept, ⟨fun _ => ⟨lid, node, ?_⟩⟩⟩
      have same := congrArg Prod.fst made
      dsimp only [sendRequest] at same
      subst same
      exact ⟨_, link, fetched, lastRequest_self c.log .browser lid _ _⟩
    case isFalse => exact matched_browserFinish kept
  case h_2 c' gone =>
    rw [gone] at kept
    exact matched_browserFinish kept

theorem Matched.withBrowser (matched : c.Matched) (b : BrowserState)
    (phase : b.phase = c.browser.phase) (link : b.linkId = c.browser.linkId)
    (node : b.node = c.browser.node)
    (page : b.path = c.browser.path ∧ b.vars = c.browser.vars) : { c with browser := b }.Matched :=
  ⟨matched.sync, matched.browser.congr phase link node page fun _ => rfl⟩

theorem Matched.withIdleBrowser (matched : c.Matched) (b : BrowserState)
    (idle : b.phase ≠ .fetching) : { c with browser := b }.Matched :=
  ⟨matched.sync, .of_not_fetching idle _⟩

theorem Matched.browserDefer (matched : c.Matched) (addr : PageAddr) :
    (c.browserDefer addr).Matched := by
  rw [Client.browserDefer]
  dsimp only
  split
  · exact matched.withBrowser _ rfl rfl rfl ⟨rfl, rfl⟩
  · exact matched_browserFinish matched.sync

theorem Matched.browserConnect (matched : c.Matched) (traced : Traced cfg.propagationNode c)
    {addr : PageAddr} (elsewhere : cfg.propagationNode ≠ some addr.node)
    (identity : PublicIdentity) (d : ClientDraw) :
    (c.browserConnect cfg addr identity d).Matched := by
  rw [Client.browserConnect]
  dsimp only
  generalize c.clock + PAGE_DEADLINE_SECS + 12 * max ((c.transport.pathHops addr.node).getD 1).toNat
    1 = deadline
  have looks := Transport.loses_outboundLinkFor c.transport addr.node c.clock
  split
  case h_1 t lid found =>
    -- The link that is found leads to the page's node, so the sync does not use it.
    rw [found] at looks
    obtain ⟨who, asked⟩ := traced.heading
      (looks.heading (.inr (Transport.openTo_of_outboundLinkFor found)))
    exact matched_fetch (c := { c with
      transport := t, browser := { c.browser.begun addr deadline with linkId := some lid } })
      rfl rfl (traced.syncLink_ne asked elsewhere) matched.sync d
  case h_2 t absent =>
    have linking : Matched { c with transport := t, browser := c.browser.begun addr deadline } :=
      ⟨matched.sync, .of_not_fetching (b := c.browser.begun addr deadline)
        (by rintro ⟨⟩) _⟩
    have asks := @Matched.requestLink cfg _ linking .browser addr.node identity d
    split
    case h_1 c' failed =>
      rw [failed] at asks
      exact matched_browserFinish asks.sync
    case h_2 c' outcome notFailed made =>
      rw [made] at asks
      exact asks.withBrowser _ rfl rfl rfl ⟨rfl, rfl⟩

theorem Matched.browserTick (matched : c.Matched) (traced : Traced cfg.propagationNode c)
    (d : ClientDraw) : (c.browserTick cfg d).Matched := by
  rw [Client.browserTick]
  dsimp only
  split
  case isTrue => exact matched_browserFinish matched.sync
  case isFalse =>
    split
    case h_1 node _ =>
      -- Still waiting for the link, it asks again unless a request is pending.
      rw [browserRelink]
      split
      case h_1 => exact matched
      case h_2 known _ =>
        have asks := @Matched.requestLink cfg _ matched .browser node known.identity d
        split
        all_goals
          rename_i c' outcome
          rw [outcome] at asks
        · exact asks.withBrowser _ rfl rfl rfl ⟨rfl, rfl⟩
        · exact matched_browserFinish asks.sync
        · exact asks
    case h_2 =>
      split
      case isFalse => exact matched
      case isTrue =>
        split
        case h_2 => exact matched
        case h_1 addr requested =>
          have elsewhere : cfg.propagationNode ≠ some addr.node :=
            traced.nodes (BrowserState.mem_nodes.mpr (.inr (.inl ⟨addr, requested, rfl⟩)))
          have taken := matched.withBrowser { c.browser with requested := none } rfl rfl rfl
            ⟨rfl, rfl⟩
          rw [startFetch]
          split
          case isTrue => exact taken.browserDefer addr
          case isFalse =>
            split
            · exact taken.browserConnect (traced.wanes (wanes_takeRequest c)) elsewhere _ d
            · exact taken.browserDefer addr

theorem Matched.browserAnswered (matched : c.Matched) (payload : Bytes) :
    (c.browserAnswered payload).Matched := by
  have shows_ : ∀ node, { c with browser := c.browser.shown node }.Matched := fun node =>
    matched.withIdleBrowser (c.browser.shown node) (fun busy => nomatch busy)
  rw [Client.browserAnswered]
  split
  case h_2 => exact matched
  case h_1 response read =>
    rw [pageReceived.eq_def]
    split
    case h_3 => exact matched_browserFinish matched.sync
    all_goals
      split
      case h_1 => exact matched
      case h_2 node _ => exact shows_ node

theorem Matched.browserOnOutlinkData (matched : c.Matched) (lid : TruncatedHash)
    (context : UInt8) (plaintext : Bytes) :
    (c.browserOnOutlinkData cfg lid context plaintext).Matched := by
  rw [Client.browserOnOutlinkData]
  split
  case isTrue => exact matched
  case isFalse =>
    have later := matched.withBrowser
      { c.browser with deadline := c.clock + PAGE_DEADLINE_SECS } rfl rfl rfl ⟨rfl, rfl⟩
    dsimp only
    split
    case isTrue => exact later.browserAnswered plaintext
    case isFalse =>
      split
      · exact matched.withBrowser _ rfl rfl rfl ⟨rfl, rfl⟩
      · exact (matched.withBrowser { c.browser with
          receiver := none, deadline := c.clock + PAGE_DEADLINE_SECS } rfl rfl rfl
          ⟨rfl, rfl⟩).browserAnswered _
      · exact matched_browserFinish later.sync
      · exact matched_browserFinish later.sync
      · exact later

theorem Matched.requestPage (matched : c.Matched) (addr : PageAddr) (pushBack : Bool) :
    (c.requestPage addr pushBack).1.Matched := by
  rw [Client.requestPage]
  split
  · exact matched
  · exact matched.withBrowser _ rfl rfl rfl ⟨rfl, rfl⟩

theorem Matched.outboundLinkUp (matched : c.Matched) (traced : Traced cfg.propagationNode c)
    {lid target : TruncatedHash} {who : Purpose} (asked : (who, lid, target) ∈ c.linkRequests)
    (d : ClientDraw) : (c.outboundLinkUp cfg lid target d).Matched := by
  rw [Client.outboundLinkUp]
  -- Saying who we are changes neither client and is no request.
  have told : ∃ c₁, (if cfg.propagationNode ≠ some target ∧ !c.browser.targets target then
      c.identify cfg lid d.identifyIv else c) = c₁ ∧ c₁.sync = c.sync ∧ c₁.browser = c.browser
      ∧ ∀ lid, lastRequest c₁.log lid = lastRequest c.log lid := by
    refine ⟨_, rfl, ?_⟩
    split
    · obtain ⟨-, sync, browser, -⟩ := @identify_fields cfg c lid d.identifyIv
      exact ⟨sync, browser, lastRequest_identify lid d.identifyIv⟩
    · exact ⟨rfl, rfl, fun _ => rfl⟩
  obtain ⟨c₁, same, sync, browser, last⟩ := told
  rw [same]
  have first : c₁.Matched :=
    ⟨sync ▸ matched.sync.congr rfl rfl fun _ => last _,
      browser ▸ matched.browser.congr rfl rfl rfl ⟨rfl, rfl⟩ fun _ => last _⟩
  rw [syncOnLinkUp]
  split
  case isTrue waits =>
    -- The sync goes on; the browser fetches nothing from the propagation node.
    have other : c₁.browser.node ≠ some target := by
      rw [browser]
      exact fun fetched => traced.nodes (BrowserState.mem_nodes.mpr (.inl fetched)) waits.1
    have listed := @matched_list cfg { c₁ with sync := { c₁.sync with linkId := some lid } } lid rfl
      (browser ▸ traced.browserLink_ne asked waits.1) first.browser d
    have kept : ({ c₁ with sync := { c₁.sync with linkId := some lid } }.syncSendIdentifyAndList
        cfg lid d).browser = c₁.browser := by
      rw [syncSendIdentifyAndList, syncSendGet]
      exact (identify_fields _ lid _).2.2.1
    rw [browserOnLinkUp, if_neg]
    · exact listed
    · rw [kept]
      exact fun waiting => other waiting.2
  case isFalse =>
    rw [browserOnLinkUp]
    split
    case isTrue waits =>
      have elsewhere : cfg.propagationNode ≠ some target :=
        traced.nodes (BrowserState.mem_nodes.mpr (.inl (browser ▸ waits.2)))
      exact @matched_fetch cfg { c₁ with browser := { c₁.browser with linkId := some lid } } lid
        target rfl waits.2 (sync ▸ traced.syncLink_ne asked elsewhere) first.sync d
    case isFalse => exact first

theorem Matched.outLinkClosed (matched : c.Matched) (lid : TruncatedHash) :
    (c.outLinkClosed lid).Matched := by
  rw [Client.outLinkClosed]
  dsimp only
  have synced :
      (if c.sync.phase ≠ .idle ∧ c.sync.linkId = some lid then c.syncFinish else c).Matched := by
    split
    · exact matched_syncFinish matched.browser
    · exact matched
  generalize (if c.sync.phase ≠ .idle ∧ c.sync.linkId = some lid then c.syncFinish else c) = c'
    at synced ⊢
  split
  case isTrue => exact synced
  case isFalse =>
    split
    case isTrue => exact matched_browserFinish synced.sync
    case isFalse idle =>
      refine synced.withIdleBrowser _ fun busy => idle ?_
      intro done
      cases done.symm.trans busy

theorem Matched.reconnected (matched : c.Matched) : c.reconnected.Matched := by
  have reset : { c with
      transport := c.transport.connectionReset, inResources := ∅ }.Matched :=
    ⟨matched.sync, matched.browser⟩
  rw [Client.reconnected]
  generalize { c with transport := c.transport.connectionReset, inResources := ∅ } = c₁
    at reset ⊢
  dsimp only
  have synced : (if c₁.sync.phase ≠ .idle then c₁.syncFinish else c₁).Matched := by
    split
    · exact matched_syncFinish reset.browser
    · exact reset
  generalize (if c₁.sync.phase ≠ .idle then c₁.syncFinish else c₁) = c₂ at synced ⊢
  split
  case isTrue => exact matched_browserFinish synced.sync
  case isFalse idle =>
    refine synced.withIdleBrowser _ fun busy => idle ?_
    intro done
    cases done.symm.trans busy

theorem Matched.handle (matched : c.Matched) (traced : Traced cfg.propagationNode c) (index : Nat)
    (d : ClientDraw) : (c.handle cfg index d).Matched := by
  rw [Client.handle]
  split
  case h_1 => exact matched
  case h_2 event there =>
    have taken : Wanes c { c with events := c.events.eraseIdx index } :=
      ⟨id, List.mem_of_mem_eraseIdx, rfl, rfl, id, id, id⟩
    have left : { c with events := c.events.eraseIdx index }.Matched :=
      ⟨matched.sync, matched.browser⟩
    rw [handleEvent.eq_def]
    split
    case h_5 lid target =>
      obtain ⟨who, asked⟩ := traced.ups (List.mem_of_getElem? there)
      exact left.outboundLinkUp (traced.wanes taken) asked d
    case h_6 lid context plaintext =>
      rw [outLinkData]
      split
      case isTrue => exact left
      case isFalse =>
        split
        case isTrue =>
          -- The sync's link leads to the node and the browser's elsewhere, so they differ.
          refine left.syncOnOutlinkData (fun held => ?_) context plaintext d
          obtain ⟨who, node, leads, asked⟩ := traced.syncLink held
          exact traced.browserLink_ne asked leads
        case isFalse =>
          split
          case isTrue => exact left.browserOnOutlinkData lid context plaintext
          case isFalse =>
            rw [receiveMessage]
            split <;> exact ⟨matched.sync, matched.browser⟩
    case h_7 lid => exact left.outLinkClosed lid
    case h_3 lid context plaintext =>
      rw [receiveMessage]
      split <;> exact ⟨matched.sync, matched.browser⟩
    all_goals exact ⟨matched.sync, matched.browser⟩

theorem Matched.act (matched : c.Matched) (traced : Traced cfg.propagationNode c)
    (a : ClientAction) : (c.act cfg a).Matched := by
  cases a with
  | tick time => exact ⟨matched.sync, matched.browser⟩
  | frame raw ephemeral iface => exact ⟨matched.sync, matched.browser⟩
  | handle index d => exact matched.handle traced index d
  | syncTick d => exact matched.maybeAutoSync traced d
  | requestSync => exact matched.withSync _ rfl rfl
  | browserTick d => exact matched.browserTick traced d
  | requestPage addr pushBack => exact matched.requestPage addr pushBack
  | browserBack =>
    simp only [Client.act, browserBack]
    split
    case h_1 => exact matched
    case h_2 prev _ =>
      have asks := matched.requestPage prev false
      split
      all_goals
        rename_i c' taken
        rw [taken] at asks
      · exact asks.withBrowser _ rfl rfl rfl ⟨rfl, rfl⟩
      · exact asks
  | browserSuspend =>
    simp only [Client.act, browserSuspend, dropLink.eq_def]
    split <;>
      exact ⟨matched.sync, .of_not_fetching (b := { c.browser.reset with viewing := false })
        (by rintro ⟨⟩) _⟩
  | browserResume parked =>
    simp only [Client.act, browserResume]
    split
    · exact matched
    · split <;> exact matched.withBrowser _ rfl rfl rfl ⟨rfl, rfl⟩
  | outboxLink target identity d => exact matched.requestLink .outbox target identity d
  | other op => exact ⟨matched.sync, matched.browser⟩
  | reconnect => exact matched.reconnected
  | setPeer peer => exact ⟨matched.sync, matched.browser⟩

end Client

end LxmfChat
