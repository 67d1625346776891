import LxmfChat.App.Tracing

/-! Browsing is anonymous as long as the browser still waits for the links it asked for. -/

namespace LxmfChat

open Base Relation

namespace Client

variable {cfg : ClientConfig}

/-- We said who we are on no link that the browser asked for. -/
def Anonymous (c : Client) : Prop :=
  ∀ lid target, lid ∈ c.identified → (.browser, lid, target) ∉ c.linkRequests

/-- What keeps browsing anonymous. -/
structure Discreet (cfg : ClientConfig) (c : Client) (a : ClientAction) : Prop
    extends Separate cfg c a where
  /-- When a link that the browser asked for comes up, it still fetches from there. -/
  waits : ∀ {index d lid target}, a = .handle index d →
    c.events[index]? = some (.outboundLinkUp lid target) →
    (.browser, lid, target) ∈ c.linkRequests → c.browser.targets target = true

theorem mem_identified_identify {c : Client} {lid other : TruncatedHash} {iv : Iv}
    (there : other ∈ (c.identify cfg lid iv).identified) : other ∈ c.identified ∨ other = lid := by
  rw [identify] at there
  split at there
  · rw [identified, List.filterMap_append, List.mem_append] at there
    refine there.imp id fun new => ?_
    simpa [Emission.identify?] using new
  · exact .inl there

theorem Anonymous.identify {c : Client} (anonymous : Anonymous c) {lid : TruncatedHash}
    (other : ∀ target, (.browser, lid, target) ∉ c.linkRequests) (iv : Iv) :
    Anonymous (c.identify cfg lid iv) := by
  intro spoken target there
  rw [linkRequests_identify]
  rcases mem_identified_identify there with before | rfl
  · exact anonymous spoken target before
  · exact other target

theorem Anonymous.requestLink {c : Client} (anonymous : Anonymous c)
    (traced : Traced cfg.propagationNode c) {who : Purpose} {target : TruncatedHash}
    {d : ClientDraw} (fresh : ∀ r ∈ c.linkRequests, r.2.1 ≠ d.linkTo cfg.crypto target)
    (identity : PublicIdentity) :
    Anonymous (c.requestLink cfg who target identity d).1 := by
  obtain ⟨-, -, -, identified⟩ := @requestLink_fields cfg c who target identity d
  intro lid other there
  rw [identified] at there
  rcases @requestLink_cases cfg c who target identity d with ⟨same, -⟩ | ⟨more, -⟩
  · rw [same]
    exact anonymous lid other there
  · rw [more, List.mem_append, List.mem_singleton]
    rintro (before | new)
    · exact anonymous lid other there before
    · -- We spoke on links only that had been asked for before.
      obtain ⟨asker, node, asked⟩ := traced.told there
      exact fresh _ asked (by cases new; rfl)

theorem anonymous_doing {c₀ c c' : Client} {a : ClientAction} (discreet : Discreet cfg c₀ a)
    (traced₀ : Traced cfg.propagationNode c₀) (traced : Traced cfg.propagationNode c)
    (anonymous : Anonymous c) (doing : Doing cfg c₀ a c c') : Anonymous c' := by
  cases doing with
  | wane wanes =>
    intro lid target there
    rw [wanes.linkRequests]
    exact anonymous lid target (wanes.identified ▸ there)
  | ask identity asks first =>
    exact anonymous.requestLink traced (first ▸ discreet.fresh asks) identity
  | sync s node link leads => exact anonymous
  | browse b link aims nodes leads => exact anonymous
  | tellNode lid iv node leads =>
    -- The link leads to the propagation node, where the browser never goes.
    obtain ⟨who, there⟩ := traced₀.leads traced leads
    refine anonymous.identify (fun target browsed => ?_) iv
    cases traced.once browsed there rfl
    exact traced.browsed browsed node
  | @tellPeer index d lid target iv handles up peer unseen first =>
    -- Had the browser asked for the link, it would still be waiting for it.
    obtain ⟨who, there⟩ := traced₀.ups (List.mem_of_getElem? up)
    refine anonymous.identify (fun other browsed => ?_) iv
    rw [first] at browsed
    cases traced₀.once browsed there rfl
    rw [discreet.waits handles up browsed] at unseen
    cases unseen

theorem anonymous_act {c : Client} {a : ClientAction} (enabled : Enabled a)
    (discreet : Discreet cfg c a) (traced : Traced cfg.propagationNode c)
    (anonymous : Anonymous c) : Anonymous (c.act cfg a) := by
  cases a with
  | frame raw ephemeral iface => exact anonymous
  | requestPage addr pushBack =>
    simp only [act, requestPage]
    split <;> exact anonymous
  | _ =>
    have done := @does_act cfg c _ enabled (by simp) (by simp)
    generalize c.act cfg _ = c' at done
    have both : Traced cfg.propagationNode c' ∧ Anonymous c' := by
      induction done with
      | refl => exact ⟨traced, anonymous⟩
      | tail _ last ih =>
        exact ⟨traced_doing discreet.toSeparate traced ih.1 last,
          anonymous_doing discreet traced ih.1 ih.2 last⟩
    exact both.2

/--
In every run in which the browser fetches no page from the propagation node, every link gets an
id of its own, and the browser still waits for each of its links when it comes up, we never say
who we are on a link that the browser asked for.
-/
theorem browsing_anonymous {identity : PrivateIdentity} {c : Client}
    (run : ReflTransGen (Step cfg (Discreet cfg)) (start identity) c) (lid target : TruncatedHash)
    (browsed : Emission.linkRequest .browser lid target ∈ c.log) :
    Emission.identify lid ∉ c.log := by
  have both : Traced cfg.propagationNode c ∧ Anonymous c := by
    refine reachable_of_keeps (I := fun c => Traced cfg.propagationNode c ∧ Anonymous c) ?_
      ⟨traced_start _ identity, fun _ _ there => nomatch there⟩ run
    intro before after kept step
    cases step with
    | act a enabled fine =>
      exact ⟨traced_act enabled fine.toSeparate kept.1, anonymous_act enabled fine kept.1 kept.2⟩
    | reorder t same => exact ⟨kept.1.reorder same, kept.2⟩
  intro told
  exact both.2 lid target (mem_identified.mpr told) (mem_linkRequests.mpr browsed)

open Transport LxmfChat.System

def sampleConfig (propagationNode : Option TruncatedHash) : ClientConfig where
  toConfig := System.sampleConfig propagationNode
  bz2Read := fun _ _ => none

def sampleDraw : ClientDraw where
  toDraw := System.sampleDraw
  identifyIv := sampleIv
  pageIv := sampleIv
  interfaceUp := true

def samplePages : TruncatedHash :=
  singleDestinationHash sampleCrypto "nomadnetwork" ["node"] ((sampleIdentity 5).hash sampleCrypto)

def nodeAnnounce (appName : String) (aspects : List String) : Bytes :=
  (buildAnnounce sampleCrypto (sampleIdentity 5) appName aspects [] (BytesN.ofBytes 10 [])
    none).encode

def linkProof (target : TruncatedHash) : Bytes :=
  (Link.proofPacket sampleCrypto (Link.requestPacket sampleCrypto target (sampleSeed 7)
    (sampleSeed 8)) (sampleIdentity 5) (sampleSeed 9)).encode

def sampleEnd (propagationNode : Option TruncatedHash) (actions : List ClientAction) : Client :=
  (start (sampleIdentity 1)).actAll (sampleConfig propagationNode) actions

def fetchRun : List ClientAction :=
  [ .frame (nodeAnnounce "nomadnetwork" ["node"]) (sampleSeed 0) .hub,
    .requestPage ⟨samplePages, "/page/index.mu".toList, []⟩ false,
    .browserTick sampleDraw ]

def abandonedRun : List ClientAction :=
  fetchRun ++ [.browserSuspend, .frame (linkProof samplePages) (sampleSeed 0) .hub,
    .handle 1 sampleDraw]

/-- The node learns who we are on the link that the browser asked for. -/
theorem abandoned_fetch_identified :
    ∃ lid, Emission.linkRequest .browser lid samplePages ∈ (sampleEnd none abandonedRun).log
      ∧ Emission.identify lid ∈ (sampleEnd none abandonedRun).log := by
  refine ⟨sampleDraw.linkTo sampleCrypto samplePages, ?_, ?_⟩
  · exact mem_linkRequests.mp (by decide +kernel)
  · exact mem_identified.mp (by decide +kernel)

def fetchedRun : List ClientAction :=
  fetchRun ++ [.frame (linkProof samplePages) (sampleSeed 0) .hub, .handle 1 sampleDraw]

theorem discreet_frame {c : Client} {raw : Bytes} {ephemeral : KeyHalf} {iface : PathIface} :
    Discreet cfg c (.frame raw ephemeral iface) :=
  ⟨⟨(fun asks => nomatch asks), (fun same => nomatch same)⟩, (fun same => nomatch same)⟩

theorem discreet_browserTick {c : Client} {d : ClientDraw} (none : c.linkRequests = []) :
    Discreet cfg c (.browserTick d) := by
  refine ⟨⟨?_, (fun same => nomatch same)⟩, (fun same => nomatch same)⟩
  intro who target drawn asks r there
  rw [none] at there
  cases there

theorem traced_run_fetch : (sampleEnd none fetchRun).linkRequests ≠ [] ∧
    Traced none (sampleEnd none fetchRun) := by
  have permitted : Permits (sampleConfig none) (Separate (sampleConfig none))
      (start (sampleIdentity 1)) fetchRun :=
    ⟨trivial, discreet_frame.1, trivial,
      ⟨by rintro _ _ _ ⟨⟩, by simp [sampleConfig, System.sampleConfig]⟩, trivial,
      (discreet_browserTick (by decide +kernel)).1, trivial⟩
  exact ⟨by decide +kernel, traced_run (fun _ _ apart => apart) (run_of_permits permitted)⟩

theorem discreet_linkUp {c : Client} {index : Nat} {d : ClientDraw} {lid target : TruncatedHash}
    (up : c.events[index]? = some (.outboundLinkUp lid target))
    (waits : c.browser.targets target = true) : Discreet cfg c (.handle index d) := by
  refine ⟨⟨(fun asks => nomatch asks), (fun same => nomatch same)⟩, ?_⟩
  intro index' d' lid' target' same up' browsed
  cases same
  cases up.symm.trans up'
  exact waits

theorem browsing_anonymous_fetched :
    ∃ lid, Emission.linkRequest .browser lid samplePages ∈ (sampleEnd none fetchedRun).log
      ∧ Emission.identify lid ∉ (sampleEnd none fetchedRun).log := by
  have permitted : Permits (sampleConfig none) (Discreet (sampleConfig none))
      (start (sampleIdentity 1)) fetchedRun := by
    refine ⟨trivial, discreet_frame, trivial, ⟨⟨(fun asks => nomatch asks), ?_⟩, ?_⟩, trivial,
      discreet_browserTick (by decide +kernel), trivial, discreet_frame, trivial,
      @discreet_linkUp _ _ _ _ (sampleDraw.linkTo sampleCrypto samplePages) samplePages
        (by decide +kernel) (by decide +kernel), trivial⟩
    · intro addr pushBack _ same
      cases same
    · intro index d lid target same
      cases same
  have run : ReflTransGen (Step (sampleConfig none) (Discreet (sampleConfig none)))
      (start (sampleIdentity 1)) (sampleEnd none fetchedRun) := run_of_permits permitted
  have browsed : Emission.linkRequest .browser (sampleDraw.linkTo sampleCrypto samplePages)
      samplePages ∈ (sampleEnd none fetchedRun).log :=
    mem_linkRequests.mp (by decide +kernel)
  exact ⟨_, browsed, browsing_anonymous run _ _ browsed⟩

end Client

end LxmfChat
