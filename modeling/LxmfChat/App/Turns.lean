import LxmfChat.App.System
import LxmfChat.Reticulum.Transport.Lookups

/-! Everything a message's turn in a pass can do, stated once. -/

namespace LxmfChat

open Base

/-- What a turn never changes about a message. -/
structure OutboundMsg.Follows (m m' : OutboundMsg) : Prop where
  peer : m'.peer = m.peer
  displayTs : m'.displayTs = m.displayTs
  text : m'.text = m.text
  packed : m'.packed = m.packed
  needsStamp : m'.needsStamp = m.needsStamp
  stamped : m'.stamped = m.stamped
  pnBlob : m'.pnBlob = m.pnBlob
  viaPn : m.viaPn = true → m'.viaPn = true

namespace OutboundMsg.Follows

variable {m m' m'' : OutboundMsg}

theorem refl (m : OutboundMsg) : m.Follows m := ⟨rfl, rfl, rfl, rfl, rfl, rfl, rfl, id⟩

theorem trans (first : m.Follows m') (second : m'.Follows m'') : m.Follows m'' where
  peer := second.peer.trans first.peer
  displayTs := second.displayTs.trans first.displayTs
  text := second.text.trans first.text
  packed := second.packed.trans first.packed
  needsStamp := second.needsStamp.trans first.needsStamp
  stamped := second.stamped.trans first.stamped
  pnBlob := second.pnBlob.trans first.pnBlob
  viaPn via := second.viaPn (first.viaPn via)

theorem key (follows : m.Follows m') : m'.key = m.key := by
  rw [OutboundMsg.key, follows.peer, follows.displayTs, OutboundMsg.key]

end OutboundMsg.Follows

def Backchannels.Within (b' b : Backchannels) : Prop :=
  ∀ peer e, AList.lookup peer b' = some e → b.lookup peer = some e

namespace Backchannels.Within

theorem refl (b : Backchannels) : Within b b := fun _ _ held => held

theorem trans {b b' b'' : Backchannels} (second : Within b'' b') (first : Within b' b) :
    Within b'' b := fun peer e held => first peer e (second peer e held)

theorem erase (b : Backchannels) (peer : TruncatedHash) : Within (b.erase peer) b := by
  intro other e held
  by_cases same : other = peer
  · rw [same, AList.lookup_erase] at held
    cases held
  · rwa [AList.lookup_erase_ne same] at held

end Backchannels.Within

/-- Data goes out on an open link and is registered for its proof. -/
inductive Sends (t : Transport) (lid : TruncatedHash) (data : Bytes) (hash : FullHash) :
    Transport → Prop
  | resource {tx : ResourceSender} (large : LINK_PACKED_MAX < data.length) (live : t.Live lid)
      (named : tx.hash = hash) :
      Sends t lid data hash { t with outResources := t.outResources.insert lid tx }
  | packet (small : ¬ LINK_PACKED_MAX < data.length) (live : t.Live lid) :
      Sends t lid data hash (t.insertReceipt hash lid)

section

variable {crypto : Crypto} {t u : Transport} {lid : TruncatedHash} {data : Bytes} {d : Draw}
  {hash : FullHash} {inbound : Bool}

theorem makeResourceOnLink_some
    (made : makeResourceOnLink crypto t lid data d = (u, some hash)) :
    t.Live lid ∧ ∃ tx : ResourceSender, tx.hash = hash
      ∧ u = { t with outResources := t.outResources.insert lid tx } := by
  cases held : t.anyLinkKey lid with
  | none => simp [makeResourceOnLink, Transport.makeLinkResource, held] at made
  | some key =>
    obtain ⟨tx, adv, -, result⟩ :=
      Transport.makeLinkResource_eq crypto held data d.r d.streamPrefix d.iv d.advIv
    simp only [makeResourceOnLink, result, Prod.mk.injEq, Option.some.injEq] at made
    refine ⟨?_, tx, made.2, made.1.symm⟩
    -- A link with a key is one of ours or one of a peer's.
    rw [Transport.anyLinkKey] at held
    rcases Option.or_eq_some_iff.mp held with own | ⟨-, theirs⟩
    · left
      rw [Option.map_eq_some_iff] at own
      obtain ⟨link, open_, -⟩ := own
      simp [open_]
    · right
      rw [Option.map_eq_some_iff] at theirs
      obtain ⟨st, open_, -⟩ := theirs
      simp [open_]

theorem makeResourceOnLink_none (made : makeResourceOnLink crypto t lid data d = (u, none)) :
    u = t := by
  cases held : t.anyLinkKey lid with
  | none =>
    simp only [makeResourceOnLink, Transport.makeLinkResource, held, Prod.mk.injEq, and_true] at made
    exact made.symm
  | some key =>
    obtain ⟨tx, adv, -, result⟩ :=
      Transport.makeLinkResource_eq crypto held data d.r d.streamPrefix d.iv d.advIv
    simp [makeResourceOnLink, result] at made

theorem makeLinkData_cases (crypto : Crypto) (t : Transport) (lid : TruncatedHash)
    (data : Bytes) (iv : Iv) :
    (∃ raw hash, t.Live lid
      ∧ t.makeLinkData crypto lid data iv = (t.insertReceipt hash lid, some (raw, hash)))
    ∨ t.makeLinkData crypto lid data iv = (t, none) := by
  cases held : t.outLinks.get lid with
  | none => exact .inr (by simp only [Transport.makeLinkData, held])
  | some link =>
    simp only [Transport.makeLinkData, held, Transport.registerLinkData_eq]
    exact .inl ⟨_, _, .inl (by simp [held]), rfl⟩

theorem makeInLinkData_cases (crypto : Crypto) (t : Transport) (lid : TruncatedHash)
    (data : Bytes) (iv : Iv) :
    (∃ raw hash, t.Live lid
      ∧ t.makeInLinkData crypto lid data iv = (t.insertReceipt hash lid, some (raw, hash)))
    ∨ t.makeInLinkData crypto lid data iv = (t, none) := by
  cases held : t.links.get lid with
  | none => exact .inr (by simp only [Transport.makeInLinkData, held])
  | some st =>
    cases identified : st.peerIdentity with
    | none => exact .inr (by simp only [Transport.makeInLinkData, held, identified])
    | some identity =>
      simp only [Transport.makeInLinkData, held, identified, Transport.registerLinkData_eq]
      exact .inl ⟨_, _, .inr (by simp [held]), rfl⟩

theorem transmit_cases (crypto : Crypto) (inbound : Bool) (t : Transport) (lid : TruncatedHash)
    (data : Bytes) (d : Draw) :
    (∃ u hash, transmit crypto inbound t lid data d = (u, some hash) ∧ Sends t lid data hash u)
    ∨ transmit crypto inbound t lid data d = (t, none) := by
  rw [transmit]
  split
  case isTrue large =>
    cases made : makeResourceOnLink crypto t lid data d with
    | mk u result =>
      cases result with
      | none => exact .inr (by rw [makeResourceOnLink_none made])
      | some hash =>
        obtain ⟨live, tx, named, rfl⟩ := makeResourceOnLink_some made
        exact .inl ⟨_, hash, rfl, .resource large live named⟩
  case isFalse small =>
    have either : (∃ raw hash, t.Live lid ∧ (if inbound then t.makeInLinkData crypto lid data d.iv
          else t.makeLinkData crypto lid data d.iv) = (t.insertReceipt hash lid, some (raw, hash)))
        ∨ (if inbound then t.makeInLinkData crypto lid data d.iv
          else t.makeLinkData crypto lid data d.iv) = (t, none) := by
      cases inbound with
      | true => exact makeInLinkData_cases crypto t lid data d.iv
      | false => exact makeLinkData_cases crypto t lid data d.iv
    rcases either with ⟨raw, hash, live, made⟩ | made
    · rw [made]
      exact .inl ⟨_, hash, rfl, .packet small live⟩
    · rw [made]
      exact .inr rfl

end

open Transport (Looks)

variable {crypto : Crypto} {pn : Option TruncatedHash} {now : Nat}

theorem looks_sendLinkRequest (t : Transport) (target : TruncatedHash)
    (identity : PublicIdentity) (d : Draw) :
    Looks now t (sendLinkRequest crypto t target identity now d).1 := by
  have asked := Transport.looks_pendingLinkTo now t target
  rw [sendLinkRequest]
  cases pending : t.pendingLinkTo target now with
  | mk u isPending =>
    rw [pending] at asked
    dsimp only
    split
    · exact asked
    · have looked := asked.trans (Transport.looks_outboundLinkFor now u target)
      cases found : u.outboundLinkFor target now with
      | mk v link =>
        rw [found] at looked
        dsimp only
        split
        · exact looked
        · split <;> exact looked.trans (.of_eq rfl rfl rfl rfl)

inductive Attempt (pn : Option TruncatedHash) (now : Nat) (t : Transport) (b : Backchannels)
    (m : OutboundMsg) : Outcome → Prop
  | moves {u : Transport} {b' : Backchannels} {m' : OutboundMsg} {turn : Turn}
      (looks : Looks now t u) (within : b'.Within b) (follows : m.Follows m')
      (inFlight : m'.inFlight = m.inFlight) (stays : turn = .kept m' ∨ turn = .again m') :
      Attempt pn now t b m ⟨u, b', turn, none⟩
  /-- The message goes out on a link to its peer, or on its peer's own link. -/
  | delivers {u v : Transport} {b' : Backchannels} {lid : TruncatedHash} {hash : FullHash}
      {m' : OutboundMsg} (straight : m'.viaPn = false) (looks : Looks now t u)
      (within : b'.Within b) (follows : m.Follows m') (inFlight : m'.inFlight = some hash)
      (far : u.OpenTo lid m.peer ∨ ∃ seen, b.lookup m.peer = some (lid, seen))
      (sends : Sends u lid m.packed hash v) :
      Attempt pn now t b m ⟨v, b', .kept m', some ⟨lid, m.packed, hash⟩⟩
  | stores {u v : Transport} {target lid : TruncatedHash} {blob : Bytes} {hash : FullHash}
      {m' : OutboundMsg} (via : m.viaPn = true) (node : pn = some target) (looks : Looks now t u)
      (follows : m.Follows m') (inFlight : m'.inFlight = some hash) (far : u.OpenTo lid target)
      (copy : m.pnBlob = some blob) (sends : Sends u lid blob hash v) :
      Attempt pn now t b m ⟨v, b, .kept m', some ⟨lid, blob, hash⟩⟩
  | crashed (via : m.viaPn = true) (missing : pn = none) :
      Attempt pn now t b m ⟨t, b, .crashed, none⟩

theorem Attempt.kept {t u : Transport} {b b' : Backchannels} {m m' : OutboundMsg}
    (looks : Looks now t u) (within : b'.Within b) (follows : m.Follows m')
    (inFlight : m'.inFlight = m.inFlight) : Attempt pn now t b m ⟨u, b', .kept m', none⟩ :=
  .moves looks within follows inFlight (.inl rfl)

theorem Attempt.fallsBack {t u : Transport} {b : Backchannels} {m : OutboundMsg}
    (looks : Looks now t u) :
    Attempt pn now t b m ⟨u, b, .again { m.escalate now with nextAction := now }, none⟩ := by
  have follows : m.Follows { m.escalate now with nextAction := now } :=
    ⟨rfl, rfl, rfl, rfl, rfl, rfl, rfl, fun _ => rfl⟩
  exact .moves looks (.refl b) follows rfl (.inr rfl)

theorem Attempt.after {t u : Transport} {b b' : Backchannels} {m : OutboundMsg} {o : Outcome}
    (looks : Looks now t u) (within : b'.Within b) (straight : m.viaPn = false)
    (attempt : Attempt pn now u b' m o) : Attempt pn now t b m o := by
  cases attempt with
  | moves looks' within' follows inFlight stays =>
    exact .moves (looks.trans looks') (within'.trans within) follows inFlight stays
  | delivers straight looks' within' follows inFlight far sends =>
    refine .delivers straight (looks.trans looks') (within'.trans within) follows inFlight ?_ sends
    rcases far with own | ⟨seen, theirs⟩
    · exact .inl own
    · exact .inr ⟨seen, within _ _ theirs⟩
  | stores via => rw [straight] at via; cases via
  | crashed via => rw [straight] at via; cases via

theorem attempt_propagate {t : Transport} {b : Backchannels} {m : OutboundMsg}
    {target : TruncatedHash} (via : m.viaPn = true) (node : pn = some target) (d : Draw) :
    Attempt pn now t b m (propagate crypto now target t b m d) := by
  rw [propagate]
  cases t.known.get target with
  | none => exact .kept (.refl t) (.refl b) ⟨rfl, rfl, rfl, rfl, rfl, rfl, rfl, id⟩ rfl
  | some known =>
    dsimp only
    split
    · exact .kept (.refl t) (.refl b) ⟨rfl, rfl, rfl, rfl, rfl, rfl, rfl, id⟩ rfl
    · have looked := Transport.looks_outboundLinkFor now t target
      cases found : t.outboundLinkFor target now with
      | mk u link =>
        rw [found] at looked
        cases link with
        | none =>
          exact .kept (looked.trans (looks_sendLinkRequest u target known.identity d)) (.refl b)
            ⟨rfl, rfl, rfl, rfl, rfl, rfl, rfl, id⟩ rfl
        | some lid =>
          cases copy : m.pnBlob with
          | none =>
            exact .kept looked (.refl b) ⟨rfl, rfl, rfl, rfl, rfl, rfl, copy.symm, id⟩ rfl
          | some blob =>
            dsimp only
            rcases transmit_cases crypto false u lid blob d with
              ⟨v, hash, sent, sends⟩ | unsent
            · rw [sent]
              exact .stores via node looked ⟨rfl, rfl, rfl, rfl, rfl, rfl, copy.symm, id⟩ rfl
                (Transport.openTo_of_outboundLinkFor found) copy sends
            · rw [unsent]
              exact .kept looked (.refl b) ⟨rfl, rfl, rfl, rfl, rfl, rfl, copy.symm, id⟩ rfl

theorem attempt_establish (t : Transport) (b : Backchannels) (m : OutboundMsg) (d : Draw) :
    Attempt pn now t b m (establish crypto pn now t b m d) := by
  rw [establish]
  cases t.known.get m.peer with
  | none => exact .kept (.refl t) (.refl b) ⟨rfl, rfl, rfl, rfl, rfl, rfl, rfl, id⟩ rfl
  | some known =>
    dsimp only
    split
    · -- No route: ask for one, or fall back to the node.
      split
      · exact .fallsBack (.refl t)
      · exact .kept (.refl t) (.refl b) ⟨rfl, rfl, rfl, rfl, rfl, rfl, rfl, id⟩ rfl
    · have asked := Transport.looks_pendingLinkTo now t m.peer
      cases pending : t.pendingLinkTo m.peer now with
      | mk u isPending =>
        rw [pending] at asked
        dsimp only
        split
        · -- The route leads nowhere.
          have expired := asked.trans (Transport.looks_expirePath now u m.peer)
          split
          · exact .kept expired (.refl b) ⟨rfl, rfl, rfl, rfl, rfl, rfl, rfl, id⟩ rfl
          · split
            · exact .fallsBack expired
            · exact .kept expired (.refl b) ⟨rfl, rfl, rfl, rfl, rfl, rfl, rfl, id⟩ rfl
        · exact .kept (asked.trans (looks_sendLinkRequest u m.peer known.identity d)) (.refl b)
            ⟨rfl, rfl, rfl, rfl, rfl, rfl, rfl, id⟩ rfl

theorem liveBackchannel_spec (now : Nat) (b : Backchannels) (peer : TruncatedHash) :
    (liveBackchannel now b peer).1.Within b
    ∧ ∀ lid, (liveBackchannel now b peer).2 = some lid →
      ∃ seen, b.lookup peer = some (lid, seen) := by
  rw [liveBackchannel]
  cases held : b.lookup peer with
  | none => exact ⟨.refl b, fun _ found => nomatch found⟩
  | some e =>
    obtain ⟨lid, seen⟩ := e
    dsimp only
    split
    · refine ⟨.refl b, fun other found => ?_⟩
      cases found
      exact ⟨seen, rfl⟩
    · exact ⟨.erase b peer, fun _ found => nomatch found⟩

theorem follows_attempted (m : OutboundMsg) (hash : FullHash) :
    m.Follows (m.attempted now hash) :=
  ⟨rfl, rfl, rfl, rfl, rfl, rfl, rfl, id⟩

theorem attempt_direct {m : OutboundMsg} (straight : m.viaPn = false) (t : Transport)
    (b : Backchannels) (d : Draw) : Attempt pn now t b m (direct crypto pn now t b m d) := by
  have looked := Transport.looks_outboundLinkFor now t m.peer
  rw [direct]
  cases found : t.outboundLinkFor m.peer now with
  | mk u link =>
    rw [found] at looked
    cases link with
    | some lid =>
      -- A link of ours is open.
      dsimp only
      rcases transmit_cases crypto false u lid m.packed d with
        ⟨v, hash, sent, sends⟩ | unsent
      · rw [sent]
        exact .delivers straight looked (.refl b) (follows_attempted m hash) rfl
          (.inl (Transport.openTo_of_outboundLinkFor found)) sends
      · rw [unsent]
        exact .kept looked (.refl b) ⟨rfl, rfl, rfl, rfl, rfl, rfl, rfl, id⟩ rfl
    | none =>
      obtain ⟨within, wasOpen⟩ := liveBackchannel_spec now b m.peer
      dsimp only
      cases back : liveBackchannel now b m.peer with
      | mk b' channel =>
        rw [back] at within wasOpen
        cases channel with
        | none => exact (attempt_establish u b' m d).after looked within straight
        | some lid =>
          -- The peer has a link of its own, which may have vanished meanwhile.
          dsimp only
          rcases transmit_cases crypto true u lid m.packed d with
            ⟨v, hash, sent, sends⟩ | unsent
          · rw [sent]
            exact .delivers straight looked within (follows_attempted m hash) rfl
              (.inr (wasOpen lid rfl)) sends
          · rw [unsent]
            exact (attempt_establish u (b'.erase m.peer) m d).after looked
              ((Backchannels.Within.erase b' m.peer).trans within) straight

theorem attempt_pumpSend (t : Transport) (b : Backchannels) (m : OutboundMsg) (d : Draw) :
    Attempt pn now t b m (pumpSend crypto pn now t b m d) := by
  rw [pumpSend.eq_def]
  split
  case isTrue via =>
    cases node : pn with
    | none => exact .crashed via rfl
    | some target => exact attempt_propagate via rfl d
  case isFalse straight => exact attempt_direct (by simpa using straight) t b d

/-- The transport an attempt starts from: a link is dropped first if a proof is overdue. -/
def attemptFrom (pn : Option TruncatedHash) (now : Nat) (syncLink : Option TruncatedHash)
    (t : Transport) (m : OutboundMsg) : Transport :=
  if m.inFlight.isSome then dropSuspect pn now syncLink t m else t

inductive Turned (pn : Option TruncatedHash) (now : Nat) (syncLink : Option TruncatedHash)
    (t : Transport) (b : Backchannels) (m : OutboundMsg) : Outcome → Prop
  | waits (waiting : m.needsStamp.isSome ∨ now < m.nextAction) :
      Turned pn now syncLink t b m ⟨t, b, .kept m, none⟩
  /-- The direct phase ran out of time; what is in flight stays so. -/
  | late (ready : m.needsStamp = none) (past : m.deadline < now) (straight : m.viaPn = false)
      (untried : m.triedPn = false) (node : pn.isSome) :
      Turned pn now syncLink t b m ⟨t, b, .kept { m.escalate now with nextAction := now }, none⟩
  | expires {u : Transport} {why : PumpFailure} (ready : m.needsStamp = none) (past : m.deadline < now)
      (looks : Looks now t u) : Turned pn now syncLink t b m ⟨u, b, .failed why, none⟩
  /-- The last proof did not come, and there is nothing left to try. -/
  | unproven (ready : m.needsStamp = none) (due : m.nextAction ≤ now) :
      Turned pn now syncLink t b m
        ⟨attemptFrom pn now syncLink t m, b, .failed .noAcknowledgement, none⟩
  | attempts {b' : Backchannels} {m' : OutboundMsg} {o : Outcome} (ready : m.needsStamp = none)
      (due : m.nextAction ≤ now) (within : b'.Within b) (follows : m.Follows m')
      (idle : m'.inFlight = none)
      (attempt : Attempt pn now (attemptFrom pn now syncLink t m) b' m' o) :
      Turned pn now syncLink t b m o

theorem pumpUnproven_cases (pn : Option TruncatedHash) (now : Nat)
    (syncLink : Option TruncatedHash) (t : Transport) (b : Backchannels) (m : OutboundMsg) :
    (∃ b' m', pumpUnproven pn now syncLink t b m = (dropSuspect pn now syncLink t m, b', some m')
      ∧ b'.Within b ∧ m.Follows m' ∧ m'.inFlight = none)
    ∨ pumpUnproven pn now syncLink t b m = (dropSuspect pn now syncLink t m, b, none) := by
  rw [pumpUnproven]
  -- What the next attempt starts from depends on the phase and on the attempts left.
  split
  case isTrue =>
    split
    · exact .inl ⟨_, _, rfl, .erase b m.peer, ⟨rfl, rfl, rfl, rfl, rfl, rfl, rfl, id⟩, rfl⟩
    · split
      · exact .inl ⟨_, _, rfl, .refl b, ⟨rfl, rfl, rfl, rfl, rfl, rfl, rfl, fun _ => rfl⟩, rfl⟩
      · exact .inr rfl
  case isFalse =>
    exact .inl ⟨_, _, rfl, .refl b, ⟨rfl, rfl, rfl, rfl, rfl, rfl, rfl, id⟩, rfl⟩

theorem turned_pumpExpired {syncLink : Option TruncatedHash} {t : Transport} {b : Backchannels}
    {m : OutboundMsg} (ready : m.needsStamp = none) (past : m.deadline < now) :
    Turned pn now syncLink t b m (pumpExpired pn now t b m) := by
  rw [pumpExpired.eq_def]
  split
  case isTrue fallback =>
    simp only [Bool.and_eq_true, Bool.not_eq_eq_eq_not, Bool.not_true] at fallback
    exact .late ready past fallback.1.1 fallback.1.2 fallback.2
  case isFalse =>
    split
    · cases pn with
      | none => exact .expires ready past (.refl t)
      | some node =>
        dsimp only
        split
        · exact .expires ready past (Transport.looks_expirePath now t node)
        · exact .expires ready past (.refl t)
    · split
      · split <;> exact .expires ready past (.refl t)
      · exact .expires ready past (.refl t)

theorem pumpMessage_turned (syncLink : Option TruncatedHash) (t : Transport) (b : Backchannels)
    (m : OutboundMsg) (d : Draw) :
    Turned pn now syncLink t b m (pumpMessage crypto pn now syncLink t b m d) := by
  rw [pumpMessage]
  split
  case isTrue unmined => exact .waits (.inl unmined)
  case isFalse mined =>
    have ready : m.needsStamp = none := by simpa using mined
    split
    case isTrue past => exact turned_pumpExpired ready past
    case isFalse =>
      split
      case isTrue flying =>
        split
        case isTrue early => exact .waits (.inr early)
        case isFalse overdue =>
          -- The proof did not come in time, so a link under suspicion is dropped first.
          have due : m.nextAction ≤ now := Nat.le_of_not_lt overdue
          have dropped : dropSuspect pn now syncLink t m = attemptFrom pn now syncLink t m := by
            rw [attemptFrom, if_pos flying]
          rcases pumpUnproven_cases pn now syncLink t b m with
            ⟨b', m', result, within, follows, idle⟩ | result
          · rw [result, dropped]
            exact .attempts ready due within follows idle (attempt_pumpSend _ b' m' d)
          · rw [result, dropped]
            exact .unproven ready due
      case isFalse grounded =>
        split
        case isTrue early => exact .waits (.inr early)
        case isFalse overdue =>
          -- Nothing was awaited, so nothing is dropped before the attempt.
          have same : t = attemptFrom pn now syncLink t m := by rw [attemptFrom, if_neg grounded]
          refine .attempts ready (Nat.le_of_not_lt overdue) (.refl b) (.refl m)
            (by simpa using grounded) ?_
          rw [← same]
          exact attempt_pumpSend t b m d

end LxmfChat
