import LxmfChat.App.Outbox
import LxmfChat.Reticulum.Transport.Queues

/-! However many threads ask for links, there is at most one link on the way or up to a peer. -/

namespace LxmfChat

open Base
open Relation (ReflTransGen)

namespace Transport

def linksTo (t : Transport) (target : TruncatedHash) : Nat :=
  (t.pendingOut.table.entries.countP fun e => e.2.target = target)
    + t.outLinks.table.entries.countP fun e => e.2.target = target

/-- The destinations of the link requests and of the outbound links, with multiplicity. -/
def linkTargets (t : Transport) : Multiset TruncatedHash :=
  (t.pendingOut.table.pairs.map fun e => e.2.target) + t.outLinks.table.pairs.map fun e => e.2.target

variable {crypto : Crypto} {t u : Transport}

theorem linksTo_eq_count (t : Transport) (target : TruncatedHash) :
    t.linksTo target = t.linkTargets.count target := by
  have table : ∀ {V : Type} (aim : V → TruncatedHash) (table : Table TruncatedHash V),
      table.entries.countP (fun e => aim e.2 = target)
        = (table.pairs.map fun e => aim e.2).count target := by
    intro V aim table
    rw [Multiset.count, Table.pairs, Multiset.map_map, Multiset.map_coe, Multiset.coe_countP,
      List.countP_map]
    refine List.countP_congr fun e _ => ?_
    simp [eq_comm]
  rw [linksTo, linkTargets, Multiset.count_add, table, table]

theorem Loses.linkTargets_le (loses : Loses t u) : u.linkTargets ≤ t.linkTargets := by
  refine add_le_add (Table.map_pairs_le _ ?_) (Table.map_pairs_le _ ?_)
  · exact fun lid pend held => ⟨pend, loses.pendingOut held, rfl⟩
  · intro lid link held
    obtain ⟨old, before, refreshed⟩ := loses.outLinks held
    refine ⟨old, before, ?_⟩
    rw [refreshed]

theorem Loses.linksTo_le (loses : Loses t u) (target : TruncatedHash) :
    u.linksTo target ≤ t.linksTo target := by
  rw [linksTo_eq_count, linksTo_eq_count]
  exact Multiset.count_le_of_le target loses.linkTargets_le

theorem linkTargets_opened {lid : TruncatedHash} {pend : PendingOut}
    (pending : t.pendingOut.get lid = some pend) (key : SessionKey) :
    ({ t with pendingOut := t.pendingOut.remove lid }.insertOutLink lid
      (pend.opened key)).linkTargets ≤ t.linkTargets := by
  have request : t.pendingOut.table.pairs
      = (lid, pend) ::ₘ (t.pendingOut.remove lid).table.pairs :=
    (Table.pairs_erase_of_lookup pending).symm
  have link := Multiset.map_le_map (f := fun e : TruncatedHash × OutLink => e.2.target)
    (Capped.pairs_insert_le MAX_OUT_LINKS lid (pend.opened key) t.outLinks)
  rw [Multiset.map_cons] at link
  simp only [linkTargets, request, Multiset.map_cons]
  -- The destination moves from the one sum to the other.
  refine (add_le_add_right link _).trans_eq ?_
  rw [Multiset.add_cons, Multiset.cons_add]
  rfl

theorem linksTo_perform_le (crypto : Crypto) (t : Transport) (op : Op)
    (other : ∀ target identity ephX25519 ephEd25519 now,
      op ≠ .makeLinkRequest target identity ephX25519 ephEd25519 now) (target : TruncatedHash) :
    (t.perform crypto op).linksTo target ≤ t.linksTo target := by
  rcases (perform_cases t op : _ ∨ Opens crypto t op _) with loses | opens
  · exact loses.linksTo_le target
  · generalize t.perform crypto op = u at opens
    cases opens with
    | requested asked peer ephX25519 ephEd25519 now => exact absurd rfl (other _ _ _ _ _)
    | up decoded pending completed =>
      rw [linksTo_eq_count, linksTo_eq_count]
      exact Multiset.count_le_of_le target (linkTargets_opened pending _)
    | accepted decoded ours fresh established answered => exact le_rfl

theorem pending_count_of_pendingLinkTo (t : Transport) (target : TruncatedHash) (now : Nat)
    (none : (t.pendingLinkTo target now).2 = false) :
    ((t.pendingLinkTo target now).1.pendingOut.table.entries.countP
      fun e => e.2.target = target) = 0 := by
  rw [pendingLinkTo] at none ⊢
  exact List.countP_eq_zero.mpr fun e there => by simpa using List.any_eq_false.mp none e there

theorem out_count_of_outboundLinkFor (t : Transport) (target : TruncatedHash) (now : Nat)
    (none : (t.outboundLinkFor target now).2 = none) :
    (t.outboundLinkFor target now).1.pendingOut = t.pendingOut
      ∧ ((t.outboundLinkFor target now).1.outLinks.table.entries.countP
        fun e => e.2.target = target) = 0 := by
  rw [outboundLinkFor] at none ⊢
  rw [foldl_removeOutLink] at none ⊢
  split at none
  · cases none
  case h_2 missing =>
    exact ⟨rfl, List.countP_eq_zero.mpr fun e there => by
      simpa using List.find?_eq_none.mp missing e there⟩

theorem linksTo_makeLinkRequest_le (crypto : Crypto) (t : Transport) (asked target : TruncatedHash)
    (identity : PublicIdentity) (ephX25519 ephEd25519 : KeyHalf) (now : Nat) :
    (t.makeLinkRequest crypto asked identity ephX25519 ephEd25519 now).1.linksTo target
      ≤ t.linksTo target + if target = asked then 1 else 0 := by
  rw [linksTo_eq_count, linksTo_eq_count, makeLinkRequest]
  dsimp only
  generalize entry : PendingOut.mk asked ephX25519 ephEd25519 identity now _ = pend
  have aimed : pend.target = asked := by rw [← entry]
  have request := Multiset.map_le_map (f := fun e : TruncatedHash × PendingOut => e.2.target)
    (Capped.pairs_insert_le MAX_PENDING_OUT
      (Link.initiateRequest crypto asked ephX25519 ephEd25519).2 pend t.pendingOut)
  rw [Multiset.map_cons] at request
  have whole := Multiset.count_le_of_le target
    (add_le_add_left request (t.outLinks.table.pairs.map fun e => e.2.target))
  rw [Multiset.cons_add, Multiset.count_cons, aimed] at whole
  exact whole

end Transport

open Transport

variable {crypto : Crypto}

theorem linksTo_sendLinkRequest (t : Transport) (asked target : TruncatedHash)
    (identity : PublicIdentity) (now : Nat) (d : Draw) (single : t.linksTo target ≤ 1) :
    (sendLinkRequest crypto t asked identity now d).1.linksTo target ≤ 1 := by
  have pruned := (loses_forgetPendingLinks t (t.expiredPending now)).linksTo_le target
  rw [sendLinkRequest]
  cases asking : t.pendingLinkTo asked now with
  | mk u pending =>
    have first : u.linksTo target ≤ t.linksTo target := by
      rw [pendingLinkTo] at asking
      cases asking
      exact pruned
    dsimp only
    split
    · exact first.trans single
    case isFalse free =>
      have second := (loses_outboundLinkFor u asked now).linksTo_le target
      cases looking : u.outboundLinkFor asked now with
      | mk v link =>
        rw [looking] at second
        dsimp only at second ⊢
        split
        · exact second.trans (first.trans single)
        case isFalse missing =>
          -- No request and no link to the destination is left when the new request is made.
          have noLink : link = none := by simpa using missing
          have requests := pending_count_of_pendingLinkTo t asked now
            (by rw [asking]; simpa using free)
          have links := out_count_of_outboundLinkFor u asked now
            (by rw [looking]; exact noLink)
          rw [asking] at requests
          rw [looking] at links
          have empty : v.linksTo asked = 0 := by
            rw [linksTo, links.1, requests, links.2]
          have made := linksTo_makeLinkRequest_le crypto v asked target identity
            d.ephX25519 d.ephEd25519 now
          have within : (v.makeLinkRequest crypto asked identity d.ephX25519 d.ephEd25519
              now).1.linksTo target ≤ 1 := by
            split at made
            case isTrue same =>
              rw [same, empty] at made
              exact same ▸ made
            case isFalse => omega
          split
          · exact within
          · exact ((loses_forgetPendingLinks _ [_]).linksTo_le target).trans within

variable (crypto) in
/-- One step of a run in which links are only ever asked for through `sendLinkRequest`. -/
inductive Asks (t : Transport) : Transport → Prop
  | request (target : TruncatedHash) (identity : PublicIdentity) (now : Nat) (d : Draw) :
      Asks t (sendLinkRequest crypto t target identity now d).1
  | call (op : Op) (other : ∀ target identity ephX25519 ephEd25519 now,
      op ≠ .makeLinkRequest target identity ephX25519 ephEd25519 now) :
      Asks t (t.perform crypto op)
  | reorder {u : Transport} (same : t.Same u) : Asks t u

theorem Asks.linksTo_le {t u : Transport} (step : Asks crypto t u) (target : TruncatedHash)
    (single : t.linksTo target ≤ 1) : u.linksTo target ≤ 1 := by
  cases step with
  | request asked identity now d => exact linksTo_sendLinkRequest t asked target identity now d single
  | call op other => exact (linksTo_perform_le crypto t op other target).trans single
  | reorder same => exact (same.loses.linksTo_le target).trans single

/-- In every run there is at most one link to each destination, requests and links together. -/
theorem single_link (identity : PrivateIdentity) {t : Transport}
    (run : ReflTransGen (Asks crypto) (.new identity) t) (target : TruncatedHash) :
    t.linksTo target ≤ 1 :=
  reachable_of_keeps (I := fun t => t.linksTo target ≤ 1)
    (fun _ _ single step => step.linksTo_le target single) (Nat.zero_le 1) run

def askSample (t : Transport) (now : Nat) : Transport :=
  (sendLinkRequest Crypto.sample t sampleDest ((sampleIdentity 3).publicIdentity Crypto.sample) now
    { ephX25519 := sampleSeed 7, ephEd25519 := sampleSeed 8, iv := sampleIv, advIv := sampleIv
      r := BytesN.ofBytes 4 [], streamPrefix := BytesN.ofBytes 4 [], sent := true }).1

def askedTwice : Transport :=
  askSample ((askSample (.new (sampleIdentity 1)) 0).perform Crypto.sample
    (.handleFrame (sampleProof (sampleIdentity 3)).encode (sampleSeed 0) .hub)) 1

/-- The link that came up is the only one. -/
theorem single_link_askedTwice :
    askedTwice.linksTo sampleDest = 1 ∧ askedTwice.linksTo sampleDest ≤ 1 := by
  have run : ReflTransGen (Asks Crypto.sample) (.new (sampleIdentity 1)) askedTwice :=
    ((ReflTransGen.single (.request _ _ _ _)).tail
      (.call (.handleFrame _ _ _) fun _ _ _ _ _ same => nomatch same)).tail (.request _ _ _ _)
  exact ⟨by decide +kernel, single_link (sampleIdentity 1) run sampleDest⟩

end LxmfChat
