import LxmfChat.Base.Matching
import LxmfChat.Base.Runs
import LxmfChat.Reticulum.Transport.Runs
import Mathlib.Algebra.Order.Group.Multiset

/-! Delivery confirmations: each is for one registration of its own, and its proof verifies. -/

namespace LxmfChat.Transport

open Base
open Relation (ReflTransGen)

variable {u : Transport} {lid : TruncatedHash} {tx : ResourceSender} {p : Packet}

inductive Side
  | outbound
  | inbound
deriving DecidableEq, Repr

/-- A link that was requested or accepted, with the key the other end proves packets with. -/
structure Opening where
  side : Side
  linkId : TruncatedHash
  key : KeyHalf
deriving DecidableEq, Repr

/-- A sent packet or resource that asks for a confirmation, with what must confirm it. -/
inductive Registration
  | link (side : Side) (hash : FullHash) (linkId : TruncatedHash) (key : KeyHalf)
  | opportunistic (hash : FullHash) (recipient : PublicIdentity)
  | resource (hash : FullHash) (linkId : TruncatedHash) (data : Bytes)
deriving DecidableEq, Repr

structure Confirmation where
  packetHash : FullHash
  packet : Packet
deriving DecidableEq, Repr

def Registration.hash : Registration → FullHash
  | .link _ hash _ _ | .opportunistic hash _ | .resource hash _ _ => hash

/-- Everything a run opened, registered and confirmed, latest first. -/
structure Ledger where
  opened : List Opening
  registered : List Registration
  confirmed : List Confirmation

structure Logged where
  transport : Transport
  ledger : Ledger

variable (crypto : Crypto)

def opening (t : Transport) : Op → Option Opening
  | .makeLinkRequest target peerIdentity ephX25519 ephEd25519 now =>
    some ⟨.outbound, (t.makeLinkRequest crypto target peerIdentity ephX25519 ephEd25519 now).2.2,
      peerIdentity.sigPub⟩
  | .handleFrame raw ephemeral iface =>
    match t.handleFrame crypto raw ephemeral iface with
    | (u, .linkEstablished lid _) =>
      if (t.links.get lid).isNone then
        (u.links.get lid).map fun st => ⟨.inbound, lid, st.peerSigPub⟩
      else none
    | _ => none
  | _ => none

def registration (t : Transport) : Op → Option Registration
  | .makeLinkData linkId plaintext iv => do
    let link ← t.outLinks.get linkId
    let (_, hash) ← (t.makeLinkData crypto linkId plaintext iv).2
    return .link .outbound hash linkId link.identity.sigPub
  | .makeInLinkData linkId plaintext iv => do
    let st ← t.links.get linkId
    let (_, hash) ← (t.makeInLinkData crypto linkId plaintext iv).2
    return .link .inbound hash linkId st.peerSigPub
  | .makeOpportunisticTracked recipientHash recipient ratchet plaintext ephemeralSecret iv =>
    some (.opportunistic (t.makeOpportunisticTracked crypto recipientHash recipient ratchet
      plaintext ephemeralSecret iv).2.2 recipient)
  | .makeLinkResource linkId data r streamPrefix iv advIv => do
    let (_, hash) ← (t.makeLinkResource crypto linkId data r streamPrefix iv advIv).2
    return .resource hash linkId data
  | _ => none

def confirmation (t : Transport) : Op → Option Confirmation
  | .handleFrame raw ephemeral iface =>
    match (t.handleFrame crypto raw ephemeral iface).2, Packet.decode raw with
    | .delivered hash, .ok packet => some ⟨hash, packet⟩
    | _, _ => none
  | _ => none

def Ledger.after (l : Ledger) (t : Transport) (op : Op) : Ledger where
  opened := (opening crypto t op).toList ++ l.opened
  registered := (registration crypto t op).toList ++ l.registered
  confirmed := (confirmation crypto t op).toList ++ l.confirmed

/-- A call, or a hash map that iterates in another order from now on. -/
inductive Step : Logged → Logged → Prop
  | perform (t : Transport) (l : Ledger) (op : Op) :
      Step ⟨t, l⟩ ⟨t.perform crypto op, l.after crypto t op⟩
  | reorder {t u : Transport} (l : Ledger) (same : t.Same u) : Step ⟨t, l⟩ ⟨u, l⟩

def start (identity : PrivateIdentity) : Logged := ⟨new identity, ⟨[], [], []⟩⟩

/-- A signature over a packet hash, alone or after the hash. -/
def SignedOver (key : KeyHalf) (hash : FullHash) (data : Bytes) : Prop :=
  ∃ signature : Signature, (data = signature.val ∨ data = hash.val ++ signature.val)
    ∧ crypto.ed25519Verify key hash.val signature = true

/-- The packet that triggered a confirmation is a proof that verifies for the registration. -/
def Verifies : Registration → Confirmation → Prop
  | .link _ hash linkId key, c => c.packetHash = hash ∧ c.packet.packetType = .proof
      ∧ c.packet.destinationHash = linkId ∧ SignedOver crypto key hash c.packet.data
  | .opportunistic hash recipient, c => c.packetHash = hash ∧ c.packet.packetType = .proof
      ∧ SignedOver crypto recipient.sigPub hash c.packet.data
  | .resource hash linkId data, c => c.packetHash = hash ∧ c.packet.packetType = .proof
      ∧ c.packet.destinationHash = linkId
      ∧ c.packet.data = hash.val ++ (fullHash crypto (data ++ hash.val)).val

/-- No link id was opened on both sides, or with two keys. -/
def Unambiguous (opened : List Opening) : Prop :=
  ∀ a ∈ opened, ∀ b ∈ opened, a.linkId = b.linkId → a = b

variable {crypto}

theorem validateProofSig_iff {key : KeyHalf} {hash : FullHash} {data : Bytes} :
    Link.validateProofSig crypto key hash data = true ↔ SignedOver crypto key hash data := by
  constructor
  · intro valid
    rw [Link.validateProofSig] at valid
    split at valid
    case isTrue explicit =>
      split at valid
      case isTrue => cases valid
      case isFalse same =>
        -- An explicit proof is the hash and then the signature.
        refine ⟨_, .inr ?_, valid⟩
        have front : data.take 32 = hash.val := not_not.mp same
        have back : (data.drop 32).take 64 = data.drop 32 :=
          List.take_of_length_le (by rw [List.length_drop]; omega)
        simp only [BytesN.slice, back, ← front, List.take_append_drop]
    case isFalse =>
      split at valid
      case isFalse => cases valid
      case isTrue implicit =>
        refine ⟨_, .inl ?_, valid⟩
        simp only [BytesN.slice, List.drop_zero]
        exact (List.take_of_length_le (by omega)).symm
  · rintro ⟨signature, form, valid⟩
    rcases form with rfl | rfl
    · rw [Link.validateProofSig, dif_neg (by simp), dif_pos (by simp)]
      convert valid
      exact Subtype.ext (by simp [BytesN.slice])
    · rw [Link.validateProofSig, dif_pos (by simp), if_neg (by simp)]
      convert valid
      exact Subtype.ext (by simp [BytesN.slice])

/-- What a registration leaves behind in the tables. -/
inductive Record
  | link (hash : FullHash) (linkId : TruncatedHash)
  | opportunistic (hash : FullHash) (recipient : PublicIdentity)
  | resource (hash : FullHash) (linkId : TruncatedHash) (expectedProof : FullHash)

def Registration.record (crypto : Crypto) : Registration → Record
  | .link _ hash linkId _ => .link hash linkId
  | .opportunistic hash recipient => .opportunistic hash recipient
  | .resource hash linkId data => .resource hash linkId (fullHash crypto (data ++ hash.val))

def records (t : Transport) : Multiset Record :=
  t.receipts.table.pairs.map (fun e => .link e.1 e.2)
    + t.oppReceipts.table.pairs.map (fun e => .opportunistic e.2.fullHash e.2.identity)
    + t.outResources.pairs.map (fun e => .resource e.2.hash e.1 e.2.expectedProof)

/-- A registration on a link names a link that was opened, with its key. -/
def Registration.OnOpened (opened : List Opening) : Registration → Prop
  | .link side _ linkId key => ⟨side, linkId, key⟩ ∈ opened
  | _ => True

/-- A confirmation names the registration, and verifies for it unless link ids were reused. -/
def Settles (crypto : Crypto) (opened : List Opening) (r : Registration) (c : Confirmation) :
    Prop :=
  r.hash = c.packetHash ∧ (Unambiguous opened → Verifies crypto r c)

/-- Every link in the tables was opened with the key it is held with. -/
structure Keyed (opened : List Opening) (t : Transport) : Prop where
  links : ∀ {lid st}, t.links.get lid = some st → ⟨.inbound, lid, st.peerSigPub⟩ ∈ opened
  pendingOut : ∀ {lid pend}, t.pendingOut.get lid = some pend →
    ⟨.outbound, lid, pend.identity.sigPub⟩ ∈ opened
  outLinks : ∀ {lid link}, t.outLinks.get lid = some link →
    ⟨.outbound, lid, link.identity.sigPub⟩ ∈ opened

/-- What every run keeps true of the transport and its ledger. -/
structure Backed (crypto : Crypto) (s : Logged) : Prop where
  keyed : Keyed s.ledger.opened s.transport
  onOpened : ∀ r ∈ s.ledger.registered, r.OnOpened s.ledger.opened
  matched : Matched (Registration.record crypto) (Settles crypto s.ledger.opened)
    s.transport.records s.ledger.registered s.ledger.confirmed

theorem Keyed.of_loses {opened : List Opening} {t : Transport} (keyed : Keyed opened t)
    (loses : Loses t u) : Keyed opened u where
  links held := by
    obtain ⟨old, there, same⟩ := loses.links held
    have opened := keyed.links there
    rw [same]
    exact opened
  pendingOut held := keyed.pendingOut (loses.pendingOut held)
  outLinks held := by
    obtain ⟨old, there, same⟩ := loses.outLinks held
    have opened := keyed.outLinks there
    rw [same]
    exact opened

theorem Backed.of_loses {t : Transport} {l : Ledger} (backed : Backed crypto ⟨t, l⟩)
    (loses : Loses t u) (fewer : u.records ≤ t.records) : Backed crypto ⟨u, l⟩ where
  keyed := backed.keyed.of_loses loses
  onOpened := backed.onOpened
  matched := backed.matched.of_le fewer

theorem Untouched.records {t : Transport} (same : Untouched t u) : u.records ≤ t.records := by
  rw [Transport.records, Transport.records, same.receipts, same.oppReceipts, same.outResources]

theorem Same.records {t : Transport} (same : t.Same u) : u.records ≤ t.records := by
  rw [Transport.records, Transport.records, same.receipts.1.pairs, same.oppReceipts.1.pairs,
    same.outResources.pairs]

theorem records_removeOutLinks (t : Transport) (lids : List TruncatedHash) :
    (lids.foldl removeOutLink t).records ≤ t.records := by
  rw [foldl_removeOutLink]
  exact add_le_add le_rfl (Multiset.map_le_map (Table.pairs_foldl_erase_le t.outResources lids))

theorem records_outboundLinkFor (t : Transport) (target : TruncatedHash) (now : Nat) :
    (t.outboundLinkFor target now).1.records ≤ t.records := by
  have dropped := records_removeOutLinks t (t.expiredOutLinks now)
  rw [outboundLinkFor]
  generalize (t.expiredOutLinks now).foldl removeOutLink t = u at dropped
  cases u.outLinks.table.entries.find? fun e => e.2.target = target with
  | none => exact dropped
  | some e => exact dropped

theorem records_forgetPendingLinks (t : Transport) (lids : List TruncatedHash) :
    (lids.foldl forgetPendingLink t).records ≤ t.records := by
  rw [foldl_forgetPendingLink]
  exact le_rfl

theorem Unambiguous.of_cons {o : Opening} {opened : List Opening}
    (unambiguous : Unambiguous (o :: opened)) : Unambiguous opened := fun a inA b inB same =>
  unambiguous a (.tail _ inA) b (.tail _ inB) same

theorem Registration.OnOpened.cons {o : Opening} {opened : List Opening} {r : Registration}
    (on : r.OnOpened opened) : r.OnOpened (o :: opened) := by
  cases r with
  | link side hash linkId key => exact .tail _ on
  | opportunistic hash recipient => trivial
  | resource hash linkId data => trivial

theorem Backed.openLink {t : Transport} {l : Ledger} {o : Opening} (backed : Backed crypto ⟨t, l⟩)
    (keyed : Keyed (o :: l.opened) u) (shrinks : u.records ≤ t.records) :
    Backed crypto ⟨u, { l with opened := o :: l.opened }⟩ where
  keyed := keyed
  onOpened r held := (backed.onOpened r held).cons
  matched := (backed.matched.of_le shrinks).imp fun _ _ _ _ settles =>
    ⟨settles.1, fun unambiguous => settles.2 unambiguous.of_cons⟩

theorem Backed.register {t : Transport} {l : Ledger} {r : Registration}
    (backed : Backed crypto ⟨t, l⟩) (keyed : Keyed l.opened u) (on : r.OnOpened l.opened)
    (grows : u.records ≤ r.record crypto ::ₘ t.records) :
    Backed crypto ⟨u, { l with registered := r :: l.registered }⟩ where
  keyed := keyed
  onOpened r' held := by
    rcases List.mem_cons.mp held with rfl | older
    · exact on
    · exact backed.onOpened r' older
  matched := backed.matched.register r grows

theorem Backed.confirm {t : Transport} {l : Ledger} {c : Confirmation} (used : Record)
    (backed : Backed crypto ⟨t, l⟩) (keyed : Keyed l.opened u)
    (uses : used ::ₘ u.records ≤ t.records)
    (settles : ∀ r ∈ l.registered, r.record crypto = used → Settles crypto l.opened r c) :
    Backed crypto ⟨u, { l with confirmed := c :: l.confirmed }⟩ where
  keyed := keyed
  onOpened := backed.onOpened
  matched := backed.matched.confirm used c uses settles

theorem Keyed.proofKey {opened : List Opening} {t : Transport} (keyed : Keyed opened t)
    {sigPub : KeyHalf} (key : t.proofKey lid = some sigPub) :
    ∃ side, ⟨side, lid, sigPub⟩ ∈ opened := by
  rw [Transport.proofKey] at key
  cases out : t.outLinks.get lid with
  | some link =>
    simp only [out, Option.some.injEq] at key
    exact ⟨.outbound, key ▸ keyed.outLinks out⟩
  | none =>
    simp only [out, Option.map_eq_some_iff] at key
    obtain ⟨st, held, rfl⟩ := key
    exact ⟨.inbound, keyed.links held⟩

theorem proofIsValid_data {data : Bytes} (valid : tx.proofIsValid data = true) :
    data = tx.hash.val ++ tx.expectedProof.val := by
  simp only [ResourceSender.proofIsValid, Bool.and_eq_true, beq_iff_eq] at valid
  obtain ⟨⟨-, front⟩, back⟩ := valid
  rw [← front, ← back, List.take_append_drop]

theorem settles_receipt {l : Ledger} {t : Transport} {sigPub : KeyHalf} {ph : FullHash}
    (backed : Backed crypto ⟨t, l⟩) (kind : p.packetType = .proof)
    (key : t.proofKey p.destinationHash = some sigPub)
    (valid : Link.validateProofSig crypto sigPub ph p.data = true) :
    ∀ r ∈ l.registered, r.record crypto = .link ph p.destinationHash →
      Settles crypto l.opened r ⟨ph, p⟩ := by
  intro r held same
  cases r with
  | opportunistic hash recipient => cases same
  | resource hash linkId data => cases same
  | link side hash linkId key' =>
    cases same
    refine ⟨rfl, fun unambiguous => ⟨rfl, kind, rfl, ?_⟩⟩
    -- Both keys were opened under this link id, so they are one key.
    have registered : ⟨side, p.destinationHash, key'⟩ ∈ l.opened := backed.onOpened _ held
    obtain ⟨side', checked⟩ := backed.keyed.proofKey key
    have one := unambiguous _ registered _ checked rfl
    cases one
    exact validateProofSig_iff.mp valid

theorem settles_opportunistic {l : Ledger} {rec : OppReceipt} (kind : p.packetType = .proof)
    (valid : Link.validateProof crypto rec.identity rec.fullHash p.data = true) :
    ∀ r ∈ l.registered, r.record crypto = .opportunistic rec.fullHash rec.identity →
      Settles crypto l.opened r ⟨rec.fullHash, p⟩ := by
  intro r held same
  cases r with
  | link side hash linkId key => cases same
  | resource hash linkId data => cases same
  | opportunistic hash recipient =>
    cases same
    exact ⟨rfl, fun _ => ⟨rfl, kind, validateProofSig_iff.mp valid⟩⟩

theorem settles_resource {l : Ledger} (kind : p.packetType = .proof)
    (valid : tx.proofIsValid p.data = true) :
    ∀ r ∈ l.registered,
      r.record crypto = .resource tx.hash p.destinationHash tx.expectedProof →
      Settles crypto l.opened r ⟨tx.hash, p⟩ := by
  intro r held same
  cases r with
  | link side hash linkId key => cases same
  | opportunistic hash recipient => cases same
  | resource hash linkId data =>
    simp only [Registration.record, Record.resource.injEq] at same
    obtain ⟨rfl, rfl, expected⟩ := same
    refine ⟨rfl, fun _ => ⟨rfl, kind, rfl, ?_⟩⟩
    rw [expected]
    exact proofIsValid_data valid

section Records

variable (t : Transport)

theorem records_removeReceipt {ph : FullHash} (waiting : t.receipts.get ph = some lid) :
    .link ph lid ::ₘ records { t with receipts := t.receipts.remove ph } = t.records := by
  rw [records, records, ← Table.pairs_erase_of_lookup waiting, Multiset.map_cons,
    Multiset.cons_add, Multiset.cons_add]
  rfl

theorem records_removeOpp {trunc : TruncatedHash} {rec : OppReceipt}
    (waiting : t.oppReceipts.get trunc = some rec) :
    .opportunistic rec.fullHash rec.identity
      ::ₘ records { t with oppReceipts := t.oppReceipts.remove trunc } = t.records := by
  rw [records, records, ← Table.pairs_erase_of_lookup waiting, Multiset.map_cons,
    Multiset.add_cons, Multiset.cons_add]
  rfl

theorem records_eraseResource (sending : t.outResources.lookup lid = some tx) :
    .resource tx.hash lid tx.expectedProof
      ::ₘ records { t with outResources := t.outResources.erase lid } = t.records := by
  rw [records, records, ← Table.pairs_erase_of_lookup sending, Multiset.map_cons,
    Multiset.add_cons]

theorem records_insertReceipt (ph : FullHash) (lid : TruncatedHash) :
    records (t.insertReceipt ph lid) ≤ .link ph lid ::ₘ t.records := by
  have grown := Multiset.map_le_map (f := fun e : FullHash × TruncatedHash => Record.link e.1 e.2)
    (t.receipts.pairs_insert_le MAX_RECEIPTS ph lid)
  rw [Multiset.map_cons] at grown
  rw [records, records, ← Multiset.cons_add, ← Multiset.cons_add]
  exact add_le_add (add_le_add grown le_rfl) le_rfl

theorem records_insertOpp (trunc : TruncatedHash) (rec : OppReceipt) :
    records (t.insertOppReceipt trunc rec)
      ≤ .opportunistic rec.fullHash rec.identity ::ₘ t.records := by
  have grown := Multiset.map_le_map
    (f := fun e : TruncatedHash × OppReceipt => Record.opportunistic e.2.fullHash e.2.identity)
    (t.oppReceipts.pairs_insert_le MAX_RECEIPTS trunc rec)
  rw [Multiset.map_cons] at grown
  rw [records, records, ← Multiset.cons_add, ← Multiset.add_cons]
  exact add_le_add (add_le_add le_rfl grown) le_rfl

theorem records_insertResource (lid : TruncatedHash) (tx : ResourceSender) :
    records { t with outResources := t.outResources.insert lid tx }
      ≤ .resource tx.hash lid tx.expectedProof ::ₘ t.records := by
  have grown := Multiset.map_le_map
    (f := fun e : TruncatedHash × ResourceSender => Record.resource e.2.hash e.1 e.2.expectedProof)
    (Table.pairs_insert_le t.outResources lid tx)
  rw [Multiset.map_cons] at grown
  rw [records, records, ← Multiset.add_cons]
  exact add_le_add le_rfl grown

end Records

theorem after_frame {t : Transport} {l : Ledger} {raw : Bytes} {ephemeral : KeyHalf}
    {iface : PathIface} {event : Event} (decoded : Packet.decode raw = .ok p)
    (result : t.handleFrame crypto raw ephemeral iface = (u, event)) :
    l.after crypto t (.handleFrame raw ephemeral iface)
      = match event with
        | .linkEstablished lid _ =>
          { l with opened := (if (t.links.get lid).isNone then
              (u.links.get lid).map fun st => ⟨.inbound, lid, st.peerSigPub⟩
            else none).toList ++ l.opened }
        | .delivered hash => { l with confirmed := ⟨hash, p⟩ :: l.confirmed }
        | _ => l := by
  simp only [Ledger.after, opening, registration, confirmation, result, decoded]
  cases event <;> rfl

theorem Backed.frame {t : Transport} {l : Ledger} {raw : Bytes} {ephemeral : KeyHalf}
    {iface : PathIface} {event : Event} (backed : Backed crypto ⟨t, l⟩)
    (decoded : Packet.decode raw = .ok p)
    (result : t.handleFrame crypto raw ephemeral iface = (u, event))
    (effect : Effect crypto t ephemeral p u event) :
    Backed crypto ⟨u, l.after crypto t (.handleFrame raw ephemeral iface)⟩ := by
  rw [after_frame decoded result]
  cases effect with
  | @linkUp pend key kind context pending completed =>
    -- The link that comes up was opened when it was requested.
    refine ⟨⟨?_, ?_, ?_⟩, backed.onOpened, backed.matched⟩
    · exact backed.keyed.links
    · exact (backed.keyed.of_loses (loses_removePending t p.destinationHash)).pendingOut
    · intro lid link held
      by_cases same : lid = p.destinationHash
      · subst same
        have opened := (Capped.get_insert_self MAX_OUT_LINKS p.destinationHash (pend.opened key)
          t.outLinks).symm.trans held
        cases opened
        exact backed.keyed.pendingOut pending
      · exact backed.keyed.outLinks (Capped.get_of_get_insert same held)
  | linkRefused kind context pending failed =>
    exact backed.of_loses (loses_removePending t p.destinationHash) le_rfl
  | @resourceProven tx kind context sending valid =>
    exact backed.confirm _ ⟨backed.keyed.links, backed.keyed.pendingOut, backed.keyed.outLinks⟩
      (records_eraseResource t sending).le (settles_resource kind valid)
  | @receiptProven sigPub ph kind context key waiting valid =>
    exact backed.confirm _ ⟨backed.keyed.links, backed.keyed.pendingOut, backed.keyed.outLinks⟩
      (records_removeReceipt t waiting).le (settles_receipt backed kind key valid)
  | @oppProven rec kind waiting valid =>
    exact backed.confirm _ ⟨backed.keyed.links, backed.keyed.pendingOut, backed.keyed.outLinks⟩
      (records_removeOpp t waiting).le (settles_opportunistic kind valid)
  | outLinkClosed kind context held named =>
    exact backed.of_loses (loses_removeOutLinks t [p.destinationHash])
      (records_removeOutLinks t [p.destinationHash])
  | identified kind context held decrypted signed =>
    exact backed.of_loses (loses_identify t p.destinationHash _) le_rfl
  | inLinkClosed kind context held named =>
    exact backed.of_loses (loses_forgetLink t p.destinationHash) le_rfl
  | learned kind valid => exact backed.of_loses (untouched_learn t _ _ _).loses le_rfl
  | @repeated st kind ours held =>
    simp only [held, Option.isNone_some]
    exact backed
  | @accepted est kind ours fresh established =>
    rw [Link.acceptRequest_linkId crypto established] at fresh
    have held := Capped.get_insert_self MAX_LINKS est.linkId est.opened t.links
    simp only [fresh, insertLink, held, Option.isNone_none, if_true, Option.map_some,
      Option.toList_some, List.singleton_append]
    refine backed.openLink ⟨?_, ?_, ?_⟩ le_rfl
    · intro lid st found
      by_cases same : lid = est.linkId
      · subst same
        cases held.symm.trans found
        exact .head _
      · exact .tail _ (backed.keyed.links (Capped.get_of_get_insert same found))
    · exact fun found => .tail _ (backed.keyed.pendingOut found)
    · exact fun found => .tail _ (backed.keyed.outLinks found)
  | quiet inert =>
    cases event <;> first | exact backed | exact inert.elim

theorem Backed.linkData {t : Transport} {l : Ledger} {side : Side} {key : KeyHalf}
    (hash : FullHash) (backed : Backed crypto ⟨t, l⟩) (opened : ⟨side, lid, key⟩ ∈ l.opened) :
    Backed crypto ⟨t.insertReceipt hash lid,
      { l with registered := .link side hash lid key :: l.registered }⟩ :=
  backed.register ⟨backed.keyed.links, backed.keyed.pendingOut, backed.keyed.outLinks⟩ opened
    (records_insertReceipt t hash lid)

theorem Backed.linkRequest {t : Transport} {l : Ledger} (target : TruncatedHash)
    (peerIdentity : PublicIdentity) (ephX25519 ephEd25519 : KeyHalf) (now : Nat)
    (backed : Backed crypto ⟨t, l⟩) :
    Backed crypto ⟨(t.makeLinkRequest crypto target peerIdentity ephX25519 ephEd25519 now).1,
      { l with opened := ⟨.outbound,
          (t.makeLinkRequest crypto target peerIdentity ephX25519 ephEd25519 now).2.2,
          peerIdentity.sigPub⟩ :: l.opened }⟩ := by
  refine backed.openLink ⟨?_, ?_, ?_⟩ le_rfl
  · exact fun held => .tail _ (backed.keyed.links held)
  · intro lid pend held
    simp only [makeLinkRequest] at held ⊢
    by_cases same : lid = (Link.initiateRequest crypto target ephX25519 ephEd25519).2
    · subst same
      have pending := (Capped.get_insert_self MAX_PENDING_OUT _ _ t.pendingOut).symm.trans held
      cases pending
      exact .head _
    · exact .tail _ (backed.keyed.pendingOut (Capped.get_of_get_insert same held))
  · exact fun held => .tail _ (backed.keyed.outLinks held)

theorem Backed.perform {t : Transport} {l : Ledger} (backed : Backed crypto ⟨t, l⟩) (op : Op) :
    Backed crypto ⟨t.perform crypto op, l.after crypto t op⟩ := by
  cases op with
  | dropPathsOn iface =>
    exact backed.of_loses (Untouched.loses ⟨rfl, rfl, rfl, rfl, rfl, rfl⟩) le_rfl
  | expirePath hash =>
    have same := untouched_expirePath t hash
    exact backed.of_loses same.loses same.records
  | registerDestination hash =>
    have same := untouched_registerDestination t hash
    exact backed.of_loses same.loses same.records
  | remember hash info =>
    exact backed.of_loses (Untouched.loses ⟨rfl, rfl, rfl, rfl, rfl, rfl⟩) le_rfl
  | handleFrame raw ephemeral iface =>
    rcases handleFrame_cases t raw ephemeral iface with ⟨p, decoded, effect⟩ | ⟨reason, result⟩
    · exact backed.frame decoded rfl effect
    · -- A frame that does not decode is dropped.
      simp only [Transport.perform, Ledger.after, opening, registration, confirmation, result]
      exact backed
  | makeOpportunisticTracked recipientHash recipient ratchet plaintext ephemeralSecret iv =>
    exact backed.register ⟨backed.keyed.links, backed.keyed.pendingOut, backed.keyed.outLinks⟩
      trivial (records_insertOpp t _ _)
  | makeLinkRequest target peerIdentity ephX25519 ephEd25519 now =>
    exact backed.linkRequest target peerIdentity ephX25519 ephEd25519 now
  | outboundLinkFor target now =>
    exact backed.of_loses (loses_outboundLinkFor t target now)
      (records_outboundLinkFor t target now)
  | pendingLinkTo target now =>
    exact backed.of_loses (loses_forgetPendingLinks t _) (records_forgetPendingLinks t _)
  | dropOutLink linkId =>
    exact backed.of_loses (loses_removeOutLinks t [linkId]) (records_removeOutLinks t [linkId])
  | forgetPendingLink linkId =>
    exact backed.of_loses (loses_forgetPendingLinks t [linkId])
      (records_forgetPendingLinks t [linkId])
  | connectionReset =>
    exact backed.of_loses (loses_connectionReset t) (Multiset.zero_le _)
  | makeLinkData linkId plaintext iv =>
    cases held : t.outLinks.get linkId with
    | none =>
      simp only [Transport.perform, Ledger.after, opening, registration, confirmation,
        makeLinkData, held]
      exact backed
    | some link =>
      simp only [Transport.perform, Ledger.after, opening, registration, confirmation,
        makeLinkData, held, registerLinkData_eq]
      exact backed.linkData _ (backed.keyed.outLinks held)
  | makeInLinkData linkId plaintext iv =>
    cases held : t.links.get linkId with
    | none =>
      simp only [Transport.perform, Ledger.after, opening, registration, confirmation,
        makeInLinkData, held]
      exact backed
    | some st =>
      cases identified : st.peerIdentity with
      | none =>
        simp only [Transport.perform, Ledger.after, opening, registration, confirmation,
          makeInLinkData, held, identified]
        exact backed
      | some peer =>
        simp only [Transport.perform, Ledger.after, opening, registration, confirmation,
          makeInLinkData, held, identified, registerLinkData_eq]
        exact backed.linkData _ (backed.keyed.links held)
  | makeLinkResource linkId data r streamPrefix iv advIv =>
    cases held : t.anyLinkKey linkId with
    | none =>
      simp only [Transport.perform, Ledger.after, opening, registration, confirmation,
        makeLinkResource, held]
      exact backed
    | some key =>
      obtain ⟨tx, adv, built, result⟩ :=
        makeLinkResource_eq crypto held data r streamPrefix iv advIv
      simp only [Transport.perform, Ledger.after, opening, registration, confirmation, result]
      exact backed.register ⟨backed.keyed.links, backed.keyed.pendingOut, backed.keyed.outLinks⟩
        trivial (built ▸ records_insertResource t linkId tx)

theorem Step.backed {s s' : Logged} (backed : Backed crypto s) (step : Step crypto s s') :
    Backed crypto s' := by
  cases step with
  | perform t l op => exact backed.perform op
  | reorder l same => exact backed.of_loses same.loses same.records

theorem start_backed (identity : PrivateIdentity) : Backed crypto (start identity) where
  keyed := ⟨fun held => (nomatch held), fun held => (nomatch held), fun held => (nomatch held)⟩
  onOpened _ held := nomatch held
  matched := .nil

/--
Confirmations are at most as many as registrations, for every hash.

Where no link id is opened twice, each is triggered by a proof that verifies for a registration
of its own.
-/
theorem confirmations_sound (identity : PrivateIdentity) {s : Logged}
    (run : ReflTransGen (Step crypto) (start identity) s) :
    (∀ h, s.ledger.confirmed.countP (·.packetHash = h) ≤ s.ledger.registered.countP (·.hash = h))
    ∧ (Unambiguous s.ledger.opened →
        ∃ matched : Multiset Registration, matched ≤ s.ledger.registered
          ∧ Multiset.Rel (Verifies crypto) matched s.ledger.confirmed) := by
  have backed : Backed crypto s :=
    reachable_of_keeps (fun _ _ backed step => step.backed backed) (start_backed identity) run
  constructor
  · intro h
    have counted := backed.matched.countP_le (fun _ _ settles => settles.1) h
    simpa only [Multiset.coe_countP] using counted
  · intro unambiguous
    obtain ⟨matched, within, pairs⟩ := backed.matched.exists_matched
    exact ⟨matched, within, pairs.mono fun _ _ _ _ settles => settles.2 unambiguous⟩

def performAll (crypto : Crypto) (s : Logged) (ops : List Op) : Logged :=
  ops.foldl (fun s op => ⟨s.transport.perform crypto op, s.ledger.after crypto s.transport op⟩) s

theorem performAll_run (s : Logged) (ops : List Op) :
    ReflTransGen (Step crypto) s (performAll crypto s ops) := by
  induction ops generalizing s with
  | nil => exact .refl
  | cons op rest ih => exact .head (.perform s.transport s.ledger op) (ih _)

section Samples

def sampleSeed (byte : UInt8) : KeyHalf := BytesN.ofBytes 32 [byte]

def sampleIdentity (byte : UInt8) : PrivateIdentity := ⟨sampleSeed byte, sampleSeed (byte + 1)⟩

def sampleDest : TruncatedHash := BytesN.ofBytes 16 [0x42]

def sampleIv : Iv := BytesN.ofBytes 16 []

def sampleRequest : Packet :=
  Link.requestPacket Crypto.sample sampleDest (sampleSeed 7) (sampleSeed 8)

def sampleLink : TruncatedHash := Link.linkId Crypto.sample sampleRequest

def sampleProof (responder : PrivateIdentity) : Packet :=
  Link.proofPacket Crypto.sample sampleRequest responder (sampleSeed 9)

def sampleData : Packet :=
  linkDataPacket Crypto.sample sampleLink
    (Link.sessionKey Crypto.sample sampleLink (sampleSeed 7) (Crypto.sample.x25519Base (sampleSeed 9)))
    [1, 2, 3] sampleIv

def peerRun : List Op :=
  [ .makeLinkRequest sampleDest ((sampleIdentity 3).publicIdentity Crypto.sample)
      (sampleSeed 7) (sampleSeed 8) 0,
    .handleFrame (sampleProof (sampleIdentity 3)).encode (sampleSeed 0) .hub,
    .makeLinkData sampleLink [1, 2, 3] sampleIv,
    .handleFrame (Link.provePacket Crypto.sample (sampleIdentity 3) sampleLink sampleData)
      (sampleSeed 0) .hub ]

/--
A node opens a link to a destination of its own and receives all its own frames.

It sends a data packet on the link as its initiator, proves that packet as the initiator, and
drops the outbound link before the proof comes back.
-/
def selfRun : List Op :=
  [ .registerDestination sampleDest,
    .makeLinkRequest sampleDest ((sampleIdentity 1).publicIdentity Crypto.sample)
      (sampleSeed 7) (sampleSeed 8) 0,
    .handleFrame sampleRequest.encode (sampleSeed 9) .auto,
    .handleFrame (sampleProof (sampleIdentity 1)).encode (sampleSeed 0) .auto,
    .makeLinkData sampleLink [1, 2, 3] sampleIv,
    .handleFrame sampleData.encode (sampleSeed 0) .auto,
    .dropOutLink sampleLink,
    .handleFrame (Link.provePacketEphemeral Crypto.sample (sampleSeed 8) sampleLink sampleData)
      (sampleSeed 0) .auto ]

def selfRunEnd : Logged := performAll Crypto.sample (start (sampleIdentity 1)) selfRun

def missigned (crypto : Crypto) (r : Registration) (c : Confirmation) : Bool :=
  match r with
  | .link _ hash _ key => !Link.validateProofSig crypto key hash c.packet.data
  | _ => false

theorem not_verifies_of_missigned {r : Registration} {c : Confirmation}
    (wrong : missigned crypto r c = true) : ¬ Verifies crypto r c := by
  cases r with
  | opportunistic hash recipient => cases wrong
  | resource hash linkId data => cases wrong
  | link side hash linkId key =>
    rintro ⟨-, -, -, signed⟩
    have valid := validateProofSig_iff.mpr signed
    simp [missigned, valid] at wrong

/--
A packet of the run is confirmed by a signature of the initiator's ephemeral key.

It was registered on the outbound side, where the responder's identity key must sign.
-/
theorem self_link_missigned :
    ∃ s, ReflTransGen (Step Crypto.sample) (start (sampleIdentity 1)) s
      ∧ ¬ ∃ matched : Multiset Registration, matched ≤ s.ledger.registered
        ∧ Multiset.Rel (Verifies Crypto.sample) matched s.ledger.confirmed := by
  refine ⟨selfRunEnd, performAll_run _ _, ?_⟩
  rintro ⟨matched, within, pairs⟩
  have one : selfRunEnd.ledger.confirmed.length = 1 := by decide +kernel
  have wrong : (selfRunEnd.ledger.registered.all fun r =>
      selfRunEnd.ledger.confirmed.all (missigned Crypto.sample r)) = true := by decide +kernel
  obtain ⟨c, confirmed⟩ := List.exists_mem_of_length_pos (by rw [one]; exact Nat.one_pos)
  -- The confirmation would have to be matched with one of the registrations.
  obtain ⟨r, chosen, verified⟩ :=
    Multiset.exists_mem_of_rel_of_mem (Multiset.rel_flip.mpr pairs) (Multiset.mem_coe.mpr confirmed)
  have registered : r ∈ selfRunEnd.ledger.registered :=
    Multiset.mem_coe.mp (Multiset.mem_of_le within chosen)
  have missed := List.all_eq_true.mp (List.all_eq_true.mp wrong r registered) c confirmed
  exact not_verifies_of_missigned missed verified

/-- The packet sent to a peer is confirmed once, by a proof that verifies. -/
theorem confirmations_sound_peerRun :
    (performAll Crypto.sample (start (sampleIdentity 1)) peerRun).ledger.confirmed.length = 1
    ∧ ∃ matched : Multiset Registration,
        matched ≤ (performAll Crypto.sample (start (sampleIdentity 1)) peerRun).ledger.registered
        ∧ Multiset.Rel (Verifies Crypto.sample) matched
          (performAll Crypto.sample (start (sampleIdentity 1)) peerRun).ledger.confirmed := by
  refine ⟨by decide +kernel, ?_⟩
  refine (confirmations_sound (sampleIdentity 1) (performAll_run _ peerRun)).2 ?_
  rw [Unambiguous]
  decide +kernel

end Samples

end LxmfChat.Transport
