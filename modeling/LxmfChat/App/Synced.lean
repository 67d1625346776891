import LxmfChat.App.Anonymity

/-! What a sync has the node delete: every message it was sent, read or not. -/

namespace LxmfChat

open Base

/-- A message of the node that decrypts and parses; who is known has no part in it. -/
def Readable (crypto : Crypto) (t : Transport) (blob : Bytes) : Prop :=
  16 < blob.length ∧ ∃ plaintext, t.identity.decrypt crypto (blob.drop 16) [] = .ok plaintext
    ∧ ∃ m, Message.parse crypto (blob.take 16 ++ plaintext) none = .ok m

/-- What became of a message says that it is posted, held, or was before. -/
def Settles (outcome : Bytes × Option Reception) : Prop :=
  ∃ reception, outcome.2 = some reception ∧ reception.Settled

namespace Inbox

variable {crypto : Crypto} {t : Transport} {now : Nat} {inbox : Inbox}

theorem settled_deliverLxmf_iff {lxmfBytes : Bytes} {live : Bool} :
    (deliverLxmf crypto t now lxmfBytes live inbox).2.Settled
      ↔ ∃ m, Message.parse crypto lxmfBytes none = .ok m := by
  constructor
  · intro settled
    obtain ⟨src, -, parsed⟩ := deliverLxmf_settled settled
    exact (Message.exists_parse_iff crypto lxmfBytes none).mpr
      ((Message.exists_parse_iff crypto lxmfBytes _).mp parsed)
  · intro parsed
    have readable := (Message.exists_parse_iff crypto lxmfBytes none).mp parsed
    -- A message has room for its header, and with it for both hashes.
    have long : 2 * 16 ≤ lxmfBytes.length := le_trans (by decide) readable.1
    exact settled_deliverLxmf long fun identity =>
      (Message.exists_parse_iff crypto lxmfBytes identity).mpr readable

theorem settles_deliverSyncedMessage_iff {blob : Bytes} :
    Settles (blob, (deliverSyncedMessage crypto t now blob inbox).2) ↔ Readable crypto t blob := by
  rw [deliverSyncedMessage, Settles, Readable]
  split
  case isTrue short =>
    refine ⟨(fun ⟨_, absent, _⟩ => nomatch absent), fun ⟨long, _⟩ => absurd short (by omega)⟩
  case isFalse long =>
    have longer : 16 < blob.length := by omega
    split
    case h_1 reason failed =>
      refine ⟨(fun ⟨_, absent, _⟩ => nomatch absent), fun ⟨_, plaintext, decrypted, _⟩ => ?_⟩
      rw [failed] at decrypted
      cases decrypted
    case h_2 plaintext decrypted =>
      constructor
      · rintro ⟨reception, same, settled⟩
        cases same
        exact ⟨longer, plaintext, decrypted, settled_deliverLxmf_iff.mp settled⟩
      · rintro ⟨-, plaintext', decrypted', parsed⟩
        cases decrypted.symm.trans decrypted'
        exact ⟨_, rfl, settled_deliverLxmf_iff.mpr parsed⟩

theorem deliverSynced_some {blobs : List Bytes} {after : Inbox}
    {outcomes : List (Bytes × Option Reception)}
    (delivered : inbox.deliverSynced crypto t now blobs = (after, some outcomes)) :
    outcomes.map (·.1) = blobs
      ∧ ((∀ outcome ∈ outcomes, Settles outcome) ↔ ∀ blob ∈ blobs, Readable crypto t blob) := by
  induction blobs generalizing inbox outcomes with
  | nil =>
    cases delivered
    simp
  | cons blob rest ih =>
    have first := @settles_deliverSyncedMessage_iff crypto t now inbox blob
    rw [deliverSynced] at delivered
    generalize inbox.deliverSyncedMessage crypto t now blob = result at first delivered
    obtain ⟨inbox', reception⟩ := result
    split at delivered
    case h_1 => cases delivered
    case h_2 _ _ _ same =>
      cases same
      dsimp only at delivered
      -- The rest is delivered into what the first left behind.
      cases more : deliverSynced crypto t now rest inbox' with
      | mk after' outcomes' =>
        rw [more] at delivered
        obtain ⟨rfl, some⟩ := Prod.mk.inj delivered
        obtain ⟨later, there, rfl⟩ := Option.map_eq_some_iff.mp some
        subst there
        obtain ⟨blobs, settled⟩ := ih more
        refine ⟨by rw [List.map_cons, blobs], ?_⟩
        rw [List.forall_mem_cons, List.forall_mem_cons, settled, first]

end Inbox

namespace Client

variable (cfg : ClientConfig)

theorem log_syncFinish (c : Client) : c.syncFinish.log = c.log := by
  rw [syncFinish, dropLink.eq_def]
  split <;> rfl

theorem log_syncDownloaded {cfg : ClientConfig} {c : Client} {lid : TruncatedHash}
    {blobs : List Bytes} {d : ClientDraw} {inbox : Inbox}
    {outcomes : List (Bytes × Option Reception)}
    (delivered : c.inbox.deliverSynced cfg.crypto c.transport c.clock blobs
      = (inbox, some outcomes)) :
    ∃ packet, (c.syncDownloaded cfg lid blobs d).log = c.log
      ++ if blobs = [] then []
        else [.request .sync lid (.confirm (blobs.map (fullHash cfg.crypto))) packet] := by
  refine ⟨makeRequest cfg.crypto c.transport lid c.clock
    (.confirm (blobs.map (fullHash cfg.crypto))) d.iv, ?_⟩
  rw [syncDownloaded, delivered]
  dsimp only
  rw [log_syncFinish]
  cases blobs with
  | nil => simp
  | cons blob rest => rfl

/--
Every id that the node is told to delete belongs to a message that was settled, exactly when
every message it sent can be read.

The ids are those of all the messages, whatever became of them.
-/
theorem confirmed_settled_iff (c : Client) (lid : TruncatedHash) (elements : List Value)
    (d : ClientDraw) (waiting : c.sync.phase = .getRequested) (inbox : Inbox)
    (outcomes : List (Bytes × Option Reception))
    (delivered : c.inbox.deliverSynced cfg.crypto c.transport c.clock
      (elements.filterMap Value.asBin) = (inbox, some outcomes)) :
    (∀ haves packet, Emission.request .sync lid (.confirm haves) packet
        ∈ (c.handleSyncResponse cfg lid (.array elements) d).log.drop c.log.length →
      List.Forall₂ (fun id outcome => id = fullHash cfg.crypto outcome.1 ∧ Settles outcome)
        haves outcomes)
    ↔ ∀ blob ∈ elements.filterMap Value.asBin, Readable cfg.crypto c.transport blob := by
  have handled : c.handleSyncResponse cfg lid (.array elements) d
      = c.syncDownloaded cfg lid (elements.filterMap Value.asBin) d := by
    rw [handleSyncResponse, waiting]
    · rfl
    · exact fun _ same => nomatch same
  obtain ⟨packet, log⟩ := @log_syncDownloaded cfg c lid _ d inbox outcomes delivered
  obtain ⟨blobs, settled⟩ := Inbox.deliverSynced_some delivered
  generalize elements.filterMap Value.asBin = sent at *
  rw [handled, log, List.drop_left]
  subst blobs
  rw [← settled]
  constructor
  · -- The request that is sent names the messages in order, so each of them was settled.
    intro confirmed outcome there
    have some : outcomes.map (·.1) ≠ [] := by
      rw [Ne, List.map_eq_nil_iff]
      exact List.ne_nil_of_mem there
    have all := confirmed _ packet (by rw [if_neg some]; exact List.mem_singleton_self _)
    rw [List.map_map, List.forall₂_map_left_iff, List.forall₂_same] at all
    exact (all outcome there).2
  · -- Nothing else is sent, and its ids are those of the messages.
    intro all haves packet' there
    split at there
    · cases there
    · cases List.mem_singleton.mp there
      rw [List.map_map, List.forall₂_map_left_iff, List.forall₂_same]
      exact fun outcome there => ⟨rfl, all outcome there⟩

open Transport LxmfChat.System

def sampleStore : TruncatedHash :=
  singleDestinationHash sampleCrypto "lxmf" ["propagation"] ((sampleIdentity 5).hash sampleCrypto)

def sampleLinkPacket (target : TruncatedHash) (context : UInt8) (plaintext : Bytes) : Packet :=
  let lid := sampleDraw.linkTo sampleCrypto target
  let key := Link.sessionKey sampleCrypto lid (sampleSeed 7) (sampleCrypto.x25519Base (sampleSeed 9))
  Packet.header1 .link .data context lid
    ((Token.ofSessionKey key).encryptWithIv sampleCrypto plaintext sampleIv)

def sampleId (target : TruncatedHash) (asked : Asked) : Bytes :=
  ((sampleLinkPacket target CONTEXT_REQUEST (asked.payload sampleCrypto 0)).truncatedHash
    sampleCrypto).val

def sampleAnswer (target : TruncatedHash) (asked : Asked) (response : Value) : ClientAction :=
  .frame (sampleLinkPacket target CONTEXT_RESPONSE
    (Msgpack.encode (.array [.bin (sampleId target asked), response]))).encode (sampleSeed 0) .hub

def listRun : List ClientAction :=
  [ .frame (nodeAnnounce "lxmf" ["propagation"]) (sampleSeed 0) .hub, .syncTick sampleDraw,
    .frame (linkProof sampleStore) (sampleSeed 0) .hub, .handle 1 sampleDraw ]

def downloadRun : List ClientAction :=
  listRun ++ [sampleAnswer sampleStore .list (.array [.bin [1]]), .handle 1 sampleDraw]

def syncedRun (blob : Bytes) : List ClientAction :=
  downloadRun ++ [sampleAnswer sampleStore (.download [.bin [1]]) (.array [.bin blob]),
    .handle 1 sampleDraw]

def confirmed (c : Client) : List (List FullHash) :=
  c.log.filterMap fun
    | .request _ _ (.confirm haves) _ => some haves
    | _ => none

def sampleNoise : Bytes := List.replicate 20 7

/-- The node deletes what could not be read. -/
theorem unreadable_message_deleted :
    (sampleEnd (some sampleStore) (syncedRun sampleNoise)).confirmed
        = [[fullHash sampleCrypto sampleNoise]]
      ∧ ¬ Readable sampleCrypto (sampleEnd (some sampleStore) downloadRun).transport sampleNoise
      ∧ (sampleEnd (some sampleStore) (syncedRun sampleNoise)).inbox.posts = []
      ∧ (sampleEnd (some sampleStore) (syncedRun sampleNoise)).inbox.pending.keys = [] := by
  refine ⟨by decide +kernel, ?_, by decide +kernel, by decide +kernel⟩
  rintro ⟨-, plaintext, decrypted, -⟩
  -- What follows the destination is too short for a token.
  have failed : ((sampleEnd (some sampleStore) downloadRun).transport.identity.decrypt sampleCrypto
      (sampleNoise.drop 16) []).toOption = none := by decide +kernel
  rw [decrypted] at failed
  cases failed

def sampleKept : Bytes :=
  (System.sampleConfig none).ourDh.val
    ++ ((sampleIdentity 1).publicIdentity sampleCrypto).encrypt sampleCrypto
      ((Inbox.sampleMessage (System.sampleConfig none).ourDh).drop 16) (sampleSeed 4) sampleIv none

theorem confirmed_settled_iff_kept :
    ∃ inbox outcomes, (sampleEnd (some sampleStore) downloadRun).inbox.deliverSynced sampleCrypto
        (sampleEnd (some sampleStore) downloadRun).transport
        (sampleEnd (some sampleStore) downloadRun).clock [sampleKept] = (inbox, some outcomes)
      ∧ ∀ haves packet, Emission.request .sync (sampleDraw.linkTo sampleCrypto sampleStore)
          (.confirm haves) packet
            ∈ ((sampleEnd (some sampleStore) downloadRun).handleSyncResponse
              (sampleConfig (some sampleStore)) (sampleDraw.linkTo sampleCrypto sampleStore)
              (.array [.bin sampleKept]) sampleDraw).log.drop
                (sampleEnd (some sampleStore) downloadRun).log.length →
        List.Forall₂ (fun id outcome => id = fullHash sampleCrypto outcome.1 ∧ Settles outcome)
          haves outcomes := by
  have phase : (sampleEnd (some sampleStore) downloadRun).sync.phase = .getRequested := by
    decide +kernel
  have settled : (Inbox.deliverSyncedMessage sampleCrypto
      (sampleEnd (some sampleStore) downloadRun).transport
      (sampleEnd (some sampleStore) downloadRun).clock sampleKept
      (sampleEnd (some sampleStore) downloadRun).inbox).2.map (fun r => decide r.Settled)
        = some true := by decide +kernel
  have whole : ((sampleEnd (some sampleStore) downloadRun).inbox.deliverSynced sampleCrypto
      (sampleEnd (some sampleStore) downloadRun).transport
      (sampleEnd (some sampleStore) downloadRun).clock [sampleKept]).2.isSome = true := by
    decide +kernel
  generalize sampleEnd (some sampleStore) downloadRun = c at phase settled whole ⊢
  generalize sampleKept = kept at settled whole ⊢
  obtain ⟨reception, there, settles⟩ := Option.map_eq_some_iff.mp settled
  have readable : Readable sampleCrypto c.transport kept :=
    Inbox.settles_deliverSyncedMessage_iff.mp ⟨reception, there, of_decide_eq_true settles⟩
  obtain ⟨outcomes, some⟩ := Option.isSome_iff_exists.mp whole
  have delivered : c.inbox.deliverSynced sampleCrypto c.transport c.clock [kept]
      = ((c.inbox.deliverSynced sampleCrypto c.transport c.clock [kept]).1,
        Option.some outcomes) := Prod.ext rfl some
  refine ⟨_, outcomes, delivered, ?_⟩
  refine (confirmed_settled_iff (sampleConfig (Option.some sampleStore)) c _ [.bin kept]
    sampleDraw phase _ outcomes delivered).mpr ?_
  intro blob there
  cases List.mem_singleton.mp there
  exact readable

end Client

end LxmfChat
