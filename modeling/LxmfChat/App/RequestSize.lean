import LxmfChat.App.Answers

/-! How long the packet of a request is: there is no fallback for one that does not fit. -/

namespace LxmfChat

open Base

namespace Msgpack

theorem length_countHead (fixed short long : UInt8) (n : Nat) :
    (countHead fixed short long n).length = if n < 16 then 1 else if n ≤ 0xffff then 3 else 5 := by
  rw [countHead]
  split
  · rfl
  · split <;> rw [List.length_cons, beBytes_length]

theorem length_encode_bin {b : Bytes} (short : b.length ≤ 0xff) :
    (encode (.bin b)).length = b.length + 2 := by
  rw [encode, binHead, if_pos short]
  simp only [List.length_append, List.length_cons, List.length_nil]
  omega

theorem length_encode_array (a : List Value) :
    (encode (.array a)).length
      = (arrayHead a.length).length + (a.map fun v => (encode v).length).sum := by
  rw [encode, items_eq_flatMap, List.length_append, List.length_flatMap]

theorem length_encode_hashes (hashes : List FullHash) :
    (encode (.array (hashes.map fun id => .bin id.val))).length
      = (arrayHead hashes.length).length + 34 * hashes.length := by
  have each : ∀ id ∈ hashes, (encode (.bin id.val)).length = 34 := by
    intro id _
    rw [length_encode_bin (by rw [BytesN.length_val]; decide), BytesN.length_val]
  have lengths : (hashes.map fun id => Value.bin id.val).map (fun v => (encode v).length)
      = hashes.map fun _ => 34 := by
    rw [List.map_map]
    exact List.map_congr_left each
  rw [length_encode_array, List.length_map, lengths, List.map_const', List.sum_replicate_nat,
    Nat.mul_comm]

end Msgpack

namespace Asked

def packetLength (asked : Asked) : Nat :=
  19 + 48 + 16 * ((28 + (Msgpack.encode asked.data).length) / 16 + 1)

/--
What fits a packet.

The list of messages always does, and a page without variables.
-/
def Fits : Asked → Prop
  | .list => True
  | .download ids => (Msgpack.encode (.array ids)).length ≤ 399
  | .confirm haves => haves.length ≤ 11
  | .page addr => addr.vars = [] ∨ (Msgpack.encode (Asked.page addr).data).length ≤ 403

theorem length_payload (crypto : Crypto) (now : Nat) (asked : Asked) :
    (asked.payload crypto now).length = 28 + (Msgpack.encode asked.data).length := by
  have hash : (Msgpack.encode
      (.bin (truncatedHash crypto (utf8Encode asked.path)).val)).length = 18 := by
    rw [Msgpack.length_encode_bin (by rw [BytesN.length_val]; decide), BytesN.length_val]
  have time : (Msgpack.encode (.f64 (Double.ofNat now))).length = 9 := by
    rw [Msgpack.encode, List.length_cons, BytesN.length_val]
  rw [payload, Msgpack.length_encode_array]
  simp only [List.map_cons, List.map_nil, List.sum_cons, List.sum_nil, hash, time]
  show 1 + _ = _
  omega

theorem packetLength_le_iff (asked : Asked) :
    asked.packetLength ≤ MTU ↔ (Msgpack.encode asked.data).length ≤ 403 := by
  rw [packetLength, MTU]
  omega

theorem fits_iff (asked : Asked) : asked.packetLength ≤ MTU ↔ asked.Fits := by
  rw [packetLength_le_iff]
  cases asked with
  | list =>
    have small : (Msgpack.encode Asked.list.data).length = 3 := by decide
    simp only [Fits, small]
    decide
  | download ids =>
    -- Around the ids stand a head, an empty list and the limit.
    have limit : (Msgpack.encode (.int SYNC_DELIVERY_LIMIT)).length = 2 := by decide
    have none : (Msgpack.encode (.array [])).length = 1 := by decide
    rw [data, Msgpack.length_encode_array]
    simp only [List.map_cons, List.map_nil, List.sum_cons, List.sum_nil, limit, none, Fits]
    show 1 + _ ≤ _ ↔ _
    omega
  | confirm haves =>
    -- Around the hashes stand a head and what is not asked for.
    have none : (Msgpack.encode .nil).length = 1 := rfl
    rw [data, Msgpack.length_encode_array]
    simp only [List.map_cons, List.map_nil, List.sum_cons, List.sum_nil, none, Fits,
      Msgpack.length_encode_hashes, Msgpack.arrayHead, Msgpack.length_countHead]
    show 1 + _ ≤ _ ↔ _
    split <;> omega
  | page addr =>
    simp only [Fits]
    refine ⟨.inr, ?_⟩
    rintro (none | short)
    · simp [data, none, Msgpack.encode]
    · exact short

end Asked

theorem length_makeRequest {crypto : Crypto} (pads : crypto.CbcPads) {t : Transport}
    {lid : TruncatedHash} {now : Nat} {asked : Asked} {iv : Iv} {raw : Bytes}
    (made : makeRequest crypto t lid now asked iv = some raw) :
    raw.length = asked.packetLength := by
  rw [makeRequest, Transport.makeOutLinkContext] at made
  obtain ⟨link, -, packet⟩ := Option.bind_eq_some_iff.mp made
  have sent := Link.makeLinkContextPacket_eq crypto lid link.key CONTEXT_REQUEST
    (asked.payload crypto now) iv
  rw [sent] at packet
  cases packet
  rw [Link.length_makeLinkContextPacket crypto pads sent, Asked.length_payload, Asked.packetLength]
  omega

namespace Client

variable {cfg : ClientConfig}

theorem length_sendRequest (pads : cfg.crypto.CbcPads) {c : Client} {who who' : Purpose}
    {lid lid' : TruncatedHash} {asked asked' : Asked} {iv : Iv} {raw : Bytes}
    (sent : .request who' lid' asked' (some raw)
      ∈ (c.sendRequest cfg who lid asked iv).1.log.drop c.log.length) :
    raw.length = asked'.packetLength := by
  rw [sendRequest, List.drop_left, List.mem_singleton, Emission.request.injEq] at sent
  obtain ⟨-, -, rfl, made⟩ := sent
  exact length_makeRequest pads made.symm

/--
A request fits the network's packets exactly when its argument is short enough.

The sync asks for and deletes eleven messages at most in a packet that fits.
-/
theorem request_fits_iff (pads : cfg.crypto.CbcPads) (c : Client) (lid : TruncatedHash)
    (d : ClientDraw) (raw : Bytes) :
    (∀ asked, .request .sync lid asked (some raw)
        ∈ (c.syncSendGet cfg lid asked d).log.drop c.log.length →
      (raw.length ≤ MTU ↔ asked.Fits))
    ∧ ∀ addr, .request .browser lid (.page addr) (some raw)
        ∈ (c.browserSendRequest cfg addr.node lid d).log.drop c.log.length →
      (raw.length ≤ MTU ↔ (Asked.page addr).Fits) := by
  refine ⟨?_, ?_⟩
  · intro asked sent
    rw [length_sendRequest pads sent]
    exact asked.fits_iff
  · intro addr sent
    -- Whether the hub took the packet makes no difference to it.
    have same : (c.browserSendRequest cfg addr.node lid d).log
        = ({ c with browser := { c.browser with phase := .fetching } }.sendRequest cfg .browser lid
          (.page ⟨addr.node, c.browser.path, c.browser.vars⟩) d.pageIv).1.log := by
      rw [browserSendRequest]
      dsimp only
      split
      all_goals
        rename_i c' outcome
        rw [outcome]
      · split
        · rfl
        · exact (browserFinish_fields c').2.2
      · exact (browserFinish_fields c').2.2
    rw [same] at sent
    rw [length_sendRequest pads (c := { c with browser := { c.browser with phase := .fetching } })
      sent]
    exact (Asked.page addr).fits_iff

open Transport LxmfChat.System

def sampleIds (count : Nat) : List Value :=
  (List.range count).map fun i => .bin (List.replicate 32 (UInt8.ofNat i))

def requestLengths (c : Client) : List Nat :=
  c.log.filterMap fun
    | .request _ _ _ (some raw) => some raw.length
    | _ => none

/-- The request for twelve messages is fifteen bytes too long. -/
theorem download_exceeds_mtu :
    ((sampleEnd (some sampleStore) listRun).handleSyncResponse (sampleConfig (some sampleStore))
        (sampleDraw.linkTo sampleCrypto sampleStore) (.array (sampleIds 12))
        sampleDraw).requestLengths = [99, 515]
      ∧ MTU < 515 := by
  decide +kernel

theorem request_fits_iff_list :
    ∃ raw, .request .sync (sampleDraw.linkTo sampleCrypto sampleStore) .list (some raw)
        ∈ ((sampleEnd (some sampleStore) listRun).syncSendGet (sampleConfig (some sampleStore))
          (sampleDraw.linkTo sampleCrypto sampleStore) .list sampleDraw).log.drop
            (sampleEnd (some sampleStore) listRun).log.length
      ∧ (raw.length ≤ MTU ↔ Asked.list.Fits) := by
  have made : (makeRequest sampleCrypto (sampleEnd (some sampleStore) listRun).transport
      (sampleDraw.linkTo sampleCrypto sampleStore) (sampleEnd (some sampleStore) listRun).clock
      .list sampleDraw.iv).isSome = true := by decide +kernel
  generalize sampleEnd (some sampleStore) listRun = c at made ⊢
  obtain ⟨raw, packet⟩ := Option.isSome_iff_exists.mp made
  have sent : .request .sync (sampleDraw.linkTo sampleCrypto sampleStore) .list (some raw)
      ∈ (c.syncSendGet (sampleConfig (some sampleStore))
        (sampleDraw.linkTo sampleCrypto sampleStore) .list sampleDraw).log.drop c.log.length := by
    rw [syncSendGet, sendRequest, List.drop_left, List.mem_singleton, ← packet]
    rfl
  have pads : (sampleConfig (some sampleStore)).crypto.CbcPads := sampleCrypto_cbcPads
  exact ⟨raw, sent, (request_fits_iff pads c _ sampleDraw raw).1 .list sent⟩

end Client

end LxmfChat
