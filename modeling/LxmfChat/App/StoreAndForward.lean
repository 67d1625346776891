import LxmfChat.App.Requests
import LxmfChat.Lxmf.ReadBack
import LxmfChat.Lxmf.Stamp

/-! A message that a propagation node keeps arrives as it was packed. -/

namespace LxmfChat

open Base

namespace Message

def withoutStamp (propagationCost : Nat) (lxmfData : Bytes) : Bytes :=
  if 0 < propagationCost then lxmfData.take (lxmfData.length - STAMP_SIZE) else lxmfData

def trailingStamp (lxmfData : Bytes) : Bytes := lxmfData.drop (lxmfData.length - STAMP_SIZE)

theorem decode_packPropagation (crypto : Crypto) {recipient : PublicIdentity}
    {recipientDestHash : TruncatedHash} {plaintext : Bytes} {ratchet : Option KeyHalf}
    {eph : KeyHalf} {iv : Iv} {transferTimestamp : Double} {propagationCost : Nat}
    {stamp : BytesN 32}
    (fits : (packPropagation crypto recipient recipientDestHash plaintext ratchet eph iv
      transferTimestamp propagationCost stamp).length < wordSize) :
    Msgpack.decode (packPropagation crypto recipient recipientDestHash plaintext ratchet eph iv
        transferTimestamp propagationCost stamp)
      = .ok (.array [.f64 transferTimestamp, .array [.bin (recipientDestHash.val
          ++ recipient.encrypt crypto plaintext eph iv ratchet
          ++ if 0 < propagationCost then stamp.val else [])]]) := by
  have data : (if 0 < propagationCost then
      recipientDestHash.val ++ recipient.encrypt crypto plaintext eph iv ratchet ++ stamp.val
      else recipientDestHash.val ++ recipient.encrypt crypto plaintext eph iv ratchet)
      = recipientDestHash.val ++ recipient.encrypt crypto plaintext eph iv ratchet
          ++ if 0 < propagationCost then stamp.val else [] := by
    split
    · rfl
    · rw [List.append_nil]
  -- The envelope is a plain value, so what was written is what is read.
  simp only [packPropagation, data] at fits ⊢
  apply Msgpack.decode_encode _ fits
  apply Value.Plain.array
  simp [Value.Plain.f64, Value.Plain.bin, Value.Plain.array]

end Message

variable (crypto : Crypto)

theorem Inbox.deliverSyncedMessage_of_decrypt {t : Transport} (now : Nat)
    (destination : TruncatedHash) {ciphertext plaintext : Bytes} (inbox : Inbox)
    (decrypted : t.identity.decrypt crypto ciphertext [] = .ok plaintext) :
    inbox.deliverSyncedMessage crypto t now (destination.val ++ ciphertext)
      = ((inbox.deliverLxmf crypto t now (destination.val ++ plaintext) false).1,
        some (inbox.deliverLxmf crypto t now (destination.val ++ plaintext) false).2) := by
  -- Nothing decrypts from an empty string, so there is something behind the destination.
  have some : ¬ (destination.val ++ ciphertext).length ≤ 16 := by
    intro short
    rw [List.length_append, BytesN.length_val] at short
    rw [PrivateIdentity.decrypt, dif_pos (by omega)] at decrypted
    cases decrypted
  rw [deliverSyncedMessage, if_neg some, BytesN.drop_append, BytesN.take_append, decrypted]

/--
The way of a message by a propagation node.

The envelope decodes to the time and the message; without the stamp it is the destination and a
ciphertext, which the recipient decrypts to what was packed and delivers as that.
The stamp costs what the node asks for, measured over the workblock of what it is taken off.
-/
theorem store_and_forward_round_trip (symmetric : crypto.DhSymmetric)
    (inverse : crypto.CbcInverse) (recipient : PrivateIdentity) (destination : TruncatedHash)
    (packed : Bytes) (addressed : packed.take DEST_LEN = destination.val) (eph : KeyHalf) (iv : Iv)
    (transferTimestamp : Double) (propagationCost fuel : Nat) (blob : Bytes)
    (mined : Message.packPropagationMined crypto (recipient.publicIdentity crypto) destination
      (packed.drop DEST_LEN) none eph iv transferTimestamp propagationCost fuel = some blob)
    (fits : blob.length < wordSize) :
    ∃ lxmfData,
      Msgpack.decode blob = .ok (.array [.f64 transferTimestamp, .array [.bin lxmfData]]) ∧
      (∃ ciphertext plaintext,
        Message.withoutStamp propagationCost lxmfData = destination.val ++ ciphertext ∧
        recipient.decrypt crypto ciphertext [] = .ok plaintext ∧
        destination.val ++ plaintext = packed) ∧
      (∀ (t : Transport) (now : Nat) (inbox : Inbox), t.identity = recipient →
        inbox.deliverSyncedMessage crypto t now (Message.withoutStamp propagationCost lxmfData)
          = ((inbox.deliverLxmf crypto t now packed false).1,
            some (inbox.deliverLxmf crypto t now packed false).2)) ∧
      (0 < propagationCost → (Message.trailingStamp lxmfData).length = STAMP_SIZE ∧
        Sha256.ZeroBits propagationCost (Sha256.hash (Stamp.stampWorkblock crypto
          (fullHash crypto (Message.withoutStamp propagationCost lxmfData)).val
          WORKBLOCK_EXPAND_ROUNDS_PN ++ Message.trailingStamp lxmfData)).val) := by
  obtain ⟨stamp, rfl, found⟩ := Message.packPropagationMined_some crypto mined
  have decrypted := PrivateIdentity.decrypt_encrypt crypto symmetric inverse recipient
    (packed.drop DEST_LEN) eph iv
  have whole : destination.val ++ packed.drop DEST_LEN = packed := by
    rw [← addressed]
    exact List.take_append_drop DEST_LEN packed
  refine ⟨_, Message.decode_packPropagation crypto fits, ?_⟩
  generalize (recipient.publicIdentity crypto).encrypt crypto (packed.drop DEST_LEN) eph iv none
    = ciphertext at decrypted found ⊢
  generalize built : destination.val ++ ciphertext ++ (if 0 < propagationCost then stamp.val
    else []) = lxmfData
  -- Taking the stamp off leaves what it was mined over.
  have kept : Message.withoutStamp propagationCost lxmfData = destination.val ++ ciphertext := by
    rw [Message.withoutStamp, ← built]
    split
    · rw [List.length_append, BytesN.length_val, Nat.add_sub_cancel, List.take_left]
    · rw [List.append_nil]
  rw [kept]
  refine ⟨⟨ciphertext, packed.drop DEST_LEN, rfl, decrypted, whole⟩, ?_, ?_⟩
  · rintro t now inbox rfl
    rw [Inbox.deliverSyncedMessage_of_decrypt crypto now destination inbox decrypted, whole]
  · intro costs
    have trailing : Message.trailingStamp lxmfData = stamp.val := by
      rw [Message.trailingStamp, ← built, if_pos costs, List.length_append, BytesN.length_val,
        Nat.add_sub_cancel, List.drop_left]
    rw [trailing]
    exact ⟨BytesN.length_val stamp,
      Stamp.zeroBits_of_generateStamp crypto (by decide) (found costs)⟩

def smallRecipient : PrivateIdentity := ⟨BytesN.ofBytes 32 [1], BytesN.ofBytes 32 [2]⟩

def smallPacked : Bytes := (BytesN.ofBytes 16 [3]).val ++ [4, 5]

/-- A small message comes back as it was packed from a node that asks for no stamp. -/
theorem store_and_forward_round_trip_free :
    ∃ blob lxmfData,
      Message.packPropagationMined Crypto.sample (smallRecipient.publicIdentity Crypto.sample)
        (BytesN.ofBytes 16 [3]) (smallPacked.drop DEST_LEN) none (BytesN.ofBytes 32 [6])
        (BytesN.ofBytes 16 [7]) (Double.ofNat 8) 0 0 = some blob ∧
      Msgpack.decode blob = .ok (.array [.f64 (Double.ofNat 8), .array [.bin lxmfData]]) ∧
      ∃ ciphertext plaintext, lxmfData = (BytesN.ofBytes 16 [3]).val ++ ciphertext ∧
        smallRecipient.decrypt Crypto.sample ciphertext [] = .ok plaintext ∧
        (BytesN.ofBytes 16 [3]).val ++ plaintext = smallPacked := by
  obtain ⟨lxmfData, decoded, restored, -⟩ := store_and_forward_round_trip Crypto.sample
    Crypto.sample_dhSymmetric Crypto.sample_cbcInverse smallRecipient (BytesN.ofBytes 16 [3])
    smallPacked (by decide) (BytesN.ofBytes 32 [6]) (BytesN.ofBytes 16 [7]) (Double.ofNat 8) 0 0 _
    rfl (by decide +kernel)
  exact ⟨_, lxmfData, rfl, decoded, restored⟩

end LxmfChat
