import LxmfChat.Lxmf.Msgpack
import LxmfChat.Reticulum.Identity

/-! Packing messages, and adding a proof-of-work stamp to a message that is already packed. -/

namespace LxmfChat

open Base

def DEST_LEN : Nat := 16

def SIG_LENGTH : Nat := 64

namespace Message

variable (crypto : Crypto)

def payloadElements (timestamp : Double) (title content : Bytes) (fields : Fields) : List Value :=
  [.f64 timestamp, .bin title, .bin content, .map fields]

def packPayload (timestamp : Double) (title content : Bytes) (fields : Fields) : Bytes :=
  Msgpack.encode (.array (payloadElements timestamp title content fields))

structure PackedMessage where
  messageId : FullHash
  /-- Destination, source, signature and payload. -/
  packed : Bytes

/-- Pack and sign a message; a ticket adds a stamp as fifth element, which nothing covers. -/
def pack (source : PrivateIdentity) (destinationHash sourceHash : TruncatedHash)
    (timestamp : Double) (title content : Bytes) (fields : Fields)
    (outboundTicket : Option TruncatedHash) : PackedMessage :=
  let packedPayload := packPayload timestamp title content fields
  let hashedPart := destinationHash.val ++ sourceHash.val ++ packedPayload
  let messageId := fullHash crypto hashedPart
  let signature := source.sign crypto (hashedPart ++ messageId.val)
  let wirePayload :=
    match outboundTicket with
    | some ticket =>
      let stamp := truncatedHash crypto (ticket.val ++ messageId.val)
      Msgpack.encode (.array (payloadElements timestamp title content fields ++ [.bin stamp.val]))
    | none => packedPayload
  { messageId
    packed := destinationHash.val ++ sourceHash.val ++ signature.val ++ wirePayload }

/-- Add a stamp as fifth payload element; nothing comes of a payload that has not four. -/
def appendStamp (packed stamp : Bytes) : Except Fault (Option Bytes) :=
  if packed.length ≤ 2 * DEST_LEN + SIG_LENGTH then .ok none
  else
    let head := packed.take (2 * DEST_LEN + SIG_LENGTH)
    match Msgpack.decode (packed.drop (2 * DEST_LEN + SIG_LENGTH)) with
    | .ok (.array a) =>
      if a.length = 4 then .ok (some (head ++ Msgpack.encode (.array (a ++ [.bin stamp]))))
      else .ok none
    | .error (.panic message) => .error (.panic message)
    | _ => .ok none

/--
Wrap a message for a propagation node, encrypted to its recipient.

The node's stamp is mined over the hash of the encrypted message; what mining finds is given.
-/
def packPropagation (recipient : PublicIdentity) (recipientDestHash : TruncatedHash)
    (plaintext : Bytes) (ratchet : Option KeyHalf) (eph : KeyHalf) (iv : Iv)
    (transferTimestamp : Double) (propagationCost : Nat) (stamp : BytesN 32) : Bytes :=
  let lxmfData := recipientDestHash.val ++ recipient.encrypt crypto plaintext eph iv ratchet
  let lxmfData := if 0 < propagationCost then lxmfData ++ stamp.val else lxmfData
  Msgpack.encode (.array [.f64 transferTimestamp, .array [.bin lxmfData]])

def lxmfDataLength (plaintextLength propagationCost : Nat) : Nat :=
  16 * (plaintextLength / 16 + 1) + 96 + if 0 < propagationCost then 32 else 0

theorem packPropagation_length (pads : crypto.CbcPads) (recipient : PublicIdentity)
    (recipientDestHash : TruncatedHash) (plaintext : Bytes) (ratchet : Option KeyHalf)
    (eph : KeyHalf) (iv : Iv) (transferTimestamp : Double) (propagationCost : Nat)
    (stamp : BytesN 32) :
    (packPropagation crypto recipient recipientDestHash plaintext ratchet eph iv transferTimestamp
      propagationCost stamp).length
      = lxmfDataLength plaintext.length propagationCost
        + (Msgpack.binHead (lxmfDataLength plaintext.length propagationCost)).length + 11 := by
  generalize built : (if 0 < propagationCost then
    recipientDestHash.val ++ recipient.encrypt crypto plaintext eph iv ratchet ++ stamp.val
    else recipientDestHash.val ++ recipient.encrypt crypto plaintext eph iv ratchet) = lxmfData
  have length : lxmfData.length = lxmfDataLength plaintext.length propagationCost := by
    rw [← built, lxmfDataLength]
    split <;>
      simp only [PublicIdentity.encrypt, List.length_append, BytesN.length_val,
        Token.encryptWithIv_length_eq crypto pads] <;> omega
  simp only [packPropagation, built, Msgpack.encode, Msgpack.encode.items, Msgpack.arrayHead,
    Msgpack.countHead, List.length_append, List.length_cons, List.length_nil, BytesN.length_val,
    length]
  simp only [Nat.reduceAdd, Nat.reduceLT, if_pos, List.length_cons, List.length_nil]
  omega

theorem packPayload_length_le (timestamp : Double) (title content : Bytes) :
    (packPayload timestamp title content []).length ≤ title.length + content.length + 21 := by
  have titleHead := Msgpack.binHead_length_le title.length
  have contentHead := Msgpack.binHead_length_le content.length
  simp only [packPayload, payloadElements, Msgpack.encode, Msgpack.items_eq_flatMap,
    List.flatMap_cons, List.flatMap_nil, List.length_append, List.length_cons, List.length_nil,
    BytesN.length_val, Msgpack.arrayHead, Msgpack.mapHead, Msgpack.countHead,
    Msgpack.encode.entries]
  simp only [Nat.reduceAdd, Nat.reduceLT, if_pos, Nat.zero_lt_succ, List.length_cons,
    List.length_nil]
  omega

end Message

end LxmfChat
