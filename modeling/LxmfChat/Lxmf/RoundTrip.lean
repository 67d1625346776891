import LxmfChat.Lxmf.Parse
import LxmfChat.Lxmf.ReadBack

/-! A message is read back as it was packed, with a stamp on it or without. -/

namespace LxmfChat

open Base

namespace Message

variable (crypto : Crypto)

/-- A message on the wire: who it is for, who it is from, the signature and the payload. -/
def framed (destinationHash sourceHash : TruncatedHash) (signature : Signature) (payload : Bytes) :
    Bytes :=
  destinationHash.val ++ sourceHash.val ++ signature.val ++ payload

/-- What is read from a header, four elements and the bytes that the signature covers. -/
def readAs (destinationHash sourceHash : TruncatedHash) (signature : Signature)
    (identity : Option PublicIdentity) (timestamp : Double) (title content fields : Value)
    (covered : Bytes) : ParsedMessage where
  messageId := fullHash crypto (hashedPart destinationHash sourceHash covered)
  destinationHash := destinationHash
  sourceHash := sourceHash
  timestamp := timestamp
  title := title.asBin.getD []
  content := content.asBin.getD []
  fields := match fields with
    | .map m => m
    | _ => []
  signatureValidated :=
    match identity with
    | some id =>
      id.validate crypto signature.val (signedPart crypto destinationHash sourceHash covered)
    | none => false

section Framed

variable (destinationHash sourceHash : TruncatedHash) (signature : Signature) (payload : Bytes)

theorem header_length :
    (destinationHash.val ++ sourceHash.val ++ signature.val).length = headerLength := by
  simp [headerLength, DEST_LEN, SIG_LENGTH]

@[simp] theorem drop_framed :
    (framed destinationHash sourceHash signature payload).drop headerLength = payload :=
  List.drop_left' (header_length destinationHash sourceHash signature)

@[simp] theorem take_framed :
    (framed destinationHash sourceHash signature payload).take headerLength
      = destinationHash.val ++ sourceHash.val ++ signature.val :=
  List.take_left' (header_length destinationHash sourceHash signature)

@[simp] theorem framed_length :
    (framed destinationHash sourceHash signature payload).length
      = headerLength + payload.length := by
  rw [framed, List.length_append, header_length]

variable {payload}

theorem parse_framed (identity : Option PublicIdentity) {timestamp title content fields : Value}
    {covered : Bytes} {seconds : Double}
    (elements : coveredPayload payload = .ok ([timestamp, title, content, fields], covered))
    (number : timestamp.asF64 = some seconds) :
    parse crypto (framed destinationHash sourceHash signature payload) identity
      = .ok (readAs crypto destinationHash sourceHash signature identity seconds title content
          fields covered) := by
  -- Each part of the header is found where it was put.
  have first (within) :
      BytesN.slice (framed destinationHash sourceHash signature payload) 0 16 within
        = destinationHash := by
    apply Subtype.ext
    simp [BytesN.slice, framed]
  have second (within) :
      BytesN.slice (framed destinationHash sourceHash signature payload) 16 16 within
        = sourceHash := by
    apply Subtype.ext
    simp [BytesN.slice, framed]
  have third : ((framed destinationHash sourceHash signature payload).drop (2 * DEST_LEN)).take
      SIG_LENGTH = signature.val := by
    have hashes : (destinationHash.val ++ sourceHash.val).length = 2 * DEST_LEN := by
      simp [DEST_LEN]
    have width : signature.val.length = SIG_LENGTH := signature.length_val
    rw [framed, List.append_assoc, List.drop_left' hashes, List.take_left' width]
  rw [parse, dif_neg (by simp)]
  simp only [drop_framed, elements, number, first, second, third]
  rfl

theorem parse_framed_none (identity : Option PublicIdentity) {timestamp title content fields : Value}
    {covered : Bytes}
    (elements : coveredPayload payload = .ok ([timestamp, title, content, fields], covered))
    (number : timestamp.asF64 = none) :
    parse crypto (framed destinationHash sourceHash signature payload) identity
      = .error .badPayload := by
  rw [parse, dif_neg (by simp)]
  simp only [drop_framed, elements, number]

end Framed

theorem plain_nil : (Value.map []).Plain := .map nofun nofun .nil

theorem plain_payload (timestamp : Double) (title content : Bytes) {fields : Fields}
    (plain : (Value.map fields).Plain) {rest : List Value} (each : ∀ v ∈ rest, v.Plain) :
    (Value.array (payloadElements timestamp title content fields ++ rest)).Plain := by
  refine .array fun v there => ?_
  rcases List.mem_append.mp there with covered | later
  · simp only [payloadElements, List.mem_cons, List.not_mem_nil, or_false] at covered
    rcases covered with rfl | rfl | rfl | rfl
    · exact .f64 timestamp
    · exact .bin title
    · exact .bin content
    · exact plain
  · exact each v later

theorem coveredPayload_encode {a rest : List Value} (four : a.length = 4)
    (plain : (Value.array (a ++ rest)).Plain)
    (fits : (Msgpack.encode (.array (a ++ rest))).length < wordSize) :
    coveredPayload (Msgpack.encode (.array (a ++ rest)))
      = .ok (a, Msgpack.encode (.array a)) := by
  have first : (a ++ rest).take 4 = a := List.take_left' four
  rw [coveredPayload, Msgpack.decode_encode plain fits]
  cases rest with
  | nil => simp [four]
  | cons stamp rest =>
    -- The payload is written anew from the elements that were read.
    have more : 4 < (a ++ stamp :: rest).length := by simp [four]
    simp only [first, if_pos more, if_neg (Nat.not_lt.mpr more.le)]

theorem appendStamp_framed (destinationHash sourceHash : TruncatedHash) (signature : Signature)
    {a : List Value} (four : a.length = 4) (plain : (Value.array a).Plain)
    (fits : (Msgpack.encode (.array a)).length < wordSize) (stamp : Bytes) :
    appendStamp (framed destinationHash sourceHash signature (Msgpack.encode (.array a))) stamp
      = .ok (some (framed destinationHash sourceHash signature
          (Msgpack.encode (.array (a ++ [.bin stamp]))))) := by
  have long := Msgpack.encode_length_pos (.array a)
  have header : 2 * DEST_LEN + SIG_LENGTH = headerLength := rfl
  rw [appendStamp, header, framed_length, if_neg (by omega), drop_framed, take_framed,
    Msgpack.decode_encode plain fits]
  simp only [four, if_pos, framed]

theorem appendStamp_five {header : Bytes} (width : header.length = headerLength) {a : List Value}
    (five : a.length = 5) (plain : (Value.array a).Plain)
    (fits : (Msgpack.encode (.array a)).length < wordSize) (stamp : Bytes) :
    appendStamp (header ++ Msgpack.encode (.array a)) stamp = .ok none := by
  rw [appendStamp]
  split
  · rfl
  · have header : 2 * DEST_LEN + SIG_LENGTH = headerLength := rfl
    rw [header, List.drop_left' width, Msgpack.decode_encode plain fits]
    simp [five]

theorem appendStamp_stamped {packed stamp stamped : Bytes}
    (taken : appendStamp packed stamp = .ok (some stamped)) (fits : stamped.length < wordSize)
    (stamp' : Bytes) : appendStamp stamped stamp' = .ok none := by
  rw [appendStamp] at taken
  split at taken
  case isTrue => cases taken
  case isFalse long =>
    split at taken
    case h_1 a decoded =>
      split at taken
      case isTrue four =>
        cases taken
        -- What was decoded is a value the encoder writes so that it is decoded again.
        have plain : (Value.array (a ++ [.bin stamp])).Plain := by
          cases Msgpack.plain_of_decode decoded with
          | array each =>
            refine .array fun v there => ?_
            rcases List.mem_append.mp there with old | new
            · exact each v old
            · exact List.mem_singleton.mp new ▸ .bin stamp
        rw [List.length_append] at fits
        refine appendStamp_five ?_ (by simp [four]) plain (by omega) stamp'
        rw [List.length_take, headerLength]
        omega
      case isFalse => cases taken
    case h_2 => cases taken
    case h_3 => cases taken

section Packed

variable (source : PrivateIdentity) (destinationHash sourceHash : TruncatedHash)
  (timestamp : Double) (title content : Bytes) (fields : Fields)

def signatureOf : Signature :=
  source.sign crypto (signedPart crypto destinationHash sourceHash
    (packPayload timestamp title content fields))

def ticketStamp (messageId : FullHash) : Option TruncatedHash → List Value
  | some ticket => [.bin (truncatedHash crypto (ticket.val ++ messageId.val)).val]
  | none => []

theorem pack_packed (ticket : Option TruncatedHash) :
    (pack crypto source destinationHash sourceHash timestamp title content fields ticket).packed
      = framed destinationHash sourceHash
          (signatureOf crypto source destinationHash sourceHash timestamp title content fields)
          (Msgpack.encode (.array (payloadElements timestamp title content fields
            ++ ticketStamp crypto (fullHash crypto (hashedPart destinationHash sourceHash
              (packPayload timestamp title content fields))) ticket))) := by
  cases ticket with
  | none => rw [ticketStamp, List.append_nil]; rfl
  | some ticket => rfl

def delivered (ticket : Option TruncatedHash) : ParsedMessage where
  messageId :=
    (pack crypto source destinationHash sourceHash timestamp title content fields ticket).messageId
  destinationHash := destinationHash
  sourceHash := sourceHash
  timestamp := timestamp
  title := title
  content := content
  fields := fields
  signatureValidated := true

variable {fields}

theorem plain_ticketStamp (messageId : FullHash) (ticket : Option TruncatedHash) :
    ∀ v ∈ ticketStamp crypto messageId ticket, v.Plain := by
  cases ticket with
  | none => exact nofun
  | some ticket => exact fun v there => List.mem_singleton.mp there ▸ .bin _

theorem parse_signed (verifies : crypto.SignVerifies) (plain : (Value.map fields).Plain)
    (ticket : Option TruncatedHash) {rest : List Value} (each : ∀ v ∈ rest, v.Plain)
    (fits : (Msgpack.encode (.array (payloadElements timestamp title content fields
      ++ rest))).length < wordSize) :
    parse crypto (framed destinationHash sourceHash
        (signatureOf crypto source destinationHash sourceHash timestamp title content fields)
        (Msgpack.encode (.array (payloadElements timestamp title content fields ++ rest))))
        (some (source.publicIdentity crypto))
      = .ok (delivered crypto source destinationHash sourceHash timestamp title content fields
          ticket) := by
  have covered := coveredPayload_encode (rfl : (payloadElements timestamp title content
    fields).length = 4) (plain_payload timestamp title content plain each) fits
  rw [parse_framed crypto destinationHash sourceHash _ _ covered rfl]
  -- The bytes that are verified are the ones that were signed.
  have valid : (source.publicIdentity crypto).validate crypto
      (signatureOf crypto source destinationHash sourceHash timestamp title content fields).val
      (signedPart crypto destinationHash sourceHash (packPayload timestamp title content fields))
        = true := by
    rw [PublicIdentity.validate, dif_pos (BytesN.length_val _)]
    exact verifies source.ed25519Seed _
  simp only [readAs, delivered]
  congr 2

theorem appendStamp_pack (plain : (Value.map fields).Plain) (stamp : Bytes)
    (fits : (packPayload timestamp title content fields).length < wordSize) :
    appendStamp
        (pack crypto source destinationHash sourceHash timestamp title content fields none).packed
        stamp
      = .ok (some (framed destinationHash sourceHash
          (signatureOf crypto source destinationHash sourceHash timestamp title content fields)
          (Msgpack.encode (.array (payloadElements timestamp title content fields
            ++ [.bin stamp]))))) := by
  have elements : (Value.array (payloadElements timestamp title content fields ++ [])).Plain :=
    plain_payload timestamp title content plain nofun
  rw [pack_packed, ticketStamp]
  rw [List.append_nil] at elements ⊢
  exact appendStamp_framed destinationHash sourceHash _ rfl elements fits stamp

/--
A message is read back as it was packed, and takes exactly one stamp.

The fields are any that the sender's types allow, without string-keyed maps in them, and what is
read must fit the machine's memory.
-/
theorem message_round_trip (verifies : crypto.SignVerifies) (plain : (Value.map fields).Plain)
    (ticket : Option TruncatedHash)
    (fits : (pack crypto source destinationHash sourceHash timestamp title content fields
      ticket).packed.length < wordSize) :
    parse crypto
        (pack crypto source destinationHash sourceHash timestamp title content fields ticket).packed
        (some (source.publicIdentity crypto))
      = .ok (delivered crypto source destinationHash sourceHash timestamp title content fields
          ticket)
    ∧ (ticket = none → ∀ stamp, ∃ stamped,
        appendStamp (pack crypto source destinationHash sourceHash timestamp title content fields
          ticket).packed stamp = .ok (some stamped)
        ∧ (stamped.length < wordSize →
          parse crypto stamped (some (source.publicIdentity crypto))
            = .ok (delivered crypto source destinationHash sourceHash timestamp title content
                fields ticket)
          ∧ Msgpack.decode (stamped.drop headerLength)
            = .ok (.array (payloadElements timestamp title content fields ++ [.bin stamp]))))
    ∧ (ticket.isSome → ∀ stamp,
        appendStamp (pack crypto source destinationHash sourceHash timestamp title content fields
          ticket).packed stamp = .ok none)
    ∧ ∀ message stamp stamped, appendStamp message stamp = .ok (some stamped) →
        stamped.length < wordSize → ∀ stamp', appendStamp stamped stamp' = .ok none := by
  have wire := pack_packed crypto source destinationHash sourceHash timestamp title content fields
    ticket
  generalize built : ticketStamp crypto _ ticket = rest at wire
  have each : ∀ v ∈ rest, v.Plain := built ▸ plain_ticketStamp crypto _ ticket
  rw [wire, framed_length] at fits
  refine ⟨?_, ?_, ?_, fun message stamp stamped taken => appendStamp_stamped taken⟩
  · rw [wire]
    exact parse_signed crypto source destinationHash sourceHash timestamp title content verifies
      plain ticket each (by omega)
  · rintro rfl stamp
    cases built
    rw [ticketStamp, List.append_nil] at fits
    refine ⟨_, appendStamp_pack crypto source destinationHash sourceHash timestamp title content
      plain stamp (by rw [packPayload]; omega), fun short => ?_⟩
    rw [framed_length] at short
    -- The stamp is one more element behind the four, and nothing else.
    have stampPlain : ∀ v ∈ [Value.bin stamp], v.Plain :=
      fun v there => List.mem_singleton.mp there ▸ .bin stamp
    refine ⟨parse_signed crypto source destinationHash sourceHash timestamp title content verifies
      plain none stampPlain (by omega), ?_⟩
    rw [drop_framed]
    exact Msgpack.decode_encode (plain_payload timestamp title content plain stampPlain) (by omega)
  · intro ticketed stamp
    obtain ⟨ticket, rfl⟩ := Option.isSome_iff_exists.mp ticketed
    cases built
    rw [wire, framed]
    exact appendStamp_five (header_length destinationHash sourceHash _) rfl
      (plain_payload timestamp title content plain each) (by omega) stamp

end Packed

def sampleFields : Fields :=
  [(FIELD_TICKET, .array [.int 1700000000, .bin (BytesN.ofBytes 16 [1]).val]),
    (0x10, .map [(-70000, .bool true), (3, .nil)])]

theorem sampleFields_plain : (Value.map sampleFields).Plain := by
  have ticket : (Value.array [.int 1700000000, .bin (BytesN.ofBytes 16 [1]).val]).Plain := by
    refine .array fun v there => ?_
    simp only [List.mem_cons, List.not_mem_nil, or_false] at there
    rcases there with rfl | rfl
    · exact .int (by decide)
    · exact .bin _
  have nested : (Value.map [(-70000, .bool true), (3, .nil)]).Plain := by
    refine .map (by decide) (fun e there => ?_) (by decide)
    simp only [List.mem_cons, List.not_mem_nil, or_false] at there
    rcases there with rfl | rfl
    · exact .bool true
    · exact .nil
  refine .map ?_ (fun e there => ?_) ?_
  · decide
  · simp only [sampleFields, List.mem_cons, List.not_mem_nil, or_false] at there
    rcases there with rfl | rfl
    · exact ticket
    · exact nested
  · simp [sampleFields, FIELD_TICKET]

/-- A message with fields is read back, and takes a stamp. -/
theorem message_round_trip_nested :
    parse Crypto.sample
        (pack Crypto.sample ⟨BytesN.ofBytes 32 [1], BytesN.ofBytes 32 [2]⟩ (BytesN.ofBytes 16 [3])
          (BytesN.ofBytes 16 [4]) (Double.ofNat 5) [6] [7, 8] sampleFields none).packed
        (some (PrivateIdentity.publicIdentity Crypto.sample
          ⟨BytesN.ofBytes 32 [1], BytesN.ofBytes 32 [2]⟩))
      = .ok (delivered Crypto.sample ⟨BytesN.ofBytes 32 [1], BytesN.ofBytes 32 [2]⟩
          (BytesN.ofBytes 16 [3]) (BytesN.ofBytes 16 [4]) (Double.ofNat 5) [6] [7, 8] sampleFields
          none) :=
  (message_round_trip Crypto.sample ⟨BytesN.ofBytes 32 [1], BytesN.ofBytes 32 [2]⟩
    (BytesN.ofBytes 16 [3]) (BytesN.ofBytes 16 [4]) (Double.ofNat 5) [6] [7, 8]
    Crypto.sample_signVerifies sampleFields_plain none (by decide +kernel)).1

end Message

end LxmfChat
