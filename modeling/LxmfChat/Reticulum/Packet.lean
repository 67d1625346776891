import LxmfChat.Reticulum.Crypto

/-! The packet header: its flags byte, its two layouts, and the hash that survives relaying. -/

namespace LxmfChat

open Base

def MTU : Nat := 500

def HEADER_1 : UInt8 := 0x00
def HEADER_2 : UInt8 := 0x01

def FLAG_UNSET : UInt8 := 0x00
def FLAG_SET : UInt8 := 0x01

def CONTEXT_NONE : UInt8 := 0x00
def CONTEXT_RESOURCE : UInt8 := 0x01
def CONTEXT_RESOURCE_ADV : UInt8 := 0x02
def CONTEXT_RESOURCE_REQ : UInt8 := 0x03
def CONTEXT_RESOURCE_HMU : UInt8 := 0x04
def CONTEXT_RESOURCE_PRF : UInt8 := 0x05
def CONTEXT_PATH_RESPONSE : UInt8 := 0x0B
def CONTEXT_KEEPALIVE : UInt8 := 0xFA
def CONTEXT_LINKIDENTIFY : UInt8 := 0xFB
def CONTEXT_LINKCLOSE : UInt8 := 0xFC
def CONTEXT_LRRTT : UInt8 := 0xFE
def CONTEXT_LRPROOF : UInt8 := 0xFF

/--
Header layout selector.

The transport id is present exactly in the second layout, so it is that layout's argument.
-/
inductive HeaderType
  /-- `[flags][hops][dest(16)][context][data]` -/
  | one
  /-- `[flags][hops][transport_id(16)][dest(16)][context][data]` -/
  | two (transportId : TruncatedHash)
deriving DecidableEq, Repr

/-- Whether a packet is broadcast or injected into transport. -/
inductive TransportType
  | broadcast
  | transport
deriving DecidableEq, Repr

/-- What kind of destination the destination hash names. -/
inductive DestinationType
  | single
  | group
  | plain
  | link
deriving DecidableEq, Repr

/-- What a packet is for. -/
inductive PacketType
  | data
  | announce
  | linkRequest
  | proof
deriving DecidableEq, Repr

def HeaderType.code : HeaderType → UInt8
  | .one => HEADER_1
  | .two _ => HEADER_2

def TransportType.code : TransportType → UInt8
  | .broadcast => 0x00
  | .transport => 0x01

def DestinationType.code : DestinationType → UInt8
  | .single => 0x00
  | .group => 0x01
  | .plain => 0x02
  | .link => 0x03

def PacketType.code : PacketType → UInt8
  | .data => 0x00
  | .announce => 0x01
  | .linkRequest => 0x02
  | .proof => 0x03

def TransportType.ofCode (bit : UInt8) : TransportType :=
  if bit = 0x00 then .broadcast else .transport

def DestinationType.ofCode (bits : UInt8) : DestinationType :=
  if bits = 0x00 then .single
  else if bits = 0x01 then .group
  else if bits = 0x02 then .plain
  else .link

def PacketType.ofCode (bits : UInt8) : PacketType :=
  if bits = 0x00 then .data
  else if bits = 0x01 then .announce
  else if bits = 0x02 then .linkRequest
  else .proof

/-- A packet; its data is the final payload, encrypted or not by the layers above. -/
structure Packet where
  headerType : HeaderType
  contextFlag : Bool
  transportType : TransportType
  destinationType : DestinationType
  packetType : PacketType
  hops : UInt8
  context : UInt8
  destinationHash : TruncatedHash
  data : Bytes
deriving DecidableEq, Repr

namespace Packet

def transportId (p : Packet) : Option TruncatedHash :=
  match p.headerType with
  | .one => none
  | .two id => some id

def header1 (destinationType : DestinationType) (packetType : PacketType) (context : UInt8)
    (destinationHash : TruncatedHash) (data : Bytes) : Packet where
  headerType := .one
  contextFlag := false
  transportType := .broadcast
  destinationType := destinationType
  packetType := packetType
  hops := 0
  context := context
  destinationHash := destinationHash
  data := data

def flagBits (ht : UInt8) (contextFlag : Bool) (transportType : TransportType)
    (destinationType : DestinationType) (packetType : PacketType) : UInt8 :=
  let cf := if contextFlag then FLAG_SET else FLAG_UNSET
  (ht <<< 6) ||| (cf <<< 5) ||| (transportType.code <<< 4) ||| (destinationType.code <<< 2)
    ||| packetType.code

def packedFlags (p : Packet) : UInt8 :=
  flagBits p.headerType.code p.contextFlag p.transportType p.destinationType p.packetType

def transportBytes (p : Packet) : Bytes :=
  match p.headerType with
  | .one => []
  | .two id => id.val

def encode (p : Packet) : Bytes :=
  p.packedFlags :: p.hops ::
    (p.transportBytes ++ (p.destinationHash.val ++ (p.context :: p.data)))

def ofFlags (flags hops : UInt8) (headerType : HeaderType) (destinationHash : TruncatedHash)
    (context : UInt8) (data : Bytes) : Packet where
  headerType := headerType
  contextFlag := decide ((flags &&& 0b00100000) >>> 5 = FLAG_SET)
  transportType := .ofCode ((flags &&& 0b00010000) >>> 4)
  destinationType := .ofCode ((flags &&& 0b00001100) >>> 2)
  packetType := .ofCode (flags &&& 0b00000011)
  hops := hops
  context := context
  destinationHash := destinationHash
  data := data

def decode (raw : Bytes) : Except String Packet :=
  if short : raw.length < 2 + 16 + 1 then .error "packet too short"
  else
    let flags := raw[0]
    let hops := raw[1]
    if (flags &&& 0b01000000) >>> 6 = HEADER_2 then
      if shortTwo : raw.length < 2 + 2 * 16 + 1 then .error "HEADER_2 packet too short"
      else
        .ok (ofFlags flags hops (.two (BytesN.slice raw 2 16 (by omega)))
          (BytesN.slice raw (2 + 16) 16 (by omega)) raw[2 + 2 * 16] (raw.drop (2 + 2 * 16 + 1)))
    else
      .ok (ofFlags flags hops .one (BytesN.slice raw 2 16 (by omega)) raw[2 + 16]
        (raw.drop (2 + 16 + 1)))

theorem encode_ne_nil (p : Packet) : p.encode ≠ [] := List.cons_ne_nil _ _

theorem length_encode_header1 (destinationType : DestinationType) (packetType : PacketType)
    (context : UInt8) (destinationHash : TruncatedHash) (data : Bytes) :
    (header1 destinationType packetType context destinationHash data).encode.length
      = 19 + data.length := by
  simp only [encode, header1, transportBytes, List.length_cons, List.length_append,
    List.length_nil, BytesN.length_val]
  omega

/-- What is hashed: the low flags, then everything after the hop count and the transport id. -/
def hashablePart (p : Packet) : Bytes :=
  let raw := p.encode
  let skip := match p.headerType with
    | .one => 2
    | .two _ => 16 + 2
  (raw.head p.encode_ne_nil &&& 0x0F) :: raw.drop skip

def packetHash (crypto : Crypto) (p : Packet) : FullHash := fullHash crypto p.hashablePart

def truncatedHash (crypto : Crypto) (p : Packet) : TruncatedHash :=
  BytesN.slice (p.packetHash crypto).val 0 16 (FullHash.room _)

theorem flagBits_fields {ht : UInt8} (layout : ht = HEADER_1 ∨ ht = HEADER_2) (cf : Bool)
    (tt : TransportType) (dt : DestinationType) (pt : PacketType) :
    (flagBits ht cf tt dt pt &&& 0b01000000) >>> 6 = ht ∧
    decide ((flagBits ht cf tt dt pt &&& 0b00100000) >>> 5 = FLAG_SET) = cf ∧
    TransportType.ofCode ((flagBits ht cf tt dt pt &&& 0b00010000) >>> 4) = tt ∧
    DestinationType.ofCode ((flagBits ht cf tt dt pt &&& 0b00001100) >>> 2) = dt ∧
    PacketType.ofCode (flagBits ht cf tt dt pt &&& 0b00000011) = pt ∧
    (flagBits ht cf tt dt pt &&& (0x0F : UInt8)) = ((dt.code <<< 2) ||| pt.code) := by
  -- No field overlaps another, which the finitely many flags bytes show one by one.
  rcases layout with rfl | rfl <;> cases cf <;> cases tt <;> cases dt <;> cases pt <;> decide

theorem header_code (ht : HeaderType) : ht.code = HEADER_1 ∨ ht.code = HEADER_2 := by
  cases ht with
  | one => exact .inl rfl
  | two id => exact .inr rfl

theorem ofFlags_packedFlags (p : Packet) :
    ofFlags p.packedFlags p.hops p.headerType p.destinationHash p.context p.data = p := by
  obtain ⟨-, flag, transport, destination, kind, -⟩ := flagBits_fields (header_code p.headerType)
    p.contextFlag p.transportType p.destinationType p.packetType
  rw [ofFlags, packedFlags, flag, transport, destination, kind]

theorem decode_one (flags hops : UInt8) (destination : TruncatedHash) (context : UInt8)
    (data : Bytes) (layout : (flags &&& 0b01000000) >>> 6 ≠ HEADER_2) :
    decode (flags :: hops :: (destination.val ++ (context :: data)))
      = .ok (ofFlags flags hops .one destination context data) := by
  have long : ¬ (flags :: hops :: (destination.val ++ (context :: data))).length < 2 + 16 + 1 := by
    simp only [List.length_cons, List.length_append, BytesN.length_val]
    omega
  rw [decode, dif_neg long]
  simp only [List.getElem_cons_zero, List.getElem_cons_succ]
  rw [if_neg layout]
  congr 2
  · exact Subtype.ext (by simp [BytesN.slice])
  · rw [List.getElem_append_right (by simp)]
    simp
  · simp [List.drop_append]

theorem decode_two (flags hops : UInt8) (transport destination : TruncatedHash) (context : UInt8)
    (data : Bytes) (layout : (flags &&& 0b01000000) >>> 6 = HEADER_2) :
    decode (flags :: hops :: (transport.val ++ (destination.val ++ (context :: data))))
      = .ok (ofFlags flags hops (.two transport) destination context data) := by
  have long : ¬ (flags :: hops :: (transport.val ++ (destination.val ++ (context :: data)))).length
      < 2 + 2 * 16 + 1 := by
    simp only [List.length_cons, List.length_append, BytesN.length_val]
    omega
  rw [decode, dif_neg (by omega)]
  simp only [List.getElem_cons_zero, List.getElem_cons_succ]
  rw [if_pos layout, dif_neg long]
  congr 2
  · exact congrArg HeaderType.two (Subtype.ext (by simp [BytesN.slice]))
  · exact Subtype.ext (by simp [BytesN.slice])
  · rw [List.getElem_append_right (by simp), List.getElem_append_right (by simp)]
    simp
  · simp [List.drop_append, List.drop_of_length_le]

theorem decode_encode (p : Packet) : decode p.encode = .ok p := by
  obtain ⟨layout, -⟩ := flagBits_fields (header_code p.headerType)
    p.contextFlag p.transportType p.destinationType p.packetType
  have whole := ofFlags_packedFlags p
  cases header : p.headerType with
  | one =>
    rw [header] at layout whole
    rw [encode, transportBytes, header, List.nil_append, decode_one, whole]
    rw [packedFlags, header, layout]
    decide
  | two id =>
    rw [header] at layout whole
    rw [encode, transportBytes, header]
    simp only
    rw [decode_two, whole]
    rw [packedFlags, header, layout]
    rfl

theorem flagBits_ofFlags (flags : UInt8) :
    flagBits ((flags &&& 0b01000000) >>> 6) (decide ((flags &&& 0b00100000) >>> 5 = FLAG_SET))
        (.ofCode ((flags &&& 0b00010000) >>> 4)) (.ofCode ((flags &&& 0b00001100) >>> 2))
        (.ofCode (flags &&& 0b00000011))
      = flags &&& 0b01111111 := by
  -- The seven lower bits belong to the five fields, as the bytes show one by one.
  have every : ∀ n < 256, flagBits ((UInt8.ofNat n &&& 0b01000000) >>> 6)
        (decide ((UInt8.ofNat n &&& 0b00100000) >>> 5 = FLAG_SET))
        (.ofCode ((UInt8.ofNat n &&& 0b00010000) >>> 4))
        (.ofCode ((UInt8.ofNat n &&& 0b00001100) >>> 2)) (.ofCode (UInt8.ofNat n &&& 0b00000011))
      = UInt8.ofNat n &&& 0b01111111 := by
    decide +kernel
  have byte := every flags.toNat flags.toNat_lt
  rwa [UInt8.ofNat_toNat] at byte

theorem header_bit {flags : UInt8} (other : (flags &&& 0b01000000) >>> 6 ≠ HEADER_2) :
    (flags &&& 0b01000000) >>> 6 = HEADER_1 := by
  have every : ∀ n < 256, (UInt8.ofNat n &&& 0b01000000) >>> 6 ≠ HEADER_2 →
      (UInt8.ofNat n &&& 0b01000000) >>> 6 = HEADER_1 := by
    decide +kernel
  have byte := every flags.toNat flags.toNat_lt
  rw [UInt8.ofNat_toNat] at byte
  exact byte other

theorem split_header (raw : Bytes) (long : 2 ≤ raw.length) :
    raw = raw[0] :: raw[1] :: ((raw.drop 2).take 16 ++ raw.drop (2 + 16)) := by
  rw [take_drop_append, ← List.drop_eq_getElem_cons, ← List.drop_eq_getElem_cons, List.drop_zero]

theorem encode_of_decode {raw : Bytes} {p : Packet} (read : decode raw = .ok p) :
    p.encode = raw.modifyHead (· &&& 0b01111111) := by
  rw [decode] at read
  split at read
  case isTrue => cases read
  case isFalse long =>
    have front := split_header raw (by omega)
    have flags := flagBits_ofFlags raw[0]
    dsimp only at read
    split at read
    case isTrue two =>
      split at read
      case isTrue => cases read
      case isFalse longer =>
        -- The second layout has another field of sixteen bytes before the context.
        cases read
        have back : raw.drop (2 + 16)
            = (raw.drop (2 + 16)).take 16 ++ (raw[2 + 2 * 16] :: raw.drop (2 + 2 * 16 + 1)) := by
          rw [← List.drop_eq_getElem_cons, take_drop_append]
        rw [two] at flags
        conv_rhs => rw [front, back]
        rw [List.modifyHead_cons, ← flags]
        rfl
    case isFalse one =>
      cases read
      have back : raw.drop (2 + 16) = raw[2 + 16] :: raw.drop (2 + 16 + 1) :=
        List.drop_eq_getElem_cons (by omega)
      rw [header_bit one] at flags
      conv_rhs => rw [front, back]
      rw [List.modifyHead_cons, ← flags]
      rfl

/--
The packet codec is a bijection on its domain.

Every packet is read back as it was written. Every string that is read is written again as it
was, but for the highest bit of its first byte, which no field uses.
-/
theorem codec_bijective :
    (∀ p : Packet, decode p.encode = .ok p)
    ∧ ∀ (raw : Bytes) (p : Packet), decode raw = .ok p →
      p.encode = raw.modifyHead (· &&& 0b01111111) :=
  ⟨decode_encode, fun _ _ read => encode_of_decode read⟩

theorem hashablePart_eq (p : Packet) :
    p.hashablePart = ((p.destinationType.code <<< 2) ||| p.packetType.code) ::
      (p.destinationHash.val ++ (p.context :: p.data)) := by
  obtain ⟨-, -, -, -, -, low⟩ := flagBits_fields (header_code p.headerType)
    p.contextFlag p.transportType p.destinationType p.packetType
  cases header : p.headerType with
  | one => simpa [hashablePart, encode, transportBytes, packedFlags, header] using low
  | two id => simpa [hashablePart, encode, transportBytes, packedFlags, header] using low

/--
One packet is the other after relaying.

A relay may switch the layout, set a transport id, count hops and change the upper flags.
-/
structure Relayed (p q : Packet) : Prop where
  destinationType : p.destinationType = q.destinationType
  packetType : p.packetType = q.packetType
  destinationHash : p.destinationHash = q.destinationHash
  context : p.context = q.context
  data : p.data = q.data

theorem Relayed.hashablePart {p q : Packet} (relayed : Relayed p q) :
    p.hashablePart = q.hashablePart := by
  rw [hashablePart_eq, hashablePart_eq, relayed.destinationType, relayed.packetType,
    relayed.destinationHash, relayed.context, relayed.data]

end Packet

end LxmfChat
