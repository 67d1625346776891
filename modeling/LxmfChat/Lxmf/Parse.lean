import LxmfChat.Lxmf.Message

/-! Parsing an inbound message and checking who signed it. -/

namespace LxmfChat

open Base

namespace Value

def asBin : Value → Option Bytes
  | .bin b => some b
  | .str s => some (utf8Encode s)
  | _ => none

def asF64 : Value → Option Double
  | .f64 f => some f
  | .int n => some (Double.ofInt n)
  | _ => none

def asArray : Value → Option (List Value)
  | .array a => some a
  | _ => none

end Value

inductive ParseError
  | tooShort
  | badPayload
  /-- The decoder panicked, and the thread that called it is gone. -/
  | panic (message : String)
deriving DecidableEq, Repr

structure ParsedMessage where
  messageId : FullHash
  destinationHash : TruncatedHash
  sourceHash : TruncatedHash
  timestamp : Double
  title : Bytes
  content : Bytes
  fields : Fields
  signatureValidated : Bool

namespace Message

variable (crypto : Crypto)

def hashedPart (destinationHash sourceHash : TruncatedHash) (payload : Bytes) : Bytes :=
  destinationHash.val ++ sourceHash.val ++ payload

def signedPart (destinationHash sourceHash : TruncatedHash) (payload : Bytes) : Bytes :=
  hashedPart destinationHash sourceHash payload
    ++ (fullHash crypto (hashedPart destinationHash sourceHash payload)).val

def headerLength : Nat := 2 * DEST_LEN + SIG_LENGTH

/-- The first four elements of a payload, and the bytes that the id and the signature cover. -/
def coveredPayload (packedPayload : Bytes) : Except ParseError (List Value × Bytes) :=
  match Msgpack.decode packedPayload with
  | .ok (.array a) =>
    if a.length < 4 then .error .badPayload
    else
      -- What follows the fourth element is a stamp, which nothing covers.
      let covered := if 4 < a.length then Msgpack.encode (.array (a.take 4)) else packedPayload
      .ok (a.take 4, covered)
  | .error (.panic message) => .error (.panic message)
  | _ => .error .badPayload

def parse (lxmfBytes : Bytes) (sourceIdentity : Option PublicIdentity) :
    Except ParseError ParsedMessage :=
  if short : lxmfBytes.length < headerLength then .error .tooShort
  else
    have long : 96 ≤ lxmfBytes.length := Nat.le_of_not_lt short
    let destinationHash : TruncatedHash := BytesN.slice lxmfBytes 0 16 (by omega)
    let sourceHash : TruncatedHash := BytesN.slice lxmfBytes 16 16 (by omega)
    let signature := (lxmfBytes.drop (2 * DEST_LEN)).take SIG_LENGTH
    match coveredPayload (lxmfBytes.drop headerLength) with
    | .error e => .error e
    | .ok ([timestamp, title, content, fields], payload) =>
      match timestamp.asF64 with
      | none => .error .badPayload
      | some timestamp =>
        .ok {
          messageId := fullHash crypto (hashedPart destinationHash sourceHash payload)
          destinationHash, sourceHash, timestamp
          title := title.asBin.getD []
          content := content.asBin.getD []
          fields := match fields with
            | .map m => m
            | _ => []
          signatureValidated :=
            match sourceIdentity with
            | some id =>
              id.validate crypto signature (signedPart crypto destinationHash sourceHash payload)
            | none => false }
    -- There are four elements.
    | .ok _ => .error .badPayload

theorem parse_covered {lxmfBytes : Bytes} {sourceIdentity : Option PublicIdentity}
    {m : ParsedMessage} (parsed : parse crypto lxmfBytes sourceIdentity = .ok m) :
    headerLength ≤ lxmfBytes.length
      ∧ ∃ timestamp title content fields payload seconds,
        coveredPayload (lxmfBytes.drop headerLength)
          = .ok ([timestamp, title, content, fields], payload)
        ∧ timestamp.asF64 = some seconds := by
  rw [parse] at parsed
  split at parsed
  case isTrue => cases parsed
  case isFalse long =>
    dsimp only at parsed
    split at parsed
    case h_1 => cases parsed
    case h_3 => cases parsed
    case h_2 timestamp title content fields payload covered =>
      cases seconds : timestamp.asF64 with
      | none =>
        rw [seconds] at parsed
        cases parsed
      | some seconds' =>
        exact ⟨Nat.le_of_not_lt long, timestamp, title, content, fields, payload, seconds',
          covered, seconds⟩

theorem parse_ok {lxmfBytes : Bytes} {sourceIdentity : Option PublicIdentity} {m : ParsedMessage}
    (parsed : parse crypto lxmfBytes sourceIdentity = .ok m) :
    headerLength ≤ lxmfBytes.length
      ∧ m.destinationHash.val = lxmfBytes.take 16
      ∧ m.sourceHash.val = (lxmfBytes.drop 16).take 16
      ∧ ∃ elements payload, coveredPayload (lxmfBytes.drop headerLength) = .ok (elements, payload)
        ∧ m.messageId = fullHash crypto (hashedPart m.destinationHash m.sourceHash payload)
        ∧ (m.signatureValidated = true ↔ ∃ id, sourceIdentity = some id
          ∧ id.validate crypto ((lxmfBytes.drop (2 * DEST_LEN)).take SIG_LENGTH)
              (signedPart crypto m.destinationHash m.sourceHash payload) = true) := by
  obtain ⟨long, timestamp, title, content, fields, payload, seconds, covered, same⟩ :=
    parse_covered crypto parsed
  rw [parse, dif_neg (Nat.not_lt.mpr long)] at parsed
  simp only [covered, same] at parsed
  cases parsed
  refine ⟨long, rfl, rfl, _, payload, covered, rfl, ?_⟩
  -- Without the source's identity nothing is verified.
  cases sourceIdentity with
  | none => simp
  | some id => simp

theorem exists_parse_iff (lxmfBytes : Bytes) (sourceIdentity : Option PublicIdentity) :
    (∃ m, parse crypto lxmfBytes sourceIdentity = .ok m)
      ↔ headerLength ≤ lxmfBytes.length
        ∧ ∃ timestamp title content fields payload,
          coveredPayload (lxmfBytes.drop headerLength)
            = .ok ([timestamp, title, content, fields], payload)
          ∧ timestamp.asF64.isSome := by
  constructor
  · rintro ⟨m, parsed⟩
    obtain ⟨long, timestamp, title, content, fields, payload, seconds, covered, same⟩ :=
      parse_covered crypto parsed
    exact ⟨long, timestamp, title, content, fields, payload, covered, by rw [same]; rfl⟩
  · rintro ⟨long, timestamp, title, content, fields, payload, covered, seconds⟩
    obtain ⟨seconds', same⟩ := Option.isSome_iff_exists.mp seconds
    rw [parse, dif_neg (Nat.not_lt.mpr long)]
    simp only [covered, same]
    exact ⟨_, rfl⟩

end Message

def FIELD_TICKET : Int := 0x0C

def TICKET_LENGTH : Nat := 16

/-- A ticket that came with a message. -/
structure InboundTicket where
  expires : Nat
  ticket : TruncatedHash
deriving DecidableEq

def extractTicket (fields : Fields) : Option InboundTicket :=
  match fields.lookup FIELD_TICKET with
  | some (.array (expires :: ticket :: _)) =>
    match expires.asF64, ticket.asBin with
    | some expires, some bytes =>
      if expires.isPositive then
        if width : bytes.length = TICKET_LENGTH then some ⟨expires.toU64, ⟨bytes, width⟩⟩ else none
      else none
    | _, _ => none
  | _ => none

end LxmfChat
