import LxmfChat.Lxmf.RoundTrip
import Mathlib.Data.Set.Function

/-! The id of a message binds what the message says. -/

namespace LxmfChat

open Base

/-- Two messages that say the same, whoever could verify them. -/
structure ParsedMessage.SaysSame (m n : ParsedMessage) : Prop where
  destinationHash : m.destinationHash = n.destinationHash
  sourceHash : m.sourceHash = n.sourceHash
  timestamp : m.timestamp = n.timestamp
  title : m.title = n.title
  content : m.content = n.content
  fields : m.fields = n.fields

namespace Message

variable (crypto : Crypto)

def fieldsOf : Value → Fields
  | .map m => m
  | _ => []

def identified (lxmfBytes : Bytes) : Option Bytes :=
  match coveredPayload (lxmfBytes.drop headerLength) with
  | .ok (_, payload) => some (lxmfBytes.take (2 * DEST_LEN) ++ payload)
  | .error _ => none

theorem decode_covered {payload covered : Bytes} {elements : List Value}
    (read : coveredPayload payload = .ok (elements, covered)) (fits : covered.length < wordSize) :
    Msgpack.decode covered = .ok (.array elements) := by
  rw [coveredPayload] at read
  split at read
  case h_1 a decoded =>
    split at read
    case isTrue => cases read
    case isFalse enough =>
      dsimp only at read
      split at read
      case isTrue more =>
        -- Rewritten elements were decoded before, so the decoder inverts the encoder on them.
        cases read
        cases Msgpack.plain_of_decode decoded with
        | array each =>
          apply Msgpack.decode_encode _ fits
          apply Value.Plain.array
          intro v there
          exact each v (List.mem_of_mem_take there)
      case isFalse four =>
        cases read
        rw [List.take_of_length_le (Nat.le_of_not_lt four)]
        exact decoded
  case h_2 => cases read
  case h_3 => cases read

theorem parse_elements {lxmfBytes : Bytes} {identity : Option PublicIdentity} {m : ParsedMessage}
    (parsed : parse crypto lxmfBytes identity = .ok m) :
    ∃ timestamp title content fields payload,
      coveredPayload (lxmfBytes.drop headerLength)
        = .ok ([timestamp, title, content, fields], payload)
      ∧ identified lxmfBytes = some (m.destinationHash.val ++ m.sourceHash.val ++ payload)
      ∧ m.messageId = fullHash crypto (m.destinationHash.val ++ m.sourceHash.val ++ payload)
      ∧ timestamp.asF64 = some m.timestamp ∧ m.title = title.asBin.getD []
      ∧ m.content = content.asBin.getD [] ∧ m.fields = fieldsOf fields := by
  obtain ⟨long, timestamp, title, content, fields, payload, seconds, covered, number⟩ :=
    parse_covered crypto parsed
  have header : lxmfBytes.take (2 * DEST_LEN)
      = (lxmfBytes.drop 0).take 16 ++ (lxmfBytes.drop 16).take 16 := by
    rw [List.drop_zero, ← List.take_add]
    rfl
  refine ⟨timestamp, title, content, fields, payload, covered, ?_⟩
  rw [parse, dif_neg (Nat.not_lt.mpr long)] at parsed
  simp only [covered, number] at parsed
  cases parsed
  refine ⟨?_, rfl, number, rfl, rfl, rfl⟩
  rw [identified, covered]
  dsimp only
  rw [header]
  rfl

theorem saysSame_of_identified {a b x : Bytes} {identity identity' : Option PublicIdentity}
    {m n : ParsedMessage} (parsed : parse crypto a identity = .ok m)
    (parsed' : parse crypto b identity' = .ok n) (first : identified a = some x)
    (second : identified b = some x) (fits : x.length < wordSize) : m.SaysSame n := by
  obtain ⟨t, title, content, fields, payload, covered, hashed, -, number, hasTitle, hasContent,
    hasFields⟩ := parse_elements crypto parsed
  obtain ⟨t', title', content', fields', payload', covered', hashed', -, number', hasTitle',
    hasContent', hasFields'⟩ := parse_elements crypto parsed'
  cases Option.some.inj (hashed.symm.trans first)
  -- The addresses have fixed widths, so the payloads that follow them are equal too.
  obtain ⟨addresses, payloads⟩ := List.append_inj
    (Option.some.inj (hashed'.symm.trans second)) (by simp)
  obtain ⟨destination, source⟩ := List.append_inj addresses (by simp)
  subst payloads
  have short : payload'.length < wordSize := by
    rw [List.length_append] at fits
    omega
  -- One payload is read as one list of elements.
  have elements := (decode_covered covered short).symm.trans (decode_covered covered' short)
  simp only [Except.ok.injEq, Value.array.injEq, List.cons.injEq, and_true] at elements
  obtain ⟨rfl, rfl, rfl, rfl⟩ := elements
  exact {
    destinationHash := Subtype.ext destination.symm
    sourceHash := Subtype.ext source.symm
    timestamp := Option.some.inj (number.symm.trans number')
    title := hasTitle.trans hasTitle'.symm
    content := hasContent.trans hasContent'.symm
    fields := hasFields.trans hasFields'.symm }

def hashedStrings (messages : Set Bytes) : Set Bytes :=
  {x | ∃ a ∈ messages, identified a = some x}

theorem saysSame_of_messageId {messages : Set Bytes}
    (free : Set.InjOn (fullHash crypto) (hashedStrings messages))
    (fits : ∀ x ∈ hashedStrings messages, x.length < wordSize) {a b : Bytes} (among : a ∈ messages)
    (among' : b ∈ messages) {identity identity' : Option PublicIdentity} {m n : ParsedMessage}
    (parsed : parse crypto a identity = .ok m) (parsed' : parse crypto b identity' = .ok n)
    (same : m.messageId = n.messageId) : m.SaysSame n := by
  obtain ⟨_, _, _, _, payload, -, hashed, id, -⟩ := parse_elements crypto parsed
  obtain ⟨_, _, _, _, payload', -, hashed', id', -⟩ := parse_elements crypto parsed'
  have strings := free ⟨a, among, hashed⟩ ⟨b, among', hashed'⟩ (id.symm.trans (same.trans id'))
  rw [← strings] at hashed'
  exact saysSame_of_identified crypto parsed parsed' hashed hashed' (fits _ ⟨a, among, hashed⟩)

end Message

end LxmfChat
