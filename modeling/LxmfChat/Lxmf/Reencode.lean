import LxmfChat.Lxmf.RoundTrip

/-! A stamp leaves what is verified alone exactly when the sender's encoder makes our choices. -/

namespace LxmfChat

open Base

namespace Msgpack

theorem relocates_take (n : Nat) : Relocates (take n) (take n) := Relocates.take unexpectedEnd n

theorem relocates_u8 : Relocates u8 u8 := by
  refine (relocates_take 1).bind fun piece => ?_
  cases piece with
  | nil => exact Relocates.crash _ _
  | cons byte rest => exact Relocates.pure byte

theorem relocates_u8AsUsize : Relocates u8AsUsize u8AsUsize :=
  relocates_u8.bind fun byte => Relocates.pure byte.toNat

theorem relocates_be (n : Nat) : Relocates (be n) (be n) :=
  (relocates_take n).bind fun digits => Relocates.pure (beNat digits)

theorem relocates_strN (n : Nat) : Relocates (strN n) (strN n) :=
  (relocates_take n).bind fun piece => Relocates.pure (Value.str (utf8Lossy piece))

theorem relocates_binN (n : Nat) : Relocates (binN n) (binN n) :=
  (relocates_take n).bind fun piece => Relocates.pure (Value.bin piece)

section Nested

variable {inner inner' : Read Value} (relocates : Relocates inner inner')
include relocates

theorem relocates_array (n : Nat) : Relocates (array inner n) (array inner' n) :=
  ((relocates.times n).bind fun a => Relocates.pure (Value.array a)).atLeast _ n

theorem relocates_mapEntries (n : Nat) :
    ∀ m : Fields, Relocates (mapEntries inner n m) (mapEntries inner' n m) := by
  induction n with
  | zero =>
    intro m
    exact Relocates.pure m
  | succ n ih =>
    intro m
    refine relocates.bind fun key => ?_
    cases key with
    | int k => exact relocates.bind fun v => ih (insertKey k v m)
    | nil | bool | f64 | str | bin | array | map | strMap => exact Relocates.fail _ _

theorem relocates_map (n : Nat) : Relocates (map inner n) (map inner' n) :=
  (relocates_mapEntries relocates n []).bind fun m => Relocates.pure (Value.map m)

end Nested

theorem relocates_value {depth : Nat} : ∀ {depth' : Nat}, depth ≤ depth' →
    Relocates (value depth) (value depth') := by
  induction depth with
  | zero =>
    intro depth' _
    exact Relocates.fail _ _
  | succ depth ih =>
    intro depth' deeper
    obtain ⟨depth', rfl⟩ : ∃ d, depth' = d + 1 := ⟨depth' - 1, by omega⟩
    have nested := ih (Nat.le_of_succ_le_succ deeper)
    refine relocates_u8.bind fun c => ?_
    -- One case for each marker, in the decoder's order.
    refine .ite (Relocates.pure _) ?_
    refine .ite (Relocates.pure _) ?_
    refine .ite (relocates_map nested _) ?_
    refine .ite (relocates_array nested _) ?_
    refine .ite (relocates_strN _) ?_
    refine .ite (Relocates.pure _) ?_
    refine .ite (Relocates.pure _) ?_
    refine .ite (Relocates.pure _) ?_
    refine .ite (relocates_u8AsUsize.bind relocates_binN) ?_
    refine .ite ((relocates_be 2).bind relocates_binN) ?_
    refine .ite ((relocates_be 4).bind relocates_binN) ?_
    refine .ite ((relocates_take 4).bind fun b => Relocates.pure _) ?_
    refine .ite ((relocates_take 8).bind fun b => Relocates.pure _) ?_
    refine .ite (relocates_u8AsUsize.bind fun n => Relocates.pure _) ?_
    refine .ite ((relocates_be 2).bind fun n => Relocates.pure _) ?_
    refine .ite ((relocates_be 4).bind fun n => Relocates.pure _) ?_
    refine .ite ((relocates_be 8).bind fun n => Relocates.pure _) ?_
    refine .ite (relocates_u8AsUsize.bind fun n => Relocates.pure _) ?_
    refine .ite ((relocates_be 2).bind fun n => Relocates.pure _) ?_
    refine .ite ((relocates_be 4).bind fun n => Relocates.pure _) ?_
    refine .ite ((relocates_be 8).bind fun n => Relocates.pure _) ?_
    refine .ite (relocates_u8AsUsize.bind relocates_strN) ?_
    refine .ite ((relocates_be 2).bind relocates_strN) ?_
    refine .ite ((relocates_be 4).bind relocates_strN) ?_
    refine .ite ((relocates_be 2).bind (relocates_array nested)) ?_
    refine .ite ((relocates_be 4).bind (relocates_array nested)) ?_
    refine .ite ((relocates_be 2).bind (relocates_map nested)) ?_
    refine .ite ((relocates_be 4).bind (relocates_map nested)) ?_
    exact Relocates.fail _ _

/-- The decoder accepts a string to its end as the encoding of a value. -/
def Accepts (encoding : Bytes) (v : Value) : Prop :=
  value encoding.length ⟨encoding, 0⟩ = .ok (v, ⟨encoding, encoding.length⟩)

theorem Accepts.reads {encoding : Bytes} {v : Value} (accepts : Accepts encoding v) {depth : Nat}
    (enough : encoding.length ≤ depth) : Reads (value depth) encoding v :=
  (relocates_value enough).reads accepts

theorem Accepts.length_pos {encoding : Bytes} {v : Value} (accepts : Accepts encoding v) :
    0 < encoding.length := by
  cases encoding with
  | nil => cases accepts
  | cons byte rest => exact Nat.zero_lt_succ _

theorem Accepts.plain {encoding : Bytes} {v : Value} (accepts : Accepts encoding v) : v.Plain :=
  yields_value encoding.length _ _ _ accepts

theorem reads_elements {items : List (Bytes × Value)}
    (each : ∀ item ∈ items, Accepts item.1 item.2) (depth : Nat)
    (enough : (items.flatMap (·.1)).length ≤ depth) :
    Reads (array (value depth) items.length) (items.flatMap (·.1))
      (.array (items.map (·.2))) := by
  have within : ∀ item ∈ items, item.1.length ≤ depth := fun item there =>
    ((List.sublist_flatten_of_mem (List.mem_map_of_mem there)).length_le.trans_eq
      (by rw [List.flatMap_def])).trans enough
  have count : items.length ≤ (items.flatMap (·.1)).length := by
    clear within enough
    induction items with
    | nil => simp
    | cons item rest ih =>
      have positive := (each item List.mem_cons_self).length_pos
      have tail := ih fun other there => each other (List.mem_cons_of_mem item there)
      rw [List.flatMap_cons, List.length_append, List.length_cons]
      omega
  exact ((Reads.times fun item there => (each item there).reads (within item there)).map
    Value.array).atLeast _ count

theorem flatMap_eq_encode_iff {items : List (Bytes × Value)}
    (each : ∀ item ∈ items, Accepts item.1 item.2)
    (fits : (items.flatMap (·.1)).length < wordSize) :
    items.flatMap (·.1) = (items.map (·.2)).flatMap encode
      ↔ ∀ item ∈ items, item.1 = encode item.2 := by
  induction items with
  | nil => simp
  | cons item rest ih =>
    have accepts := each item List.mem_cons_self
    rw [List.flatMap_cons] at fits
    have tail := ih (fun other there => each other (List.mem_cons_of_mem item there))
      (by rw [List.length_append] at fits; omega)
    rw [List.flatMap_cons, List.map_cons, List.flatMap_cons, List.forall_mem_cons, ← tail]
    constructor
    · intro same
      have whole := fits
      rw [same, List.length_append] at whole
      -- Both strings start with an encoding of the same value, so with the same bytes.
      have ours := reads_encode accepts.plain (max item.1.length (encode item.2).length)
        (le_max_right _ _) (by omega)
      exact (accepts.reads (le_max_left _ _)).unique ours same fits
    · rintro ⟨head, later⟩
      rw [← head, later]

end Msgpack

namespace Message

open Msgpack (Accepts encode)

variable (crypto : Crypto)

/-- Two messages are read as the same: the same id, the same fields and the same verdict. -/
def Agree : Except ParseError ParsedMessage → Except ParseError ParsedMessage → Prop
  | .ok a, .ok b =>
    a.messageId = b.messageId ∧ a.fields = b.fields
      ∧ a.signatureValidated = b.signatureValidated
  | .error _, .error _ => True
  | _, _ => False

def unstampedPayload (e₁ e₂ e₃ e₄ : Bytes) : Bytes := 0x94 :: (e₁ ++ e₂ ++ e₃ ++ e₄)

def stampedPayload (e₁ e₂ e₃ e₄ s : Bytes) : Bytes := 0x95 :: (e₁ ++ e₂ ++ e₃ ++ e₄ ++ s)

section Elements

variable {e₁ e₂ e₃ e₄ s stamp : Bytes} {v₁ v₂ v₃ v₄ : Value} (first : Accepts e₁ v₁)
  (second : Accepts e₂ v₂) (third : Accepts e₃ v₃) (fourth : Accepts e₄ v₄)
include first second third fourth

theorem coveredPayload_unstamped
    (fits : (unstampedPayload e₁ e₂ e₃ e₄).length < wordSize) :
    coveredPayload (unstampedPayload e₁ e₂ e₃ e₄)
      = .ok ([v₁, v₂, v₃, v₄], unstampedPayload e₁ e₂ e₃ e₄) := by
  have each : ∀ item ∈ [(e₁, v₁), (e₂, v₂), (e₃, v₃), (e₄, v₄)], Accepts item.1 item.2 := by
    simp [first, second, third, fourth]
  have body : Reads (Msgpack.array (Msgpack.value (e₁ ++ e₂ ++ e₃ ++ e₄).length) 4)
      (e₁ ++ e₂ ++ e₃ ++ e₄) (.array [v₁, v₂, v₃, v₄]) := by
    have elements := Msgpack.reads_elements each (e₁ ++ e₂ ++ e₃ ++ e₄).length (by simp)
    simpa [List.append_assoc] using elements
  have decoded : Msgpack.decode (unstampedPayload e₁ e₂ e₃ e₄) = .ok (.array [v₁, v₂, v₃, v₄]) :=
    ((Msgpack.reads_u8 0x94).bind body : Reads (Msgpack.value _) _ _).parse fits
  rw [coveredPayload, decoded]
  rfl

theorem coveredPayload_stamped (fifth : Accepts s (.bin stamp))
    (fits : (stampedPayload e₁ e₂ e₃ e₄ s).length < wordSize) :
    coveredPayload (stampedPayload e₁ e₂ e₃ e₄ s)
      = .ok ([v₁, v₂, v₃, v₄], encode (.array [v₁, v₂, v₃, v₄])) := by
  have each : ∀ item ∈ [(e₁, v₁), (e₂, v₂), (e₃, v₃), (e₄, v₄), (s, .bin stamp)],
      Accepts item.1 item.2 := by
    simp [first, second, third, fourth, fifth]
  have body : Reads (Msgpack.array (Msgpack.value (e₁ ++ e₂ ++ e₃ ++ e₄ ++ s).length) 5)
      (e₁ ++ e₂ ++ e₃ ++ e₄ ++ s) (.array [v₁, v₂, v₃, v₄, .bin stamp]) := by
    have elements := Msgpack.reads_elements each (e₁ ++ e₂ ++ e₃ ++ e₄ ++ s).length (by simp)
    simpa [List.append_assoc] using elements
  have decoded : Msgpack.decode (stampedPayload e₁ e₂ e₃ e₄ s)
      = .ok (.array [v₁, v₂, v₃, v₄, .bin stamp]) :=
    ((Msgpack.reads_u8 0x95).bind body : Reads (Msgpack.value _) _ _).parse fits
  rw [coveredPayload, decoded]
  rfl

theorem unstampedPayload_eq_encode_iff
    (fits : (unstampedPayload e₁ e₂ e₃ e₄).length < wordSize) :
    unstampedPayload e₁ e₂ e₃ e₄ = encode (.array [v₁, v₂, v₃, v₄])
      ↔ e₁ = encode v₁ ∧ e₂ = encode v₂ ∧ e₃ = encode v₃ ∧ e₄ = encode v₄ := by
  have each : ∀ item ∈ [(e₁, v₁), (e₂, v₂), (e₃, v₃), (e₄, v₄)], Accepts item.1 item.2 := by
    simp [first, second, third, fourth]
  have head : Msgpack.arrayHead 4 = [0x94] := by decide
  have ours : encode (.array [v₁, v₂, v₃, v₄]) = 0x94 :: [v₁, v₂, v₃, v₄].flatMap encode := by
    rw [encode, Msgpack.items_eq_flatMap]
    exact congrArg (· ++ _) head
  have elements := Msgpack.flatMap_eq_encode_iff each (by
    simpa [unstampedPayload] using Nat.lt_of_succ_lt fits)
  simp only [List.flatMap_cons, List.flatMap_nil, List.append_nil, List.map_cons, List.map_nil,
    List.forall_mem_cons, List.not_mem_nil, false_implies, implies_true, and_true] at elements
  rw [ours, unstampedPayload, List.cons.injEq, List.append_assoc, List.append_assoc]
  simp only [true_and, List.flatMap_cons, List.flatMap_nil, List.append_nil]
  exact elements

/--
A stamp leaves what is verified alone exactly when every element is in our own encoding.

The four elements and the stamp are in any encoding that the decoder accepts, and two messages
that are both refused are not told apart.
The two strings that are hashed are assumed not to be a collision.
-/
theorem stamp_neutral_iff (destinationHash sourceHash : TruncatedHash) (signature : Signature)
    (identity : Option PublicIdentity) (fifth : Accepts s (.bin stamp))
    (fits : (stampedPayload e₁ e₂ e₃ e₄ s).length < wordSize)
    (collision : fullHash crypto
        (hashedPart destinationHash sourceHash (unstampedPayload e₁ e₂ e₃ e₄))
      = fullHash crypto (hashedPart destinationHash sourceHash (encode (.array [v₁, v₂, v₃, v₄]))) →
      unstampedPayload e₁ e₂ e₃ e₄ = encode (.array [v₁, v₂, v₃, v₄])) :
    Agree
        (parse crypto (framed destinationHash sourceHash signature
          (unstampedPayload e₁ e₂ e₃ e₄)) identity)
        (parse crypto (framed destinationHash sourceHash signature
          (stampedPayload e₁ e₂ e₃ e₄ s)) identity)
      ↔ v₁.asF64 = none ∨ e₁ = encode v₁ ∧ e₂ = encode v₂ ∧ e₃ = encode v₃ ∧ e₄ = encode v₄ := by
  have short : (unstampedPayload e₁ e₂ e₃ e₄).length < wordSize := by
    simp only [unstampedPayload, stampedPayload, List.length_cons, List.length_append] at fits ⊢
    omega
  have plain := coveredPayload_unstamped first second third fourth short
  have stamped := coveredPayload_stamped first second third fourth fifth fits
  cases number : v₁.asF64 with
  | none =>
    rw [parse_framed_none crypto destinationHash sourceHash signature identity plain number,
      parse_framed_none crypto destinationHash sourceHash signature identity stamped number]
    simp [Agree]
  | some seconds =>
    rw [parse_framed crypto destinationHash sourceHash signature identity plain number,
      parse_framed crypto destinationHash sourceHash signature identity stamped number,
      ← unstampedPayload_eq_encode_iff first second third fourth short]
    simp only [Agree, readAs, reduceCtorEq, false_or]
    constructor
    · -- The ids are hashes of the two payloads, so equal ids mean equal payloads.
      rintro ⟨same, -, -⟩
      exact collision same
    · intro same
      simp [same]

end Elements

def sampleSigning : Crypto :=
  { Crypto.sample with
    ed25519Sign := fun seed _ message =>
      BytesN.ofBytes 64 (seed.val ++ (Crypto.sample.sha256 message).val)
    ed25519Verify := fun sigPub message signature =>
      signature == BytesN.ofBytes 64 (sigPub.val ++ (Crypto.sample.sha256 message).val) }

def zeroTime : Bytes := 0xcb :: (BytesN.ofBytes 8 []).val

def descending : Bytes := unstampedPayload zeroTime [0xc4, 0] [0xc4, 0] [0x82, 2, 0xc0, 1, 0xc0]

def descendingStamped : Bytes :=
  stampedPayload zeroTime [0xc4, 0] [0xc4, 0] [0x82, 2, 0xc0, 1, 0xc0] [0xc4, 1, 9]

def sampleAuthor : PrivateIdentity := ⟨BytesN.ofBytes 32 [1], BytesN.ofBytes 32 [2]⟩

def descendingSignature : Signature :=
  sampleAuthor.sign sampleSigning
    (signedPart sampleSigning (BytesN.ofBytes 16 [3]) (BytesN.ofBytes 16 [4]) descending)

theorem accepts_descending :
    Accepts [0x82, 2, 0xc0, 1, 0xc0] (.map [(1, .nil), (2, .nil)]) := rfl

/-- With its fields out of order a signed message verifies, and with a stamp on it does not. -/
theorem field_order_breaks_stamp :
    ∃ a b,
      parse sampleSigning (framed (BytesN.ofBytes 16 [3]) (BytesN.ofBytes 16 [4])
        descendingSignature descending) (some (sampleAuthor.publicIdentity sampleSigning)) = .ok a
      ∧ parse sampleSigning (framed (BytesN.ofBytes 16 [3]) (BytesN.ofBytes 16 [4])
        descendingSignature descendingStamped) (some (sampleAuthor.publicIdentity sampleSigning))
        = .ok b
      ∧ a.messageId ≠ b.messageId ∧ a.signatureValidated = true ∧ b.signatureValidated = false := by
  have time : Accepts zeroTime (.f64 (BytesN.ofBytes 8 [])) := rfl
  have empty : Accepts [0xc4, 0] (.bin []) := rfl
  have stamp : Accepts [0xc4, 1, 9] (.bin [9]) := rfl
  have plain := coveredPayload_unstamped time empty empty accepts_descending (by decide)
  have stamped := coveredPayload_stamped time empty empty accepts_descending stamp (by decide)
  refine ⟨_, _, parse_framed sampleSigning _ _ _ _ plain rfl,
    parse_framed sampleSigning _ _ _ _ stamped rfl, ?_, ?_, ?_⟩
  · simp only [readAs]
    decide +kernel
  · simp only [readAs]
    decide +kernel
  · simp only [readAs]
    decide +kernel

/-- A message in our own encoding is verified the same with a stamp on it. -/
theorem stamp_neutral_iff_ascending :
    Agree
      (parse sampleSigning (framed (BytesN.ofBytes 16 [3]) (BytesN.ofBytes 16 [4])
        descendingSignature (unstampedPayload zeroTime [0xc4, 0] [0xc4, 0]
          [0x82, 1, 0xc0, 2, 0xc0])) none)
      (parse sampleSigning (framed (BytesN.ofBytes 16 [3]) (BytesN.ofBytes 16 [4])
        descendingSignature (stampedPayload zeroTime [0xc4, 0] [0xc4, 0]
          [0x82, 1, 0xc0, 2, 0xc0] [0xc4, 1, 9])) none) := by
  have time : Accepts zeroTime (.f64 (BytesN.ofBytes 8 [])) := rfl
  have empty : Accepts [0xc4, 0] (.bin []) := rfl
  have fields : Accepts [0x82, 1, 0xc0, 2, 0xc0] (.map [(1, .nil), (2, .nil)]) := rfl
  have stamp : Accepts [0xc4, 1, 9] (.bin [9]) := rfl
  -- All four elements are encoded as we would encode them.
  have own : zeroTime = encode (.f64 (BytesN.ofBytes 8 [])) ∧ [0xc4, 0] = encode (.bin []) ∧
      [0xc4, 0] = encode (.bin []) ∧
      [0x82, 1, 0xc0, 2, 0xc0] = encode (.map [(1, .nil), (2, .nil)]) := by
    decide +kernel
  have payload : unstampedPayload zeroTime [0xc4, 0] [0xc4, 0] [0x82, 1, 0xc0, 2, 0xc0]
      = encode (.array [.f64 (BytesN.ofBytes 8 []), .bin [], .bin [],
          .map [(1, .nil), (2, .nil)]]) := by
    decide +kernel
  have fits : (stampedPayload zeroTime [0xc4, 0] [0xc4, 0] [0x82, 1, 0xc0, 2, 0xc0]
      [0xc4, 1, 9]).length < wordSize := by
    decide
  have equivalence := stamp_neutral_iff sampleSigning time empty empty fields
    (BytesN.ofBytes 16 [3]) (BytesN.ofBytes 16 [4]) descendingSignature none stamp fits
    fun _ => payload
  rw [equivalence]
  exact .inr own

end Message

end LxmfChat
