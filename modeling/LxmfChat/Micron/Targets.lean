import LxmfChat.Base.Hex

/-! Where the links of a page lead. -/

namespace LxmfChat.Micron

open Base Checked

def isAsciiHexdigit (c : Char) : Bool :=
  ('0' ≤ c && c ≤ '9') || ('A' ≤ c && c ≤ 'F') || ('a' ≤ c && c ≤ 'f')

def parseHash (s : Text) : Checked (Option (BytesN 16)) :=
  let s := trim s
  if byteLength s ≠ 32 || !s.all isAsciiHexdigit then return none
  else do return (← hexPairs s 16 0).map (BytesN.ofBytes 16)

inductive LinkTarget
  /-- Another page of the node that served this one. -/
  | sameNode (path : Text)
  | otherNode (node : BytesN 16) (path : Text)
  | nodeIndex (node : BytesN 16)
  | lxmf (address : BytesN 16)
  | anchor
  | unsupported
deriving DecidableEq

def toAsciiLowercase (c : Char) : Char :=
  if 'A' ≤ c ∧ c ≤ 'Z' then Char.ofNat (c.toNat + 32) else c

def resolveLink (url : Text) : Checked LinkTarget := do
  let url := trim url
  if url.isEmpty then return .unsupported
  else if url.head? = some '#' then return .anchor
  else
    match splitOnce '@' url with
    | some (scheme, rest) =>
      if scheme.map toAsciiLowercase = ['l', 'x', 'm', 'f'] then
        match ← parseHash ((rest.splitOn ':').headD []) with
        | some address => return .lxmf address
        | none => return .unsupported
      else return .unsupported
    | none =>
      match splitOnce ':' url with
      | some (node, path) =>
        if node.isEmpty then return .sameNode path
        else
          match ← parseHash node with
          | some hash => return if path.isEmpty then .nodeIndex hash else .otherNode hash path
          | none => return .unsupported
      | none =>
        match ← parseHash url with
        | some hash => return .nodeIndex hash
        | none => return if url.head? = some '/' then .sameNode url else .unsupported

theorem isAsciiHexdigit_eq (c : Char) : isAsciiHexdigit c = (digitValue c).isSome := by
  rw [isAsciiHexdigit, digitValue]
  split
  case isTrue digit => simp [digit]
  case isFalse digit =>
    split
    case isTrue lower => simp [lower]
    case isFalse lower =>
      split
      case isTrue upper => simp [upper]
      case isFalse upper => simp_all

/-- The text is 32 digits that stand for the hash. -/
def Encodes (text : Text) (hash : BytesN 16) : Prop :=
  text.length = 32 ∧ (∀ c ∈ text, isAsciiHexdigit c = true) ∧ fromHex text = some hash.val

theorem hexPairs_hash {text : Text} (plain : ∀ c ∈ text, Plain c) (long : text.length = 32) :
    ∃ found : Option (BytesN 16),
      (do return (← hexPairs text 16 0).map (BytesN.ofBytes 16) : Checked _) = .ok found ∧
      ∀ hash, found = some hash ↔ fromHex text = some hash.val := by
  have read := hexPairs_eq [] text plain (n := 16) long
  rw [List.nil_append, byteLength_nil] at read
  rw [read]
  refine ⟨_, rfl, fun hash => ?_⟩
  rw [Option.map_eq_some_iff]
  constructor
  · rintro ⟨bytes, found, rfl⟩
    rw [found, BytesN.ofBytes_val (by have := (digits_of_fromHex found).1; omega)]
  · exact fun found => ⟨hash.val, found, BytesN.ofBytes_self hash⟩

end LxmfChat.Micron
