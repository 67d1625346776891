import LxmfChat.Base.Loops
import LxmfChat.Base.Strings

/-! The page markup: how a page becomes lines and links, with every index that could be out of range. -/

namespace LxmfChat.Micron

open Base Checked

/-- How a line is drawn; a heading has a depth from one to three. -/
inductive Style
  | regular
  | bold
  | mono
  | heading (depth : Nat)
deriving DecidableEq, Repr

inductive Align
  | left
  | center
  | right
deriving DecidableEq, Repr

/-- What a line is; a link line names its link by its place among the links of the page. -/
inductive Kind
  | text
  | divider
  | link (id : UInt16)
deriving DecidableEq, Repr

structure Line where
  text : Text
  style : Style
  align : Align
  kind : Kind
deriving DecidableEq, Repr

structure Link where
  label : Text
  url : Text
  /-- The variables of the request, by name. -/
  fields : List (Text × Text)
deriving DecidableEq, Repr

structure Document where
  cacheSecs : Option Nat := none
  title : Option Text := none
  lines : List Line := []
  links : List Link := []
deriving DecidableEq, Repr

def MAX_INPUT_BYTES : Nat := 64 * 1024
def MAX_LINES : Nat := 2000

def Style.isHeading : Style → Bool
  | .heading _ => true
  | _ => false

/-- Append a line unless there are too many; the first heading names the page. -/
def Document.pushLine (doc : Document) (text : Text) (style : Style) (align : Align) (kind : Kind) :
    Document :=
  let doc :=
    if doc.title.isNone && style.isHeading && !(trim text).isEmpty then
      { doc with title := some (trim text) }
    else doc
  if doc.lines.length < MAX_LINES then { doc with lines := doc.lines ++ [⟨text, style, align, kind⟩] }
  else doc

-- A backtick is written as 60 and a backslash as 5c, the numbers they have in hexadecimal.

/-- The formatting that is in effect until it is changed, across lines. -/
structure ScanState where
  bold : Bool := false
  align : Align := .left
  literal : Bool := false
deriving DecidableEq, Repr

structure Scan where
  i : Nat := 0
  /-- The text since the last line that was pushed. -/
  seg : Text := []
  segBold : Option Bool := none
  segAlign : Option Align := none
  st : ScanState
  doc : Document

def Scan.pushSegChar (s : Scan) (c : Char) : Scan :=
  if s.seg.isEmpty then
    { s with seg := [c], segBold := some s.st.bold, segAlign := some s.st.align }
  else { s with seg := s.seg ++ [c] }

def Scan.pushSegChars (s : Scan) (text : Text) : Scan := text.foldl Scan.pushSegChar s

/-- The style of a segment: that of the heading, or what its first character captured. -/
def Scan.style (s : Scan) (heading : Nat) : Style :=
  if 0 < heading then .heading heading
  else if s.segBold.getD s.st.bold then .bold
  else .regular

def Scan.flushSeg (s : Scan) (heading : Nat) : Scan :=
  if (trim s.seg).isEmpty then { s with seg := [] }
  else
    { s with
      seg := []
      doc := s.doc.pushLine s.seg (s.style heading) (s.segAlign.getD s.st.align) .text }

def skipTo (stop : Char) (chars : List Char) (i : Nat) : Checked Nat :=
  loop (fun i => decide (i < chars.length))
    (fun i => do
      let c ← index chars i
      return if c ≠ stop then .yield (i + 1) else .done i)
    (chars.length + 1) i

def varFields (varstr : Text) : List (Text × Text) :=
  (varstr.splitOn '|').filterMap fun e => (splitOnce '=' e).filter fun field => !field.1.isEmpty

def parseInner (inner : Text) : Option Link :=
  let parts := inner.splitOn '\x60'
  let first := parts.headD []
  -- With a single component that is the address as well as the label.
  let url := (parts.drop 1).headD first
  if url.isEmpty then none
  else some { label := first, url, fields := (parts.drop 2).flatMap varFields }

/-- A link that starts with the bracket in front, and how many characters it takes. -/
def tryParseLink (chars : List Char) : Checked (Option (Link × Nat)) :=
  match chars.findIdx? (· = ']') with
  | none => return none
  | some close => do
    if close < 2 then return none
    else
      let inner ← slice chars 1 close
      return (parseInner inner).map fun link => (link, close + 1)

def linkMarker : Text := [Char.ofNat 0xbb, ' ']

/-- A link becomes a line of its own, as long as its number fits; in a heading its label is kept. -/
def Scan.takeLink (s : Scan) (heading : Nat) (link : Link) : Scan :=
  if 0 < heading then s.pushSegChars link.label
  else
    let s := s.flushSeg heading
    if s.doc.links.length < 65535 then
      let doc := { s.doc with links := s.doc.links ++ [link] }
      { s with
        doc := doc.pushLine (linkMarker ++ link.label) .regular s.st.align
          (.link (UInt16.ofNat s.doc.links.length)) }
    else s

def charOrZero (chars : List Char) (i : Nat) : Checked Char :=
  if i < chars.length then index chars i else .ok '\x00'

def scanTag (chars : List Char) (heading : Nat) (s : Scan) : Checked Scan := do
  match ← charOrZero chars s.i with
  | '\x60' => return { s with i := s.i + 1, st := { s.st with bold := false, align := .left } }
  | '!' => return { s with i := s.i + 1, st := { s.st with bold := !s.st.bold } }
  | '*' | '_' => return { s with i := s.i + 1 }
  | 'F' | 'B' =>
    -- A color of three characters, or of seven if the first says so.
    let n := if (← charOrZero chars (s.i + 1)) = 'T' then 7 else 3
    return { s with i := min (s.i + 1 + n) chars.length }
  | 'f' | 'b' => return { s with i := s.i + 1 }
  | 'c' => return { s with i := s.i + 1, st := { s.st with align := .center } }
  | 'r' => return { s with i := s.i + 1, st := { s.st with align := .right } }
  | 'l' | 'a' => return { s with i := s.i + 1, st := { s.st with align := .left } }
  | '<' =>
    -- An input field leaves a placeholder.
    let close ← skipTo '>' chars (s.i + 1)
    return { s with i := min (close + 1) chars.length }.pushSegChars ['[', '_', '_', '_', '_', ']']
  | '\x7b' =>
    let close ← skipTo '\x7d' chars (s.i + 1)
    return { s with i := min (close + 1) chars.length }
  | '[' =>
    match ← tryParseLink (← slice chars s.i chars.length) with
    | some (link, consumed) => return { s.takeLink heading link with i := s.i + consumed }
    | none => return { s.pushSegChar '[' with i := s.i + 1 }
  | '=' => return { s with i := s.i + 1 }
  -- The backtick was the last character.
  | '\x00' => return s
  | _ => return { s with i := s.i + 1 }

def scanChar (chars : List Char) (heading : Nat) (s : Scan) : Checked Scan := do
  match ← index chars s.i with
  | '\x5c' =>
    if s.i + 1 < chars.length then
      let escaped ← index chars (s.i + 1)
      return { s.pushSegChar escaped with i := s.i + 2 }
    else return { s with i := s.i + 1 }
  | '\x60' => scanTag chars heading { s with i := s.i + 1 }
  | c => return { s.pushSegChar c with i := s.i + 1 }

def scanInline (body : Text) (heading : Nat) (st : ScanState) (doc : Document) :
    Checked (ScanState × Document) := do
  let s ← loop (fun s => decide (s.i < body.length))
    (fun s => do return .yield (← scanChar body heading s)) (body.length + 1) { st, doc }
  let s := s.flushSeg heading
  return (s.st, s.doc)

def headingOf (line : Text) : Checked (Nat × Text) :=
  loop (fun s => s.2.head? = some '>' && decide (s.1 < 3))
    (fun s => do return .yield (s.1 + 1, ← strSlice s.2 1 (byteLength s.2))) 4 (0, line)

def parseLine (line : Text) (st : ScanState) (doc : Document) : Checked (ScanState × Document) := do
  if trim line = ['\x60', '='] then return ({ st with literal := !st.literal }, doc)
  else if st.literal then
    let text := if trim line = ['\x5c', '\x60', '='] then ['\x60', '='] else line
    return (st, doc.pushLine text .mono .left .text)
  else
    match stripPrefix ['#', '!', 'c', '='] line with
    | some rest =>
      return (st, if doc.cacheSecs.isNone
        then { doc with cacheSecs := fromStrRadix 10 (2 ^ 32) (trim rest) } else doc)
    | none =>
      if line.head? = some '#' then return (st, doc)
      else if (stripPrefix ['\x60', 't'] line).isSome then return (st, doc)
      else if line.head? = some '-' then
        return (st, doc.pushLine [] .regular st.align .divider)
      else
        let (heading, body) ← headingOf line
        let body := if heading = 0 then (stripPrefix ['<'] body).getD body else body
        if body.isEmpty && heading = 0 then return (st, doc.pushLine [] .regular st.align .text)
        else scanInline body heading st doc

def parseLines : List Text → ScanState → Document → Checked Document
  | [], _, doc => return doc
  | line :: rest, st, doc => do
    if MAX_LINES ≤ doc.lines.length then return doc
    else
      let (st, doc) ← parseLine line st doc
      parseLines rest st doc

def lastBoundary (s : Text) : Nat → Nat
  | 0 => 0
  | k + 1 => if isCharBoundary s (k + 1) then k + 1 else lastBoundary s k

def truncateUtf8 (s : Text) (max : Nat) : Checked Text :=
  if byteLength s ≤ max then .ok s else strSlice s 0 (lastBoundary s max)

def parse (src : Text) : Checked Document := do
  let src ← truncateUtf8 src MAX_INPUT_BYTES
  parseLines (lines src) {} {}

end LxmfChat.Micron
