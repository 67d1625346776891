import LxmfChat.App.Requests
import LxmfChat.Micron.Documents
import LxmfChat.Micron.Targets

/-! Names and labels that are made from what a node serves, and cut to a number of bytes. -/

namespace LxmfChat

open Base Checked

def DISPLAY_NAME_MAX : Nat := 32

/-- The page that a node is entered by. -/
def PAGE_PATH_DEFAULT : Text := "/page/index.mu".toList

abbrev NodeNames := Table TruncatedHash Text

/-- A name for a node: the saved one, else the one it announced, else a part of its address. -/
def nodeLabel (savedNodes nodesSeen : NodeNames) (node : TruncatedHash) : Text :=
  ((savedNodes.lookup node).or (nodesSeen.lookup node)).getD (hex (node.val.take 4))

/-- The title that becomes the name of a node, which so far has only a placeholder for one. -/
def adoptable (savedNodes : NodeNames) (node : TruncatedHash) (path : Text) (title : Option Text) :
    Option Text :=
  match (title.map trim).filter fun t => !t.isEmpty with
  | none => none
  | some t =>
    if path = PAGE_PATH_DEFAULT then
      match savedNodes.lookup node with
      | none => none
      | some name =>
        if name = hex node.val ∨ name = (hex node.val).take 8 ++ ['…'] then some t else none
    else none

def adoptTitleWith (cut : Text → Nat → Checked Text) (savedNodes : NodeNames) (node : TruncatedHash)
    (path : Text) (page : Bytes) : Checked NodeNames := do
  let doc ← Micron.parse (utf8Lossy page)
  match adoptable savedNodes node path doc.title with
  | none => return savedNodes
  | some t => return savedNodes.insert node (← cut t DISPLAY_NAME_MAX)

def adoptTitle : NodeNames → TruncatedHash → Text → Bytes → Checked NodeNames :=
  adoptTitleWith truncate

def splitWhitespace (text : Text) : List Text :=
  (text.splitOnP isWhitespace).filter fun word => !word.isEmpty

def trimMatches (marks : List Char) (text : Text) : Text :=
  ((text.dropWhile (· ∈ marks)).reverse.dropWhile (· ∈ marks)).reverse

def scanPageLinks (text : Text) : Checked (List (TruncatedHash × Text)) :=
  (splitWhitespace text).foldlM (fun out tok => do
    match ← Micron.resolveLink (trimMatches "()[]<>\x7b\x7d\"'.,;!?".toList tok) with
    | .otherNode node path => return out ++ [(node, path)]
    | .nodeIndex node => return out ++ [(node, PAGE_PATH_DEFAULT)]
    | _ => return out) []

def ANNOUNCE_LIST_MAX : Nat := 32

def foundLinks (posts : List Text) : Checked (List (TruncatedHash × Text)) := do
  let found ← posts.reverse.foldlM (fun found post => do
    return (← scanPageLinks post).foldl (fun found hit =>
      if hit ∈ found then found else found ++ [hit]) found) []
  return found.take ANNOUNCE_LIST_MAX

def linkText (savedNodes nodesSeen : NodeNames) (link : TruncatedHash × Text) : Text :=
  nodeLabel savedNodes nodesSeen link.1 ++ ' ' :: link.2

def linkLabelsWith (cut : Text → Nat → Checked Text) (savedNodes nodesSeen : NodeNames)
    (posts : List Text) : Checked (List Text) := do
  (← foundLinks posts).mapM fun link => cut (linkText savedNodes nodesSeen link) 60

def linkLabels : NodeNames → NodeNames → List Text → Checked (List Text) := linkLabelsWith truncate

def varsString (vars : List (Text × Text)) : Text :=
  List.intercalate ['|'] (vars.map fun v => v.1 ++ '=' :: v.2)

def pageText (savedNodes nodesSeen : NodeNames) (title : Option Text) (addr : PageAddr) : Text :=
  title.getD (nodeLabel savedNodes nodesSeen addr.node) ++ ' ' :: addr.path ++
    if addr.vars.isEmpty then [] else ' ' :: varsString addr.vars

def pageLabel (savedNodes nodesSeen : NodeNames) (title : Option Text) (addr : PageAddr) :
    Checked Text :=
  truncate (pageText savedNodes nodesSeen title addr) 60

/-- A text that is short enough, or has a character end where it is cut. -/
def Cuttable (text : Text) (limit : Nat) : Prop :=
  byteLength text < limit ∨ isCharBoundary text limit = true

theorem truncate_eq_truncateUtf8_iff (text : Text) (limit : Nat) :
    truncate text limit = Micron.truncateUtf8 text limit ↔ Cuttable text limit := by
  rw [truncate_eq, Micron.truncateUtf8_eq, Cuttable]
  split
  case isTrue fits => exact iff_of_true rfl fits
  case isFalse inside => exact iff_of_false (fun same => by cases same) inside

theorem adoptTitle_eq_iff (savedNodes : NodeNames) (node : TruncatedHash) (path : Text)
    (page : Bytes) :
    adoptTitle savedNodes node path page =
        adoptTitleWith Micron.truncateUtf8 savedNodes node path page
      ↔ ∀ doc, Micron.parse (utf8Lossy page) = .ok doc →
          ∀ t ∈ adoptable savedNodes node path doc.title, Cuttable t DISPLAY_NAME_MAX := by
  -- Every page parses, so only its title matters.
  obtain ⟨doc, parsed, -⟩ := Micron.parse_wellFormed (utf8Lossy page)
  simp only [adoptTitle, adoptTitleWith, parsed, ok_bind, Except.ok.injEq, forall_eq']
  cases adoptable savedNodes node path doc.title with
  | none => simp
  | some t =>
    simp only [Option.mem_def, Option.some.injEq, forall_eq', Micron.truncateUtf8_eq, truncate_eq]
    split
    case isTrue fits => exact iff_of_true rfl fits
    case isFalse inside => exact iff_of_false (fun same => by cases same) inside

theorem linkLabels_eq_iff (savedNodes nodesSeen : NodeNames) (posts : List Text) :
    linkLabels savedNodes nodesSeen posts =
        linkLabelsWith Micron.truncateUtf8 savedNodes nodesSeen posts
      ↔ ∀ found, foundLinks posts = .ok found →
          ∀ link ∈ found, Cuttable (linkText savedNodes nodesSeen link) 60 := by
  rw [linkLabels, linkLabelsWith, linkLabelsWith]
  cases foundLinks posts with
  | error e => exact iff_of_true rfl (fun found same => by cases same)
  | ok found =>
    have whole : (found.mapM fun link =>
        Micron.truncateUtf8 (linkText savedNodes nodesSeen link) 60) =
        .ok (found.map fun link => fitting 60 (linkText savedNodes nodesSeen link)) :=
      mapM_eq_ok_iff.mpr fun link _ => Micron.truncateUtf8_eq ..
    rw [ok_bind, ok_bind, whole, mapM_eq_ok_iff]
    simp only [← Micron.truncateUtf8_eq, truncate_eq_truncateUtf8_iff, Except.ok.injEq, forall_eq']

/--
Names and labels are cut to the characters that fit wherever no character is in the way.

Everywhere else the application panics.
-/
theorem labels_cut_iff (savedNodes nodesSeen : NodeNames) (title : Option Text) (addr : PageAddr)
    (page : Bytes) (posts : List Text) :
    (adoptTitle savedNodes addr.node addr.path page =
        adoptTitleWith Micron.truncateUtf8 savedNodes addr.node addr.path page
      ↔ ∀ doc, Micron.parse (utf8Lossy page) = .ok doc →
          ∀ t ∈ adoptable savedNodes addr.node addr.path doc.title, Cuttable t DISPLAY_NAME_MAX)
    ∧ (linkLabels savedNodes nodesSeen posts =
        linkLabelsWith Micron.truncateUtf8 savedNodes nodesSeen posts
      ↔ ∀ found, foundLinks posts = .ok found →
          ∀ link ∈ found, Cuttable (linkText savedNodes nodesSeen link) 60)
    ∧ (pageLabel savedNodes nodesSeen title addr =
        Micron.truncateUtf8 (pageText savedNodes nodesSeen title addr) 60
      ↔ Cuttable (pageText savedNodes nodesSeen title addr) 60)
    ∧ ∀ text limit, Micron.truncateUtf8 text limit = .ok (fitting limit text) :=
  ⟨adoptTitle_eq_iff .., linkLabels_eq_iff .., truncate_eq_truncateUtf8_iff _ 60,
    Micron.truncateUtf8_eq⟩

def bareNode : TruncatedHash := BytesN.ofBytes 16 (List.replicate 16 0)

/-- A page of three-byte characters, and a link whose path is of two-byte ones. -/
theorem labels_panic :
    adoptTitle ((∅ : NodeNames).insert bareNode (hex bareNode.val)) bareNode PAGE_PATH_DEFAULT
        (utf8Encode ('>' :: List.replicate 11 '€')) =
      crash "assertion failed: self.is_char_boundary(new_len)"
    ∧ linkLabels ∅ ∅ [hex bareNode.val ++ ":/a".toList ++ List.replicate 40 'é'] =
      crash "assertion failed: self.is_char_boundary(new_len)"
    ∧ pageLabel ∅ ∅ none ⟨bareNode, "/a".toList ++ List.replicate 40 'é', []⟩ =
      crash "assertion failed: self.is_char_boundary(new_len)" := by
  refine ⟨?_, ?_, ?_⟩ <;> rfl

end LxmfChat
