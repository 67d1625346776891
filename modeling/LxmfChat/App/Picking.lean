import LxmfChat.App.Bookmarks

/-! Lists that the user picks a row from, and which row is acted on. -/

namespace LxmfChat

open Base Checked

/-- The first row of every list, which leaves without a choice. -/
def CANCEL_LABEL : Text := "[cancel]".toList

def pickFromList (items : List Text) (choice : Option Text) : Option Nat :=
  if items.isEmpty then none
  else
    match choice with
    | none => none
    | some choice =>
      if choice ≠ CANCEL_LABEL then
        (((CANCEL_LABEL :: items).findIdx? (· = choice)).filter (0 < ·)).map (· - 1)
      else none

def picked {α : Type} (label : α → Text) (entries : List α) (choice : Option Text) : Option α :=
  (pickFromList (entries.map label) choice).bind fun i => entries[i]?

def peerLabel (entry : TruncatedHash × Text) : Text :=
  entry.2 ++ " (".toList ++ hex (entry.1.val.take 4) ++ [')']

def pickPeer (entries : List (TruncatedHash × Text)) (choice : Option Text) :
    Option (TruncatedHash × Text) :=
  picked peerLabel entries choice

abbrev Bookmark := Text × Text × PageAddr

def openBookmark (bookmarks : List Bookmark) (choice : Option Text) : Option PageAddr :=
  (picked (·.2.1) bookmarks choice).map (·.2.2)

def removeBookmark (dict : Table Text Bytes) (bookmarks : List Bookmark) (choice : Option Text) :
    Table Text Bytes :=
  match picked (·.2.1) bookmarks choice with
  | none => dict
  | some bookmark => dict.erase bookmark.1

/-- A bookmark gets the label that was typed, unless that is blank or the one it has. -/
def relabel (crypto : Crypto) (dict : Table Text Bytes) (typed : Option Text) (bookmark : Bookmark) :
    Checked (Table Text Bytes) :=
  match typed with
  | none => return dict
  | some text => do
    let label ← truncate (trim text) 60
    if label.isEmpty ∨ label = bookmark.2.1 then return dict
    else return persistBookmark crypto dict label bookmark.2.2

def renameBookmark (crypto : Crypto) (dict : Table Text Bytes) (bookmarks : List Bookmark)
    (choice typed : Option Text) : Checked (Table Text Bytes) :=
  match picked (·.2.1) bookmarks choice with
  | none => return dict
  | some bookmark => relabel crypto dict typed bookmark

def openLink (savedNodes nodesSeen : NodeNames) (posts : List Text) (choice : Option Text) :
    Checked (Option (TruncatedHash × Text)) := do
  let found ← foundLinks posts
  let labels ← linkLabels savedNodes nodesSeen posts
  return (pickFromList labels choice).bind fun i => found[i]?

/-- The label of an entry is neither that of an entry above it nor the one that cancels. -/
def Clear {α : Type} (label : α → Text) (above : List α) (entry : α) : Prop :=
  label entry ≠ CANCEL_LABEL ∧ ∀ other ∈ above, label other ≠ label entry

variable {α : Type} {label : α → Text} {above below : List α} {entry : α}

theorem pickFromList_eq (items : List Text) (text : Text) :
    pickFromList items (some text) =
      if text = CANCEL_LABEL then none else items.findIdx? (· = text) := by
  by_cases cancels : text = CANCEL_LABEL
  · simp [pickFromList, cancels]
  -- The row that cancels is another one, so it only shifts the positions.
  have shifted : (CANCEL_LABEL :: items).findIdx? (· = text)
      = (items.findIdx? (· = text)).map (· + 1) := by
    rw [List.findIdx?_cons, if_neg (by simpa using Ne.symm cancels)]
  simp only [pickFromList, ne_eq, cancels, not_false_iff, if_true, if_false, shifted]
  cases items with
  | nil => rfl
  | cons item items =>
    rw [if_neg (by simp)]
    cases (item :: items).findIdx? (· = text) with
    | none => rfl
    | some i => simp

theorem findIdx_label_iff (below : List α) :
    ((above ++ entry :: below).map label).findIdx? (· = label entry) = some above.length
      ↔ ∀ other ∈ above, label other ≠ label entry := by
  -- The search stops at the entry just if it stops at none above it.
  rw [List.findIdx?_map, List.findIdx?_eq_some_iff_getElem]
  constructor
  · rintro ⟨inside, same, first⟩ other there
    obtain ⟨j, before, rfl⟩ := List.getElem_of_mem there
    simpa [List.getElem_append_left before] using first j before
  · intro first
    refine ⟨by simp, by simp, fun j before => ?_⟩
    simpa [List.getElem_append_left before] using first _ (List.getElem_mem before)

theorem pickFromList_iff :
    pickFromList ((above ++ entry :: below).map label) (some (label entry)) = some above.length
      ↔ Clear label above entry := by
  rw [pickFromList_eq, Clear, ← findIdx_label_iff below]
  by_cases cancels : label entry = CANCEL_LABEL
  · simp [cancels]
  · simp [cancels]

theorem picked_of_clear (plain : Clear label above entry) (below : List α) :
    picked label (above ++ entry :: below) (some (label entry)) = some entry := by
  rw [picked, pickFromList_iff.mpr plain, Option.bind_some]
  simp

theorem linkLabels_eq {savedNodes nodesSeen : NodeNames} {posts : List Text}
    {found : List (TruncatedHash × Text)} {labels : List Text} (links : foundLinks posts = .ok found)
    (made : linkLabels savedNodes nodesSeen posts = .ok labels) :
    labels = found.map fun link => fitting 60 (linkText savedNodes nodesSeen link) := by
  rw [linkLabels, linkLabelsWith, links, ok_bind] at made
  clear links
  -- A cut that does not panic keeps the characters that fit.
  induction found generalizing labels with
  | nil =>
    cases made
    rfl
  | cons link found ih =>
    rw [List.mapM_cons, truncate_eq] at made
    split at made
    case isFalse => cases made
    case isTrue =>
      rw [ok_bind] at made
      cases rest : found.mapM fun link => truncate (linkText savedNodes nodesSeen link) 60 with
      | error e => rw [rest] at made; cases made
      | ok others =>
        rw [rest] at made
        cases made
        rw [ih rest, List.map_cons]

/--
The row that is picked is acted on wherever its label is clear.

It may be a row of any list, a peer, a bookmark to open, remove or rename, or a link.
-/
theorem picks_clear_row (crypto : Crypto) (dict : Table Text Bytes) (typed : Option Text)
    (savedNodes nodesSeen : NodeNames) (posts : List Text) :
    (∀ above text below, pickFromList (above ++ text :: below) (some text) = some above.length
      ↔ Clear id above text)
    ∧ (∀ above peer below, Clear peerLabel above peer →
      pickPeer (above ++ peer :: below) (some (peerLabel peer)) = some peer)
    ∧ (∀ above (bookmark : Bookmark) below, Clear (·.2.1) above bookmark →
      openBookmark (above ++ bookmark :: below) (some bookmark.2.1) = some bookmark.2.2
      ∧ removeBookmark dict (above ++ bookmark :: below) (some bookmark.2.1) = dict.erase bookmark.1
      ∧ renameBookmark crypto dict (above ++ bookmark :: below) (some bookmark.2.1) typed
        = relabel crypto dict typed bookmark)
    ∧ ∀ above link below labels, foundLinks posts = .ok (above ++ link :: below) →
      linkLabels savedNodes nodesSeen posts = .ok labels →
      let label := fun link => fitting 60 (linkText savedNodes nodesSeen link)
      labels = (above ++ link :: below).map label
      ∧ (Clear label above link →
        openLink savedNodes nodesSeen posts (some (label link)) = .ok (some link)) := by
  refine ⟨?_, fun above peer below plain => picked_of_clear plain below, ?_, ?_⟩
  · intro above text below
    have row : pickFromList ((above ++ text :: below).map id) (some text) = some above.length ↔ _ :=
      pickFromList_iff
    rwa [List.map_id] at row
  · intro above bookmark below plain
    have row : picked (·.2.1) (above ++ bookmark :: below) (some bookmark.2.1) = some bookmark :=
      picked_of_clear plain below
    simp only [openBookmark, removeBookmark, renameBookmark, row, Option.map_some, and_self]
  · intro above link below labels links made label
    have shown := linkLabels_eq links made
    refine ⟨shown, fun plain => ?_⟩
    rw [openLink, links, ok_bind, made, ok_bind, shown]
    exact congrArg Except.ok (picked_of_clear plain below)

def samePeers : List (TruncatedHash × Text) :=
  [(bareNode, ['B', 'o']), (BytesN.ofBytes 16 [0, 0, 0, 0, 1], ['B', 'o'])]

def titledPages : List PageAddr :=
  [⟨bareNode, PAGE_PATH_DEFAULT, []⟩, ⟨BytesN.ofBytes 16 [1], PAGE_PATH_DEFAULT, []⟩]

def titledLabel : Text := "Home /page/index.mu".toList

def titledBookmarks (crypto : Crypto) : List Bookmark :=
  titledPages.map fun addr => (bookmarkKey crypto addr, titledLabel, addr)

def sameNames : NodeNames := titledPages.foldl (fun names addr => names.insert addr.node ['N']) ∅

def linkPosts : List Text := titledPages.reverse.map fun addr => hex addr.node.val

/-- Choosing the second of two rows acts on the first, among peers, bookmarks and links. -/
theorem picks_other_row :
    (samePeers.Nodup ∧ pickPeer samePeers (samePeers[1]?.map peerLabel) = samePeers[0]?)
    ∧ (titledPages.Nodup ∧ (∀ addr ∈ titledPages,
        pageLabel ∅ ∅ (some "Home".toList) addr = .ok titledLabel)
      ∧ ∀ crypto dict,
        openBookmark (titledBookmarks crypto) ((titledBookmarks crypto)[1]?.map (·.2.1)) = titledPages[0]?
        ∧ removeBookmark dict (titledBookmarks crypto) ((titledBookmarks crypto)[1]?.map (·.2.1))
          = dict.erase (bookmarkKey crypto ⟨bareNode, PAGE_PATH_DEFAULT, []⟩))
    ∧ ∃ first second label, foundLinks linkPosts = .ok [first, second] ∧ first ≠ second
      ∧ linkLabels sameNames ∅ linkPosts = .ok [label, label]
      ∧ openLink sameNames ∅ linkPosts (some label) = .ok (some first) := by
  refine ⟨⟨by decide, by decide⟩, ⟨by decide, by decide, fun crypto dict => ⟨rfl, rfl⟩⟩, ?_⟩
  exact ⟨_, _, _, rfl, by decide, rfl, rfl⟩

end LxmfChat
