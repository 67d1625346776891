import LxmfChat.Micron.Parse

/-! Every page parses, and what it parses to is well formed. -/

namespace LxmfChat.Micron

open Base Checked

def Line.linkId (line : Line) : Option UInt16 :=
  match line.kind with
  | .link id => some id
  | _ => none

/-- What holds of every parsed page. -/
structure WellFormed (doc : Document) : Prop where
  few : doc.lines.length ≤ MAX_LINES
  linked : ∀ line ∈ doc.lines, ∀ id, line.kind = .link id →
    ∃ link, doc.links[id.toNat]? = some link ∧ line.text = linkMarker ++ link.label
  increasing : (doc.lines.filterMap Line.linkId).Pairwise (· < ·)
  addressed : ∀ link ∈ doc.links, link.url ≠ []
  titled : ∀ title, doc.title = some title →
    title ≠ [] ∧ ∃ line ∈ doc.lines, line.style.isHeading = true ∧ title = trim line.text

theorem wellFormed_empty : WellFormed {} where
  few := Nat.zero_le _
  linked := by simp
  increasing := .nil
  addressed := by simp
  titled := by simp

namespace WellFormed

variable {doc : Document} {text : Text} {style : Style} {align : Align} {kind : Kind}

theorem linkId_lt (wf : WellFormed doc) {id : UInt16}
    (there : id ∈ doc.lines.filterMap Line.linkId) : id.toNat < doc.links.length := by
  obtain ⟨line, inside, named⟩ := List.mem_filterMap.mp there
  have kind : line.kind = .link id := by
    rw [Line.linkId] at named
    split at named
    case h_1 other same => rw [same, Option.some.inj named]
    case h_2 => cases named
  obtain ⟨link, found, -⟩ := wf.linked line inside id kind
  exact (List.getElem?_eq_some_iff.mp found).1

/-- The line shows a link that is there and that no line before it shows. -/
def Shows (doc : Document) (text : Text) (kind : Kind) : Prop :=
  ∀ id, kind = .link id →
    (∃ link, doc.links[id.toNat]? = some link ∧ text = linkMarker ++ link.label) ∧
    ∀ earlier ∈ doc.lines.filterMap Line.linkId, earlier < id

theorem append (wf : WellFormed doc) (shows : Shows doc text kind)
    (free : doc.lines.length < MAX_LINES) {title : Option Text}
    (titles : ∀ heading, title = some heading → doc.title = some heading ∨
      heading ≠ [] ∧ style.isHeading = true ∧ heading = trim text) :
    WellFormed { doc with title, lines := doc.lines ++ [⟨text, style, align, kind⟩] } where
  few := by
    rw [List.length_append, List.length_singleton]
    exact free
  linked line there id named := by
    rcases List.mem_append.mp there with before | last
    · exact wf.linked line before id named
    · obtain rfl := List.mem_singleton.mp last
      exact (shows id named).1
  increasing := by
    -- Only the new line can spoil the order, and it is newer than all that are there.
    rw [List.filterMap_append, List.pairwise_append]
    refine ⟨wf.increasing, ?_, fun earlier before id last => ?_⟩
    · cases kind <;> simp [List.filterMap_cons, Line.linkId]
    · cases kind with
      | text => simp [List.filterMap_cons, Line.linkId] at last
      | divider => simp [List.filterMap_cons, Line.linkId] at last
      | link new =>
        obtain rfl : id = new := by simpa [List.filterMap_cons, Line.linkId] using last
        exact (shows id rfl).2 earlier before
  addressed := wf.addressed
  titled heading set := by
    rcases titles heading set with old | ⟨nonempty, large, same⟩
    · obtain ⟨nonempty, line, there, large, same⟩ := wf.titled heading old
      exact ⟨nonempty, line, List.mem_append_left _ there, large, same⟩
    · exact ⟨nonempty, _, List.mem_append_right _ (List.mem_singleton_self _), large, same⟩

theorem pushLine (wf : WellFormed doc) (shows : Shows doc text kind)
    (room : style.isHeading = true → doc.lines.length < MAX_LINES) :
    WellFormed (doc.pushLine text style align kind) := by
  unfold Document.pushLine
  by_cases free : doc.lines.length < MAX_LINES
  · split
    case isTrue first =>
      rw [if_pos free]
      refine wf.append shows free fun heading set => .inr ?_
      simp only [Bool.and_eq_true, Bool.not_eq_true', List.isEmpty_eq_false_iff] at first
      obtain rfl := Option.some.inj set
      exact ⟨first.2, first.1.2, rfl⟩
    case isFalse =>
      rw [if_pos free]
      exact wf.append shows free fun heading set => .inl set
  · -- There is no room, so the line is no heading and nothing changes.
    have plain : style.isHeading = false := by
      rw [Bool.eq_false_iff]
      exact fun heading => free (room heading)
    simpa [plain, free] using wf

theorem shows_of_ne (plain : ∀ id, kind ≠ .link id) : Shows doc text kind :=
  fun id same => absurd same (plain id)

theorem pushLink (wf : WellFormed doc) {link : Link} (addressed : link.url ≠ []) :
    WellFormed { doc with links := doc.links ++ [link] } where
  few := wf.few
  linked line there id named := by
    obtain ⟨shown, found, same⟩ := wf.linked line there id named
    have inside := (List.getElem?_eq_some_iff.mp found).1
    exact ⟨shown, by rw [List.getElem?_append_left inside, found], same⟩
  increasing := wf.increasing
  addressed other there := by
    rcases List.mem_append.mp there with before | last
    · exact wf.addressed other before
    · rw [List.mem_singleton.mp last]
      exact addressed
  titled := wf.titled

theorem shows_last (wf : WellFormed doc) (fits : doc.links.length < 65535) (link : Link) :
    Shows { doc with links := doc.links ++ [link] } (linkMarker ++ link.label)
      (.link (UInt16.ofNat doc.links.length)) := by
  intro id same
  obtain rfl := Kind.link.inj same
  have value : (UInt16.ofNat doc.links.length).toNat = doc.links.length := by
    rw [UInt16.toNat_ofNat']
    omega
  refine ⟨⟨link, ?_, rfl⟩, fun earlier before => ?_⟩
  · rw [value, List.getElem?_concat_length]
  · rw [UInt16.lt_iff_toNat_lt, value]
    exact wf.linkId_lt before

end WellFormed

@[simp] theorem Scan.doc_pushSegChar (s : Scan) (c : Char) : (s.pushSegChar c).doc = s.doc := by
  rw [Scan.pushSegChar]
  split <;> rfl

@[simp] theorem Scan.doc_pushSegChars (s : Scan) (text : Text) :
    (s.pushSegChars text).doc = s.doc := by
  induction text generalizing s with
  | nil => rfl
  | cons c text ih => exact (ih (s.pushSegChar c)).trans (s.doc_pushSegChar c)

@[simp] theorem Scan.i_pushSegChars (s : Scan) (text : Text) : (s.pushSegChars text).i = s.i := by
  induction text generalizing s with
  | nil => rfl
  | cons c text ih =>
    refine (ih (s.pushSegChar c)).trans ?_
    rw [Scan.pushSegChar]
    split <;> rfl

/-- What taking one character can do to the document: nothing, or a link becomes a line. -/
inductive Scanned (heading : Nat) (doc : Document) : Document → Prop
  | keeps : Scanned heading doc doc
  | links (plain : heading = 0) {s : Scan} (start : s.doc = doc) {link : Link}
      (addressed : link.url ≠ []) : Scanned heading doc (s.takeLink 0 link).doc

theorem skipTo_returns (stop : Char) (chars : List Char) (i : Nat) :
    (skipTo stop chars i).Returns fun close => i ≤ close := by
  refine Returns.loop (fun k => i ≤ k) (fun k => chars.length - k) ?_ ?_ le_rfl (by omega)
  · intro k after more
    have inside : k < chars.length := of_decide_eq_true more
    rw [index_ok inside, ok_bind]
    refine .ok ?_
    split
    · exact ⟨Nat.le_succ_of_le after, Nat.sub_succ_lt_self _ _ inside⟩
    · exact after
  · exact fun k after _ => after

theorem charOrZero_returns (chars : List Char) (i : Nat) :
    (charOrZero chars i).Returns fun c => c ≠ '\x00' → i < chars.length := by
  rw [charOrZero]
  split
  case isTrue inside =>
    rw [index_ok inside]
    exact .ok fun _ => inside
  case isFalse => exact .ok fun other => absurd rfl other

theorem tryParseLink_returns (chars : List Char) :
    (tryParseLink chars).Returns fun found => ∀ link consumed, found = some (link, consumed) →
      link.url ≠ [] := by
  rw [tryParseLink]
  cases bracket : chars.findIdx? (· = ']') with
  | none => exact .ok (by simp)
  | some close =>
    have inside : close < chars.length := (List.findIdx?_eq_some_iff_getElem.mp bracket).1
    dsimp only
    split
    case isTrue => exact .ok (by simp)
    case isFalse far =>
      rw [slice_ok (by omega) (by omega), ok_bind]
      refine .ok fun link consumed found => ?_
      obtain ⟨parsed, inner, same⟩ := Option.map_eq_some_iff.mp found
      obtain ⟨rfl, -⟩ := Prod.mk.inj same
      rw [parseInner] at inner
      split at inner
      case isTrue => cases inner
      case isFalse nonempty =>
        cases inner
        simpa using nonempty

theorem Scanned.of_eq {heading : Nat} {doc after : Document} (same : after = doc) :
    Scanned heading doc after :=
  same ▸ .keeps

theorem scanned_takeLink (heading : Nat) (s : Scan) {link : Link} (addressed : link.url ≠ []) :
    Scanned heading s.doc (s.takeLink heading link).doc := by
  cases heading with
  | zero => exact .links rfl rfl addressed
  | succ depth =>
    refine .of_eq ?_
    rw [Scan.takeLink, if_pos depth.succ_pos, Scan.doc_pushSegChars]

theorem scanTag_returns (chars : List Char) (heading : Nat) (s : Scan) :
    (scanTag chars heading s).Returns fun s' => s.i ≤ s'.i ∧ Scanned heading s.doc s'.doc := by
  rw [scanTag]
  refine (charOrZero_returns chars s.i).bind fun t inside => ?_
  -- One case for each tag; the ones that read on come first, and the others only count and format.
  split
  case h_5 | h_6 =>
    have before := inside (by decide)
    refine (charOrZero_returns chars (s.i + 1)).bind fun next _ => .ok ⟨?_, .keeps⟩
    exact le_min (by omega) before.le
  case h_13 | h_14 =>
    have before := inside (by decide)
    refine (skipTo_returns _ chars (s.i + 1)).bind fun close after => .ok ⟨?_, .of_eq (by simp)⟩
    simp only [Scan.i_pushSegChars]
    exact le_min (by omega) before.le
  case h_15 =>
    have before := inside (by decide)
    rw [slice_length before.le, ok_bind]
    refine (tryParseLink_returns _).bind fun found addressed => ?_
    cases found with
    | none => exact .ok ⟨Nat.le_succ _, .of_eq (by simp)⟩
    | some taken =>
      exact .ok ⟨Nat.le_add_right _ _, scanned_takeLink heading s (addressed _ _ rfl)⟩
  all_goals exact .ok ⟨by simp, .keeps⟩

theorem scanChar_returns (chars : List Char) (heading : Nat) (s : Scan) (inside : s.i < chars.length) :
    (scanChar chars heading s).Returns fun s' => s.i < s'.i ∧ Scanned heading s.doc s'.doc := by
  rw [scanChar, index_ok inside, ok_bind]
  split
  · split
    case isTrue more =>
      rw [index_ok more, ok_bind]
      exact .ok ⟨by simp, .of_eq (by simp)⟩
    case isFalse => exact .ok ⟨by simp, .keeps⟩
  · exact scanTag_returns chars heading { s with i := s.i + 1 }
  · exact .ok ⟨by simp, .of_eq (by simp)⟩

namespace WellFormed

variable {s : Scan} {heading : Nat} {link : Link}

theorem heading_pos (large : (s.style heading).isHeading = true) : 0 < heading := by
  rw [Scan.style] at large
  split at large
  case isTrue depth => exact depth
  case isFalse => split at large <;> cases large

theorem flushSeg (wf : WellFormed s.doc) (room : 0 < heading → s.doc.lines.length < MAX_LINES) :
    WellFormed (s.flushSeg heading).doc := by
  rw [Scan.flushSeg]
  split
  · exact wf
  · exact wf.pushLine (shows_of_ne (by simp)) fun large => room (heading_pos large)

theorem takeLink (wf : WellFormed s.doc) (addressed : link.url ≠ []) :
    WellFormed (s.takeLink 0 link).doc := by
  have flushed : WellFormed (s.flushSeg 0).doc := wf.flushSeg (by simp)
  rw [Scan.takeLink, if_neg (Nat.lt_irrefl 0)]
  dsimp only
  split
  case isTrue fits =>
    exact (flushed.pushLink addressed).pushLine (flushed.shows_last fits link) (by simp [Style.isHeading])
  case isFalse => exact flushed

theorem scanned {doc after : Document} (wf : WellFormed doc) (step : Scanned heading doc after) :
    WellFormed after := by
  cases step with
  | keeps => exact wf
  | links plain start addressed =>
    subst start
    exact wf.takeLink addressed

end WellFormed

theorem Scanned.eq_of_heading {heading : Nat} {doc after : Document}
    (step : Scanned heading doc after) (depth : 0 < heading) : after = doc := by
  cases step with
  | keeps => rfl
  | links plain => omega

theorem scanInline_returns {doc : Document} (wf : WellFormed doc) (body : Text) (heading : Nat)
    (st : ScanState) (room : 0 < heading → doc.lines.length < MAX_LINES) :
    (scanInline body heading st doc).Returns fun out => WellFormed out.2 := by
  -- While a heading is scanned nothing is pushed, so there still is room when it is flushed.
  let I (s : Scan) : Prop := WellFormed s.doc ∧ (0 < heading → s.doc = doc)
  have round (s : Scan) (kept : I s) (more : decide (s.i < body.length) = true) :
      (do return ForInStep.yield (← scanChar body heading s)).Returns
        (Round I I (fun s => body.length - s.i) s) := by
    have inside : s.i < body.length := of_decide_eq_true more
    refine (scanChar_returns body heading s inside).bind fun s' step => .ok ⟨⟨?_, ?_⟩, ?_⟩
    · exact kept.1.scanned step.2
    · exact fun depth => (step.2.eq_of_heading depth).trans (kept.2 depth)
    · exact Nat.sub_lt_sub_left inside step.1
  refine (Returns.loop I _ round (fun s kept _ => kept) ⟨wf, fun _ => rfl⟩
    (Nat.lt_succ_of_le (Nat.sub_le _ _))).bind fun s kept => .ok ?_
  refine kept.1.flushSeg fun depth => ?_
  rw [kept.2 depth]
  exact room depth

theorem strSlice_mark (rest : Text) :
    strSlice ('>' :: rest) 1 (byteLength ('>' :: rest)) = .ok rest := by
  have cut := strSlice_eq ['>'] rest [] rfl (Nat.add_comm (byteLength rest) 1)
  rwa [List.append_nil] at cut

theorem headingOf_returns (line : Text) : (headingOf line).Returns fun _ => True := by
  refine Returns.loop (fun _ => True) (fun s => 3 - s.1) ?_ (fun _ _ _ => trivial) trivial (by simp)
  rintro ⟨depth, rest⟩ - more
  simp only [Bool.and_eq_true, decide_eq_true_eq] at more
  obtain ⟨rest, rfl⟩ : ∃ tail, rest = '>' :: tail := List.head?_eq_some_iff.mp more.1
  rw [strSlice_mark]
  exact .ok ⟨trivial, Nat.sub_succ_lt_self _ _ more.2⟩

theorem parseLine_returns {doc : Document} (wf : WellFormed doc) (line : Text) (st : ScanState)
    (room : doc.lines.length < MAX_LINES) :
    (parseLine line st doc).Returns fun out => WellFormed out.2 := by
  have push (text : Text) (style : Style) (align : Align) {kind : Kind}
      (plain : ∀ id, kind ≠ .link id) : WellFormed (doc.pushLine text style align kind) :=
    wf.pushLine (WellFormed.shows_of_ne plain) fun _ => room
  rw [parseLine]
  split
  · exact .ok wf
  split
  · exact .ok (push _ _ _ (by simp))
  split
  · -- The header only sets how long the page may be kept.
    refine .ok ?_
    split
    · exact ⟨wf.few, wf.linked, wf.increasing, wf.addressed, wf.titled⟩
    · exact wf
  split
  · exact .ok wf
  split
  · exact .ok wf
  split
  · exact .ok (push _ _ _ (by simp))
  refine (headingOf_returns line).bind fun ⟨heading, body⟩ _ => ?_
  dsimp only
  generalize (if heading = 0 then _ else body) = inline
  split
  · exact .ok (push _ _ _ (by simp))
  · exact scanInline_returns wf inline heading st fun _ => room

theorem parseLines_returns (input : List Text) {doc : Document} (wf : WellFormed doc)
    (st : ScanState) : (parseLines input st doc).Returns WellFormed := by
  induction input generalizing st doc with
  | nil => exact .ok wf
  | cons line rest ih =>
    rw [parseLines]
    split
    case isTrue => exact .ok wf
    case isFalse room =>
      exact (parseLine_returns wf line st (Nat.lt_of_not_le room)).bind fun out kept =>
        ih kept out.1

theorem lastBoundary_eq (s : Text) (k : Nat) : lastBoundary s k = byteLength (fitting k s) := by
  induction k with
  | zero =>
    have fits := byteLength_fitting_le 0 s
    rw [lastBoundary]
    omega
  | succ k ih =>
    rw [lastBoundary]
    split
    case isTrue boundary =>
      obtain ⟨⟨front, rest⟩, cut⟩ := Option.isSome_iff_exists.mp boundary
      rw [fitting_eq_of_cutAt cut, (cutAt_eq_some_iff.mp cut).2]
    case isFalse inside =>
      -- What fits into one byte more does not end there, so it fits without that byte.
      rw [ih]
      have most := byteLength_fitting_le (k + 1) s
      have other : byteLength (fitting (k + 1) s) ≠ k + 1 := fun same =>
        inside (isCharBoundary_iff.mpr ⟨_, fitting_front (k + 1) s, same⟩)
      obtain ⟨more, whole⟩ := prefix_fitting_iff.mpr
        ⟨fitting_front k s, (byteLength_fitting_le k s).trans k.le_succ⟩
      have longest : byteLength (fitting k s) ≤ byteLength (fitting (k + 1) s) := by
        rw [← whole, byteLength_append]
        omega
      rw [eq_fitting (fitting_front (k + 1) s) (by omega) longest]

theorem truncateUtf8_eq (s : Text) (max : Nat) : truncateUtf8 s max = .ok (fitting max s) := by
  rw [truncateUtf8]
  split
  case isTrue fits => rw [fitting_of_le fits]
  case isFalse =>
    obtain ⟨rest, whole⟩ := fitting_front max s
    have cut := strSlice_eq [] (fitting max s) rest rfl (add_zero _)
    rwa [List.nil_append, whole, ← lastBoundary_eq] at cut

/-- Every page parses, to a document that is well formed. -/
theorem parse_wellFormed (src : Text) : ∃ doc, parse src = .ok doc ∧ WellFormed doc := by
  rw [parse, truncateUtf8_eq, ok_bind]
  exact parseLines_returns _ wellFormed_empty {}

end LxmfChat.Micron
