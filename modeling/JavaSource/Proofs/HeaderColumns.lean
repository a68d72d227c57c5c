import JavaSource.Proofs.BlockStructure
import JavaSource.Proofs.DeletedTrail
import JavaSource.Proofs.FirstLine

/-!
# What the headers of `for` loops are like

Where the header of a `for` loop opens in the line of the loop, its first initializer is as many
columns behind the start of the line as there are characters in between
(`Trail.forInitColumn_of_opensInLine`), and nothing in the header starts a line before it
(`Tree.OpensInLine.hasNewline_leading`, `Tree.OpensInLine.initStartsLine_eq`).  In a parsed tree the
condition and the updates of a header hold no statements (`inlineHeaders_of_parseFrom`).
-/

namespace JavaSource

/-! ### Characters of one column -/

/-- White space that takes one column. -/
def IsColumnBlank (c : Char) : Prop := isWhiteSpace c ∧ c ≠ '\n' ∧ c ≠ '\r' ∧ c ≠ '\t'

instance : DecidablePred IsColumnBlank :=
  fun c => inferInstanceAs (Decidable (isWhiteSpace c ∧ c ≠ '\n' ∧ c ≠ '\r' ∧ c ≠ '\t'))

namespace IndentStyle

variable (style : IndentStyle)

/-- A text in which each character takes one column. -/
theorem width_append {t : Text} (h : ∀ c ∈ t, c ≠ '\n' ∧ c ≠ '\r' ∧ c ≠ '\t') (s : Text) :
    style.width (s ++ t) = style.width s + t.length := by
  rw [width, List.foldl_append, ← width]
  generalize style.width s = column
  induction t generalizing column with
  | nil => rfl
  | cons c t ih =>
    rw [List.forall_mem_cons] at h
    have hadvance : style.advance column c = column + 1 := by
      simp [advance, h.1.1, h.1.2.1, h.1.2.2]
    rw [List.foldl_cons, hadvance, ih h.2, List.length_cons]
    omega

end IndentStyle

theorem Space.columnAfter_eq (style : IndentStyle) {s : Space} (h : s.comments = []) :
    style.columnAfter s = style.width (Text.lastLine s.toText) := by
  rw [IndentStyle.columnAfter, Space.indent, Space.lastWhitespace, h, Space.toText_of_comments h]
  rfl

/-! ### The text of a header -/

theorem columnInParentheses_append {t : Text} {opened : Bool}
    (h : ∀ c ∈ t, c ≠ '\n' ∧ if opened then isWhiteSpace c else c ≠ '(') (lineStart : Int)
    (offset : Nat) (rest : Text) :
    columnInParentheses lineStart offset opened (t ++ rest) =
      columnInParentheses lineStart (offset + t.length) opened rest := by
  induction t generalizing offset with
  | nil => rfl
  | cons c t ih =>
    rw [List.forall_mem_cons] at h
    have hopened : (opened || c == '(') = opened := by
      cases opened with
      | true => rfl
      | false => simpa using h.1.2
    have hwhite : (opened && !isWhiteSpace c) = false := by
      cases opened with
      | true => simpa using h.1.2
      | false => rfl
    rw [List.cons_append, columnInParentheses, if_neg h.1.1, hwhite, if_neg Bool.false_ne_true,
      hopened, ih h.2, List.length_cons, Nat.add_right_comm, Nat.add_assoc]

namespace Tree

/-- The header of a `for` loop opens in one line: there are these blanks before and after its
parenthesis, and then there is something else. -/
structure OpensInLine (before after : Text) (control : Tree) : Prop where
  blanksBefore : ∀ c ∈ before, IsColumnBlank c
  blanksAfter : ∀ c ∈ after, IsColumnBlank c
  text : ∃ c rest, control.toText = before ++ '(' :: (after ++ c :: rest) ∧ isWhiteSpace c = false

end Tree

/-- The text of a loop up to the first initializer, with these blanks around the parenthesis. -/
abbrev headerStart (before after : Text) : Text := "for".toList ++ before ++ '(' :: after

namespace Tree.OpensInLine

variable {before after : Text} {control : Tree}

theorem forall_mem_headerStart (h : control.OpensInLine before after) :
    ∀ c ∈ headerStart before after, c ≠ '\n' ∧ c ≠ '\r' ∧ c ≠ '\t' := by
  rw [List.forall_mem_append, List.forall_mem_append, List.forall_mem_cons]
  exact ⟨⟨by simp, fun c hc => (h.blanksBefore c hc).2⟩, by decide,
    fun c hc => (h.blanksAfter c hc).2⟩

/-- On the line of a loop the first initializer is as far to the right as the start is long. -/
theorem width_headerStart (h : control.OpensInLine before after) (style : IndentStyle) {s : Space}
    (hs : s.comments = []) :
    style.width (Text.lastLine (s.toText ++ headerStart before after)) =
      style.columnAfter s + (headerStart before after).length := by
  have hstart := h.forall_mem_headerStart
  rw [Text.lastLine_append fun hmem => (hstart _ hmem).1 rfl, style.width_append hstart,
    ← Space.columnAfter_eq style hs]

/-- The first initializer is found where the start of the header ends. -/
theorem columnInParentheses_eq (h : control.OpensInLine before after) (lineStart : Int)
    (rest : Text) :
    columnInParentheses lineStart 0 false ("for".toList ++ (control.toText ++ rest)) =
      some (lineStart + (headerStart before after).length) := by
  obtain ⟨c, others, htext, hc⟩ := h.text
  have hsplit : "for".toList ++ (control.toText ++ rest) =
      ("for".toList ++ before) ++ '(' :: (after ++ c :: (others ++ rest)) := by
    simp [htext]
  have hbefore : ∀ d ∈ "for".toList ++ before, d ≠ '\n' ∧ d ≠ '(' := by
    rw [List.forall_mem_append]
    refine ⟨by simp, fun d hd => ⟨(h.blanksBefore d hd).2.1, ?_⟩⟩
    rintro rfl
    exact absurd (h.blanksBefore _ hd).1 (by decide)
  have hafter : ∀ d ∈ after, d ≠ '\n' ∧ isWhiteSpace d :=
    fun d hd => ⟨(h.blanksAfter d hd).2.1, (h.blanksAfter d hd).1⟩
  have hopening (offset : Nat) (t : Text) : columnInParentheses lineStart offset false ('(' :: t) =
      columnInParentheses lineStart (offset + 1) true t := rfl
  have hfirst (offset : Nat) (t : Text) : columnInParentheses lineStart offset true (c :: t) =
      some (lineStart + offset) := by
    have hne : c ≠ '\n' := by
      rintro rfl
      cases hc
    rw [columnInParentheses, if_neg hne, hc]
    rfl
  rw [hsplit, columnInParentheses_append (by simpa using hbefore), hopening,
    columnInParentheses_append (by simpa using hafter), hfirst]
  simp only [headerStart, List.length_append, List.length_cons]
  congr 2
  omega

/-- The start of a header is read off its first line. -/
theorem of_firstLine {control' : Tree} (h : control.OpensInLine before after)
    (heq : control'.toText.firstLine = control.toText.firstLine) :
    control'.OpensInLine before after := by
  obtain ⟨c, rest, htext, hc⟩ := h.text
  refine ⟨h.blanksBefore, h.blanksAfter, c, ?_⟩
  have hsplit : control.toText = (before ++ '(' :: (after ++ [c])) ++ rest := by simp [htext]
  have hline : '\n' ∉ before ++ '(' :: (after ++ [c]) := by
    simp only [List.mem_append, List.mem_cons, List.not_mem_nil, or_false, not_or]
    refine ⟨fun hmem => (h.blanksBefore _ hmem).2.1 rfl, by decide,
      fun hmem => (h.blanksAfter _ hmem).2.1 rfl, ?_⟩
    rintro rfl
    cases hc
  have hprefix := Text.firstLine_prefix control'.toText
  rw [heq, hsplit, Text.firstLine_append_of_not_mem hline] at hprefix
  obtain ⟨rest', hrest'⟩ := hprefix
  exact ⟨Text.firstLine rest ++ rest', by rw [← hrest']; simp, hc⟩

end Tree.OpensInLine

theorem isWhiteSpace_of_isBlankChar {c : Char} (h : Lexeme.isBlankChar c) : isWhiteSpace c := by
  simp only [Lexeme.isBlankChar, Bool.or_eq_true, beq_iff_eq] at h
  rcases h with (((rfl | rfl) | rfl) | rfl) | rfl <;> decide

/-! ### Inside the header -/

namespace Tree

variable {before after : Text} {control : Tree} {init update : List (Followed Tree)}
  {condition : Followed Tree}

theorem toText_forControl (hcontrol : control.shape = .forControl init condition update) :
    ∃ rest, control.toText = control.leading.toText ++ '(' ::
      ((Piece.separated .forInit [','] init).flatMap pieceText ++ rest) := by
  rw [toText_eq, hcontrol]
  simp only [Shape.pieces, List.flatMap_append, List.flatMap_cons, List.append_assoc]
  exact ⟨_, rfl⟩

namespace OpensInLine

variable (h : control.OpensInLine before after)
  (hcontrol : control.shape = .forControl init condition update)
  (hcomments : ∀ p ∈ control.spaces, p.2.comments = [])
  (hblank : ∀ p ∈ control.spaces, ∀ c ∈ p.2.whitespace, Lexeme.isBlankChar c)

include h hcontrol hcomments hblank

/-- The space before the header is what stands before its parenthesis. -/
theorem leading_eq : control.leading.whitespace = before := by
  have hmem := control.leading_mem_spaces
  obtain ⟨rest, htext⟩ := toText_forControl hcontrol
  obtain ⟨c, others, heq, -⟩ := h.text
  rw [htext, Space.toText_of_comments (hcomments _ hmem)] at heq
  have htake {blanks : Text} (hblanks : ∀ d ∈ blanks, isWhiteSpace d) (t : Text) :
      (blanks ++ '(' :: t).takeWhile (· ≠ '(') = blanks := by
    refine (takeWhile_append (fun d hd => decide_eq_true ?_) (by simp)).1
    rintro rfl
    exact absurd (hblanks _ hd) (by decide)
  have heq := congrArg (List.takeWhile (· ≠ '(')) heq
  rwa [htake fun d hd => isWhiteSpace_of_isBlankChar (hblank _ hmem d hd),
    htake fun d hd => (h.blanksBefore d hd).1] at heq

theorem hasNewline_leading : control.leading.hasNewline = false := by
  have hmem := control.leading_mem_spaces
  have hlast : control.leading.lastWhitespace = control.leading.whitespace := by
    rw [Space.lastWhitespace, hcomments _ hmem]
    rfl
  rw [Space.hasNewline, hlast, h.leading_eq hcontrol hcomments hblank, Bool.eq_false_iff]
  intro hmem
  exact (h.blanksBefore _ (by simpa using hmem)).2.1 rfl

/-- The first initializer is in the line of the loop. -/
theorem initStartsLine_eq : (FrameValue.tree control).initStartsLine = false := by
  rw [FrameValue.initStartsLine, FrameValue.tree?, Option.map_some, hcontrol]
  obtain - | ⟨x, init⟩ := init
  · rfl
  have hx : x.element ∈ control.preorder := by
    refine mem_preorder_of_mem_children ?_ (self_mem_preorder _)
    rw [children, hcontrol]
    exact List.mem_cons_self
  have hmem := spaces_subset hx x.element.leading_mem_spaces
  have hpieces : ∃ rest, (Piece.separated .forInit [','] (x :: init)).flatMap pieceText =
      x.element.leading.whitespace ++ rest := by
    have hfirst : ∃ ps, Piece.separated .forInit [','] (x :: init) = .part x.element :: ps := by
      cases init <;> exact ⟨_, rfl⟩
    obtain ⟨ps, hps⟩ := hfirst
    rw [hps, List.flatMap_cons, pieceText, toText_eq,
      Space.toText_of_comments (hcomments _ hmem), List.append_assoc]
    exact ⟨_, rfl⟩
  obtain ⟨others, hothers⟩ := hpieces
  obtain ⟨rest, htext⟩ := toText_forControl hcontrol
  obtain ⟨c, rest', heq, hc⟩ := h.text
  rw [htext, hothers, Space.toText_of_comments (hcomments _ control.leading_mem_spaces),
    h.leading_eq hcontrol hcomments hblank] at heq
  have heq := (List.cons.inj (List.append_cancel_left heq)).2
  have hwhite : ∀ d ∈ x.element.leading.whitespace, isWhiteSpace d :=
    fun d hd => isWhiteSpace_of_isBlankChar (hblank _ hmem d hd)
  have heq := congrArg (List.takeWhile isWhiteSpace) heq
  rw [List.append_assoc, List.takeWhile_append_of_pos hwhite,
    (takeWhile_append (fun d hd => (h.blanksAfter d hd).1) (by simpa using hc)).1] at heq
  have hlast : x.element.leading.lastWhitespace = x.element.leading.whitespace := by
    rw [Space.lastWhitespace, hcomments _ hmem]
    rfl
  simp only [List.head?_cons, Option.any_some, Space.hasNewline, hlast, Bool.eq_false_iff]
  intro hnewline
  refine (h.blanksAfter '\n' ?_).2.1 rfl
  rw [← heq]
  exact List.mem_append_left _ (by simpa using hnewline)

end OpensInLine

end Tree

/-! ### The column of the first initializer -/

namespace Trail

variable {trail : Trail IndentNote}

theorem label?_eq_none (h : trail.values.findSome? FrameValue.kind? ≠ some .labeled) :
    trail.label? = none := by
  induction trail with
  | nil => rfl
  | cons frame rest ih =>
    obtain ⟨value, stopped, note⟩ := frame
    cases value with
    | tree t =>
      have hkind : t.kind ≠ .labeled := fun hk => h (congrArg some hk)
      simp [label?, fromNode, FrameValue.tree?, hkind]
    | _ => exact ih h

/-- **The first initializer is behind the start of the header**, counted from the column of the
loop. -/
theorem forInitColumn_of_opensInLine {frame : Frame IndentNote} {loop control : Tree}
    {body : Followed Tree} {stopped : Bool} {note : IndentNote} {above : Trail IndentNote}
    {before after : Text} (hframe : frame.value.kind? ≠ some .forLoop)
    (hloop : loop.shape = .forLoop control body) (hcontrol : control.OpensInLine before after)
    (hlabel : above.values.findSome? FrameValue.kind? ≠ some .labeled) :
    Trail.forInitColumn (frame :: ⟨.tree loop, stopped, note⟩ :: above) =
      .ok (Trail.column (⟨.tree loop, stopped, note⟩ :: above) +
        (headerStart before after).length) := by
  have hkind : FrameValue.kind? (.tree loop) = some .forLoop := by
    simp [FrameValue.kind?, FrameValue.tree?, Tree.kind, hloop, Shape.kind]
  have hdrop : (frame :: ⟨.tree loop, stopped, note⟩ :: above : Trail IndentNote).dropWhile
      (fun frame => frame.value.kind? != some .forLoop) = ⟨.tree loop, stopped, note⟩ :: above := by
    simp [hframe, hkind]
  have htext : ∃ rest, (forHeader none loop).toText =
      "for".toList ++ (control.toText ++ rest) := by
    rw [forHeader, hloop]
    dsimp only
    rw [Tree.toText_forLoop ((Tree.shape_withLeading ..).trans (Tree.shape_withShape ..)),
      Tree.leading_withLeading]
    exact ⟨_, rfl⟩
  obtain ⟨rest, htext⟩ := htext
  rw [forInitColumn_eq hdrop, label?_eq_none hlabel, htext, hcontrol.columnInParentheses_eq]
  rfl

end Trail

/-! ### What headers hold -/

/-- The condition and the updates, in the header of a `for` loop. -/
def Shape.headerParts : Shape Tree → List (Followed Tree)
  | forControl _ condition update => condition :: update
  | _ => []

/-- The condition and the updates of a `for` loop hold no statements. -/
def Shape.InlineHeader (x : Shape Tree) : Prop := ∀ y ∈ x.headerParts, y.element.kind.isInline

namespace Tree

/-- The headers in the tree hold no statements in their conditions and updates. -/
def InlineHeaders (t : Tree) : Prop := ∀ u ∈ t.preorder, u.shape.InlineHeader

theorem inlineHeaders_node {i : NodeId} {s : Space} {x : Shape Tree} :
    (Tree.node i s x).InlineHeaders ↔ x.InlineHeader ∧ Every InlineHeaders x.children :=
  forall_mem_preorder

theorem inlineHeaders_of_parts {i : NodeId} {s : Space} {x : Shape Tree} (hk : x.kind ≠ .forControl)
    (hx : Every InlineHeaders x.children) : (Tree.node i s x).InlineHeaders := by
  refine inlineHeaders_node.2 ⟨fun y hy => ?_, hx⟩
  cases x <;> first | exact absurd rfl hk | cases hy

/-- A tree that holds no statements, and whose headers hold none where they may not. -/
structure InlineWithHeaders (t : Tree) : Prop where
  headers : t.InlineHeaders
  inline : t.kind.isInline

theorem inlineWithHeaders_of_parts {i : NodeId} {s : Space} {x : Shape Tree} (hk : x.kind.isInline)
    (hx : Every InlineHeaders x.children) : InlineWithHeaders (.node i s x) := by
  refine ⟨inlineHeaders_of_parts (fun h => ?_) hx, hk⟩
  rw [h] at hk
  cases hk

end Tree

open Tree

theorem descends_inlineHeaders : Descends InlineWithHeaders InlineHeaders where
  weaken _ h := h.headers
  withLeading {t} s h := by
    obtain ⟨i, s', x⟩ := t
    exact ⟨inlineHeaders_node.2 (inlineHeaders_node.1 h.headers), h.inline⟩
  inline hk hx := by
    rw [NodeKind.isPlainInline, Bool.and_eq_true, Bool.and_eq_true] at hk
    exact inlineWithHeaders_of_parts hk.1.1 (mono (fun _ h => h.headers) _ hx)
  lambda hparameters hbody _ :=
    inlineWithHeaders_of_parts rfl (every_append.2 ⟨every_items.2
      (mono (fun _ h => h.headers) _ hparameters), every_cons.2 ⟨hbody, every_nil⟩⟩)
  newClass {i s name arguments body type} hname harguments hbody := by
    refine inlineWithHeaders_of_parts rfl (every_cons.2 ⟨hname.headers, every_append.2 ⟨?_, ?_⟩⟩)
    · exact every_items.2 (mono (fun _ h => h.headers) _ (every_series.1 harguments))
    · exact fun b hb => (hbody b (Option.mem_toList.1 hb)).1
  node {i s x} hk hx := inlineHeaders_of_parts (by rintro h; rw [h] at hk; cases hk) hx
  ifStatement {i s condition thenPart alternative} hcondition hthen halternative := by
    refine inlineHeaders_of_parts (by rintro ⟨⟩)
      (every_cons.2 ⟨hcondition, every_cons.2 ⟨hthen, ?_⟩⟩)
    intro c hc
    obtain ⟨hk, hx⟩ := halternative c (Option.mem_toList.1 hc)
    obtain ⟨j, s, y⟩ := c
    have hk : y.kind = .elsePart := hk
    exact inlineHeaders_of_parts (by rw [hk]; exact NodeKind.noConfusion) hx
  tryStatement {i s body catches finallyBlock} hbody hcatches hfinally := by
    refine inlineHeaders_of_parts (by rintro ⟨⟩) (every_append.2
      ⟨every_cons.2 ⟨hbody, fun c hc => ?_⟩, every_toList.2 (every_map_preceded.2 hfinally)⟩)
    obtain ⟨hk, hx⟩ := hcatches c hc
    obtain ⟨j, s, y⟩ := c
    have hk : y.kind = .catchClause := hk
    exact inlineHeaders_of_parts (by rw [hk]; exact NodeKind.noConfusion) hx
  labeled hbody := by
    have hlabel {j s name type} : InlineHeaders (.node j s (.identifier name type)) :=
      inlineHeaders_of_parts (by rintro ⟨⟩) every_nil
    exact inlineHeaders_of_parts (by rintro ⟨⟩)
      (every_cons.2 ⟨hlabel, every_cons.2 ⟨hbody, every_nil⟩⟩)
  forLoop {i j s s' init condition update body} hinit hcondition hupdate hbody := by
    have hcontrol : InlineHeaders (.node j s' (.forControl init condition update)) := by
      refine inlineHeaders_node.2 ⟨?_, ?_⟩
      · exact List.forall_mem_cons.2 ⟨hcondition.inline, fun y hy => (hupdate y hy).inline⟩
      · simpa [Shape.children] using ⟨hinit, hcondition.headers,
          mono (fun _ h => h.headers) _ hupdate⟩
    exact inlineHeaders_of_parts (by rintro ⟨⟩)
      (every_cons.2 ⟨hcontrol, every_cons.2 ⟨hbody, every_nil⟩⟩)

theorem inlineHeaders_of_parseFrom {kind : SourceKind} {source : Text} {firstId nextId : NodeId}
    {t : Tree} (h : parseFrom kind source firstId = .ok (t, nextId)) : t.InlineHeaders := by
  refine descends_inlineHeaders.of_parseFrom (fun _ h => h)
    (fun hu => inlineHeaders_of_parts (by rintro ⟨⟩) hu)
    (build_grammar descends_inlineHeaders fun {_ _ x} hk hx => ?_) h
  exact inlineWithHeaders_of_parts (by cases x <;> first | rfl | cases hk)
    (mono (fun _ h => h.headers) _ hx)

end JavaSource
