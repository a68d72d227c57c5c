import JavaSource.Proofs.Formatting
import JavaSource.Proofs.LineBreaks
import JavaSource.Proofs.Lines
import JavaSource.Proofs.ParsedSpaces
import JavaSource.Proofs.SpaceChanges

/-!
# What two passes leave as it is

The spacing pass puts single blanks in place of nothing or takes them away, and changes nothing else
(`Pass.differs_spacing`).  The indenter replaces what follows the last line break in a space, and
the indents of later lines of comments; a space without comments and line breaks it leaves as it is
(`Pass.differs_indents`).
-/

namespace JavaSource

/-! ### Padding -/

/-- The same space, but for a single blank that was put in place of nothing or taken away. -/
structure Space.Padding (s s' : Space) : Prop where
  comments : s'.comments = s.comments
  whitespace : s'.whitespace = s.whitespace ∨
    (s.whitespace = [] ∧ s'.whitespace = [' ']) ∨ (s.whitespace = [' '] ∧ s'.whitespace = [])

namespace Space.Padding

theorem refl (s : Space) : s.Padding s := ⟨rfl, .inl rfl⟩

theorem trans {s s' s'' : Space} (h : s.Padding s') (h' : s'.Padding s'') : s.Padding s'' where
  comments := h'.comments.trans h.comments
  whitespace := by
    rcases h'.whitespace with heq | ⟨hfrom, hto⟩ | ⟨hfrom, hto⟩
    · rw [heq]
      exact h.whitespace
    · rcases h.whitespace with hsame | ⟨-, hblank⟩ | ⟨hblank, -⟩
      · exact .inr (.inl ⟨hsame.symm.trans hfrom, hto⟩)
      · rw [hfrom] at hblank
        cases hblank
      · exact .inl (hto.trans hblank.symm)
    · rcases h.whitespace with hsame | ⟨hempty, -⟩ | ⟨-, hempty⟩
      · exact .inr (.inr ⟨hsame.symm.trans hfrom, hto⟩)
      · exact .inl (hto.trans hempty.symm)
      · rw [hfrom] at hempty
        cases hempty

theorem padded (wanted : Bool) (s : Space) : s.Padding (s.padded wanted) := by
  rw [Space.padded]
  split
  next h =>
    have h := (Bool.and_eq_true_iff.1 h).2
    exact ⟨rfl, .inr (.inl ⟨eq_of_beq h, rfl⟩)⟩
  · split
    next h =>
      have h := (Bool.and_eq_true_iff.1 h).2
      exact ⟨rfl, .inr (.inr ⟨eq_of_beq h, rfl⟩)⟩
    · exact refl s

end Space.Padding

/-- **The spacing pass pads**: on every tree it succeeds, and gives the tree with single blanks put
where nothing was, or taken away, and nothing else changed. -/
theorem Pass.differs_spacing (styles : Styles) (stopAfter : Option NodeId) (above : List FrameValue)
    (t : Tree) : ∃ u, run styles stopAfter above .spacing t = .ok u ∧
      t.Differs (fun _ => Space.Padding) u := by
  have C : Tree.Congruence (Tree.Differs fun _ => Space.Padding) fun _ => Space.Padding :=
    Tree.Differs.congruence (fun _ => .refl) fun _ _ _ _ => .trans
  have hpads : Respects styles (Tree.Differs fun _ => Space.Padding) (fun _ => Space.Padding)
      .spacing := fun wanted _ s => .padded wanted s
  exact hpads.exists_run C (fun hpass => absurd hpass (by decide)) stopAfter above

/-! ### Indents -/

/-- The text with something else after its last line feed, if it has one. -/
structure Text.Reindented (t t' : Text) : Prop where
  lineFeeds : t'.lineFeeds = t.lineFeeds
  through : t'.throughLastLineFeed = t.throughLastLineFeed
  inLine : '\n' ∉ t → t' = t

/-- The same comment in other columns: the text of a line comment stays, and of any other the first
line, and the later ones up to their indents. -/
structure Comment.Reindented (c c' : Comment) : Prop where
  style : c'.style = c.style
  line : c.style = .line → c'.text = c.text
  firstLine : (c'.text.split '\n').head? = (c.text.split '\n').head?
  laterLines : List.Forall₂ Text.UpToIndent (c.text.split '\n').tail (c'.text.split '\n').tail
  suffix : c.suffix.Reindented c'.suffix

/-- Comments in this space may be moved although they do not start a line: those before a file, or
before a type declaration in the line of other code. -/
def Space.StartsApart (l : SpaceSlot) (s : Space) : Prop :=
  s.comments ≠ [] ∧
    (l = .leading .compilationUnit ∨ (l = .leading .classDeclaration ∧ '\n' ∉ s.whitespace))

/-- The same space in other columns.  White space before a file may go, and be an indent where a
comment follows it; so may white space before a comment that stands before a type declaration. -/
structure IndentStyle.Reindents (style : IndentStyle) (l : SpaceSlot) (s s' : Space) : Prop where
  inLine : s.comments = [] → '\n' ∉ s.whitespace → s' = s
  whitespace : s.whitespace.Reindented s'.whitespace ∨
    (l = .leading .compilationUnit ∧ s'.whitespace = []) ∨
    (s.StartsApart l ∧ ∃ columns, s'.whitespace = style.indentation columns)
  comments : List.Forall₂ Comment.Reindented s.comments s'.comments

namespace Text

theorem Reindented.refl (t : Text) : t.Reindented t := ⟨rfl, rfl, fun _ => rfl⟩

theorem Reindented.trans {t t' t'' : Text} (h : t.Reindented t') (h' : t'.Reindented t'') :
    t.Reindented t'' where
  lineFeeds := h'.lineFeeds.trans h.lineFeeds
  through := h'.through.trans h.through
  inLine hline := by
    have ht := h.inLine hline
    exact (h'.inLine (ht ▸ hline)).trans ht

theorem Reindented.not_mem {t t' : Text} (h : t.Reindented t') (ht' : '\n' ∉ t') : '\n' ∉ t := by
  rw [← List.count_eq_zero] at ht' ⊢
  exact h.lineFeeds.symm.trans ht'

theorem reindented_reindent (style : IndentStyle) (column : Int) {t : Text} (h : '\n' ∈ t) :
    t.Reindented (style.reindent column t) where
  lineFeeds := by
    rw [← lineFeeds_throughLastLineFeed, style.throughLastLineFeed_reindent,
      lineFeeds_throughLastLineFeed]
  through := style.throughLastLineFeed_reindent column t
  inLine hline := absurd h hline

end Text

namespace Comment

theorem Reindented.refl (c : Comment) : c.Reindented c :=
  ⟨rfl, fun _ => rfl, rfl, List.forall₂_same.2 fun _ _ => rfl, .refl _⟩

theorem Reindented.trans {c c' c'' : Comment} (h : c.Reindented c') (h' : c'.Reindented c'') :
    c.Reindented c'' where
  style := h'.style.trans h.style
  line hc := (h'.line (h.style.trans hc)).trans (h.line hc)
  firstLine := h'.firstLine.trans h.firstLine
  laterLines := forall₂_trans (fun _ _ _ => .trans) h.laterLines h'.laterLines
  suffix := h.suffix.trans h'.suffix

end Comment

namespace IndentStyle

variable (style : IndentStyle)

/-- To shift a comment moves the later lines of its text; a line comment has none. -/
theorem reindented_shiftComment (before : Text) (column : Int) {c : Comment}
    (hc : c.style = .line → ∀ d ∈ c.text, isInLine d) :
    c.Reindented (style.shiftComment before column c) := by
  have hshift (shift : Int) : c.Reindented
      { c with text := c.text.mapLaterLines (style.shiftLine before.lastLine.length shift) } := by
    have hline : ∀ line, '\n' ∉ line → '\n' ∉ style.shiftLine before.lastLine.length shift line :=
      fun _ => style.not_mem_shiftLine _ _
    obtain ⟨first, later, ht, hmapped⟩ := Text.split_mapLaterLines hline c.text
    refine ⟨rfl, fun hline => ?_, ?_, ?_, .refl _⟩
    · refine Text.mapLaterLines_of_not_mem fun hmem => ?_
      have h := hc hline _ hmem
      cases h
    · rw [hmapped, ht, List.head?_cons, List.head?_cons]
    · rw [hmapped, ht, List.tail_cons, List.tail_cons, List.forall₂_map_right_iff]
      exact List.forall₂_same.2 fun line _ => style.upToIndent_shiftLine _ _ line
  unfold shiftComment
  extract_lets margin shift
  split
  · exact .refl c
  · exact hshift shift

theorem reindented_indentComment (startsFile : Bool) (before : Text) (column : Int) {c : Comment}
    (hc : c.style = .line → ∀ d ∈ c.text, isInLine d) :
    c.Reindented (style.indentComment startsFile before column c) := by
  have hshift := style.reindented_shiftComment before column hc
  unfold indentComment
  extract_lets moved
  have hmoved : c.Reindented moved := by
    unfold moved
    split
    · exact hshift
    · exact .refl c
  split
  next hsuffix =>
    have hsuffix := Text.reindented_reindent style column (List.contains_iff_mem.1 hsuffix)
    exact { hmoved with suffix := hmoved.suffix.trans hsuffix }
  · exact hmoved

theorem forall₂_indentComments (startsFile : Bool) (column columnAfter : Int) {cs : List Comment}
    (hcs : ∀ c ∈ cs, c.style = .line → ∀ d ∈ c.text, isInLine d) (before : Text) :
    List.Forall₂ Comment.Reindented cs
      (style.indentComments startsFile column columnAfter before cs) := by
  induction cs generalizing before with
  | nil => exact .nil
  | cons c cs ih =>
    rw [List.forall_mem_cons] at hcs
    cases cs with
    | nil => exact .cons (style.reindented_indentComment _ _ _ hcs.1) .nil
    | cons d ds => exact .cons (style.reindented_indentComment _ _ _ hcs.1) (ih hcs.2 c.suffix)

theorem forall₂_comments_refl (cs : List Comment) : List.Forall₂ Comment.Reindented cs cs :=
  List.forall₂_same.2 fun c _ => .refl c

/-- White space that no comment follows. -/
theorem reindents_indentBlank {l : SpaceSlot} (column : Int) {w : Text}
    (hl : IsIndented l ⟨w, []⟩) :
    style.Reindents l ⟨w, []⟩ ⟨style.indentBlank l column w, []⟩ := by
  have hfile (h : l = .leading .compilationUnit) : '\n' ∈ w := by
    have h := hl h
    simpa [Space.hasNewline, Space.lastWhitespace] using h
  unfold indentBlank
  split
  next h =>
    have h : l = .leading .compilationUnit := of_decide_eq_true (Bool.and_eq_true_iff.1 h).1
    refine ⟨fun _ hw => absurd (hfile h) hw, ?_, .nil⟩
    split
    · exact .inr (.inl ⟨h, rfl⟩)
    · exact .inl (Text.reindented_reindent style column (hfile h))
  · split
    next h =>
      have hw := List.contains_iff_mem.1 (Bool.and_eq_true_iff.1 h).1
      exact ⟨fun _ hnot => absurd hw hnot, .inl (Text.reindented_reindent style column hw), .nil⟩
    · exact ⟨fun _ _ => rfl, .inl (.refl w), .nil⟩

/-- White space in front of comments. -/
theorem reindents_indentCommented {l : SpaceSlot} (column : Int) {s : Space} (hs : s.InLine)
    (hne : s.comments ≠ []) : style.Reindents l s (style.indentCommented l column s) := by
  have hkept :
      s.whitespace.Reindented (if l = .leading .compilationUnit then [] else s.whitespace) ∨
      (l = .leading .compilationUnit ∧
        (if l = .leading .compilationUnit then [] else s.whitespace) = []) := by
    split
    next h => exact .inr ⟨h, rfl⟩
    · exact .inl (.refl _)
  refine ⟨fun hnil => absurd hnil hne, ?_, ?_⟩
  · unfold indentCommented
    extract_lets commentColumn startsFile whitespace
    split
    · exact hkept.imp_right .inl
    · dsimp only
      split
      next hmoved =>
        by_cases hw : '\n' ∈ s.whitespace
        · exact .inl (Text.reindented_reindent style _ hw)
        · -- comments that start no line are moved before a file or a type declaration only
          have hstarts : startsFile := by simpa [hw] using hmoved
          have hslot : l = .leading .compilationUnit ∨ l = .leading .classDeclaration := by
            simp only [startsFile, IndentStyle.startsFile, Bool.or_eq_true, Bool.and_eq_true,
              beq_iff_eq] at hstarts
            exact hstarts.imp_right And.left
          refine .inr (.inr ⟨⟨hne, hslot.imp_right fun h => ⟨h, hw⟩⟩, commentColumn.toNat, ?_⟩)
          rw [reindent, Text.throughLastLineFeed_of_not_mem hw, List.nil_append]
      · exact hkept.imp_right .inl
  · unfold indentCommented
    extract_lets
    split
    · exact forall₂_comments_refl s.comments
    · exact style.forall₂_indentComments _ _ _ hs _

theorem reindents_indentSpace {l : SpaceSlot} (column : Int) {s : Space} (hl : IsIndented l s)
    (hs : s.InLine) : style.Reindents l s (style.indentSpace l column s) := by
  obtain ⟨w, cs⟩ := s
  cases cs with
  | nil => exact style.reindents_indentBlank column hl
  | cons c cs => exact style.reindents_indentCommented column hs (List.cons_ne_nil c cs)

namespace Reindents

variable {style}

theorem refl (l : SpaceSlot) (s : Space) : style.Reindents l s s :=
  ⟨fun _ _ => rfl, .inl (.refl _), forall₂_comments_refl _⟩

theorem comments_eq_nil {l : SpaceSlot} {s s' : Space} (h : style.Reindents l s s') :
    s'.comments = [] ↔ s.comments = [] := by
  rw [← List.length_eq_zero_iff, ← List.length_eq_zero_iff, h.comments.length_eq]

theorem inLine_right {l : SpaceSlot} {s s' : Space} (h : style.Reindents l s s')
    (hs : s.InLine) : s'.InLine := by
  intro c' hc' hline
  obtain ⟨c, hc, hcc⟩ := exists_mem_of_forall₂ h.comments hc'
  have hstyle : c.style = .line := hcc.style.symm.trans hline
  rw [hcc.line hstyle]
  exact hs c hc hstyle

theorem startsApart {l : SpaceSlot} {s s' : Space} (h : style.Reindents l s s')
    (hs' : s'.StartsApart l) : s.StartsApart l := by
  obtain ⟨hne, hslot⟩ := hs'
  refine ⟨fun hnil => hne (h.comments_eq_nil.2 hnil), ?_⟩
  rcases hslot with hfile | ⟨htype, hw⟩
  · exact .inl hfile
  · refine .inr ⟨htype, ?_⟩
    rcases h.whitespace with hre | ⟨hfile, -⟩ | ⟨⟨-, hfile | ⟨-, hnot⟩⟩, -⟩
    · exact hre.not_mem hw
    · rw [htype] at hfile
      cases hfile
    · rw [htype] at hfile
      cases hfile
    · exact hnot

theorem trans {l : SpaceSlot} {s s' s'' : Space} (h : style.Reindents l s s')
    (h' : style.Reindents l s' s'') : style.Reindents l s s'' where
  inLine hnil hw := by
    have hs := h.inLine hnil hw
    subst hs
    exact h'.inLine hnil hw
  whitespace := by
    rcases h'.whitespace with hre | hcleared | ⟨hs', hindent⟩
    · rcases h.whitespace with hre' | ⟨hfile, hempty⟩ | ⟨hs, columns, hcolumns⟩
      · exact .inl (hre'.trans hre)
      · exact .inr (.inl ⟨hfile, (hre.inLine (by simp [hempty])).trans hempty⟩)
      · have hline : '\n' ∉ s'.whitespace := hcolumns ▸ style.not_mem_indentation columns
        exact .inr (.inr ⟨hs, columns, (hre.inLine hline).trans hcolumns⟩)
    · exact .inr (.inl hcleared)
    · exact .inr (.inr ⟨h.startsApart hs', hindent⟩)
  comments := forall₂_trans (fun _ _ _ => .trans) h.comments h'.comments

end Reindents

end IndentStyle

/-- **The indenter moves lines**: on a parsed tree it succeeds, and gives the tree with what follows
the last line break of a space, and the indents in comments, written anew.  A space without comments
and line breaks stays as it is. -/
theorem Pass.differs_indents {kind : SourceKind} {source : Text} {firstId nextId : NodeId} {t : Tree}
    (h : parseFrom kind source firstId = .ok (t, nextId)) (styles : Styles)
    (stopAfter : Option NodeId) (above : List FrameValue) :
    ∃ u, run styles stopAfter above .indents t = .ok u ∧ t.Differs styles.indents.Reindents u := by
  have ht := plain_of_parseFrom h
  -- what the indenter does to a line comment is known only where its text is in one line
  have C : Tree.Congruence
      (Tree.Differs fun l s s' => s.InLine → styles.indents.Reindents l s s')
      fun l s s' => s.InLine → styles.indents.Reindents l s s' :=
    Tree.Differs.congruence (fun l s _ => .refl l s) fun l s s' s'' h h' hs =>
      (h hs).trans (h' ((h hs).inLine_right hs))
  have hindents : Respects styles
      (Tree.Differs fun l s s' => s.InLine → styles.indents.Reindents l s s')
      (fun l s s' => s.InLine → styles.indents.Reindents l s s') .indents :=
    fun l column s hl hs => styles.indents.reindents_indentSpace column hl hs
  obtain ⟨u, hrun, hu⟩ := hindents.exists_run C (fun _ => ht) stopAfter above
  exact ⟨u, hrun, hu.imp (inLine_of_parseFrom h) fun l s s' hs hS => hS hs⟩

/-- A type with a comment before it, and one in it. -/
theorem Pass.differs_indents_comments :
    ∃ t n, parseFrom .unit "/* a\n b */ class A \x7b\n  // c\n int x; \x7d".toList 0 = .ok (t, n) ∧
      ∃ u, run .standard none [.root] .indents t = .ok u ∧
        t.Differs Styles.standard.indents.Reindents u := by
  obtain ⟨t, n, h, -⟩ : ∃ t n, parseFrom .unit
      "/* a\n b */ class A \x7b\n  // c\n int x; \x7d".toList 0 = .ok (t, n) ∧ (fun _ => true) t :=
    exists_parseFrom (by decide +kernel)
  exact ⟨t, n, h, differs_indents h .standard none [.root]⟩

end JavaSource
