import JavaSource.Proofs.EndedLines
import JavaSource.Proofs.GatheredText
import JavaSource.Proofs.LexedLines
import JavaSource.Proofs.ParsedSpaces

/-!
# Lines without blanks at their ends

In a source whose carriage returns stand before line feeds, so do those in the spaces of the parsed
tree (`paired_of_parseFrom`).  The pass that takes blanks away before line ends leaves none there,
and the passes after it put none there, but for one case: a comment that is moved to the right as a
whole may get blank lines of blanks (`Pass.trimmed_format`).
-/

namespace JavaSource

/-! ### What holds of the texts in a space -/

/-- The white space before the first comment is as `W` says, and the comments are as `C` says. -/
structure Space.Holds (W : Text → Prop) (C : Comment → Prop) (s : Space) : Prop where
  whitespace : W s.whitespace
  comments : ∀ c ∈ s.comments, C c

namespace Space.Holds

variable {W W' : Text → Prop} {C C' : Comment → Prop} {s s' : Space}

theorem map {f : Text → Text} {g : Comment → Comment} (h : s.Holds W C)
    (hf : ∀ t, W t → W' (f t)) (hg : ∀ c, C c → C' (g c)) : (s.map f g).Holds W' C' :=
  ⟨hf _ h.whitespace, List.forall_mem_map.2 fun c hc => hg c (h.comments c hc)⟩

theorem mapLastSuffix {f : Text → Text} (hf : ∀ c, C c → C { c with suffix := f c.suffix })
    {cs : List Comment} (h : ∀ c ∈ cs, C c) : ∀ c ∈ Space.mapLastSuffix f cs, C c := by
  fun_induction Space.mapLastSuffix f cs with
  | case1 => exact h
  | case2 c => exact List.forall_mem_singleton.2 (hf c (h c List.mem_cons_self))
  | case3 c cs _ ih =>
    rw [List.forall_mem_cons] at h ⊢
    exact ⟨h.1, ih h.2⟩

theorem mapLastWhitespace {f : Text → Text} (h : s.Holds W C) (hf : ∀ t, W t → W (f t))
    (hC : ∀ c, C c → C { c with suffix := f c.suffix }) : (s.mapLastWhitespace f).Holds W C := by
  obtain ⟨w, cs⟩ := s
  cases cs with
  | nil => exact ⟨hf w h.whitespace, h.comments⟩
  | cons c cs => exact ⟨h.whitespace, mapLastSuffix hC h.comments⟩

theorem append (h : s.Holds W C) (h' : s'.Holds W C) (hW : ∀ t, W t → W (t ++ s'.whitespace))
    (hC : ∀ c, C c → C { c with suffix := c.suffix ++ s'.whitespace }) :
    (s.append s').Holds W C := by
  have hs := h.mapLastWhitespace hW hC
  exact ⟨hs.whitespace, List.forall_mem_append.2 ⟨hs.comments, h'.comments⟩⟩

end Space.Holds

/-! ### Carriage returns in spaces -/

/-- Carriage returns in the comment, and after it, stand before line feeds; a line comment has
none. -/
structure Comment.Paired (c : Comment) : Prop where
  suffix : c.suffix.pairsReturns
  text : c.text.pairsReturns
  inLine : c.style = .line → c.text.InLine

/-- Carriage returns in the space stand before line feeds. -/
abbrev Space.Paired (s : Space) : Prop := s.Holds (·.pairsReturns) Comment.Paired

namespace Space

/-- A comment starts with a slash. -/
theorem head?_comments (cs : List Comment) :
    (cs.flatMap fun c => c.delimited ++ c.suffix).head? ≠ some '\n' := by
  cases cs with
  | nil => exact Option.some_ne_none _ |>.symm
  | cons c cs =>
    obtain ⟨style, text, suffix⟩ := c
    cases style <;> exact fun h => absurd (Option.some.inj h) (by decide)

theorem paired_comments {cs : List Comment}
    (h : Text.pairsReturns (cs.flatMap fun c => c.delimited ++ c.suffix))
    (hs : ∀ c ∈ cs, c.style = .line → ∀ d ∈ c.text, isInLine d) : ∀ c ∈ cs, c.Paired := by
  induction cs with
  | nil => exact List.forall_mem_nil _
  | cons c cs ih =>
    rw [List.forall_mem_cons] at hs
    rw [List.flatMap_cons, List.append_assoc] at h
    have hafter := Text.pairsReturns_right h
    refine List.forall_mem_cons.2 ⟨⟨?_, ?_, hs.1⟩, ih (Text.pairsReturns_right hafter) hs.2⟩
    · exact Text.pairsReturns_left hafter (head?_comments cs)
    · rw [Comment.delimited, List.append_assoc, List.append_assoc] at h
      have htext := Text.pairsReturns_right h
      cases hstyle : c.style with
      | line => exact Text.pairsReturns_of_inLine (hs.1 hstyle)
      | block | doc =>
        rw [hstyle] at htext
        exact Text.pairsReturns_left htext fun h => absurd (Option.some.inj h) (by decide)

/-- The parts of a space are as the whole is: none is followed by a line feed of another. -/
theorem paired_of_toText {s : Space} (h : s.toText.pairsReturns) (hs : s.InLine) : s.Paired :=
  ⟨Text.pairsReturns_left h (head?_comments s.comments),
    paired_comments (Text.pairsReturns_right h) hs⟩

theorem paired_empty : Space.empty.Paired := ⟨rfl, List.forall_mem_nil _⟩

theorem Paired.orSingle {s : Space} (h : s.Paired) : s.orSingle.Paired := by
  unfold Space.orSingle
  split
  · exact ⟨rfl, List.forall_mem_nil _⟩
  · exact h

theorem Paired.append {s s' : Space} (h : s.Paired) (h' : s'.Paired) : (s.append s').Paired :=
  Holds.append h h' (fun _ ht => Text.pairsReturns_append ht h'.whitespace)
    fun _ hc => { hc with suffix := Text.pairsReturns_append hc.suffix h'.whitespace }

end Space

/-- No token starts with a line feed, so the gap before it ends in no lone carriage return. -/
theorem Lexed.pairsReturns_gap {source : Text} {ts : List Token} (h : Lexed source ts)
    (hsource : source.pairsReturns) : ∀ k ∈ ts, k.gap.pairsReturns := by
  induction h with
  | eof => exact List.forall_mem_singleton.2 hsource
  | @token gap source kind n offset ts _ hn _ ih =>
    have hafter := Text.pairsReturns_right hsource
    have hhead : source.head? ≠ some '\n' := by
      intro hhead
      obtain ⟨rest, rfl⟩ := List.head?_eq_some_iff.1 hhead
      rw [Lexeme.longest_blanks rfl rest] at hn
      cases hn
    rw [← List.take_append_drop (n + 1) source] at hafter
    exact List.forall_mem_cons.2
      ⟨Text.pairsReturns_left hsource hhead, ih (Text.pairsReturns_right hafter)⟩

theorem paired_of_parseFrom {kind : SourceKind} {source : Text} {firstId nextId : NodeId}
    {t : Tree} (h : parseFrom kind source firstId = .ok (t, nextId))
    (hsource : source.pairsReturns) : t.EachSpace Space.Paired := by
  obtain ⟨ts, hlex, hts⟩ := fromGaps_of_parseFrom h
  have hlexed := lexed_of_lex hlex
  intro p hp
  have hinLine := inLine_of_parseFrom h p hp
  rcases hts p hp with hempty | ⟨k, hk, hgap⟩
  · rw [hempty]
    exact Space.paired_empty
  · obtain ⟨rest, htrivia⟩ := hlexed.trivia hk
    refine Space.paired_of_toText ?_ hinLine
    rw [hgap, htrivia.toText_ofText]
    exact hlexed.pairsReturns_gap hsource k hk

/-! ### Spaces without blanks before line ends -/

/-- No line that a line break ends has a blank at its end. -/
abbrev Text.Trimmed (t : Text) : Prop := t.Lined (¬ EndsInBlank ·) (¬ EndsInBlank ·)

/-- Comments without blanks at the ends of lines, but for lines of blanks after the first. -/
structure Comment.Tidy (c : Comment) : Prop where
  suffix : c.suffix.Trimmed
  line : c.style = .line → c.text.InLine ∧ ¬ c.text.EndsInBlank
  multiline : c.style ≠ .line → c.text.Lined Text.TrimmedOrBlank (¬ Text.EndsInBlank ·)

/-- Spaces without blanks at the ends of lines, but for lines of blanks in comments. -/
abbrev Space.Tidy (s : Space) : Prop := s.Holds Text.Trimmed Comment.Tidy

namespace Text

variable {t : Text}

theorem trimmedOrBlank_of_not_endsInBlank (h : ¬ t.EndsInBlank) : t.TrimmedOrBlank :=
  fun hends => absurd hends h

/-- Of white space only the line breaks are left. -/
theorem Lined.lineBreaksOnly {P Q : Text → Prop} (h : Lined Q P t) :
    t.lineBreaksOnly.Trimmed := by
  have hline {line : Text} (hline : line.InLine) : line.lineBreaksOnly = [] := by
    refine List.filter_eq_nil_iff.2 fun c hc hbreak => ?_
    simp only [Bool.or_eq_true, beq_iff_eq] at hbreak
    rcases hbreak with rfl | rfl
    · exact absurd (hline _ hc) (by decide)
    · exact absurd (hline _ hc) (by decide)
  induction h with
  | last hinline =>
    rw [hline hinline]
    exact .last Text.inLine_nil
  | @ended P line return? rest hinline _ hreturn _ ih =>
    have hkept : return?.lineBreaksOnly = return? := by rcases hreturn with rfl | rfl <;> rfl
    have hbreaks : (line ++ return? ++ '\n' :: rest).lineBreaksOnly =
        line.lineBreaksOnly ++ return?.lineBreaksOnly ++ '\n' :: rest.lineBreaksOnly := by
      simp [Text.lineBreaksOnly]
    rw [hbreaks, hline hinline, hkept]
    exact .ended inLine_nil not_endsInBlank_nil hreturn ih

end Text

/-- A comment whose text is changed by one function where it may span lines, and by another where
it may not. -/
theorem Comment.Tidy.of_text {style : CommentStyle} {multiline line suffix : Text}
    (hsuffix : suffix.Trimmed)
    (hline : style = .line → line.InLine ∧ ¬ line.EndsInBlank)
    (hmultiline : style ≠ .line →
      multiline.Lined Text.TrimmedOrBlank (¬ Text.EndsInBlank ·)) :
    Comment.Tidy ⟨style, if style.isMultiline then multiline else line, suffix⟩ where
  suffix := hsuffix
  line hstyle := by
    subst hstyle
    exact hline rfl
  multiline hstyle := by
    cases style with
    | line => exact absurd rfl hstyle
    | block | doc => exact hmultiline hstyle

theorem Comment.Paired.tidy_stripLineEnds {c : Comment} (h : c.Paired) : c.stripLineEnds.Tidy :=
  have hstrip {t : Text} (ht : t.pairsReturns) : t.stripLineEnds.Trimmed :=
    (Text.lined_of_pairsReturns ht).stripLineEnds
  .of_text (hstrip h.suffix)
    (fun hstyle => ⟨Text.inLine_stripEnd (h.inLine hstyle), Text.not_endsInBlank_stripEnd _⟩)
    fun _ => (hstrip h.text).mono (fun _ => id) fun _ => Text.trimmedOrBlank_of_not_endsInBlank

namespace Space

variable {s : Space}

theorem Paired.tidy_stripLineEnds (h : s.Paired) (l : SpaceSlot) : (s.stripLineEnds l).Tidy := by
  have hstripped : (s.map Text.stripLineEnds Comment.stripLineEnds).Tidy :=
    h.map (fun _ ht => (Text.lined_of_pairsReturns ht).stripLineEnds)
      fun _ hc => hc.tidy_stripLineEnds
  unfold stripLineEnds
  dsimp only
  split
  · -- at the end of a file line breaks are all that is left
    exact hstripped.mapLastWhitespace (fun _ ht => ht.lineBreaksOnly)
      fun _ hc => { hc with suffix := hc.suffix.lineBreaksOnly }
  · exact hstripped

/-! ### The passes after it -/

theorem Tidy.limitBlankLines (h : s.Tidy) (limit : Nat) : (s.limitBlankLines limit).Tidy :=
  h.map (fun _ ht => ht.limitBlankLines limit)
    fun _ hc => { hc with suffix := hc.suffix.limitBlankLines limit }

theorem Tidy.requireBlankLines (h : s.Tidy) (least : Nat) : (s.requireBlankLines least).Tidy := by
  obtain ⟨w, cs⟩ := s
  have hnil := Text.not_endsInBlank_nil
  have hw : (w.requireBlankLines least).Trimmed := h.whitespace.requireBlankLines hnil least
  cases cs with
  | nil => exact ⟨hw, h.comments⟩
  | cons c cs =>
    obtain ⟨hc, hcs⟩ := List.forall_mem_cons.1 h.comments
    unfold Space.requireBlankLines
    dsimp only
    split
    · exact ⟨hw, h.comments⟩
    · exact ⟨h.whitespace, List.forall_mem_cons.2
        ⟨{ hc with suffix := hc.suffix.requireBlankLines hnil least }, hcs⟩⟩

theorem Tidy.padded (h : s.Tidy) (wanted : Bool) : (s.padded wanted).Tidy := by
  unfold Space.padded
  split
  · exact ⟨.last (List.forall_mem_singleton.2 rfl), h.comments⟩
  · split
    · exact ⟨.last Text.inLine_nil, h.comments⟩
    · exact h

theorem Tidy.wrapped (h : s.Tidy) : s.wrapped.Tidy := by
  have hbreak {t : Text} (ht : t.Trimmed) : Text.Trimmed ('\n' :: t) :=
    ht.cons Text.not_endsInBlank_nil
  unfold Space.wrapped
  split
  · exact h
  · exact h.mapLastWhitespace (fun _ => hbreak) fun _ hc => { hc with suffix := hbreak hc.suffix }

theorem Tidy.rewriteIndents (h : s.Tidy) (style : IndentStyle) : (s.rewriteIndents style).Tidy :=
  have hlines := Text.keepsLines_trimmedOrBlank style.upToIndent_rewriteIndent
  h.map (fun _ ht => ht.rewriteIndents style) fun _ hc =>
    .of_text (hc.suffix.rewriteIndents style) hc.line fun hstyle =>
      (hc.multiline hstyle).mapLaterLines hlines

theorem Tidy.withLineEnds (h : s.Tidy) (crlf : Bool) : (s.withLineEnds crlf).Tidy :=
  h.map (fun _ ht => Text.Lined.withLineEnds ht crlf) fun _ hc =>
    .of_text (hc.suffix.withLineEnds crlf) hc.line fun hstyle =>
      (hc.multiline hstyle).withLineEnds crlf

end Space

namespace IndentStyle

variable (style : IndentStyle)

/-- To shift a comment changes its lines up to their indents, so that a line of blanks may get more
of them. -/
theorem tidy_shiftComment (before : Text) (column : Int) {c : Comment} (hc : c.Tidy) :
    (style.shiftComment before column c).Tidy := by
  unfold shiftComment
  extract_lets margin shift
  have hlines := Text.keepsLines_trimmedOrBlank (style.upToIndent_shiftLine margin.length shift)
  split
  · exact hc
  · refine ⟨hc.suffix, fun hstyle => ?_, fun hstyle => (hc.multiline hstyle).mapLaterLines hlines⟩
    have hline := hc.line hstyle
    dsimp only
    rwa [Text.mapLaterLines_of_not_mem (Text.not_mem_of_inLine hline.1)]

theorem tidy_indentComment (startsFile : Bool) (before : Text) (column : Int) {c : Comment}
    (hc : c.Tidy) : (style.indentComment startsFile before column c).Tidy := by
  have hshift := style.tidy_shiftComment before column hc
  unfold indentComment
  extract_lets moved
  have hmoved : moved.Tidy := by
    unfold moved
    split
    · exact hshift
    · exact hc
  split
  · exact { hmoved with suffix := hmoved.suffix.reindent style column }
  · exact hmoved

theorem tidy_indentComments (startsFile : Bool) (column columnAfter : Int) {cs : List Comment}
    (hcs : ∀ c ∈ cs, c.Tidy) (before : Text) :
    ∀ c ∈ style.indentComments startsFile column columnAfter before cs, c.Tidy := by
  induction cs generalizing before with
  | nil => exact hcs
  | cons c cs ih =>
    rw [List.forall_mem_cons] at hcs
    cases cs with
    | nil => exact List.forall_mem_singleton.2 (style.tidy_indentComment _ _ _ hcs.1)
    | cons d ds =>
      exact List.forall_mem_cons.2 ⟨style.tidy_indentComment _ _ _ hcs.1, ih hcs.2 c.suffix⟩

theorem trimmed_indentBlank (l : SpaceSlot) (column : Int) {w : Text} (hw : w.Trimmed) :
    (style.indentBlank l column w).Trimmed := by
  unfold indentBlank
  split
  · split
    · exact .last Text.inLine_nil
    · exact hw.reindent style column
  · split
    · exact hw.reindent style column
    · exact hw

theorem tidy_indentSpace (l : SpaceSlot) (column : Int) {s : Space} (h : s.Tidy) :
    (style.indentSpace l column s).Tidy := by
  unfold indentSpace
  split
  · exact ⟨style.trimmed_indentBlank l column h.whitespace, List.forall_mem_nil _⟩
  · unfold indentCommented
    extract_lets commentColumn startsFile whitespace
    have hwhitespace : Text.Trimmed whitespace := by
      unfold whitespace
      split
      · exact .last Text.inLine_nil
      · exact h.whitespace
    split
    · exact ⟨hwhitespace, h.comments⟩
    · refine ⟨?_, style.tidy_indentComments _ _ _ h.comments _⟩
      dsimp only
      split
      · exact h.whitespace.reindent style commentColumn
      · exact hwhitespace

end IndentStyle

/-! ### Formatted trees -/

/-- No line of the white space that a line break ends, and no line comment, has a blank at its end;
in other comments only lines of nothing but blanks have, and the first line has not. -/
structure Comment.Trimmed (c : Comment) : Prop where
  suffix : ∀ line ∈ c.suffix.endedLines, ¬ line.EndsInBlank
  line : c.style = .line → ¬ c.text.EndsInBlank
  first : c.style ≠ .line → ∀ line ∈ c.text.endedLines.head?, ¬ line.EndsInBlank
  later : c.style ≠ .line → ∀ line ∈ c.text.endedLines.tail, line.EndsInBlank →
    ∀ d ∈ line, Text.isBlankChar d

/-- No line that a line break ends has a blank at its end, but for blank lines of comments. -/
structure Space.Trimmed (s : Space) : Prop where
  whitespace : ∀ line ∈ s.whitespace.endedLines, ¬ line.EndsInBlank
  comments : ∀ c ∈ s.comments, c.Trimmed

theorem Comment.Tidy.trimmed {c : Comment} (h : c.Tidy) : c.Trimmed where
  suffix := h.suffix.all fun _ => id
  line hstyle := (h.line hstyle).2
  first hstyle := (h.multiline hstyle).first
  later hstyle := (h.multiline hstyle).later

theorem Space.Tidy.trimmed {s : Space} (h : s.Tidy) : s.Trimmed where
  whitespace := h.whitespace.all fun _ => id
  comments c hc := (h.comments c hc).trimmed

namespace Pass

/-- What is done before blanks are taken away leaves each carriage return before its line feed. -/
theorem respects_paired (styles : Styles) : ∀ pass ∈ [leadingSpace, wordGaps],
    pass.Respects styles (fun t u => t.EachSpace Space.Paired → u.EachSpace Space.Paired)
      fun _ s s' => s.Paired → s'.Paired := by
  simp only [List.forall_mem_cons, List.not_mem_nil, false_implies, implies_true, and_true]
  refine ⟨fun t => ?_, fun _ _ => .orSingle⟩
  exact Tree.eachSpace_gatherLeading Space.paired_empty fun _ _ => .append

/-- What is done afterwards puts no blanks before line ends. -/
theorem respects_tidy (styles : Styles) :
    ∀ pass ∈ [blankLines, spacing, wrapping, indentCharacters, indents, lineEnds],
      pass.Respects styles (fun t u => t.EachSpace Space.Tidy → u.EachSpace Space.Tidy)
        fun _ s s' => s.Tidy → s'.Tidy := by
  simp only [List.forall_mem_cons, List.not_mem_nil, false_implies, implies_true, and_true]
  refine ⟨⟨?_, ?_⟩, ?_, ?_, ?_, ?_, ?_⟩
  · exact fun limit _ _ h => h.limitBlankLines limit
  · exact fun least _ _ h => h.requireBlankLines least
  · exact fun wanted _ _ h => h.padded wanted
  · exact fun _ _ h => h.wrapped
  · exact fun _ _ h => h.rewriteIndents styles.indents
  · exact fun l column _ _ h => styles.indents.tidy_indentSpace l column h
  · exact fun _ _ h => h.withLineEnds styles.useCrlf

theorem tidy_trailingBlanks {styles : Styles} {t : Tree} (h : t.EachSpace Space.Paired) :
    ∃ u, run styles none [.root] trailingBlanks t = .ok u ∧ u.EachSpace Space.Tidy := by
  refine ⟨_, runPlain_eq (Visitor.isLocal_ofSpaces _) t, ?_⟩
  rw [Tree.rewrite_eq_respaced]
  refine (Tree.differs_respaced Space.stripLineEnds t).forall_mem_spaces
    (P := fun _ s => s.Paired) (Q := fun _ s => s.Tidy) h ?_
  rintro l s _ rfl hs
  exact hs.tidy_stripLineEnds l

/-- **Formatting leaves no blanks at the ends of lines**: when the carriage returns of a source are
parts of line ends, no line in a space of the formatted tree has a blank at its end, but for blank
lines inside comments. -/
theorem trimmed_format {kind : SourceKind} {source : Text} {firstId nextId : NodeId} {t : Tree}
    (h : parseFrom kind source firstId = .ok (t, nextId)) (hsource : source.pairsReturns)
    (styles : Styles) :
    ∃ u, t.format styles none = .ok u ∧ ∀ p ∈ u.spaces, p.2.Trimmed := by
  have ht := plain_of_parseFrom h
  -- up to the pass that takes blanks away, carriage returns stay before line feeds
  obtain ⟨v, hv, hpaired⟩ := exists_foldlM_of_respects
    (Tree.congruence_eachSpace Space.Paired) (respects_paired styles) none [.root] ht
  obtain ⟨w, hw, htidy⟩ := tidy_trailingBlanks (hpaired (paired_of_parseFrom h hsource))
  -- and from it on no blanks come before line ends
  have htv := respaced_foldlM ht hv
  have hvw := respaced_run (ht.respaced htv) hw
  obtain ⟨u, hu, hlater⟩ := exists_foldlM_of_respects (Tree.congruence_eachSpace Space.Tidy)
    (respects_tidy styles) none [.root] ((ht.respaced htv).respaced hvw)
  refine ⟨u, ?_, fun p hp => (hlater htidy p hp).trimmed⟩
  rw [Tree.format_of_runs rfl hv hw]
  exact hu

/-- Blanks after a brace, inside a comment before a carriage return, and after a line comment. -/
theorem trimmed_format_comment :
    ∃ t n, parseFrom .unit "class A \x7b \n/* a \t\r\n  b */ // c \r\nint x; \x7d".toList 0 =
        .ok (t, n) ∧
      Text.pairsReturns "class A \x7b \n/* a \t\r\n  b */ // c \r\nint x; \x7d".toList ∧
      ∃ u, t.format .standard none = .ok u ∧ ∀ p ∈ u.spaces, p.2.Trimmed := by
  obtain ⟨t, n, h, -⟩ : ∃ t n, parseFrom .unit
      "class A \x7b \n/* a \t\r\n  b */ // c \r\nint x; \x7d".toList 0 = .ok (t, n) ∧
        (fun _ => true) t := exists_parseFrom (by decide +kernel)
  have hsource :
      Text.pairsReturns "class A \x7b \n/* a \t\r\n  b */ // c \r\nint x; \x7d".toList := by
    decide +kernel
  exact ⟨t, n, h, hsource, trimmed_format h hsource .standard⟩

/-- A comment with a blank line is moved to the right with its member. -/
theorem exists_blank_line_end : ¬ ∀ (source : Text) (styles : Styles) (t u : Tree) (n : NodeId),
    parseFrom .unit source 0 = .ok (t, n) → source.pairsReturns → t.format styles none = .ok u →
      ∀ p ∈ u.spaces, ∀ c ∈ p.2.comments, c.style ≠ .line →
        ∀ line ∈ c.text.endedLines, ¬ line.EndsInBlank := by
  intro htrimmed
  obtain ⟨t, n, h, hblank⟩ : ∃ t n,
      parseFrom .unit "class A \x7b\n/*\n\n x */\nint x;\n\x7d".toList 0 = .ok (t, n) ∧
        (t.format .standard none).toOption.any fun u => u.spaces.any fun p =>
        p.2.comments.any fun c => decide (c.style ≠ .line) &&
          c.text.endedLines.any fun line => decide line.EndsInBlank :=
    exists_parseFrom (by decide +kernel)
  obtain ⟨u, hu, hblank⟩ := exists_of_toOption_any hblank
  simp only [List.any_eq_true, Bool.and_eq_true, decide_eq_true_eq] at hblank
  obtain ⟨p, hp, c, hc, hstyle, line, hline, hends⟩ := hblank
  exact htrimmed _ .standard t u n h (by decide +kernel) hu p hp c hc hstyle line hline hends

end Pass

end JavaSource
