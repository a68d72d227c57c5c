import JavaSource.Proofs.Lines
import JavaSource.Text.Outdent
import Mathlib.Data.List.DropRight
import Mathlib.Data.List.Infix

/-!
# Outdented texts

`Text.outdent` measures the common indent in bytes, and white space may be wide: a line may end
before the cut, or have a character across it.  Such a line is blank or loses no more than its white
space, so no line loses anything else (`Text.exists_append_outdentLine`).  What is left has no blank
lines around it and a line without an indent (`Text.IsOutdented`), and from such lines nothing more is
taken (`Text.outdentLines_eq_self`).
-/

namespace JavaSource.Text

variable {line r t : Text} {ls : List Text} {n : Nat}

/-! ### Cutting at bytes -/

theorem eq_nil_of_byteLength_eq_zero {t : Text} (h : t.byteLength = 0) : t = [] := by
  cases t with
  | nil => rfl
  | cons c t =>
    have hc := c.utf8Size_pos
    rw [byteLength_cons] at h
    omega

theorem dropBytes?_byteLength_append (p r : Text) :
    dropBytes? (byteLength p) (p ++ r) = some r := by
  induction p with
  | nil => rw [byteLength_nil, List.nil_append, dropBytes?]
  | cons c p ih =>
    obtain ⟨n, hn⟩ := Nat.exists_eq_add_one.2 (Nat.add_pos_left c.utf8Size_pos (byteLength p))
    have hrest : n + 1 - c.utf8Size = byteLength p := by omega
    rw [byteLength_cons, hn, List.cons_append, dropBytes?, if_pos (by omega), hrest, ih]

theorem eq_append_of_dropBytes? (h : dropBytes? n t = some r) :
    ∃ p, t = p ++ r ∧ byteLength p = n := by
  fun_induction dropBytes? n t with
  | case1 t => exact ⟨[], Option.some.inj h, rfl⟩
  | case2 => cases h
  | case3 n c t hc ih =>
    obtain ⟨p, rfl, hp⟩ := ih h
    exact ⟨c :: p, rfl, by rw [byteLength_cons, hp]; omega⟩
  | case4 => cases h

/-- Of two starts of a text the one with fewer bytes is a start of the other. -/
theorem prefix_of_byteLength_le {p q : Text} (hp : p <+: t) (hq : q <+: t)
    (h : byteLength p ≤ byteLength q) : p <+: q := by
  rcases List.prefix_or_prefix_of_prefix hp hq with hpq | ⟨rest, rfl⟩
  · exact hpq
  · rw [byteLength_append] at h
    rw [eq_nil_of_byteLength_eq_zero (t := rest) (by omega), List.append_nil]

/-! ### A line without its indent -/

/-- A line loses white space only. -/
theorem exists_append_outdentLine (h : line.isBlank ∨ n ≤ indentWidth line) :
    ∃ p, line = p ++ outdentLine n line ∧ p.isBlank := by
  have hindent : isBlank (line.takeWhile isWhiteSpace) :=
    List.all_eq_true.2 fun c hc => List.mem_takeWhile_imp hc
  rw [outdentLine]
  cases hr : dropBytes? n line with
  | none => exact ⟨_, List.takeWhile_append_dropWhile.symm, hindent⟩
  | some r =>
    obtain ⟨p, hline, hp⟩ := eq_append_of_dropBytes? hr
    refine ⟨p, hline, List.all_eq_true.2 fun c hc => ?_⟩
    rcases h with h | h
    · exact List.all_eq_true.1 h c (hline ▸ List.mem_append_left r hc)
    · have hstart : p <+: line.takeWhile isWhiteSpace :=
        prefix_of_byteLength_le ⟨r, hline.symm⟩ (List.takeWhile_prefix _) (hp ▸ h)
      exact List.all_eq_true.1 hindent c (hstart.mem hc)

theorem isBlank_outdentLine (h : line.isBlank ∨ n ≤ indentWidth line) :
    (outdentLine n line).isBlank = line.isBlank := by
  obtain ⟨p, hline, hp⟩ := exists_append_outdentLine h
  conv => rhs; rw [hline]
  rw [isBlank, isBlank, List.all_append, show p.all isWhiteSpace = true from hp, Bool.true_and]

theorem trim_outdentLine (h : line.isBlank ∨ n ≤ indentWidth line) :
    (outdentLine n line).trim = line.trim := by
  obtain ⟨p, hline, hp⟩ := exists_append_outdentLine h
  conv => rhs; rw [hline]
  rw [trim, trim, trimStart, trimStart, List.dropWhile_append_of_pos (List.all_eq_true.1 hp)]

/-- A line without all of its indent starts with what is no white space. -/
theorem outdentLine_indentWidth (line : Text) :
    outdentLine (indentWidth line) line = trimStart line := by
  have h := dropBytes?_byteLength_append (line.takeWhile isWhiteSpace) (line.dropWhile isWhiteSpace)
  rw [List.takeWhile_append_dropWhile] at h
  rw [outdentLine, indentWidth, h]
  rfl

theorem outdentLine_zero (line : Text) : outdentLine 0 line = line := by
  rw [outdentLine, dropBytes?]
  rfl

/-! ### Blank lines around a text -/

/-- No blank line comes first or last. -/
def NoBlankEnds (ls : List Text) : Prop :=
  (∀ line ∈ ls.head?, ¬ line.isBlank) ∧ ∀ line ∈ ls.getLast?, ¬ line.isBlank

theorem dropBlankLines_eq (ls : List Text) :
    dropBlankLines ls = (ls.dropWhile isBlank).rdropWhile isBlank := rfl

theorem noBlankEnds_dropBlankLines (ls : List Text) : NoBlankEnds (dropBlankLines ls) := by
  have hhead := List.head?_dropWhile_not isBlank ls
  rw [dropBlankLines_eq]
  constructor
  · intro line hline
    obtain ⟨after, hafter⟩ := List.rdropWhile_prefix isBlank (ls.dropWhile isBlank)
    rw [← hafter, List.head?_append, Option.mem_def.1 hline] at hhead
    simpa using hhead
  · intro line hline
    obtain ⟨hne, rfl⟩ := List.mem_getLast?_eq_getLast hline
    exact List.rdropWhile_last_not _ _ hne

theorem exists_append_dropBlankLines (ls : List Text) :
    ∃ before after, ls = before ++ dropBlankLines ls ++ after ∧
      (∀ line ∈ before, line.isBlank) ∧ ∀ line ∈ after, line.isBlank := by
  refine ⟨ls.takeWhile isBlank, (ls.dropWhile isBlank).rtakeWhile isBlank, ?_,
    fun _ => List.mem_takeWhile_imp, fun _ => List.mem_rtakeWhile_imp⟩
  rw [dropBlankLines_eq, List.append_assoc, List.rdropWhile_append_rtakeWhile,
    List.takeWhile_append_dropWhile]

theorem dropBlankLines_eq_nil_iff : dropBlankLines ls = [] ↔ ∀ line ∈ ls, line.isBlank := by
  constructor
  · intro h
    obtain ⟨before, after, hls, hbefore, hafter⟩ := exists_append_dropBlankLines ls
    rw [h, List.append_nil] at hls
    rw [hls]
    exact List.forall_mem_append.2 ⟨hbefore, hafter⟩
  · intro h
    rw [dropBlankLines_eq, List.dropWhile_eq_nil_iff.2 h, List.rdropWhile_nil]

theorem dropBlankLines_eq_self (h : NoBlankEnds ls) : dropBlankLines ls = ls := by
  have hhead : ls.dropWhile isBlank = ls := by
    cases ls with
    | nil => rfl
    | cons line ls => exact List.dropWhile_cons_of_neg (h.1 line rfl)
  rw [dropBlankLines_eq, hhead, List.rdropWhile_eq_self_iff]
  exact fun hne => h.2 _ (List.getLast?_eq_some_getLast hne)

/-! ### The common indent -/

theorem isBlank_or_commonIndent_le (hline : line ∈ ls) :
    line.isBlank ∨ commonIndent ls ≤ indentWidth line := by
  refine or_iff_not_imp_left.2 fun hblank => List.min?_getD_le_of_mem (List.mem_map_of_mem ?_)
  exact List.mem_filter.2 ⟨hline, by simpa using hblank⟩

theorem exists_commonIndent_eq (hline : line ∈ ls) (hblank : ¬ line.isBlank) :
    ∃ least ∈ ls, ¬ least.isBlank ∧ commonIndent ls = indentWidth least := by
  rw [commonIndent]
  cases hmin : ((ls.filter fun line => !line.isBlank).map indentWidth).min? with
  | none =>
    rw [List.min?_eq_none_iff, List.map_eq_nil_iff, List.filter_eq_nil_iff] at hmin
    exact absurd (by simpa using hblank) (hmin line hline)
  | some n =>
    obtain ⟨least, hleast, rfl⟩ := List.mem_map.1 (List.min?_mem hmin)
    obtain ⟨hmem, hleast⟩ := List.mem_filter.1 hleast
    exact ⟨least, hmem, by simpa using hleast, rfl⟩

/-! ### Lines without their indent -/

/-- The lines without the blank lines at both ends and the indent common to the others. -/
def outdentLines (ls : List Text) : List Text :=
  (dropBlankLines ls).map (outdentLine (commonIndent (dropBlankLines ls)))

/-- No blank line comes first or last, and if there are lines one of them has no white space in
front. -/
structure IsOutdented (ls : List Text) : Prop where
  ends : NoBlankEnds ls
  flush : ls ≠ [] → ∃ line ∈ ls, ∃ c ∈ line.head?, ¬ isWhiteSpace c

theorem outdentLines_eq_nil_iff : outdentLines ls = [] ↔ ∀ line ∈ ls, line.isBlank :=
  List.map_eq_nil_iff.trans dropBlankLines_eq_nil_iff

theorem isBlank_of_mem_dropBlankLines (hline : line ∈ dropBlankLines ls) :
    (outdentLine (commonIndent (dropBlankLines ls)) line).isBlank = line.isBlank :=
  isBlank_outdentLine (isBlank_or_commonIndent_le hline)

theorem map_trim_outdentLines (ls : List Text) :
    (outdentLines ls).map trim = (dropBlankLines ls).map trim := by
  rw [outdentLines, List.map_map]
  exact List.map_congr_left fun _ hline => trim_outdentLine (isBlank_or_commonIndent_le hline)

theorem noBlankEnds_outdentLines (ls : List Text) : NoBlankEnds (outdentLines ls) := by
  have h := noBlankEnds_dropBlankLines ls
  rw [outdentLines]
  constructor
  · intro line hline
    rw [List.head?_map] at hline
    obtain ⟨line, hmem, rfl⟩ := Option.map_eq_some_iff.1 hline
    rw [isBlank_of_mem_dropBlankLines (List.mem_of_mem_head? hmem)]
    exact h.1 line hmem
  · intro line hline
    rw [List.getLast?_map] at hline
    obtain ⟨line, hmem, rfl⟩ := Option.map_eq_some_iff.1 hline
    rw [isBlank_of_mem_dropBlankLines (List.mem_of_mem_getLast? hmem)]
    exact h.2 line hmem

theorem exists_head?_trimStart (h : ¬ line.isBlank) :
    ∃ c ∈ (trimStart line).head?, ¬ isWhiteSpace c := by
  have hhead := List.head?_dropWhile_not isWhiteSpace line
  rw [trimStart]
  cases hrest : line.dropWhile isWhiteSpace with
  | nil => exact absurd (List.all_eq_true.2 (List.dropWhile_eq_nil_iff.1 hrest)) h
  | cons c rest =>
    rw [hrest] at hhead
    exact ⟨c, rfl, by simpa using hhead⟩

theorem isOutdented_outdentLines (ls : List Text) : IsOutdented (outdentLines ls) where
  ends := noBlankEnds_outdentLines ls
  flush := by
    intro hne
    rw [outdentLines, ne_eq, List.map_eq_nil_iff] at hne
    obtain ⟨first, hfirst⟩ := Option.ne_none_iff_exists'.1 (mt List.head?_eq_none_iff.1 hne)
    obtain ⟨least, hleast, hblank, hindent⟩ := exists_commonIndent_eq
      (List.mem_of_mem_head? hfirst) ((noBlankEnds_dropBlankLines ls).1 first hfirst)
    refine ⟨_, List.mem_map_of_mem hleast, ?_⟩
    rw [hindent, outdentLine_indentWidth]
    exact exists_head?_trimStart hblank

/-- There is nothing more to take away. -/
theorem outdentLines_eq_self (h : IsOutdented ls) : outdentLines ls = ls := by
  rw [outdentLines, dropBlankLines_eq_self h.ends]
  by_cases hne : ls = []
  · rw [hne]
    rfl
  · obtain ⟨line, hline, c, hc, hink⟩ := h.flush hne
    obtain ⟨rest, rfl⟩ : ∃ rest, line = c :: rest := List.head?_eq_some_iff.1 hc
    have hwidth : indentWidth (c :: rest) = 0 := by
      rw [indentWidth, List.takeWhile_cons_of_neg hink]
      rfl
    have hblank : ¬ isBlank (c :: rest) := fun hblank =>
      hink (List.all_eq_true.1 hblank c List.mem_cons_self)
    have hindent : commonIndent ls = 0 := by
      have hle := (isBlank_or_commonIndent_le hline).resolve_left hblank
      omega
    rw [hindent]
    exact List.map_id'' outdentLine_zero ls

/-! ### Lines of a text -/

theorem lines_ne_nil (h : t ≠ []) : lines t ≠ [] := by
  fun_cases lines t with
  | case1 => exact absurd rfl h
  | case2 | case3 | case4 => exact List.cons_ne_nil _ _
  | case5 c _ d t _ hnil =>
    rw [hnil]
    exact List.cons_ne_nil _ _
  | case6 c _ d t first others _ hlines =>
    rw [hlines]
    exact List.cons_ne_nil _ _

/-- Without carriage returns the lines are what is between line feeds, but for what is behind a line
feed at the end. -/
theorem split_eq_lines_append (h : '\r' ∉ t) :
    ∃ rest, (rest = [] ∨ rest = [[]]) ∧ split '\n' t = lines t ++ rest := by
  fun_induction lines t with
  | case1 => exact ⟨[[]], .inr rfl, rfl⟩
  | case2 t ih =>
    obtain ⟨rest, hrest, ht⟩ := ih fun hmem => h (List.mem_cons_of_mem _ hmem)
    exact ⟨rest, hrest, congrArg ([] :: ·) ht⟩
  | case3 t => exact absurd List.mem_cons_self h
  | case4 c hc =>
    exact ⟨[], .inl rfl, by rw [split, if_neg hc]; rfl⟩
  | case5 c hc d t _ hnil => exact absurd hnil (lines_ne_nil (List.cons_ne_nil d t))
  | case6 c hc d t first others _ hlines ih =>
    obtain ⟨rest, hrest, ht⟩ := ih fun hmem => h (List.mem_cons_of_mem _ hmem)
    rw [split, if_neg hc, ht, hlines]
    exact ⟨rest, hrest, rfl⟩

theorem mem_join_of_mem {c : Char} {sep : Text} (hline : line ∈ ls) (hc : c ∈ line) :
    c ∈ join sep ls := by
  fun_induction join sep ls with
  | case1 => cases hline
  | case2 part => exact List.mem_singleton.1 hline ▸ hc
  | case3 part later _ ih =>
    rcases List.mem_cons.1 hline with rfl | hline
    · exact List.mem_append_left _ (List.mem_append_left _ hc)
    · exact List.mem_append_right _ (ih hline)

theorem mem_of_mem_join {c : Char} {sep : Text} (hc : c ∈ join sep ls) :
    c ∈ sep ∨ ∃ line ∈ ls, c ∈ line := by
  fun_induction join sep ls with
  | case1 => cases hc
  | case2 part => exact .inr ⟨part, List.mem_cons_self, hc⟩
  | case3 part later _ ih =>
    rcases List.mem_append.1 hc with hc | hc
    · exact (List.mem_append.1 hc).symm.imp_right fun hc => ⟨part, List.mem_cons_self, hc⟩
    · refine (ih hc).imp_right ?_
      rintro ⟨line, hline, hc⟩
      exact ⟨line, List.mem_cons_of_mem part hline, hc⟩

theorem not_mem_of_mem_lines (h : '\r' ∉ t) (hline : line ∈ lines t) :
    '\n' ∉ line ∧ '\r' ∉ line := by
  obtain ⟨rest, -, hsplit⟩ := split_eq_lines_append h
  have hline : line ∈ split '\n' t := hsplit ▸ List.mem_append_left rest hline
  refine ⟨not_mem_of_mem_split '\n' t line hline, fun hreturn => h ?_⟩
  rw [← join_split '\n' t]
  exact mem_join_of_mem hline hreturn

theorem lines_join (hlines : ∀ line ∈ ls, '\n' ∉ line ∧ '\r' ∉ line)
    (hends : NoBlankEnds ls) : lines (join ['\n'] ls) = ls := by
  by_cases hne : ls = []
  · rw [hne]
    rfl
  have hreturn : '\r' ∉ join ['\n'] ls := by
    intro hmem
    rcases mem_of_mem_join hmem with hmem | ⟨line, hline, hmem⟩
    · exact absurd hmem (by decide)
    · exact (hlines line hline).2 hmem
  obtain ⟨rest, rfl | rfl, hsplit⟩ := split_eq_lines_append hreturn
  · rw [split_join hne fun line hline => (hlines line hline).1, List.append_nil] at hsplit
    exact hsplit.symm
  · rw [split_join hne fun line hline => (hlines line hline).1] at hsplit
    exact absurd rfl (hends.2 [] (hsplit ▸ List.getLast?_concat))

theorem mem_of_mem_outdentLine {c : Char} (h : line.isBlank ∨ n ≤ indentWidth line)
    (hc : c ∈ outdentLine n line) : c ∈ line := by
  obtain ⟨p, hline, -⟩ := exists_append_outdentLine h
  rw [hline]
  exact List.mem_append_right p hc

theorem lines_outdent (h : '\r' ∉ t) : lines (outdent t) = outdentLines (lines t) := by
  refine lines_join (List.forall_mem_map.2 fun line hline => ?_) (noBlankEnds_outdentLines _)
  obtain ⟨before, after, hls, -⟩ := exists_append_dropBlankLines (lines t)
  have hmem : line ∈ lines t := by
    rw [hls]
    exact List.mem_append_left _ (List.mem_append_right _ hline)
  have hkept {c : Char} := mem_of_mem_outdentLine (c := c) (isBlank_or_commonIndent_le hline)
  exact (not_mem_of_mem_lines h hmem).imp (mt hkept) (mt hkept)

/-! ### The normal form -/

theorem outdent_eq_nil_iff (h : '\r' ∉ t) : outdent t = [] ↔ ∀ line ∈ lines t, line.isBlank := by
  rw [← outdentLines_eq_nil_iff]
  refine ⟨fun hnil => ?_, fun hnil => ?_⟩
  · rw [← lines_outdent h, hnil]
    rfl
  · exact congrArg (join ['\n']) hnil

/-- **Outdenting** a text gives its normal form: no blank line comes first or last in it, and unless
every line of the text was blank, and nothing is left, one of its lines has no white space in
front.  But for white space at their ends, its lines are those of the text without the blank lines
at the start and at the end. -/
theorem outdent_normal {t : Text} (h : '\r' ∉ t) :
    outdent (outdent t) = outdent t ∧
    (outdent t = [] ↔ ∀ line ∈ lines t, line.isBlank) ∧
    (outdent t ≠ [] →
      (∃ first ∈ (lines (outdent t)).head?, ¬ first.isBlank) ∧
      (∃ last ∈ (lines (outdent t)).getLast?, ¬ last.isBlank) ∧
      ∃ line ∈ lines (outdent t), ∃ c ∈ line.head?, ¬ isWhiteSpace c) ∧
    ∃ before middle after, lines t = before ++ middle ++ after ∧
      (∀ line ∈ before, line.isBlank) ∧ (∀ line ∈ after, line.isBlank) ∧
      NoBlankEnds middle ∧ (lines (outdent t)).map trim = middle.map trim := by
  have hlines := lines_outdent h
  have hnormal := isOutdented_outdentLines (lines t)
  obtain ⟨before, after, hls, hbefore, hafter⟩ := exists_append_dropBlankLines (lines t)
  refine ⟨?_, outdent_eq_nil_iff h, fun hne => ?_, before, dropBlankLines (lines t), after, hls,
    hbefore, hafter, noBlankEnds_dropBlankLines _, hlines ▸ map_trim_outdentLines (lines t)⟩
  · calc outdent (outdent t)
        = join ['\n'] (outdentLines (lines (outdent t))) := rfl
      _ = join ['\n'] (outdentLines (lines t)) := by rw [hlines, outdentLines_eq_self hnormal]
      _ = outdent t := rfl
  · have hne : outdentLines (lines t) ≠ [] := by
      rwa [ne_eq, outdentLines_eq_nil_iff, ← outdent_eq_nil_iff h]
    rw [hlines]
    refine ⟨⟨_, List.head?_eq_some_head hne, ?_⟩, ⟨_, List.getLast?_eq_some_getLast hne, ?_⟩,
      hnormal.flush hne⟩
    · exact hnormal.ends.1 _ (List.head?_eq_some_head hne)
    · exact hnormal.ends.2 _ (List.getLast?_eq_some_getLast hne)

/-- The cut after two bytes falls into a wide space of one line, and behind the end of another. -/
theorem outdent_normal_wide :
    '\r' ∉ "\n\u00a0x\n \u3000y\n \n  z\n\n".toList ∧
    outdent "\n\u00a0x\n \u3000y\n \n  z\n\n".toList = "x\ny\n\nz".toList ∧
    outdent "x\ny\n\nz".toList = "x\ny\n\nz".toList ∧
    ∃ line ∈ lines "x\ny\n\nz".toList, ∃ c ∈ line.head?, ¬ isWhiteSpace c := by
  have hreturn : '\r' ∉ "\n\u00a0x\n \u3000y\n \n  z\n\n".toList := by decide
  have houtdent :
      outdent "\n\u00a0x\n \u3000y\n \n  z\n\n".toList = "x\ny\n\nz".toList := by
    decide +kernel
  obtain ⟨hagain, -, hends, -⟩ := outdent_normal hreturn
  rw [houtdent] at hagain hends
  exact ⟨hreturn, houtdent, hagain, (hends (by decide)).2.2⟩

end JavaSource.Text
