import JavaSource.Proofs.EndedLines
import JavaSource.Proofs.RepeatedPasses
import Mathlib.Algebra.Ring.Nat

/-!
# Columns and indents

Two passes write indents: one moves what follows the last line feed of a text to a column, one
writes the indents of lines anew.  The first may be asked for a column left of the first one; both
write the one indentation of their columns (`IndentStyle.isIndentation_iff`), so neither changes
what the other has written (`IndentStyle.indents_agree`).

`IndentStyle.width32` and `IndentStyle.reindent32` count in 32 bits.  As long as no line is too wide
for that they are `IndentStyle.width` and `IndentStyle.reindent`.
-/

namespace JavaSource

namespace Text

theorem not_mem_lastLine (t : Text) : '\n' ∉ t.lastLine :=
  List.count_eq_zero.1 (lineFeeds_lastLine t)

theorem throughLastLineFeed_cases (t : Text) :
    t.throughLastLineFeed = [] ∨ ∃ before, t.throughLastLineFeed = before ++ ['\n'] := by
  rcases List.eq_nil_or_concat t.throughLastLineFeed with h | ⟨before, c, h⟩
  · exact .inl h
  · rw [List.concat_eq_append] at h
    suffices hc : c = '\n' from .inr ⟨before, hc ▸ h⟩
    by_contra hc
    have hlast : lastLine (before ++ [c]) = [] := h ▸ lastLine_throughLastLineFeed t
    rw [lastLine_append (by simpa using Ne.symm hc)] at hlast
    exact List.append_ne_nil_of_right_ne_nil _ (List.cons_ne_nil c []) hlast

end Text

namespace IndentStyle

variable {style : IndentStyle}

/-! ### The indentation of a column -/

/-- Tabs where they are wanted, and spaces for the columns that no tab fills. -/
def IsIndentation (style : IndentStyle) (columns : Nat) (t : Text) : Prop :=
  ∃ tabs spaces, t = List.replicate tabs '\t' ++ List.replicate spaces ' ' ∧
    tabs * max style.tabSize 1 + spaces = columns ∧
    (style.useTabs = true → spaces < max style.tabSize 1) ∧
    (style.useTabs = false → tabs = 0)

theorem tabColumns_pos (style : IndentStyle) : 0 < style.tabColumns :=
  Nat.lt_of_lt_of_le Nat.zero_lt_one (Nat.le_max_right _ _)

theorem isIndentation_indentation (columns : Nat) :
    style.IsIndentation columns (style.indentation columns) := by
  rw [IsIndentation, indentation, ← tabColumns]
  split
  · next htabs =>
    refine ⟨_, _, rfl, Nat.div_add_mod' columns style.tabColumns,
      fun _ => Nat.mod_lt columns style.tabColumns_pos, fun hspaces => ?_⟩
    exact absurd (htabs.symm.trans hspaces) (by decide)
  · next hspaces =>
    exact ⟨0, columns, rfl, by omega, fun htabs => absurd htabs hspaces, fun _ => rfl⟩

/-- There is one indentation for each column. -/
theorem isIndentation_iff {columns : Nat} {t : Text} :
    style.IsIndentation columns t ↔ t = style.indentation columns := by
  refine ⟨?_, fun h => h ▸ isIndentation_indentation columns⟩
  rw [IsIndentation, indentation, ← tabColumns]
  rintro ⟨tabs, spaces, rfl, rfl, hspaces, htabs⟩
  split
  · next hstyle =>
    have hspaces := hspaces hstyle
    rw [Nat.mul_comm, Nat.mul_add_div style.tabColumns_pos, Nat.mul_add_mod,
      Nat.div_eq_of_lt hspaces, Nat.mod_eq_of_lt hspaces, Nat.add_zero]
  · next hstyle =>
    obtain rfl := htabs (eq_false_of_ne_true hstyle)
    rw [Nat.zero_mul, Nat.zero_add]
    rfl

/-! ### Widths -/

/-- The columns of tabs and spaces, one by one. -/
def blankColumns (style : IndentStyle) (run : Text) : Nat :=
  (run.map fun c => if c = '\t' then style.tabColumns else 1).sum

theorem foldl_advance_blanks {run : Text} (h : ∀ c ∈ run, Text.isBlankChar c) (column : Nat) :
    run.foldl style.advance column = column + style.blankColumns run := by
  induction run generalizing column with
  | nil => rfl
  | cons c run ih =>
    rw [List.forall_mem_cons] at h
    have hc : style.advance column c = column + if c = '\t' then style.tabColumns else 1 := by
      have hblank : c = ' ' ∨ c = '\t' := by
        simpa only [Text.isBlankChar, Bool.or_eq_true, beq_iff_eq] using h.1
      rcases hblank with rfl | rfl <;> rfl
    rw [List.foldl_cons, ih h.2, hc, Nat.add_assoc]
    rfl

/-- In blanks no line ends, so their columns add up. -/
theorem width_of_blanks {run : Text} (h : ∀ c ∈ run, Text.isBlankChar c) :
    style.width run = style.blankColumns run :=
  (foldl_advance_blanks h 0).trans (Nat.zero_add _)

/-- Behind a line feed the columns are counted from the start again. -/
theorem width_throughLastLineFeed_append (t line : Text) :
    style.width (t.throughLastLineFeed ++ line) = style.width line := by
  rcases t.throughLastLineFeed_cases with h | ⟨before, h⟩
  · rw [h, List.nil_append]
  · rw [h, width, List.foldl_append, List.foldl_append]
    rfl

theorem width_reindent (column : Int) (t : Text) :
    style.width (style.reindent column t) = column.toNat := by
  rw [reindent, width_throughLastLineFeed_append, width_indentation]

/-! ### The two passes -/

theorem reindent_again (column : Int) (t : Text) :
    style.reindent column (style.reindent column t) = style.reindent column t := by
  rw [reindent, throughLastLineFeed_reindent, reindent]

theorem rewriteIndent_indentation (columns : Nat) :
    style.rewriteIndent (style.indentation columns) = style.indentation columns := by
  have hblank := style.isBlankChar_of_mem_indentation columns
  rw [rewriteIndent, List.takeWhile_eq_self_iff.2 hblank, List.dropWhile_eq_nil_iff.2 hblank,
    width_indentation, List.append_nil]

/-- Behind the last line feed the indents of lines are written as the pass that moves to a column
writes them. -/
theorem rewriteIndents_reindent (column : Int) (t : Text) :
    style.rewriteIndents (style.reindent column t) =
      style.reindent column (style.rewriteIndents t) := by
  have hline := style.not_mem_indentation column.toNat
  have ht := t.throughLastLineFeed_append_lastLine
  rcases t.throughLastLineFeed_cases with h | ⟨before, h⟩
  · have hnone : '\n' ∉ t := by
      rw [← ht, h]
      exact t.not_mem_lastLine
    rw [rewriteIndents, rewriteIndents, Text.mapLaterLines_of_not_mem hnone, reindent, h,
      List.nil_append, Text.mapLaterLines_of_not_mem hline]
  · have hlast : style.rewriteIndents t =
        style.rewriteIndents before ++ '\n' :: style.rewriteIndent t.lastLine := by
      conv => lhs; rw [← ht, h, List.append_assoc]
      exact Text.mapLaterLines_append_line _ before t.not_mem_lastLine
    have hrest := Text.throughLastLineFeed_of_not_mem
      (style.not_mem_rewriteIndent t.not_mem_lastLine)
    rw [hlast, reindent, reindent, h, Text.throughLastLineFeed_append_lineFeed, hrest,
      List.append_assoc, List.singleton_append, List.append_assoc, List.cons_append,
      List.nil_append, rewriteIndents, Text.mapLaterLines_append_line _ before hline,
      rewriteIndent_indentation]
    rfl

/-! ### In 32 bits -/

/-- A number of columns, or the largest that fits. -/
def column32 (n : Nat) : Int32 := if n < 2 ^ 31 then .ofNat n else .maxValue

/-- The columns that a tab advances; at least one. -/
def tabColumns32 (style : IndentStyle) : Int32 := max (column32 style.tabSize) 1

/-- The column that a character leads to. -/
def advance32 (style : IndentStyle) (column : Int32) (c : Char) : Int32 :=
  if c = '\n' || c = '\r' then 0
  else if c = '\t' then column + style.tabColumns32 else column + 1

/-- The column that a text leads to from the start of a line. -/
def width32 (style : IndentStyle) (t : Text) : Int32 := t.foldl style.advance32 0

/-- Tabs and spaces that span so many columns; none for a column left of the first. -/
def indentation32 (style : IndentStyle) (columns : Int32) : Text :=
  let columns := max columns 0
  if style.useTabs then
    List.replicate (columns / style.tabColumns32).toNatClampNeg '\t' ++
      List.replicate (columns % style.tabColumns32).toNatClampNeg ' '
  else List.replicate columns.toNatClampNeg ' '

/-- The text with an indent of this width in place of what follows its last line feed. -/
def reindent32 (style : IndentStyle) (column : Int32) (t : Text) : Text :=
  t.throughLastLineFeed ++ style.indentation32 column

theorem toInt_max (a b : Int32) : (max a b).toInt = max a.toInt b.toInt := by
  show (if a ≤ b then b else a).toInt = _
  simp only [apply_ite Int32.toInt, Int32.le_iff_toInt_le, Int.max_def]

theorem toInt_tabColumns32 (h : style.tabSize < 2 ^ 31) :
    style.tabColumns32.toInt = style.tabColumns := by
  rw [tabColumns32, toInt_max, column32, if_pos h, Int32.toInt_ofNat_of_lt h, Int32.toInt_one,
    tabColumns]
  omega

/-- A sum of columns that fits is the sum. -/
theorem toInt_add_columns {a b : Int32} {m n : Nat} (ha : a.toInt = m) (hb : b.toInt = n)
    (hfits : m + n < 2 ^ 31) : (a + b).toInt = (m + n : Nat) := by
  rw [Int32.toInt_add, ha, hb, Int.natCast_add]
  exact Int.bmod_eq_of_le (by omega) (by omega)

theorem toInt_advance32 (h : style.tabSize < 2 ^ 31) {column : Int32} {n : Nat} {c : Char}
    (hcolumn : column.toInt = n) (hfits : style.advance n c < 2 ^ 31) :
    (style.advance32 column c).toInt = style.advance n c := by
  unfold advance32
  unfold advance at hfits ⊢
  split
  · rfl
  · next hc =>
    rw [if_neg hc] at hfits
    split
    · next htab =>
      rw [if_pos htab] at hfits
      exact toInt_add_columns hcolumn (toInt_tabColumns32 h) hfits
    · next htab =>
      rw [if_neg htab] at hfits
      exact toInt_add_columns hcolumn Int32.toInt_one hfits

/-- **Widths in 32 bits** are the widths, in a text in which no column is too large. -/
theorem toInt_width32 (h : style.tabSize < 2 ^ 31) {t : Text}
    (ht : ∀ s, s <+: t → style.width s < 2 ^ 31) : (style.width32 t).toInt = style.width t := by
  induction t using List.reverseRecOn with
  | nil => rfl
  | append_singleton t c ih =>
    have ih := ih fun s hs => ht s (hs.trans (List.prefix_append t [c]))
    have hc := ht _ List.prefix_rfl
    rw [width, List.foldl_append] at hc
    rw [width32, List.foldl_append, width, List.foldl_append]
    exact toInt_advance32 h ih hc

theorem indentation32_eq (h : style.tabSize < 2 ^ 31) (columns : Int32) :
    style.indentation32 columns = style.indentation columns.toInt.toNat := by
  have htab := toInt_tabColumns32 h
  have hcolumns : (max columns 0).toInt = columns.toInt.toNat := by
    rw [toInt_max, Int32.toInt_zero, Int.toNat_eq_max]
  have hdiv : (max columns 0 / style.tabColumns32).toNatClampNeg =
      columns.toInt.toNat / style.tabColumns := by
    have hne : style.tabColumns32 ≠ -1 := by
      intro hneg
      have hpos : 0 ≤ style.tabColumns32.toInt := htab ▸ Int.natCast_nonneg _
      rw [hneg] at hpos
      exact absurd hpos (by decide)
    rw [Int32.toNatClampNeg, Int32.toInt_div_of_ne_right _ _ hne, hcolumns, htab,
      ← Int.ofNat_tdiv, Int.toNat_natCast]
  have hmod : (max columns 0 % style.tabColumns32).toNatClampNeg =
      columns.toInt.toNat % style.tabColumns := by
    rw [Int32.toNatClampNeg, Int32.toInt_mod, hcolumns, htab, ← Int.ofNat_tmod,
      Int.toNat_natCast]
  rw [indentation32, hdiv, hmod, Int32.toNatClampNeg, hcolumns, Int.toNat_natCast, indentation]

theorem reindent32_eq (h : style.tabSize < 2 ^ 31) (column : Int32) (t : Text) :
    style.reindent32 column t = style.reindent column.toInt t :=
  congrArg _ (indentation32_eq h column)

/-! ### The passes agree -/

/-- **Indents** of the two passes agree.  Each number of columns has one indentation.  What is moved
to a column is kept up to its last line feed and has that column's indentation behind it, or none
for a column left of the first; moved again it stays, and the other pass finds nothing to write anew
there.  Written anew, the lines of a text after the first have the indentations of the columns of
their blanks, and are what they were behind them.  In 32 bits the columns are the same while they
fit. -/
theorem indents_agree (style : IndentStyle) (t : Text) (column : Int) :
    (∀ columns, ∃! indent, style.IsIndentation columns indent) ∧
    (∃ before line indent, t = before ++ line ∧ '\n' ∉ line ∧
      (before = [] ∨ before.getLast? = some '\n') ∧
      style.reindent column t = before ++ indent ∧
      style.IsIndentation column.toNat indent ∧
      style.rewriteIndents ('\n' :: indent) = '\n' :: indent) ∧
    (style.width (style.reindent column t) : Int) = max column 0 ∧
    style.reindent column (style.reindent column t) = style.reindent column t ∧
    style.rewriteIndents (style.reindent column t) =
      style.reindent column (style.rewriteIndents t) ∧
    (∃ first later, Text.split '\n' t = first :: later ∧
      Text.split '\n' (style.rewriteIndents t) = first :: later.map style.rewriteIndent ∧
      ∀ line ∈ later,
        (style.rewriteIndent line).dropWhile Text.isBlankChar =
          line.dropWhile Text.isBlankChar ∧
        style.width ((style.rewriteIndent line).takeWhile Text.isBlankChar) =
          style.width (line.takeWhile Text.isBlankChar) ∧
        style.IsIndentation (style.blankColumns (line.takeWhile Text.isBlankChar))
          ((style.rewriteIndent line).takeWhile Text.isBlankChar)) ∧
    (style.tabSize < 2 ^ 31 →
      ((∀ s, s <+: t → style.width s < 2 ^ 31) → (style.width32 t).toInt = style.width t) ∧
      ∀ column, style.reindent32 column t = style.reindent column.toInt t) := by
  have hunique : ∀ columns, ∃! indent, style.IsIndentation columns indent :=
    fun columns => ⟨_, isIndentation_indentation columns, fun _ => isIndentation_iff.1⟩
  have hends : t.throughLastLineFeed = [] ∨ t.throughLastLineFeed.getLast? = some '\n' := by
    refine t.throughLastLineFeed_cases.imp_right ?_
    rintro ⟨before, h⟩
    rw [h, List.getLast?_concat]
  have hfixed : style.rewriteIndents ('\n' :: style.indentation column.toNat) =
      '\n' :: style.indentation column.toNat := by
    refine (Text.mapLaterLines_append_line _ [] (style.not_mem_indentation _)).trans ?_
    rw [rewriteIndent_indentation]
    rfl
  have hwidth : (style.width (style.reindent column t) : Int) = max column 0 := by
    rw [width_reindent, Int.toNat_eq_max]
  refine ⟨hunique, ?_, hwidth, reindent_again column t, rewriteIndents_reindent column t, ?_,
    fun h => ⟨toInt_width32 h, fun column => reindent32_eq h column t⟩⟩
  · exact ⟨t.throughLastLineFeed, t.lastLine, style.indentation column.toNat,
      t.throughLastLineFeed_append_lastLine.symm, t.not_mem_lastLine, hends, rfl,
      isIndentation_indentation _, hfixed⟩
  · obtain ⟨first, later, ht, hmapped⟩ :=
      Text.split_mapLaterLines (fun _ => style.not_mem_rewriteIndent) t
    refine ⟨first, later, ht, hmapped, fun line _ => ⟨style.upToIndent_rewriteIndent line, ?_⟩⟩
    rw [takeWhile_rewriteIndent, width_indentation,
      width_of_blanks fun _ hc => List.mem_takeWhile_imp hc]
    exact ⟨rfl, isIndentation_indentation _⟩

end IndentStyle

end JavaSource
