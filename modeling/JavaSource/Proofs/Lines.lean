import JavaSource.Proofs.Ink
import Mathlib.Data.List.Infix
import Mathlib.Data.List.DropRight
import Mathlib.Data.List.TakeWhile

/-!
# Lines of a text

`Text.split` cuts a text into lines and `Text.mapLaterLines` changes all but the first of them; a
function that puts no line feeds into a line changes the lines one by one
(`Text.split_mapLaterLines`).  What follows the last line feed may be replaced without a change to
what stands before it.  Lines that are alike up to their indents (`Text.UpToIndent`) are what
indenting gives.
-/

namespace JavaSource

namespace Text

/-! ### Cutting and joining -/

theorem not_mem_of_mem_split (c : Char) (t : Text) : ∀ line ∈ split c t, c ∉ line := by
  fun_induction split c t with
  | case1 => simp
  | case2 rest ih => simpa using ih
  | case3 d rest hd h ih => exact absurd h (split_ne_nil c rest)
  | case4 d rest hd first later h ih =>
    rw [h, List.forall_mem_cons] at ih
    refine List.forall_mem_cons.2 ⟨fun hmem => ?_, ih.2⟩
    rcases List.mem_cons.1 hmem with rfl | hmem
    · exact hd rfl
    · exact ih.1 hmem

theorem split_of_not_mem {c : Char} {line : Text} (h : c ∉ line) : split c line = [line] := by
  induction line with
  | nil => rfl
  | cons d line ih =>
    have hd : d ≠ c := fun hd => h (hd ▸ List.mem_cons_self)
    have ih := ih fun hmem => h (List.mem_cons_of_mem _ hmem)
    rw [split, if_neg hd, ih]

theorem split_append_cons (c : Char) (a b : Text) :
    split c (a ++ c :: b) = split c a ++ split c b := by
  induction a with
  | nil => simp [split]
  | cons d a ih =>
    rw [List.cons_append, split, split]
    split
    · rw [ih, List.cons_append]
    · rw [ih]
      obtain ⟨first, later, h⟩ := List.exists_cons_of_ne_nil (split_ne_nil c a)
      rw [h]
      rfl

theorem split_append {c : Char} {line : Text} (h : c ∉ line) (rest : Text) :
    split c (line ++ c :: rest) = line :: split c rest := by
  rw [split_append_cons, split_of_not_mem h, List.singleton_append]

theorem join_append {sep : Text} {before after : List Text} (hb : before ≠ [])
    (ha : after ≠ []) :
    join sep (before ++ after) = join sep before ++ sep ++ join sep after := by
  induction before with
  | nil => exact absurd rfl hb
  | cons u before ih =>
    cases before with
    | nil =>
      obtain ⟨v, after, rfl⟩ := List.exists_cons_of_ne_nil ha
      rfl
    | cons v before =>
      have ih := ih (List.cons_ne_nil v before)
      simp only [List.cons_append, join] at ih ⊢
      simp only [ih, List.append_assoc]

theorem split_join {c : Char} {lines : List Text} (hne : lines ≠ [])
    (h : ∀ line ∈ lines, c ∉ line) : split c (join [c] lines) = lines := by
  fun_induction join [c] lines with
  | case1 => exact absurd rfl hne
  | case2 line => exact split_of_not_mem (h line List.mem_cons_self)
  | case3 line later hlater ih =>
    rw [List.forall_mem_cons] at h
    rw [List.append_assoc, List.singleton_append, split_append h.1, ih (fun h => hlater h) h.2]

/-- Lines changed one by one, by a function that changes a line within the line. -/
theorem split_mapLaterLines {f : Text → Text} (hf : ∀ line, '\n' ∉ line → '\n' ∉ f line)
    (t : Text) : ∃ first later, split '\n' t = first :: later ∧
      split '\n' (t.mapLaterLines f) = first :: later.map f := by
  have hlines := not_mem_of_mem_split '\n' t
  unfold mapLaterLines
  cases ht : split '\n' t with
  | nil => exact absurd ht (split_ne_nil '\n' t)
  | cons first later =>
    rw [ht, List.forall_mem_cons] at hlines
    refine ⟨first, later, rfl, ?_⟩
    refine split_join (List.cons_ne_nil _ _) (List.forall_mem_cons.2 ⟨hlines.1, ?_⟩)
    exact List.forall_mem_map.2 fun line hmem => hf line (hlines.2 line hmem)

theorem mapLaterLines_of_not_mem {f : Text → Text} {t : Text} (h : '\n' ∉ t) :
    t.mapLaterLines f = t := by
  rw [mapLaterLines, split_of_not_mem h]
  rfl

theorem mapLaterLines_append_line (f : Text → Text) (t : Text) {line : Text} (h : '\n' ∉ line) :
    mapLaterLines f (t ++ '\n' :: line) = mapLaterLines f t ++ '\n' :: f line := by
  rw [mapLaterLines, split_append_cons, split_of_not_mem h, mapLaterLines]
  cases ht : split '\n' t with
  | nil => exact absurd ht (split_ne_nil '\n' t)
  | cons first later =>
    show join ['\n'] (first :: (later ++ [line]).map f) = _
    rw [List.map_append, List.map_singleton, ← List.cons_append,
      join_append (List.cons_ne_nil _ _) (List.cons_ne_nil _ _), List.append_assoc]
    rfl

/-! ### The last line -/

theorem lastLine_append {a b : Text} (h : '\n' ∉ b) : lastLine (a ++ b) = lastLine a ++ b := by
  have hline : ∀ c ∈ b.reverse, decide (c ≠ '\n') = true := fun c hc =>
    decide_eq_true fun heq => h (List.mem_reverse.1 (heq ▸ hc))
  rw [lastLine, List.reverse_append, List.takeWhile_append_of_pos hline, List.reverse_append,
    List.reverse_reverse, lastLine]

theorem lastLine_throughLastLineFeed (t : Text) : t.throughLastLineFeed.lastLine = [] := by
  rw [throughLastLineFeed, lastLine, List.reverse_reverse, List.reverse_eq_nil_iff]
  have hhead := List.head?_dropWhile_not (fun c : Char => decide (c ≠ '\n')) t.reverse
  generalize List.dropWhile _ t.reverse = rest at hhead ⊢
  cases rest with
  | nil => rfl
  | cons c rest => exact List.takeWhile_cons_of_neg (by simpa using hhead)

theorem throughLastLineFeed_of_not_mem {t : Text} (h : '\n' ∉ t) : t.throughLastLineFeed = [] := by
  have hline : ∀ c ∈ t.reverse, decide (c ≠ '\n') = true := fun c hc =>
    decide_eq_true fun heq => h (List.mem_reverse.1 (heq ▸ hc))
  rw [throughLastLineFeed, List.dropWhile_eq_nil_iff.2 hline, List.reverse_nil]

theorem throughLastLineFeed_append {a b : Text} (h : '\n' ∉ b) :
    (a ++ b).throughLastLineFeed = a.throughLastLineFeed := by
  have hline : ∀ c ∈ b.reverse, decide (c ≠ '\n') = true := fun c hc =>
    decide_eq_true fun heq => h (List.mem_reverse.1 (heq ▸ hc))
  rw [throughLastLineFeed, List.reverse_append, List.dropWhile_append_of_pos hline,
    throughLastLineFeed]

theorem throughLastLineFeed_throughLastLineFeed (t : Text) :
    t.throughLastLineFeed.throughLastLineFeed = t.throughLastLineFeed := by
  have h := throughLastLineFeed_append_lastLine t.throughLastLineFeed
  rwa [lastLine_throughLastLineFeed, List.append_nil] at h

/-! ### Lines up to their indents -/

/-- The lines are the same from their first character on that is no blank. -/
def UpToIndent (line line' : Text) : Prop :=
  line'.dropWhile isBlankChar = line.dropWhile isBlankChar

theorem UpToIndent.trans {line line' line'' : Text} (h : line.UpToIndent line')
    (h' : line'.UpToIndent line'') : line.UpToIndent line'' :=
  Eq.trans h' h

end Text

namespace IndentStyle

variable (style : IndentStyle)

theorem not_mem_indentation (columns : Nat) : '\n' ∉ style.indentation columns := by
  rw [indentation]
  split <;> simp [List.mem_replicate]

theorem isBlankChar_of_mem_indentation (columns : Nat) :
    ∀ c ∈ style.indentation columns, Text.isBlankChar c := by
  have hblanks (n : Nat) {c : Char} (hc : Text.isBlankChar c) :
      ∀ d ∈ List.replicate n c, Text.isBlankChar d :=
    fun d hd => List.eq_of_mem_replicate hd ▸ hc
  rw [indentation]
  split
  · exact List.forall_mem_append.2 ⟨hblanks _ rfl, hblanks _ rfl⟩
  · exact hblanks _ rfl

theorem not_mem_rewriteIndent {line : Text} (h : '\n' ∉ line) :
    '\n' ∉ style.rewriteIndent line := by
  rw [rewriteIndent, List.mem_append, not_or]
  exact ⟨style.not_mem_indentation _, fun hmem => h (List.dropWhile_sublist _ |>.mem hmem)⟩

theorem upToIndent_rewriteIndent (line : Text) :
    Text.UpToIndent line (style.rewriteIndent line) := by
  have hblank := style.isBlankChar_of_mem_indentation
    (style.width (line.takeWhile Text.isBlankChar))
  rw [Text.UpToIndent, rewriteIndent, List.dropWhile_append_of_pos hblank,
    List.dropWhile_idempotent]

/-- What `shiftLine` keeps of an indent, or drops, is the start of the line. -/
theorem takeWhile_take_append_drop (p : Char → Bool) (n : Nat) (line : Text) :
    (line.take n).takeWhile p ++ line.drop ((line.take n).takeWhile p).length = line :=
  List.prefix_iff_eq_append.1 ((List.takeWhile_prefix p).trans (List.take_prefix n line))

theorem upToIndent_shiftLine (margin : Nat) (shift : Int) (line : Text) :
    Text.UpToIndent line (style.shiftLine margin shift line) := by
  have hkept (n : Nat) : ∀ c ∈ (line.take n).takeWhile Text.isBlankChar, Text.isBlankChar c :=
    fun c hc => List.mem_takeWhile_imp hc
  have hdrop (n : Nat) : line.dropWhile Text.isBlankChar =
      (line.drop ((line.take n).takeWhile Text.isBlankChar).length).dropWhile Text.isBlankChar := by
    conv => lhs; rw [← takeWhile_take_append_drop Text.isBlankChar n line]
    rw [List.dropWhile_append_of_pos (hkept n)]
  rw [Text.UpToIndent, shiftLine]
  split
  · rw [List.append_assoc, List.dropWhile_append_of_pos (hkept margin),
      List.dropWhile_append_of_pos (style.isBlankChar_of_mem_indentation _), hdrop margin]
  · rw [← hdrop]

theorem not_mem_shiftLine (margin : Nat) (shift : Int) {line : Text} (h : '\n' ∉ line) :
    '\n' ∉ style.shiftLine margin shift line := by
  have hdrop (n : Nat) : '\n' ∉ line.drop n := fun hmem => h (List.mem_of_mem_drop hmem)
  rw [shiftLine]
  split
  · have hkept : '\n' ∉ (line.take margin).takeWhile Text.isBlankChar := fun hmem =>
      h (List.mem_of_mem_take ((List.takeWhile_sublist _).mem hmem))
    simp only [List.mem_append, not_or]
    exact ⟨⟨hkept, style.not_mem_indentation _⟩, hdrop _⟩
  · exact hdrop _

theorem throughLastLineFeed_reindent (column : Int) (t : Text) :
    (style.reindent column t).throughLastLineFeed = t.throughLastLineFeed := by
  rw [reindent, Text.throughLastLineFeed_append (style.not_mem_indentation _),
    Text.throughLastLineFeed_throughLastLineFeed]

end IndentStyle

end JavaSource
