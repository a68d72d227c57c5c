import JavaSource.Format.BlankLines
import JavaSource.Proofs.Lines
import JavaSource.Space.Reader

/-!
# Lines that a line break ends

`Text.Lined Q P t` says that the first line of `t` that a line break ends is as `P` says, and each
later one as `Q` says; of what follows the last line break it says nothing.  A text whose carriage
returns stand before line feeds is cut up in this way (`Text.lined_of_pairsReturns`), so that what a
formatter does to it can be followed line by line: blanks before line ends are taken away
(`Text.Lined.stripLineEnds`), line breaks are put in front or dropped, indents are written anew, and
line ends are made alike.  Where lines are changed up to their indents, a line of blanks may come to
have more of them (`Text.keepsLines_trimmedOrBlank`).
-/

namespace JavaSource

namespace Text

/-! ### Carriage returns -/

/-- There is no line break in the text. -/
abbrev InLine (line : Text) : Prop := ∀ c ∈ line, isInLine c

theorem inLine_nil : InLine [] := List.forall_mem_nil _

theorem inLine_cons {c : Char} {line : Text} : InLine (c :: line) ↔ isInLine c ∧ line.InLine :=
  List.forall_mem_cons

/-- Each carriage return stands directly before a line feed. -/
def pairsReturns : Text → Bool
  | [] => true
  | c :: rest => (c != '\r' || rest.head? == some '\n') && pairsReturns rest

theorem pairsReturns_cons {c : Char} {rest : Text} :
    pairsReturns (c :: rest) ↔ (c = '\r' → rest.head? = some '\n') ∧ rest.pairsReturns := by
  simp only [pairsReturns, Bool.and_eq_true, Bool.or_eq_true, bne_iff_ne, beq_iff_eq,
    Decidable.imp_iff_not_or, ne_eq]

theorem pairsReturns_append {a b : Text} (ha : a.pairsReturns) (hb : b.pairsReturns) :
    (a ++ b).pairsReturns := by
  induction a with
  | nil => exact hb
  | cons c a ih =>
    obtain ⟨hc, ha⟩ := pairsReturns_cons.1 ha
    refine pairsReturns_cons.2 ⟨fun heq => ?_, ih ha⟩
    show (a ++ b).head? = some '\n'
    rw [List.head?_append, hc heq, Option.some_or]

theorem pairsReturns_right {a b : Text} (h : (a ++ b).pairsReturns) : b.pairsReturns := by
  induction a with
  | nil => exact h
  | cons c a ih => exact ih (pairsReturns_cons.1 h).2

/-- The part before something that is no line feed. -/
theorem pairsReturns_left {a b : Text} (h : (a ++ b).pairsReturns) (hb : b.head? ≠ some '\n') :
    a.pairsReturns := by
  induction a with
  | nil => rfl
  | cons c a ih =>
    obtain ⟨hc, h⟩ := pairsReturns_cons.1 h
    refine pairsReturns_cons.2 ⟨fun heq => ?_, ih h⟩
    have hhead := hc heq
    cases a with
    | nil => exact absurd hhead hb
    | cons d a => exact hhead

theorem pairsReturns_of_inLine {t : Text} (h : t.InLine) : t.pairsReturns := by
  induction t with
  | nil => rfl
  | cons c t ih =>
    rw [inLine_cons] at h
    refine pairsReturns_cons.2 ⟨fun heq => ?_, ih h.2⟩
    subst heq
    cases h.1

/-! ### Lines and their ends -/

/-- The text ends in a space or a tab. -/
def EndsInBlank (t : Text) : Prop := ∃ c ∈ t.getLast?, isBlankChar c

instance (t : Text) : Decidable t.EndsInBlank :=
  decidable_of_iff (t.getLast?.any isBlankChar) (by simp [EndsInBlank, Option.any_eq_true])

/-- A line without the carriage return before its line feed. -/
def withoutReturn (line : Text) : Text :=
  if line.getLast? = some '\r' then line.dropLast else line

/-- The lines that a line break ends, without it. -/
def endedLines (t : Text) : List Text := ((split '\n' t).dropLast).map withoutReturn

/-- What may stand between a line and its line feed: nothing, or a carriage return. -/
abbrev MaybeReturn (return? : Text) : Prop := return? = [] ∨ return? = ['\r']

/-- Each line that a line break ends is as `Q` says, but the first as `P` says. -/
inductive Lined (Q : Text → Prop) : (Text → Prop) → Text → Prop
  | last {P : Text → Prop} {line : Text} (hline : InLine line) : Lined Q P line
  | ended {P : Text → Prop} {line return? rest : Text} (hline : InLine line)
    (hP : P line) (hreturn : MaybeReturn return?) (hrest : Lined Q Q rest) :
    Lined Q P (line ++ return? ++ '\n' :: rest)

variable {P P' Q Q' : Text → Prop} {line return? rest t : Text}

theorem not_mem_of_inLine (h : InLine line) : '\n' ∉ line :=
  fun hmem => absurd (h _ hmem) (by decide)

theorem not_mem_return (hreturn : MaybeReturn return?) : '\n' ∉ return? := by
  rcases hreturn with rfl | rfl <;> decide

/-- A line with its carriage return is a line up to a line feed. -/
theorem not_mem_line (hline : InLine line) (hreturn : MaybeReturn return?) :
    '\n' ∉ line ++ return? := by
  rw [List.mem_append, not_or]
  exact ⟨not_mem_of_inLine hline, not_mem_return hreturn⟩

theorem withoutReturn_append (hline : InLine line)
    (hreturn : MaybeReturn return?) : withoutReturn (line ++ return?) = line := by
  rcases hreturn with rfl | rfl
  · rw [List.append_nil, withoutReturn, if_neg]
    exact fun hlast => absurd (hline _ (List.mem_of_getLast? hlast)) (by decide)
  · rw [withoutReturn, if_pos List.getLast?_concat, List.dropLast_concat]

theorem endedLines_of_inLine (hline : InLine line) : endedLines line = [] := by
  rw [endedLines, split_of_not_mem (not_mem_of_inLine hline)]
  rfl

theorem endedLines_append (hline : InLine line)
    (hreturn : MaybeReturn return?) (rest : Text) :
    endedLines (line ++ return? ++ '\n' :: rest) = line :: endedLines rest := by
  rw [endedLines, split_append (not_mem_line hline hreturn),
    List.dropLast_cons_of_ne_nil (split_ne_nil _ _), List.map_cons,
    withoutReturn_append hline hreturn, endedLines]

namespace Lined

theorem mono (h : Lined Q P t) (hP : ∀ line, P line → P' line) (hQ : ∀ line, Q line → Q' line) :
    Lined Q' P' t := by
  induction h generalizing P' with
  | last hline => exact .last hline
  | ended hline hhere hreturn _ ih => exact .ended hline (hP _ hhere) hreturn (ih hQ)

theorem first (h : Lined Q P t) : ∀ line ∈ t.endedLines.head?, P line := by
  cases h with
  | last hline =>
    rw [endedLines_of_inLine hline]
    exact fun _ hmem => absurd hmem (Option.not_mem_none _)
  | ended hline hhere hreturn _ =>
    rw [endedLines_append hline hreturn]
    exact fun _ hmem => Option.mem_some.1 hmem ▸ hhere

theorem all (h : Lined Q P t) (hP : ∀ line, P line → Q line) : ∀ line ∈ t.endedLines, Q line := by
  induction h with
  | last hline =>
    rw [endedLines_of_inLine hline]
    exact fun _ hmem => absurd hmem List.not_mem_nil
  | ended hline hhere hreturn _ ih =>
    rw [endedLines_append hline hreturn, List.forall_mem_cons]
    exact ⟨hP _ hhere, ih fun _ => id⟩

theorem later (h : Lined Q P t) : ∀ line ∈ t.endedLines.tail, Q line := by
  cases h with
  | last hline =>
    rw [endedLines_of_inLine hline]
    exact fun _ hmem => absurd hmem List.not_mem_nil
  | ended hline _ hreturn hrest =>
    rw [endedLines_append hline hreturn, List.tail_cons]
    exact hrest.all fun _ => id

/-- A line with a line feed. -/
theorem lineFeed (hline : InLine line) (hP : P line) (h : Lined Q Q t) :
    Lined Q P (line ++ '\n' :: t) := by
  have hreturn : MaybeReturn [] := .inl rfl
  have hended := Lined.ended hline hP hreturn h
  rwa [List.append_nil] at hended

/-- A line with a carriage return and a line feed. -/
theorem crlf (hline : InLine line) (hP : P line) (h : Lined Q Q t) :
    Lined Q P (line ++ '\r' :: '\n' :: t) := by
  have hreturn : MaybeReturn ['\r'] := .inr rfl
  have hended := Lined.ended hline hP hreturn h
  rwa [List.append_assoc] at hended

/-- One more line break in front. -/
theorem cons (h : Lined Q Q t) (hQ : Q []) : Lined Q Q ('\n' :: t) :=
  lineFeed inLine_nil hQ h

theorem replicate (h : Lined Q Q t) (hQ : Q []) (n : Nat) :
    Lined Q Q (List.replicate n '\n' ++ t) := by
  induction n with
  | zero => exact h
  | succ n ih => exact ih.cons hQ

end Lined

/-- One more character in front of the first line. -/
theorem Lined.cons_inLine {c : Char} (hc : isInLine c) (h : Lined Q P t) (hP : ∀ line, P line) :
    Lined Q P (c :: t) := by
  cases h with
  | last hline => exact .last (inLine_cons.2 ⟨hc, hline⟩)
  | @ended _ line return? rest hline _ hreturn hrest =>
    exact .ended (inLine_cons.2 ⟨hc, hline⟩) (hP (c :: line)) hreturn hrest

/-- A carriage return in front of a line feed. -/
theorem Lined.cons_return (h : Lined Q P t) (hfeed : t.head? = some '\n') :
    Lined Q P ('\r' :: t) := by
  cases h with
  | last hline => exact absurd (hline _ (List.mem_of_head? hfeed)) (by decide)
  | @ended _ line return? rest hline hhere hreturn hrest =>
    cases line with
    | cons c line =>
      obtain rfl := Option.some.inj hfeed
      exact absurd (hline _ List.mem_cons_self) (by decide)
    | nil =>
      rcases hreturn with rfl | rfl
      · exact .crlf inLine_nil hhere hrest
      · exact absurd (Option.some.inj hfeed) (by decide)

/-- A text is cut into lines if no carriage return stands alone. -/
theorem lined_of_pairsReturns (h : t.pairsReturns) : Lined (fun _ => True) (fun _ => True) t := by
  induction t with
  | nil => exact .last inLine_nil
  | cons c t ih =>
    obtain ⟨hfeed, ht⟩ := pairsReturns_cons.1 h
    have hlined := ih ht
    by_cases hreturn : c = '\r'
    · subst hreturn
      exact hlined.cons_return (hfeed rfl)
    · by_cases hbreak : c = '\n'
      · subst hbreak
        exact hlined.cons trivial
      · exact hlined.cons_inLine (by simp [isInLine, hreturn, hbreak]) fun _ => trivial

/-! ### Blanks at the ends of lines -/

theorem endsInBlank_append {a b : Text} (hb : b ≠ []) : (a ++ b).EndsInBlank ↔ b.EndsInBlank := by
  rw [EndsInBlank, List.getLast?_append_of_ne_nil a hb, EndsInBlank]

theorem not_endsInBlank_nil : ¬ EndsInBlank [] := by decide

/-- What is left ends in something else, or is empty. -/
theorem not_endsInBlank_stripEnd (line : Text) : ¬ line.stripEnd.EndsInBlank := by
  rintro ⟨c, hc, hblank⟩
  rw [stripEnd, List.getLast?_reverse] at hc
  have hhead := List.head?_dropWhile_not isBlankChar line.reverse
  rw [Option.mem_def.1 hc] at hhead
  simp [hblank] at hhead

theorem inLine_stripEnd (hline : InLine line) : InLine line.stripEnd :=
  fun c hc => hline c ((List.rdropWhile_prefix isBlankChar line).subset hc)

theorem stripEnd_eq_nil_iff : line.stripEnd = [] ↔ ∀ c ∈ line, isBlankChar c :=
  List.rdropWhile_eq_nil_iff

theorem stripEnd_cons (c : Char) (line : Text) : stripEnd (c :: line) =
    if isBlankChar c ∧ line.stripEnd = [] then [] else c :: line.stripEnd := by
  unfold stripEnd
  rw [List.reverse_cons, List.dropWhile_append]
  generalize List.dropWhile isBlankChar line.reverse = kept
  cases kept with
  | nil => by_cases hc : isBlankChar c <;> simp [hc]
  | cons d kept => simp

theorem not_startsWithLineEnd {c : Char} (hc : isInLine c) (t : Text) :
    startsWithLineEnd (c :: t) = false := by
  unfold startsWithLineEnd
  split
  next heq =>
    rw [(List.cons.inj heq).1] at hc
    cases hc
  next heq =>
    rw [(List.cons.inj heq).1] at hc
    cases hc
  · rfl

/-- Blanks stand before a line break if only blanks are left of the line. -/
theorem startsWithLineEnd_dropWhile (hline : InLine line)
    (hreturn : MaybeReturn return?) (rest : Text) :
    startsWithLineEnd ((line ++ return? ++ '\n' :: rest).dropWhile isBlankChar) ↔
      line.stripEnd = [] := by
  rw [stripEnd_eq_nil_iff]
  induction line with
  | nil => rcases hreturn with rfl | rfl <;> simp [startsWithLineEnd, isBlankChar]
  | cons c line ih =>
    rw [inLine_cons] at hline
    rw [List.forall_mem_cons, List.cons_append, List.cons_append]
    by_cases hc : isBlankChar c
    · rw [List.dropWhile_cons_of_pos hc, ih hline.2]
      exact ⟨fun h => ⟨hc, h⟩, And.right⟩
    · rw [List.dropWhile_cons_of_neg hc, not_startsWithLineEnd hline.1]
      exact iff_of_false Bool.false_ne_true fun h => hc h.1

theorem stripLineEnds_of_inLine (hline : InLine line) : line.stripLineEnds = line := by
  induction line with
  | nil => rfl
  | cons c line ih =>
    rw [inLine_cons] at hline
    have hends : startsWithLineEnd (line.dropWhile isBlankChar) = false := by
      have hafter : InLine (line.dropWhile isBlankChar) := fun c hc =>
        hline.2 c ((List.dropWhile_sublist _).mem hc)
      cases hdrop : line.dropWhile isBlankChar with
      | nil => rfl
      | cons d after => exact not_startsWithLineEnd (hafter d (hdrop ▸ List.mem_cons_self)) after
    rw [stripLineEnds, hends, Bool.and_false, if_neg Bool.false_ne_true, ih hline.2]

theorem stripLineEnds_append (hline : InLine line)
    (hreturn : MaybeReturn return?) (rest : Text) :
    stripLineEnds (line ++ return? ++ '\n' :: rest) =
      line.stripEnd ++ return? ++ '\n' :: rest.stripLineEnds := by
  induction line with
  | nil => rcases hreturn with rfl | rfl <;> simp [stripLineEnds, stripEnd, isBlankChar]
  | cons c line ih =>
    rw [inLine_cons] at hline
    rw [List.cons_append, List.cons_append, stripLineEnds, stripEnd_cons, ih hline.2]
    simp only [Bool.and_eq_true, startsWithLineEnd_dropWhile hline.2 hreturn]
    split
    next h => rw [h.2]
    · rfl

/-- No blanks stand before a line break once they have been taken away. -/
theorem Lined.stripLineEnds (h : Lined Q P t) :
    Lined (¬ EndsInBlank ·) (¬ EndsInBlank ·) t.stripLineEnds := by
  induction h with
  | last hline =>
    rw [stripLineEnds_of_inLine hline]
    exact .last hline
  | ended hline _ hreturn _ ih =>
    rw [stripLineEnds_append hline hreturn]
    exact .ended (inLine_stripEnd hline) (not_endsInBlank_stripEnd _) hreturn ih

/-! ### Line breaks put in front or taken away -/

theorem dropLines_of_not_mem (h : '\n' ∉ t) (n : Nat) : dropLines (n + 1) t = [] := by
  induction t with
  | nil => rfl
  | cons c t ih =>
    rw [List.mem_cons, not_or] at h
    rw [dropLines, if_neg (Ne.symm h.1), ih h.2]

theorem dropLines_append (h : '\n' ∉ line) (n : Nat) (rest : Text) :
    dropLines (n + 1) (line ++ '\n' :: rest) = dropLines n rest := by
  induction line with
  | nil => rw [List.nil_append, dropLines, if_pos rfl]
  | cons c line ih =>
    rw [List.mem_cons, not_or] at h
    rw [List.cons_append, dropLines, if_neg (Ne.symm h.1), ih h.2]

theorem Lined.dropLines (h : Lined Q P t) (hP : ∀ line, Q line → P line) (n : Nat) :
    Lined Q P (t.dropLines n) := by
  induction h generalizing n with
  | last hline =>
    cases n with
    | zero =>
      rw [Text.dropLines]
      exact .last hline
    | succ n =>
      rw [dropLines_of_not_mem (not_mem_of_inLine hline)]
      exact .last inLine_nil
  | ended hline hhere hreturn hrest ih =>
    cases n with
    | zero =>
      rw [Text.dropLines]
      exact .ended hline hhere hreturn hrest
    | succ n =>
      rw [dropLines_append (not_mem_line hline hreturn)]
      exact (ih (fun _ => id) n).mono hP fun _ => id

theorem Lined.limitBlankLines (h : Lined Q Q t) (limit : Nat) :
    Lined Q Q (t.limitBlankLines limit) :=
  h.dropLines (fun _ => id) _

theorem Lined.requireBlankLines (h : Lined Q Q t) (hQ : Q []) (least : Nat) :
    Lined Q Q (t.requireBlankLines least) := by
  unfold Text.requireBlankLines
  split
  · exact h
  · exact h.replicate hQ _

/-! ### Line ends made alike -/

theorem toLineFeeds_of_inLine (hline : InLine line) : line.toLineFeeds = line := by
  induction line with
  | nil => rfl
  | cons c line ih =>
    rw [inLine_cons] at hline
    rw [toLineFeeds, ih hline.2]
    exact fun _ heq _ => absurd (heq ▸ hline.1) (by decide)

theorem toLineFeeds_append (hline : InLine line)
    (hreturn : MaybeReturn return?) (rest : Text) :
    toLineFeeds (line ++ return? ++ '\n' :: rest) = line ++ '\n' :: rest.toLineFeeds := by
  induction line with
  | nil => rcases hreturn with rfl | rfl <;> simp [toLineFeeds]
  | cons c line ih =>
    rw [inLine_cons] at hline
    rw [List.cons_append, List.cons_append, toLineFeeds, ih hline.2, List.cons_append]
    exact fun _ heq _ => absurd (heq ▸ hline.1) (by decide)

theorem toCrlf_of_not_mem (h : '\n' ∉ t) : t.toCrlf = t := by
  induction t with
  | nil => rfl
  | cons c t ih =>
    rw [List.mem_cons, not_or] at h
    rw [toCrlf, List.flatMap_cons, if_neg (Ne.symm h.1)]
    exact congrArg (c :: ·) (ih h.2)

theorem toCrlf_append (h : '\n' ∉ line) (rest : Text) :
    toCrlf (line ++ '\n' :: rest) = line ++ '\r' :: '\n' :: rest.toCrlf := by
  have hline := toCrlf_of_not_mem h
  rw [toCrlf] at hline ⊢
  rw [List.flatMap_append, hline]
  rfl

theorem Lined.withLineEnds (h : Lined Q P t) (crlf : Bool) : Lined Q P (t.withLineEnds crlf) := by
  induction h with
  | last hline =>
    rw [Text.withLineEnds, toLineFeeds_of_inLine hline,
      toCrlf_of_not_mem (not_mem_of_inLine hline), ite_self]
    exact .last hline
  | @ended P line return? rest hline hhere hreturn _ ih =>
    unfold Text.withLineEnds at ih ⊢
    rw [toLineFeeds_append hline hreturn, toCrlf_append (not_mem_of_inLine hline)]
    cases crlf with
    | false => exact .lineFeed hline hhere ih
    | true => exact .crlf hline hhere ih

/-! ### Indents -/

theorem throughLastLineFeed_append_lineFeed (a b : Text) :
    throughLastLineFeed (a ++ '\n' :: b) = a ++ '\n' :: b.throughLastLineFeed := by
  simp only [throughLastLineFeed, List.reverse_append, List.reverse_cons, List.append_assoc]
  rw [List.dropWhile_append]
  cases h : b.reverse.dropWhile (fun c => decide (c ≠ '\n')) with
  | nil => simp
  | cons c kept => simp

theorem isInLine_of_isBlankChar {c : Char} (hc : isBlankChar c) : isInLine c := by
  simp only [isBlankChar, Bool.or_eq_true, beq_iff_eq] at hc
  rcases hc with rfl | rfl <;> rfl

theorem Lined.reindent (h : Lined Q P t) (style : IndentStyle) (column : Int) :
    Lined Q P (style.reindent column t) := by
  unfold IndentStyle.reindent
  generalize hindent : style.indentation column.toNat = indent
  have hblanks : InLine indent := fun c hc =>
    isInLine_of_isBlankChar (style.isBlankChar_of_mem_indentation _ c (hindent ▸ hc))
  induction h with
  | last hline =>
    rw [throughLastLineFeed_of_not_mem (not_mem_of_inLine hline), List.nil_append]
    exact .last hblanks
  | ended hline hhere hreturn _ ih =>
    rw [throughLastLineFeed_append_lineFeed, List.append_assoc, List.cons_append]
    exact .ended hline hhere hreturn ih

/-! ### Lines changed one by one -/

/-- The function changes a line up to its line end, and leaves it as `Q` says. -/
structure KeepsLines (Q : Text → Prop) (f : Text → Text) : Prop where
  last : ∀ {line}, InLine line → InLine (f line)
  ended : ∀ {line return?}, InLine line → MaybeReturn return? → Q line →
    ∃ line', f (line ++ return?) = line' ++ return? ∧ InLine line' ∧ Q line'

/-- Changes each line. -/
def mapLines (f : Text → Text) (t : Text) : Text := join ['\n'] ((split '\n' t).map f)

theorem join_cons_of_ne_nil (sep part : Text) {later : List Text} (h : later ≠ []) :
    join sep (part :: later) = part ++ sep ++ join sep later := by
  rw [join]
  exact fun heq => h heq

theorem mapLaterLines_append (f : Text → Text) (h : '\n' ∉ line) (rest : Text) :
    mapLaterLines f (line ++ '\n' :: rest) = line ++ '\n' :: mapLines f rest := by
  have hne : (split '\n' rest).map f ≠ [] := by simp [split_ne_nil]
  rw [mapLaterLines, split_append h]
  show join ['\n'] (line :: (split '\n' rest).map f) = _
  rw [join_cons_of_ne_nil _ _ hne, List.append_assoc]
  rfl

theorem mapLines_append (f : Text → Text) (h : '\n' ∉ line) (rest : Text) :
    mapLines f (line ++ '\n' :: rest) = f line ++ '\n' :: mapLines f rest := by
  have hne : (split '\n' rest).map f ≠ [] := by simp [split_ne_nil]
  rw [mapLines, split_append h, List.map_cons, join_cons_of_ne_nil _ _ hne, List.append_assoc]
  rfl

theorem mapLines_of_not_mem (f : Text → Text) (h : '\n' ∉ t) : mapLines f t = f t := by
  rw [mapLines, split_of_not_mem h]
  rfl

theorem KeepsLines.lined {f : Text → Text} (hf : KeepsLines Q f) (h : Lined Q P t)
    (hP : ∀ line, P line → Q line) : Lined Q Q (t.mapLines f) := by
  induction h with
  | last hline =>
    rw [mapLines_of_not_mem f (not_mem_of_inLine hline)]
    exact .last (hf.last hline)
  | ended hline hhere hreturn _ ih =>
    obtain ⟨line', hline', hinline, hQ⟩ := hf.ended hline hreturn (hP _ hhere)
    rw [mapLines_append f (not_mem_line hline hreturn), hline']
    exact .ended hinline hQ hreturn (ih fun _ => id)

theorem Lined.mapLaterLines {f : Text → Text} (h : Lined Q P t) (hf : KeepsLines Q f) :
    Lined Q P (t.mapLaterLines f) := by
  cases h with
  | last hline =>
    rw [mapLaterLines_of_not_mem (not_mem_of_inLine hline)]
    exact .last hline
  | ended hline hhere hreturn hrest =>
    rw [mapLaterLines_append f (not_mem_line hline hreturn)]
    exact .ended hline hhere hreturn (hf.lined hrest fun _ => id)

/-- The line ends in a blank only if there is nothing but blanks in it. -/
def TrimmedOrBlank (line : Text) : Prop := line.EndsInBlank → ∀ c ∈ line, isBlankChar c

theorem trimmedOrBlank_iff :
    line.TrimmedOrBlank ↔ ¬ EndsInBlank (line.dropWhile isBlankChar) := by
  by_cases hblank : line.dropWhile isBlankChar = []
  · rw [hblank]
    exact iff_of_true (fun _ => List.dropWhile_eq_nil_iff.1 hblank) not_endsInBlank_nil
  · have hends := endsInBlank_append (a := line.takeWhile isBlankChar) hblank
    rw [List.takeWhile_append_dropWhile] at hends
    rw [TrimmedOrBlank, hends]
    exact ⟨fun h hend => hblank (List.dropWhile_eq_nil_iff.2 (h hend)), fun h hend => absurd hend h⟩

theorem UpToIndent.inLine {line' : Text} (h : line.UpToIndent line')
    (hline : InLine line) : InLine line' := by
  rw [← List.takeWhile_append_dropWhile (p := isBlankChar) (l := line'), h]
  refine List.forall_mem_append.2 ⟨fun c hc => ?_, fun c hc => ?_⟩
  · exact isInLine_of_isBlankChar (List.mem_takeWhile_imp hc)
  · exact hline c ((List.dropWhile_sublist _).mem hc)

section UpToIndent

variable {f : Text → Text} (hf : ∀ line, UpToIndent line (f line))

include hf

/-- What changes the indent of a line leaves the carriage return at its end. -/
theorem exists_upToIndent (line : Text) (hreturn : MaybeReturn return?) :
    ∃ line', f (line ++ return?) = line' ++ return? ∧ line.UpToIndent line' := by
  have hdrop : (line ++ return?).dropWhile isBlankChar = line.dropWhile isBlankChar ++ return? := by
    rw [List.dropWhile_append]
    rcases hreturn with rfl | rfl
    · cases line.dropWhile isBlankChar <;> rfl
    · cases line.dropWhile isBlankChar <;> rfl
  have hblanks : ∀ c ∈ (f (line ++ return?)).takeWhile isBlankChar, isBlankChar c := fun c hc =>
    List.mem_takeWhile_imp hc
  have hsame : (f (line ++ return?)).dropWhile isBlankChar =
      line.dropWhile isBlankChar ++ return? := Eq.trans (hf _) hdrop
  refine ⟨(f (line ++ return?)).takeWhile isBlankChar ++ line.dropWhile isBlankChar, ?_, ?_⟩
  · rw [List.append_assoc, ← hsame, List.takeWhile_append_dropWhile]
  · rw [UpToIndent, List.dropWhile_append_of_pos hblanks, List.dropWhile_idempotent]

theorem keepsLines_trimmedOrBlank : KeepsLines TrimmedOrBlank f where
  last hline := (hf _).inLine hline
  ended := by
    intro line return? hline hreturn hQ
    obtain ⟨line', hline', hup⟩ := exists_upToIndent hf line hreturn
    refine ⟨line', hline', hup.inLine hline, ?_⟩
    rw [trimmedOrBlank_iff, hup]
    exact trimmedOrBlank_iff.1 hQ

/-- An indent that is put before something leaves the end of the line as it is. -/
theorem keepsLines_not_endsInBlank
    (hempty : ∀ return?, MaybeReturn return? → f return? = return?) :
    KeepsLines (¬ EndsInBlank ·) f where
  last hline := (hf _).inLine hline
  ended := by
    intro line return? hline hreturn hQ
    by_cases hnil : line = []
    · subst hnil
      exact ⟨[], hempty _ hreturn, hline, hQ⟩
    · obtain ⟨line', hline', hup⟩ := exists_upToIndent hf line hreturn
      refine ⟨line', hline', hup.inLine hline, fun hends => hQ ?_⟩
      by_cases hblank : line'.dropWhile isBlankChar = []
      · -- then there are only blanks in the line, and one at its end
        have hall := List.dropWhile_eq_nil_iff.1 (hup.symm.trans hblank)
        exact ⟨_, List.getLast?_eq_some_getLast hnil, hall _ (List.getLast_mem hnil)⟩
      · rw [← List.takeWhile_append_dropWhile (p := isBlankChar) (l := line'),
          endsInBlank_append hblank, hup] at hends
        rw [hup] at hblank
        rwa [← List.takeWhile_append_dropWhile (p := isBlankChar) (l := line),
          endsInBlank_append hblank]

end UpToIndent

theorem Lined.rewriteIndents (h : Lined (¬ EndsInBlank ·) P t) (style : IndentStyle) :
    Lined (¬ EndsInBlank ·) P (style.rewriteIndents t) := by
  refine h.mapLaterLines (keepsLines_not_endsInBlank style.upToIndent_rewriteIndent ?_)
  have hwidth : style.indentation 0 = [] := by simp [IndentStyle.indentation]
  intro return? hreturn
  rw [IndentStyle.rewriteIndent]
  rcases hreturn with rfl | rfl
  · exact congrArg (· ++ []) hwidth
  · exact congrArg (· ++ ['\r']) hwidth

end Text

end JavaSource
