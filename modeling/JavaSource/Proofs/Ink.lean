import JavaSource.Format.BlankLines
import JavaSource.Format.IndentCharacters
import JavaSource.Format.LineEnds
import JavaSource.Format.Spacing
import JavaSource.Format.WordGap
import JavaSource.Format.Wrapping
import JavaSource.Indent.Space
import Mathlib.Data.List.TakeWhile

/-!
# Ink

The ink of a text is what is left of it without spaces, tabs, carriage returns and line feeds; the
ink of a space is that of its comments.  No change of a space by a formatting rule changes its ink.
-/

namespace JavaSource

namespace Text

/-- Neither a space, a tab, a carriage return nor a line feed. -/
def isInk (c : Char) : Bool := !(c == ' ' || c == '\t' || c == '\r' || c == '\n')

/-- The text without spaces, tabs, carriage returns and line feeds. -/
def ink (t : Text) : Text := t.filter isInk

theorem ink_append (s t : Text) : ink (s ++ t) = ink s ++ ink t := List.filter_append ..

theorem ink_cons_of_not {c : Char} (h : isInk c = false) (t : Text) : ink (c :: t) = ink t :=
  List.filter_cons_of_neg (by simp [h])

theorem ink_cons_eq (c : Char) {s t : Text} (h : ink s = ink t) : ink (c :: s) = ink (c :: t) := by
  rw [← List.singleton_append, ink_append, h, ← ink_append, List.singleton_append]

theorem isInk_of_isBlankChar {c : Char} (h : isBlankChar c) : isInk c = false := by
  simp only [isBlankChar, Bool.or_eq_true] at h
  rcases h with h | h <;> simp [isInk, h]

theorem ink_eq_nil {t : Text} (h : ∀ c ∈ t, isInk c = false) : ink t = [] :=
  List.filter_eq_nil_iff.2 fun c hc => by simp [h c hc]

theorem ink_takeWhile_isBlankChar (t : Text) : ink (t.takeWhile isBlankChar) = [] :=
  ink_eq_nil fun _ hc => isInk_of_isBlankChar (List.mem_takeWhile_imp hc)

theorem ink_stripLineEnds (t : Text) : ink t.stripLineEnds = ink t := by
  fun_induction stripLineEnds t with
  | case1 => rfl
  | case2 c rest h ih =>
    rw [Bool.and_eq_true] at h
    rw [ih, ink_cons_of_not (isInk_of_isBlankChar h.1)]
  | case3 c rest _ ih => exact ink_cons_eq c ih

theorem ink_stripEnd (t : Text) : ink t.stripEnd = ink t := by
  have h : t = t.stripEnd ++ (t.reverse.takeWhile isBlankChar).reverse := by
    rw [stripEnd, ← List.reverse_append, List.takeWhile_append_dropWhile, List.reverse_reverse]
  have hnil : ink (t.reverse.takeWhile isBlankChar).reverse = [] := by
    rw [ink, List.filter_reverse, List.reverse_eq_nil_iff]
    exact ink_takeWhile_isBlankChar _
  conv => rhs; rw [h, ink_append, hnil, List.append_nil]

theorem ink_toLineFeeds (t : Text) : ink t.toLineFeeds = ink t := by
  fun_induction toLineFeeds t with
  | case1 => rfl
  | case2 rest ih => rw [ink_cons_of_not rfl, ink_cons_of_not rfl, ink_cons_of_not rfl, ih]
  | case3 c rest _ ih => exact ink_cons_eq c ih

theorem ink_toCrlf (t : Text) : ink t.toCrlf = ink t := by
  induction t with
  | nil => rfl
  | cons c rest ih =>
    rw [toCrlf] at ih ⊢
    rw [List.flatMap_cons, ink_append, ih, ← List.singleton_append (l := rest), ink_append]
    split
    · subst c; rfl
    · rfl

theorem ink_withLineEnds (crlf : Bool) (t : Text) : ink (t.withLineEnds crlf) = ink t := by
  rw [withLineEnds]
  split
  · rw [ink_toCrlf, ink_toLineFeeds]
  · exact ink_toLineFeeds t

theorem ink_join (ls : List Text) : ink (join ['\n'] ls) = ls.flatMap ink := by
  fun_induction join ['\n'] ls with
  | case1 => rfl
  | case2 part => simp
  | case3 part later _ ih =>
    rw [ink_append, ink_append, ih, List.flatMap_cons, List.append_assoc]
    rfl

theorem ink_mapLaterLines {f : Text → Text} (hf : ∀ line, ink (f line) = ink line) (t : Text) :
    ink (t.mapLaterLines f) = ink t := by
  conv => rhs; rw [← join_split '\n' t]
  rw [mapLaterLines]
  cases split '\n' t with
  | nil => rfl
  | cons first later =>
    simp only [ink_join, List.flatMap_cons, List.flatMap_map, hf]

end Text

namespace IndentStyle

variable (style : IndentStyle)

theorem ink_indentation (columns : Nat) : (style.indentation columns).ink = [] := by
  refine Text.ink_eq_nil fun c hc => ?_
  rw [indentation] at hc
  split at hc
  · rcases List.mem_append.1 hc with hc | hc <;> rw [List.eq_of_mem_replicate hc] <;> rfl
  · rw [List.eq_of_mem_replicate hc]; rfl

theorem ink_rewriteIndent (line : Text) : (style.rewriteIndent line).ink = line.ink := by
  conv => rhs; rw [← List.takeWhile_append_dropWhile (p := Text.isBlankChar) (l := line)]
  rw [rewriteIndent, Text.ink_append, Text.ink_append, ink_indentation,
    Text.ink_takeWhile_isBlankChar]

theorem ink_rewriteIndents (t : Text) : (style.rewriteIndents t).ink = t.ink :=
  Text.ink_mapLaterLines style.ink_rewriteIndent t

omit style in
/-- The blanks at the start of a line, as far as they are among its first `n` characters. -/
theorem ink_drop_blanks (n : Nat) (line : Text) :
    Text.ink (line.drop ((line.take n).takeWhile Text.isBlankChar).length) = line.ink := by
  have h := ((List.takeWhile_prefix Text.isBlankChar).trans (List.take_prefix n line))
  conv => rhs; rw [← List.prefix_iff_eq_append.1 h, Text.ink_append,
    Text.ink_takeWhile_isBlankChar, List.nil_append]

theorem ink_shiftLine (margin : Nat) (shift : Int) (line : Text) :
    (style.shiftLine margin shift line).ink = line.ink := by
  rw [shiftLine]
  split
  · rw [Text.ink_append, Text.ink_append, ink_indentation, Text.ink_takeWhile_isBlankChar]
    exact ink_drop_blanks margin line
  · exact ink_drop_blanks _ line

end IndentStyle

/-! ### Spaces -/

/-- How a comment is delimited, and the ink of its text. -/
def Comment.ink (c : Comment) : CommentStyle × Text := (c.style, c.text.ink)

/-- The ink of the comments in a space, in order. -/
def Space.ink (s : Space) : List (CommentStyle × Text) := s.comments.map Comment.ink

namespace Space

theorem ink_map {f : Text → Text} {g : Comment → Comment} (hg : ∀ c, (g c).ink = c.ink)
    (s : Space) : (s.map f g).ink = s.ink := by
  simp only [ink, map, List.map_map]
  exact List.map_congr_left fun c _ => hg c

theorem ink_mapLastSuffix (f : Text → Text) (cs : List Comment) :
    (mapLastSuffix f cs).map Comment.ink = cs.map Comment.ink := by
  fun_induction mapLastSuffix f cs with
  | case1 => rfl
  | case2 => rfl
  | case3 c cs _ ih => rw [List.map_cons, ih, List.map_cons]

theorem ink_mapLastWhitespace (f : Text → Text) (s : Space) :
    (s.mapLastWhitespace f).ink = s.ink := by
  rw [mapLastWhitespace]
  split
  · simp [ink, *]
  · exact ink_mapLastSuffix f s.comments

theorem ink_append (s t : Space) : (s.append t).ink = s.ink ++ t.ink := by
  rw [← ink_mapLastWhitespace (· ++ t.whitespace) s]
  exact List.map_append ..

theorem ink_stripLineEnds (slot : SpaceSlot) (s : Space) : (s.stripLineEnds slot).ink = s.ink := by
  have hc (c : Comment) : c.stripLineEnds.ink = c.ink := by
    simp only [Comment.stripLineEnds, Comment.ink, Prod.mk.injEq, true_and]
    split
    · exact Text.ink_stripLineEnds _
    · exact Text.ink_stripEnd _
  rw [stripLineEnds]
  split
  · rw [ink_mapLastWhitespace, ink_map hc]
  · exact ink_map hc s

theorem ink_withLineEnds (crlf : Bool) (s : Space) : (s.withLineEnds crlf).ink = s.ink := by
  refine ink_map (fun c => ?_) s
  simp only [Comment.withLineEnds, Comment.ink, Prod.mk.injEq, true_and]
  split
  · exact Text.ink_withLineEnds crlf _
  · rfl

theorem ink_rewriteIndents (style : IndentStyle) (s : Space) :
    (s.rewriteIndents style).ink = s.ink := by
  refine ink_map (fun c => ?_) s
  simp only [Comment.rewriteIndents, Comment.ink, Prod.mk.injEq, true_and]
  split
  · exact style.ink_rewriteIndents _
  · rfl

theorem ink_limitBlankLines (limit : Nat) (s : Space) : (s.limitBlankLines limit).ink = s.ink :=
  ink_map (g := Comment.limitBlankLines limit) (fun _ => rfl) s

theorem ink_requireBlankLines (least : Nat) (s : Space) :
    (s.requireBlankLines least).ink = s.ink := by
  rw [requireBlankLines]
  split
  · split <;> simp [ink, Comment.ink, *]
  · simp [ink, *]

theorem ink_padded (wanted : Bool) (s : Space) : (s.padded wanted).ink = s.ink := by
  rw [padded]
  split
  · rfl
  · split <;> rfl

theorem ink_orSingle (s : Space) : s.orSingle.ink = s.ink := by
  rw [orSingle]
  split
  case isTrue h => rw [isEmpty_iff.1 h]; rfl
  case isFalse => rfl

theorem ink_wrapped (s : Space) : s.wrapped.ink = s.ink := by
  rw [wrapped]
  split
  · rfl
  · exact ink_mapLastWhitespace _ s

end Space

namespace IndentStyle

variable (style : IndentStyle)

theorem ink_shiftComment (before : Text) (column : Int) (c : Comment) :
    (style.shiftComment before column c).ink = c.ink := by
  rw [shiftComment]
  split
  · rfl
  · exact congrArg (Prod.mk c.style) (Text.ink_mapLaterLines (style.ink_shiftLine _ _) c.text)

theorem ink_indentComment (startsFile : Bool) (before : Text) (column : Int) (c : Comment) :
    (style.indentComment startsFile before column c).ink = c.ink := by
  have hsuffix (d : Comment) : (if d.suffix.contains '\n' then
      { d with suffix := style.reindent column d.suffix } else d).ink = d.ink := by
    split <;> rfl
  rw [indentComment]
  refine (hsuffix _).trans ?_
  split
  · exact style.ink_shiftComment before column c
  · rfl

theorem ink_indentComments (startsFile : Bool) (column columnAfter : Int) (before : Text)
    (cs : List Comment) : (style.indentComments startsFile column columnAfter before cs).map
      Comment.ink = cs.map Comment.ink := by
  fun_induction indentComments style startsFile column columnAfter before cs with
  | case1 => rfl
  | case2 before c => rw [List.map_cons, List.map_cons, ink_indentComment]
  | case3 before c cs _ ih => rw [List.map_cons, List.map_cons, ink_indentComment, ih]

/-- Moving a token and the comments before it to a column keeps their ink. -/
theorem ink_indentSpace (slot : SpaceSlot) (column : Int) (s : Space) :
    (style.indentSpace slot column s).ink = s.ink := by
  rw [indentSpace]
  split
  · simp_all [Space.ink]
  · rw [indentCommented]
    split
    · rfl
    · exact style.ink_indentComments _ _ _ _ _

end IndentStyle

end JavaSource
