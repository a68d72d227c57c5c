import JavaSource.Proofs.Ink
import Mathlib.Data.List.Forall2

/-!
# Line breaks that stay

`Space.Keeps s s'` says that `s'` has no fewer line breaks than `s`, before its first comment and
after each of its comments.  The rules of the passes that pad, wrap and indent keep the line breaks of
a space so; only the white space at the start of a file may go.
-/

namespace JavaSource

/-! ### Texts -/

namespace Text

theorem lineFeeds_append (s t : Text) : lineFeeds (s ++ t) = s.lineFeeds + t.lineFeeds :=
  List.count_append

theorem contains_newline {t : Text} : t.contains '\n' ↔ 0 < t.lineFeeds := by
  rw [List.contains_iff_mem, lineFeeds, List.count_pos_iff]

theorem lineFeeds_lastLine (t : Text) : t.lastLine.lineFeeds = 0 := by
  refine List.count_eq_zero.2 fun h => ?_
  have h := List.mem_takeWhile_imp (List.mem_reverse.1 h)
  simp at h

theorem lineFeeds_throughLastLineFeed (t : Text) : t.throughLastLineFeed.lineFeeds = t.lineFeeds := by
  conv => rhs; rw [← throughLastLineFeed_append_lastLine t]
  rw [lineFeeds_append, lineFeeds_lastLine, Nat.add_zero]

end Text

theorem IndentStyle.lineFeeds_le_reindent (style : IndentStyle) (column : Int) (t : Text) :
    t.lineFeeds ≤ (style.reindent column t).lineFeeds := by
  rw [reindent, Text.lineFeeds_append, Text.lineFeeds_throughLastLineFeed]
  exact Nat.le_add_right _ _

/-! ### Spaces -/

/-- Each run of white space has at least as many line breaks as it had. -/
structure Space.Keeps (s s' : Space) : Prop where
  whitespace : s.whitespace.lineFeeds ≤ s'.whitespace.lineFeeds
  comments : List.Forall₂ (fun c d => c.suffix.lineFeeds ≤ d.suffix.lineFeeds) s.comments s'.comments

namespace Space

variable {s s' u : Space}

theorem Keeps.refl (s : Space) : s.Keeps s :=
  ⟨Nat.le_refl _, List.forall₂_same.2 fun _ _ => Nat.le_refl _⟩

theorem Keeps.trans (h : s.Keeps s') (h' : s'.Keeps u) : s.Keeps u where
  whitespace := Nat.le_trans h.whitespace h'.whitespace
  comments := by
    have htrans {cs ds es : List Comment}
        (h : List.Forall₂ (fun c d => c.suffix.lineFeeds ≤ d.suffix.lineFeeds) cs ds)
        (h' : List.Forall₂ (fun c d => c.suffix.lineFeeds ≤ d.suffix.lineFeeds) ds es) :
        List.Forall₂ (fun c d => c.suffix.lineFeeds ≤ d.suffix.lineFeeds) cs es := by
      induction h generalizing es with
      | nil => exact h'
      | cons hcd _ ih =>
        cases h' with
        | cons hde h' => exact .cons (Nat.le_trans hcd hde) (ih h')
    exact htrans h.comments h'.comments

theorem Keeps.lastWhitespace (h : s.Keeps s') :
    s.lastWhitespace.lineFeeds ≤ s'.lastWhitespace.lineFeeds := by
  obtain ⟨w, cs⟩ := s
  obtain ⟨w', ds⟩ := s'
  obtain ⟨hw, hcs⟩ := h
  dsimp only at hw hcs
  induction hcs generalizing w w' with
  | nil => exact hw
  | @cons c d cs ds hcd hrest ih =>
    -- the last white space is behind the last comment
    cases hrest with
    | nil => exact hcd
    | cons hnext hrest =>
      have := ih w w' hw
      simpa [Space.lastWhitespace] using this

/-- What starts a line still does. -/
theorem Keeps.hasNewline (h : s.Keeps s') (hs : s.hasNewline) : s'.hasNewline :=
  Text.contains_newline.2 (Nat.lt_of_lt_of_le (Text.contains_newline.1 hs) h.lastWhitespace)

theorem getLast?_mapLastSuffix (f : Text → Text) (cs : List Comment) :
    (mapLastSuffix f cs).getLast? = cs.getLast?.map fun c => { c with suffix := f c.suffix } := by
  fun_induction mapLastSuffix f cs with
  | case1 => rfl
  | case2 c => rfl
  | case3 c cs hcs ih =>
    obtain ⟨d, ds, rfl⟩ := List.exists_cons_of_ne_nil hcs
    rw [List.getLast?_cons, ih, List.getLast?_cons_cons, List.getLast?_cons]
    rfl

theorem lastWhitespace_mapLastWhitespace (f : Text → Text) (s : Space) :
    (s.mapLastWhitespace f).lastWhitespace = f s.lastWhitespace := by
  obtain ⟨w, cs⟩ := s
  cases cs with
  | nil => rfl
  | cons c cs =>
    rw [mapLastWhitespace, lastWhitespace, lastWhitespace, getLast?_mapLastSuffix,
      List.getLast?_cons]
    rfl

/-- What is wrapped starts a line. -/
theorem hasNewline_wrapped (s : Space) : s.wrapped.hasNewline := by
  rw [wrapped]
  split
  · assumption
  · rw [hasNewline, lastWhitespace_mapLastWhitespace]
    rfl

end Space

/-! ### Indented spaces -/

namespace IndentStyle

variable (style : IndentStyle)

theorem lineFeeds_le_indentComment (startsFile : Bool) (before : Text) (column : Int) (c : Comment) :
    c.suffix.lineFeeds ≤ (style.indentComment startsFile before column c).suffix.lineFeeds := by
  have hsuffix (d : Comment) : d.suffix.lineFeeds ≤ (if d.suffix.contains '\n' then
      { d with suffix := style.reindent column d.suffix } else d).suffix.lineFeeds := by
    split
    · exact style.lineFeeds_le_reindent column _
    · exact Nat.le_refl _
  rw [indentComment]
  refine Nat.le_trans (Nat.le_of_eq ?_) (hsuffix _)
  split
  · rw [shiftComment]
    split <;> rfl
  · rfl

theorem keeps_indentComments (startsFile : Bool) (column columnAfter : Int) (before : Text)
    (cs : List Comment) : List.Forall₂ (fun c d => c.suffix.lineFeeds ≤ d.suffix.lineFeeds) cs
      (style.indentComments startsFile column columnAfter before cs) := by
  fun_induction indentComments style startsFile column columnAfter before cs with
  | case1 => exact .nil
  | case2 before c => exact .cons (style.lineFeeds_le_indentComment ..) .nil
  | case3 before c cs _ ih => exact .cons (style.lineFeeds_le_indentComment ..) ih

/-- Moving a token to a column keeps the line breaks before it, but not at the start of a file. -/
theorem keeps_indentSpace {slot : SpaceSlot} (hslot : slot ≠ .leading .compilationUnit)
    (column : Int) (s : Space) : s.Keeps (style.indentSpace slot column s) := by
  have hreindent := style.lineFeeds_le_reindent
  rw [indentSpace]
  split
  case isTrue hcs =>
    refine ⟨?_, by rw [List.isEmpty_iff.1 hcs]; exact .nil⟩
    rw [indentBlank, if_neg (by simp [hslot])]
    split
    · exact hreindent column _
    · exact Nat.le_refl _
  case isFalse =>
    rw [indentCommented]
    simp only [if_neg hslot]
    split
    · exact .refl s
    · refine ⟨?_, style.keeps_indentComments _ _ _ _ _⟩
      dsimp only
      split
      · exact hreindent _ _
      · exact Nat.le_refl _

end IndentStyle

end JavaSource
