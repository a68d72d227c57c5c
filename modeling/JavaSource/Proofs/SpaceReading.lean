import JavaSource.Proofs.Partition

/-!
# Reading a space and printing it

Any text can be read as a space, trivia or not: what no comment holds counts as white space.  The
reader goes on in three ways, each with its equation: behind a line comment (`Space.ofText_line`),
behind a closed comment (`Space.ofText_closed`), and not at all when a comment takes the rest of the
text (`Space.ofText_unclosed`).

Printing gives the text back, but for a last comment that is not closed in it (`Space.EndsOpen`):
that comment is closed.  What is printed is read as the same space (`Space.toText_ofText_closes`).
-/

namespace JavaSource

/-! ### The scanners in a longer text -/

theorem splitClose_append_of_some {t body others : Text}
    (h : Text.splitClose t = (body, some others)) (x : Text) :
    Text.splitClose (t ++ x) = (body, some (others ++ x)) := by
  have heq := Text.splitClose_eq h (others ++ x)
  rw [Text.splitClose_append h]
  simpa using heq

/-- A text without a close is all that stands in front of a close put behind it. -/
theorem splitClose_of_none {t : Text} (h : (Text.splitClose t).2 = none) :
    (Text.splitClose t).1 = t ∧ Text.splitClose (t ++ ['*', '/']) = (t, some []) := by
  fun_induction Text.splitClose t with
  | case1 => exact ⟨rfl, rfl⟩
  | case2 r => cases h
  | case3 c r hr ih =>
    obtain ⟨hwhole, hclosed⟩ := ih h
    refine ⟨congrArg (c :: ·) hwhole, ?_⟩
    rw [List.cons_append, Text.splitClose.eq_3, hclosed]
    rintro others rfl hothers
    cases r with
    | nil => cases hothers
    | cons d r =>
      cases hothers
      exact hr _ rfl rfl

/-- Where a run of characters ends in a text, it does so in a longer one. -/
theorem takeWhile_append_of_ne_nil {p : Char → Bool} {t : Text} (h : t.dropWhile p ≠ []) (x : Text) :
    (t ++ x).takeWhile p = t.takeWhile p ∧ (t ++ x).dropWhile p = t.dropWhile p ++ x := by
  have hends : ∀ c ∈ (t.dropWhile p ++ x).head?, p c = false := by
    intro c hc
    rw [List.head?_append_of_ne_nil _ h] at hc
    have hnot := List.head?_dropWhile_not p t
    rw [hc] at hnot
    exact hnot
  have hrun : ∀ c ∈ t.takeWhile p, p c := fun _ => List.mem_takeWhile_imp
  have hsplit := takeWhile_append hrun hends
  rwa [← List.append_assoc, List.takeWhile_append_dropWhile] at hsplit

/-- The body of a block or doc comment is split at its first close, behind what opens the comment.
A close put behind the text does not change what opens it. -/
theorem splitBlockComment_eq (inner : Text) :
    ∃ style : CommentStyle, ∃ t, style.isMultiline ∧ '/' :: '*' :: inner = style.opening ++ t ∧
      splitBlockComment inner = (style, Text.splitClose t) ∧
      splitBlockComment (inner ++ ['*', '/']) = (style, Text.splitClose (t ++ ['*', '/'])) := by
  match inner with
  | [] => exact ⟨.block, [], rfl, rfl, rfl, rfl⟩
  | [c] =>
    by_cases hc : c = '*'
    · subst hc
      exact ⟨.doc, [], rfl, rfl, rfl, rfl⟩
    · exact ⟨.block, [c], rfl, rfl, by simp [splitBlockComment, hc], by simp [splitBlockComment, hc]⟩
  | c :: d :: r =>
    by_cases hc : c = '*'
    · subst hc
      by_cases hd : d = '/'
      · subst hd
        exact ⟨.block, '*' :: '/' :: r, rfl, rfl, rfl, rfl⟩
      · exact ⟨.doc, d :: r, rfl, rfl, by simp [splitBlockComment, hd],
          by simp [splitBlockComment, hd]⟩
    · exact ⟨.block, c :: d :: r, rfl, rfl, by simp [splitBlockComment, hc],
        by simp [splitBlockComment, hc]⟩

theorem opensComment_cons_cons (c d : Char) (t : Text) :
    opensComment (c :: d :: t) = (c == '/' && (d == '/' || d == '*')) := by
  unfold opensComment
  split <;> simp_all

/-- Where a comment opens, it does so in a longer text. -/
theorem splitComment_append_of_ne_nil {t : Text} (h : (splitComment t).2 ≠ []) (x : Text) :
    splitComment (t ++ x) = ((splitComment t).1, (splitComment t).2 ++ x) := by
  induction t with
  | nil => exact absurd rfl h
  | cons c t ih =>
    cases t with
    | nil => exact absurd (by simp [splitComment, opensComment]) h
    | cons d t =>
      have hopens : opensComment (c :: d :: (t ++ x)) = opensComment (c :: d :: t) := by
        rw [opensComment_cons_cons, opensComment_cons_cons]
      by_cases hopen : opensComment (c :: d :: t)
      · rw [splitComment_of_opens hopen]
        exact splitComment_of_opens (hopens.trans hopen)
      · rw [splitComment, if_neg hopen] at h ⊢
        rw [List.cons_append, splitComment, List.cons_append, hopens, if_neg hopen,
          ← List.cons_append, ih h]

/-- A comment opens where the text is split, if any does. -/
theorem splitComment_snd (t : Text) :
    (splitComment t).2 = [] ∨ (∃ inner, (splitComment t).2 = '/' :: '/' :: inner) ∨
      ∃ inner, (splitComment t).2 = '/' :: '*' :: inner := by
  induction t with
  | nil => exact .inl rfl
  | cons c t ih =>
    rw [splitComment]
    split
    · next hopens =>
      unfold opensComment at hopens
      split at hopens
      · next inner heq => exact .inr (.inl ⟨inner, heq⟩)
      · next inner heq => exact .inr (.inr ⟨inner, heq⟩)
      · cases hopens
    · exact ih

namespace Space

variable {t w inner body others : Text} {style : CommentStyle}

/-! ### The reader's equations -/

/-- White space and a comment in front of a space. -/
def behind (s : Space) (w : Text) (style : CommentStyle) (body : Text) : Space :=
  ⟨w, ⟨style, body, s.whitespace⟩ :: s.comments⟩

theorem toText_behind (s : Space) (w : Text) (style : CommentStyle) (body : Text) :
    (s.behind w style body).toText = w ++ (style.opening ++ body ++ style.closing) ++ s.toText := by
  simp [behind, toText, Comment.delimited]

/-- No comment opens in the text. -/
theorem ofText_blank (h : splitComment t = (w, [])) : ofText t = ⟨w, []⟩ := by
  rw [ofText, h, readComments]
  all_goals simp

/-- A line comment ends in front of the end of its line. -/
theorem ofText_line (h : splitComment t = (w, '/' :: '/' :: inner)) :
    ofText t = (ofText (inner.dropWhile isInLine)).behind w .line (inner.takeWhile isInLine) := by
  rw [ofText, h, readComments]
  rfl

/-- A closed comment ends behind its first close. -/
theorem ofText_closed (h : splitComment t = (w, '/' :: '*' :: inner))
    (hs : splitBlockComment inner = (style, body, some others)) :
    ofText t = (ofText others).behind w style body := by
  rw [ofText, h, readComments]
  split
  · next hnone => rw [hs] at hnone; cases hnone
  · next hsome =>
    rw [hs] at hsome ⊢
    cases hsome
    rfl

/-- A comment that is not closed takes the rest of the text. -/
theorem ofText_unclosed (h : splitComment t = (w, '/' :: '*' :: inner))
    (hs : splitBlockComment inner = (style, body, none)) :
    ofText t = ⟨w, [⟨style, body, []⟩]⟩ := by
  rw [ofText, h, readComments]
  split
  · rw [hs]
  · next hsome => rw [hs] at hsome; cases hsome

/-! ### A last comment that is not closed -/

/-- The last comment of the space is a block or doc comment that is not closed in the text: what
stands before it is the text up to what opens it, and no close follows. -/
def EndsOpen (s : Space) (t : Text) : Prop :=
  ∃ before c rest, s.comments = before ++ [c] ∧ c.style.isMultiline ∧
    t = (⟨s.whitespace, before⟩ : Space).toText ++ c.style.opening ++ rest ∧
    ¬['*', '/'] <:+: rest

/-- A closed comment in front of a space does not count. -/
theorem endsOpen_behind (s : Space) (w : Text) (style : CommentStyle) (body t : Text) :
    (s.behind w style body).EndsOpen (w ++ (style.opening ++ body ++ style.closing) ++ t) ↔
      s.EndsOpen t := by
  constructor
  · rintro ⟨before, c, rest, hcomments, hstyle, htext, hrest⟩
    cases before with
    | nil =>
      -- the comment is the one in front, and its close is in what follows
      obtain ⟨rfl, hnil⟩ := List.cons.inj hcomments
      have hclosing : style.closing = ['*', '/'] := by cases style <;> first | rfl | cases hstyle
      have hfollows : body ++ ['*', '/'] ++ t = rest := by
        simpa [toText, behind, hclosing] using htext
      exact absurd ⟨body, t, hfollows⟩ hrest
    | cons d before =>
      obtain ⟨rfl, hlater⟩ := List.cons.inj hcomments
      refine ⟨before, c, rest, hlater, hstyle, ?_, hrest⟩
      simpa [toText, behind, Comment.delimited] using htext
  · rintro ⟨before, c, rest, hcomments, hstyle, htext, hrest⟩
    refine ⟨⟨style, body, s.whitespace⟩ :: before, c, rest, congrArg (_ :: ·) hcomments, hstyle, ?_,
      hrest⟩
    simp [htext, toText, behind, Comment.delimited]

theorem EndsOpen.ne_nil {s : Space} (h : s.EndsOpen t) : t ≠ [] := by
  obtain ⟨before, c, rest, -, -, rfl, -⟩ := h
  cases c.style <;> simp [CommentStyle.opening]

/-! ### The round trip -/

/-- Printing gives the text, or closes its last comment; with the close, the text is read as it was
without. -/
def RoundTrips (t : Text) : Prop :=
  ((ofText t).toText = t ∧ ¬(ofText t).EndsOpen t) ∨
    ((ofText t).toText = t ++ ['*', '/'] ∧ (ofText t).EndsOpen t ∧
      ofText (t ++ ['*', '/']) = ofText t)

/-- A closed comment in front of a text that is read back. -/
theorem RoundTrips.behind (h : RoundTrips others)
    (htext : t = w ++ (style.opening ++ body ++ style.closing) ++ others)
    (hread : ofText t = (ofText others).behind w style body)
    (hlonger : others ≠ [] →
      ofText (t ++ ['*', '/']) = (ofText (others ++ ['*', '/'])).behind w style body) :
    RoundTrips t := by
  have hopen : (ofText t).EndsOpen t ↔ (ofText others).EndsOpen others := by
    rw [hread, htext, endsOpen_behind]
  rw [RoundTrips, hopen, hread, toText_behind]
  rcases h with ⟨hprint, hclosed⟩ | ⟨hprint, hunclosed, hagain⟩
  · exact .inl ⟨by rw [hprint, htext], hclosed⟩
  · exact .inr ⟨by rw [hprint, htext, List.append_assoc _ others], hunclosed,
      by rw [hlonger hunclosed.ne_nil, hagain]⟩

theorem roundTrips_line (hsplit : splitComment t = (w, '/' :: '/' :: inner))
    (h : RoundTrips (inner.dropWhile isInLine)) : RoundTrips t := by
  have htext : t = w ++ '/' :: '/' :: inner := by
    rw [← splitComment_append t, hsplit]
  refine h.behind (w := w) ?_ (ofText_line hsplit) fun hne => ?_
  · rw [htext, CommentStyle.opening, CommentStyle.closing]
    simp
  · have hlonger : splitComment (t ++ ['*', '/']) = (w, '/' :: '/' :: (inner ++ ['*', '/'])) := by
      rw [splitComment_append_of_ne_nil (by simp [hsplit]), hsplit]
      rfl
    obtain ⟨htake, hdrop⟩ := takeWhile_append_of_ne_nil hne ['*', '/']
    rw [ofText_line hlonger, htake, hdrop]

theorem roundTrips_block (hsplit : splitComment t = (w, '/' :: '*' :: inner))
    (ih : ∀ others, others.length < t.length → RoundTrips others) : RoundTrips t := by
  have htext : t = w ++ '/' :: '*' :: inner := by
    rw [← splitComment_append t, hsplit]
  have hlonger : splitComment (t ++ ['*', '/']) = (w, '/' :: '*' :: (inner ++ ['*', '/'])) := by
    rw [splitComment_append_of_ne_nil (by simp [hsplit]), hsplit]
    rfl
  obtain ⟨style, u, hstyle, hopening, hread, hreadLonger⟩ := splitBlockComment_eq inner
  have hclosing : style.closing = ['*', '/'] := by cases style <;> first | rfl | cases hstyle
  rw [hopening, ← List.append_assoc] at htext
  cases hclose : Text.splitClose u with
  | mk body after =>
    cases after with
    | some others =>
      rw [hclose] at hread
      rw [splitClose_append_of_some hclose] at hreadLonger
      have hu := Text.splitClose_append hclose
      refine (ih others ?_).behind ?_ (ofText_closed hsplit hread) fun _ =>
        ofText_closed hlonger hreadLonger
      · rw [htext, hu]
        simp only [List.length_append, List.length_cons]
        omega
      · simp [htext, hu, hclosing]
    | none =>
      have hnone : (Text.splitClose u).2 = none := by rw [hclose]
      obtain ⟨hbody, hclosed⟩ := splitClose_of_none hnone
      rw [hclose] at hbody hread
      obtain rfl : body = u := hbody
      rw [hclosed] at hreadLonger
      have hspace := ofText_unclosed hsplit hread
      have hagain := ofText_closed hlonger hreadLonger
      rw [RoundTrips, hspace, hagain, ofText_nil]
      refine .inr ⟨?_, ⟨[], _, body, rfl, hstyle, ?_, not_infix_of_splitClose_none hnone⟩, rfl⟩
      · simp [toText, Comment.delimited, htext, hclosing]
      · simp [toText, htext]

theorem roundTrips (t : Text) : RoundTrips t := by
  induction hn : t.length using Nat.strong_induction_on generalizing t with
  | _ n ih =>
    obtain ⟨w, u, hsplit⟩ : ∃ w u, splitComment t = (w, u) := ⟨_, _, rfl⟩
    have hcases := splitComment_snd t
    rw [hsplit] at hcases
    rcases hcases with hu | ⟨inner, hu⟩ | ⟨inner, hu⟩ <;> (dsimp only at hu; subst hu)
    · have htext : w = t := by simpa [hsplit] using splitComment_append t
      rw [RoundTrips, ofText_blank hsplit]
      refine .inl ⟨by simp [toText, htext], ?_⟩
      rintro ⟨before, c, rest, hcomments, -⟩
      exact absurd hcomments (by simp)
    · refine roundTrips_line hsplit (ih _ ?_ _ rfl)
      have hlength := congrArg List.length (splitComment_append t)
      have hdrop := (List.dropWhile_sublist isInLine (l := inner)).length_le
      simp only [hsplit, List.length_append, List.length_cons] at hlength
      omega
    · exact roundTrips_block hsplit fun others hothers => ih _ (hn ▸ hothers) _ rfl

/-- **Spaces round trip.** Reading any text as a space and printing it gives the text, or the text
and a close exactly when the last comment is a block or doc comment that the text does not close;
and what is printed is read as the same space. -/
theorem toText_ofText_closes (t : Text) :
    (((ofText t).toText = t ∧ ¬(ofText t).EndsOpen t) ∨
      ((ofText t).toText = t ++ ['*', '/'] ∧ (ofText t).EndsOpen t)) ∧
      ofText (ofText t).toText = ofText t := by
  rcases roundTrips t with ⟨hprint, hclosed⟩ | ⟨hprint, hunclosed, hagain⟩
  · exact ⟨.inl ⟨hprint, hclosed⟩, by rw [hprint]⟩
  · exact ⟨.inr ⟨hprint, hunclosed⟩, by rw [hprint, hagain]⟩

/-- The star that opens a comment does not close it. -/
example : (ofText ['/', '*', '/']).toText = ['/', '*', '/', '*', '/'] := by decide +kernel

end Space

end JavaSource
