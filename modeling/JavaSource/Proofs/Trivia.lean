import JavaSource.Space.Reader
import JavaSource.Token.Lexer

/-!
# Blanks and comments

`Trivia g rest` says that `g` is nothing but blanks and comments when `rest` follows it: a line
comment at the end of `g` must not go on in `rest`.  Such a text is what the space read from it
prints (`Trivia.toText_ofText`).
-/

namespace JavaSource

/-- Blanks and closed comments, in front of a text that goes on with neither. -/
inductive Trivia : Text → Text → Prop
  | nil {rest : Text} : Trivia [] rest
  | blank {c : Char} {t rest : Text} (hc : Lexeme.isBlankChar c) (h : Trivia t rest) :
    Trivia (c :: t) rest
  | line {body t rest : Text} (hb : ∀ c ∈ body, isInLine c)
    (ht : ∀ c ∈ (t ++ rest).head?, isInLine c = false) (h : Trivia t rest) :
    Trivia ('/' :: '/' :: (body ++ t)) rest
  | block {body text t rest : Text} (hs : Text.splitClose text = (body, some t))
    (h : Trivia t rest) : Trivia ('/' :: '*' :: text) rest

theorem Text.splitClose_append {t body rest : Text} (h : splitClose t = (body, some rest)) :
    t = body ++ '*' :: '/' :: rest := by
  fun_induction splitClose t generalizing body with
  | case1 => cases h
  | case2 r => cases h; rfl
  | case3 c r _ ih =>
    obtain ⟨rfl, h₂⟩ := Prod.mk.inj h
    rw [List.cons_append, ← ih (Prod.ext rfl h₂)]

/-- Where a comment closes does not depend on what follows it. -/
theorem Text.splitClose_eq {t body rest : Text} (h : splitClose t = (body, some rest))
    (rest' : Text) : splitClose (body ++ '*' :: '/' :: rest') = (body, some rest') := by
  fun_induction splitClose t generalizing body with
  | case1 => cases h
  | case2 r => cases h; rfl
  | case3 c r hr ih =>
    obtain ⟨rfl, h₂⟩ := Prod.mk.inj h
    have htail := ih (Prod.ext rfl h₂)
    have hsplit : r = (splitClose r).1 ++ '*' :: '/' :: rest :=
      splitClose_append (Prod.ext rfl h₂)
    rw [List.cons_append, splitClose.eq_3, htail]
    -- the text after `c` starts with a slash whatever follows the close
    rintro others rfl hothers
    cases hbody : (splitClose r).1 with
    | nil => rw [hbody] at hothers; cases hothers
    | cons d body =>
      rw [hbody] at hothers hsplit
      cases hothers
      exact hr _ rfl hsplit

theorem takeWhile_append {p : Char → Bool} {body t : Text} (hb : ∀ c ∈ body, p c)
    (ht : ∀ c ∈ t.head?, p c = false) :
    (body ++ t).takeWhile p = body ∧ (body ++ t).dropWhile p = t := by
  rw [List.takeWhile_append_of_pos hb, List.dropWhile_append_of_pos hb]
  cases t with
  | nil => simp
  | cons c t => simp [ht c rfl]

theorem Space.ofText_nil : Space.ofText [] = .empty := by
  simp [Space.ofText, splitComment, readComments, Space.empty]

theorem splitComment_of_opens {t : Text} (h : opensComment t) : splitComment t = ([], t) := by
  cases t with
  | nil => cases h
  | cons c t => rw [splitComment, if_pos h]

/-- What comments print. -/
def commentText (cs : List Comment) : Text := cs.flatMap fun c => c.delimited ++ c.suffix

/-- A closed block comment and what follows it, as the reader splits them. -/
theorem splitBlockComment_of_splitClose {text body t : Text}
    (hs : Text.splitClose text = (body, some t)) :
    (splitBlockComment text).2.2 = some t ∧
      (splitBlockComment text).1.opening ++ ((splitBlockComment text).2.1 ++
        (splitBlockComment text).1.closing) = '/' :: '*' :: (body ++ ['*', '/']) := by
  unfold splitBlockComment
  split
  · cases hs
    exact ⟨rfl, rfl⟩
  · next r hr =>
    have hstar : Text.splitClose ('*' :: r) =
        ('*' :: (Text.splitClose r).1, (Text.splitClose r).2) := by
      cases r with
      | nil => rfl
      | cons c r =>
        by_cases hc : c = '/'
        · exact (hr r (by rw [hc])).elim
        · simp [Text.splitClose, hc]
    rw [hstar] at hs
    obtain ⟨rfl, h₂⟩ := Prod.mk.inj hs
    exact ⟨h₂, rfl⟩
  · rw [hs]
    exact ⟨rfl, rfl⟩

/-- A closed block comment is read as one comment. -/
theorem readComments_block {text body t : Text} (hs : Text.splitClose text = (body, some t)) :
    readComments ('/' :: '*' :: text) =
      ⟨(splitBlockComment text).1, (splitBlockComment text).2.1, (splitComment t).1⟩ ::
        readComments (splitComment t).2 := by
  rw [readComments]
  split
  · next h => rw [(splitBlockComment_of_splitClose hs).1] at h; cases h
  · next others h =>
    rw [(splitBlockComment_of_splitClose hs).1] at h
    cases h
    rfl

/-- A comment and what follows it print as the text that they are read from, if the rest does. -/
theorem commentText_block {text body t : Text} (hs : Text.splitClose text = (body, some t))
    (ht : (splitComment t).1 ++ commentText (readComments (splitComment t).2) = t) :
    commentText (readComments ('/' :: '*' :: text)) = '/' :: '*' :: text := by
  rw [readComments_block hs]
  simp only [commentText, List.flatMap_cons, Comment.delimited, List.append_assoc] at ht ⊢
  rw [ht, ← List.append_assoc, ← List.append_assoc, List.append_assoc _ _ (CommentStyle.closing _),
    (splitBlockComment_of_splitClose hs).2, Text.splitClose_append hs]
  simp

/-- **Trivia round trip.** Blanks and comments print as they were read. -/
theorem Trivia.toText_ofText {g rest : Text} (h : Trivia g rest) :
    (Space.ofText g).toText = g := by
  show (splitComment g).1 ++ commentText (readComments (splitComment g).2) = g
  induction h with
  | nil => simp [splitComment, readComments, commentText]
  | @blank c t rest hc h ih =>
    have hopen : opensComment (c :: t) = false := by
      unfold opensComment
      split <;> simp_all [Lexeme.isBlankChar]
    rw [splitComment, if_neg (by simp [hopen])]
    simpa using ih
  | @line body t rest hb ht h ih =>
    have ht' : ∀ c ∈ t.head?, isInLine c = false := by
      intro c hc
      refine ht c ?_
      cases t with
      | nil => simp at hc
      | cons d t => simpa using hc
    obtain ⟨htake, hdrop⟩ := takeWhile_append hb ht'
    rw [splitComment_of_opens rfl]
    simp only [List.nil_append]
    rw [readComments, htake, hdrop]
    simp only [commentText, List.flatMap_cons, Comment.delimited, List.append_assoc] at ih ⊢
    rw [ih]
    simp [CommentStyle.opening, CommentStyle.closing]
  | @block body text t rest hs h ih =>
    rw [splitComment_of_opens rfl]
    exact commentText_block hs ih

namespace Trivia

/-- Blanks in front of trivia. -/
theorem blanks {b g rest : Text} (hb : ∀ c ∈ b, Lexeme.isBlankChar c) (h : Trivia g rest) :
    Trivia (b ++ g) rest := by
  induction b with
  | nil => exact h
  | cons c b ih => exact .blank (hb c (.head _)) (ih fun d hd => hb d (.tail _ hd))

end Trivia

end JavaSource
