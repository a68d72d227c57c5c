import JavaSource.Space.Basic

/-!
# Reading a space

`Space.ofText` splits text at the comments in it. A comment opens at two slashes or a slash and a
star, wherever they stand; a line comment ends before the end of its line, any other at the first
star and slash after it has opened, or with the text.
-/

namespace JavaSource

/-- A comment opens at the start of the text. -/
def opensComment : Text → Bool
  | '/' :: '/' :: _ => true
  | '/' :: '*' :: _ => true
  | _ => false

/-- The text before the first comment, and the text from it on. -/
def splitComment : Text → Text × Text
  | [] => ([], [])
  | c :: cs =>
    if opensComment (c :: cs) then ([], c :: cs)
    else (c :: (splitComment cs).1, (splitComment cs).2)

theorem splitComment_append (t : Text) : (splitComment t).1 ++ (splitComment t).2 = t := by
  induction t with
  | nil => rfl
  | cons c cs ih => unfold splitComment; split <;> simp [ih]

theorem length_splitComment_le (t : Text) : (splitComment t).2.length ≤ t.length := by
  have h := congrArg List.length (splitComment_append t)
  simp only [List.length_append] at h
  omega

/-- The line goes on at this character. -/
def isInLine (c : Char) : Bool := c ≠ '\n' && c ≠ '\r'

/-- The body of a block or doc comment, after a slash and a star: its style, its text, and the text
that follows it, if it is closed. -/
def splitBlockComment : Text → CommentStyle × Text × Option Text
  | '*' :: '/' :: rest => (.block, [], some rest)
  | '*' :: rest => (.doc, (Text.splitClose rest).1, (Text.splitClose rest).2)
  | rest => (.block, (Text.splitClose rest).1, (Text.splitClose rest).2)

theorem length_of_splitBlockComment {t rest : Text} (h : (splitBlockComment t).2.2 = some rest) :
    rest.length ≤ t.length := by
  unfold splitBlockComment at h
  split at h
  · simp at h; subst h; simp; omega
  · have := Text.length_of_splitClose h; simp; omega
  · have := Text.length_of_splitClose h; omega

/-- The comments of a text that starts with one, each with the white space after it. -/
def readComments : Text → List Comment
  | '/' :: '/' :: rest =>
    let after := splitComment (rest.dropWhile isInLine)
    ⟨.line, rest.takeWhile isInLine, after.1⟩ :: readComments after.2
  | '/' :: '*' :: rest =>
    match _h : (splitBlockComment rest).2.2 with
    | none => [⟨(splitBlockComment rest).1, (splitBlockComment rest).2.1, []⟩]
    | some others =>
      let after := splitComment others
      ⟨(splitBlockComment rest).1, (splitBlockComment rest).2.1, after.1⟩ :: readComments after.2
  | _ => []
termination_by t => t.length
decreasing_by
  · have h₁ := length_splitComment_le (rest.dropWhile isInLine)
    have h₂ := (List.dropWhile_sublist isInLine (l := rest)).length_le
    simp only [List.length_cons]; omega
  · have h₁ := length_splitComment_le others
    have h₂ := length_of_splitBlockComment _h
    simp only [List.length_cons]; omega

/-- Reads white space and comments. -/
def Space.ofText (t : Text) : Space :=
  ⟨(splitComment t).1, readComments (splitComment t).2⟩

end JavaSource
