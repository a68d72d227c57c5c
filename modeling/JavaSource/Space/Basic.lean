import JavaSource.Text.Basic

/-!
# Spaces

A `Space` is what stands between two tokens: white space, and comments each with the white space
after it. `Space.toText` writes it out; `Space.ofText` (in `JavaSource.Space.Reader`) reads it.
-/

namespace JavaSource

/-- How a comment is delimited. -/
inductive CommentStyle where
  /-- From two slashes to the end of the line. -/
  | line
  /-- From a slash and a star. -/
  | block
  /-- From a slash and two stars. -/
  | doc
deriving DecidableEq, Repr

namespace CommentStyle

/-- What opens a comment. -/
def opening : CommentStyle → Text
  | .line => ['/', '/']
  | .block => ['/', '*']
  | .doc => ['/', '*', '*']

/-- What closes a comment; a line comment just ends. -/
def closing : CommentStyle → Text
  | .line => []
  | .block | .doc => ['*', '/']

/-- Block and doc comments may span lines. -/
def isMultiline : CommentStyle → Bool
  | .line => false
  | .block | .doc => true

end CommentStyle

/-- A comment and the white space after it. -/
structure Comment where
  style : CommentStyle
  /-- The text between the delimiters. -/
  text : Text
  /-- The white space up to the next comment or token. -/
  suffix : Text
deriving DecidableEq, Repr

/-- The comment with its delimiters, without the white space after it. -/
def Comment.delimited (c : Comment) : Text := c.style.opening ++ c.text ++ c.style.closing

/-- White space, then comments each followed by white space. -/
structure Space where
  /-- The white space before the first comment. -/
  whitespace : Text
  comments : List Comment
deriving DecidableEq, Repr

namespace Space

/-- Nothing at all. -/
def empty : Space := ⟨[], []⟩

instance : Inhabited Space := ⟨empty⟩

/-- One blank and no comments. -/
def single : Space := ⟨[' '], []⟩

/-- White space without comments. -/
def blank (t : Text) : Space := ⟨t, []⟩

/-- The space as it is written. -/
def toText (s : Space) : Text :=
  s.whitespace ++ s.comments.flatMap fun c => c.delimited ++ c.suffix

/-- Neither white space nor comments. -/
def isEmpty (s : Space) : Bool := s.whitespace.isEmpty && s.comments.isEmpty

/-- The white space directly before the token that follows. -/
def lastWhitespace (s : Space) : Text :=
  match s.comments.getLast? with
  | none => s.whitespace
  | some c => c.suffix

/-- The token that follows starts a line. -/
def hasNewline (s : Space) : Bool := s.lastWhitespace.contains '\n'

/-- The white space between the start of the line and the token that follows. -/
def indent (s : Space) : Text := Text.lastLine s.lastWhitespace

/-- The same space with its white space changed by one function and its comments by another. -/
def map (f : Text → Text) (g : Comment → Comment) (s : Space) : Space :=
  ⟨f s.whitespace, s.comments.map g⟩

/-- The comments with the white space after the last of them changed. -/
def mapLastSuffix (f : Text → Text) : List Comment → List Comment
  | [] => []
  | [c] => [{ c with suffix := f c.suffix }]
  | c :: cs => c :: mapLastSuffix f cs

/-- The same space with the white space directly before the token that follows changed. -/
def mapLastWhitespace (f : Text → Text) (s : Space) : Space :=
  match s.comments with
  | [] => ⟨f s.whitespace, []⟩
  | cs => ⟨s.whitespace, mapLastSuffix f cs⟩

/-- One space, then another. -/
def append (s t : Space) : Space :=
  let joined := s.mapLastWhitespace (· ++ t.whitespace)
  ⟨joined.whitespace, joined.comments ++ t.comments⟩

@[simp] theorem toText_empty : empty.toText = [] := rfl

theorem isEmpty_iff {s : Space} : s.isEmpty ↔ s = empty := by
  cases s with
  | mk w cs => cases w <;> cases cs <;> simp [isEmpty, empty]

end Space

end JavaSource
