import JavaSource.Text.Basic

/-!
# Line ends

`Text.stripLineEnds` removes the blanks before line ends, `Text.withLineEnds` makes every line end
alike. A line ends with a line feed, or with a carriage return and a line feed.
-/

namespace JavaSource.Text

/-- A space or a tab. -/
def isBlankChar (c : Char) : Bool := c == ' ' || c == '\t'

/-- The text starts with a line end. -/
def startsWithLineEnd : Text → Bool
  | '\n' :: _ => true
  | '\r' :: '\n' :: _ => true
  | _ => false

/-- Removes the spaces and tabs before each line end. -/
def stripLineEnds : Text → Text
  | [] => []
  | c :: rest =>
    if isBlankChar c && startsWithLineEnd (rest.dropWhile isBlankChar) then stripLineEnds rest
    else c :: stripLineEnds rest

/-- Removes the spaces and tabs at the end. -/
def stripEnd (t : Text) : Text := (t.reverse.dropWhile isBlankChar).reverse

/-- Only the line feeds and carriage returns. -/
def lineBreaksOnly (t : Text) : Text := t.filter fun c => c == '\n' || c == '\r'

/-- Each carriage return directly before a line feed removed. -/
def toLineFeeds : Text → Text
  | [] => []
  | '\r' :: '\n' :: rest => '\n' :: toLineFeeds rest
  | c :: rest => c :: toLineFeeds rest

/-- A carriage return put before each line feed. -/
def toCrlf (t : Text) : Text := t.flatMap fun c => if c = '\n' then ['\r', '\n'] else [c]

/-- Every line end made a line feed, or a carriage return and a line feed. -/
def withLineEnds (crlf : Bool) (t : Text) : Text :=
  if crlf then toCrlf (toLineFeeds t) else toLineFeeds t

/-- Drops everything through the `n`-th line feed. -/
def dropLines : Nat → Text → Text
  | 0, t => t
  | _ + 1, [] => []
  | n + 1, c :: rest => if c = '\n' then dropLines n rest else dropLines (n + 1) rest

end JavaSource.Text
