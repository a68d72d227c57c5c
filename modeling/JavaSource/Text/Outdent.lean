import JavaSource.Text.Blank

/-!
# Lines and their common indent

`Text.outdent` drops the blank lines around a text and the indent that its other lines share.
-/

namespace JavaSource.Text

/-- The lines of a text, without the line feeds that end them or a carriage return directly before
such a line feed. A line feed at the end begins no further line. -/
def lines : Text → List Text
  | [] => []
  | '\n' :: rest => [] :: lines rest
  | '\r' :: '\n' :: rest => [] :: lines rest
  | c :: rest =>
    match rest, lines rest with
    | [], _ => [[c]]
    | _ :: _, [] => [[c]]
    | _ :: _, first :: others => (c :: first) :: others

/-- Without the blank lines at both ends. -/
def dropBlankLines (ls : List Text) : List Text :=
  ((ls.dropWhile isBlank).reverse.dropWhile isBlank).reverse

/-- The bytes of white space at the start of a line. -/
def indentWidth (line : Text) : Nat := byteLength (line.takeWhile isWhiteSpace)

/-- The least indent of the lines that are not blank. -/
def commonIndent (ls : List Text) : Nat :=
  ((ls.filter fun line => !isBlank line).map indentWidth).min?.getD 0

/-- A line without its first `n` bytes; a line too short for that, or with a character across the
cut, loses its white space instead. -/
def outdentLine (n : Nat) (line : Text) : Text := (dropBytes? n line).getD (trimStart line)

/-- Removes the blank lines at both ends and the indent common to the other lines. -/
def outdent (t : Text) : Text :=
  let ls := dropBlankLines (lines t)
  join ['\n'] (ls.map (outdentLine (commonIndent ls)))

end JavaSource.Text
