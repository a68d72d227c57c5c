import JavaSource.Text.LineEnd
import JavaSource.Visit.Local

/-!
# Line ends of spaces

Two passes over every space: one removes the blanks before line ends, the other makes the line ends
alike. Neither looks at the tokens around a space.
-/

namespace JavaSource

/-- A comment without blanks before line ends; the text of a line comment ends with the line. -/
def Comment.stripLineEnds (c : Comment) : Comment :=
  { c with
    text := if c.style.isMultiline then c.text.stripLineEnds else c.text.stripEnd
    suffix := c.suffix.stripLineEnds }

/-- A space without blanks before line ends. The space at the end of a file ends with line breaks
only. -/
def Space.stripLineEnds (slot : SpaceSlot) (s : Space) : Space :=
  let stripped := s.map Text.stripLineEnds Comment.stripLineEnds
  if slot = .endOfUnit then stripped.mapLastWhitespace Text.lineBreaksOnly else stripped

/-- A comment with all line ends alike. -/
def Comment.withLineEnds (crlf : Bool) (c : Comment) : Comment :=
  { c with
    text := if c.style.isMultiline then c.text.withLineEnds crlf else c.text
    suffix := c.suffix.withLineEnds crlf }

/-- A space with all line ends alike. -/
def Space.withLineEnds (crlf : Bool) (s : Space) : Space :=
  s.map (Text.withLineEnds crlf) (Comment.withLineEnds crlf)

/-- Removes the blanks before line ends. -/
def lineEndStripper (stopAfter : Option NodeId) : Visitor Unit Unit :=
  .ofSpaces stopAfter Space.stripLineEnds

/-- Makes all line ends alike. -/
def lineEndUnifier (crlf : Bool) (stopAfter : Option NodeId) : Visitor Unit Unit :=
  .ofSpaces stopAfter fun _ => Space.withLineEnds crlf

end JavaSource
