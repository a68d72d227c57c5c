import JavaSource.Style.Basic
import JavaSource.Text.LineEnd

/-!
# Columns and the characters that reach them

`IndentStyle.width` measures a run of blanks, `IndentStyle.indentation` writes one of a given width.
A column may be negative while it is computed; what is written then has no width.
-/

namespace JavaSource.IndentStyle

/-- The columns that a tab advances; at least one. -/
def tabColumns (style : IndentStyle) : Nat := max style.tabSize 1

/-- The column that a character leads to. -/
def advance (style : IndentStyle) (column : Nat) (c : Char) : Nat :=
  if c = '\n' || c = '\r' then 0 else if c = '\t' then column + style.tabColumns else column + 1

/-- The column that a text leads to from the start of a line. -/
def width (style : IndentStyle) (t : Text) : Nat := t.foldl style.advance 0

/-- Tabs and spaces that span so many columns. -/
def indentation (style : IndentStyle) (columns : Nat) : Text :=
  if style.useTabs then
    List.replicate (columns / style.tabColumns) '\t' ++
      List.replicate (columns % style.tabColumns) ' '
  else List.replicate columns ' '

/-- The text with an indent of this width in place of what follows its last line feed. -/
def reindent (style : IndentStyle) (column : Int) (t : Text) : Text :=
  t.throughLastLineFeed ++ style.indentation column.toNat

/-- A line with its indent written anew, as wide as it was. -/
def rewriteIndent (style : IndentStyle) (line : Text) : Text :=
  style.indentation (style.width (line.takeWhile Text.isBlankChar)) ++
    line.dropWhile Text.isBlankChar

/-- Writes the indent of each line after the first anew. -/
def rewriteIndents (style : IndentStyle) (t : Text) : Text :=
  t.mapLaterLines style.rewriteIndent

/-- A line moved to the right, behind as much of its indent as the margin is long, or to the left
as far as its indent goes. -/
def shiftLine (style : IndentStyle) (margin : Nat) (shift : Int) (line : Text) : Text :=
  if 0 < shift then
    let kept := (line.take margin).takeWhile Text.isBlankChar
    kept ++ style.indentation shift.toNat ++ line.drop kept.length
  else line.drop ((line.take (-shift).toNat).takeWhile Text.isBlankChar).length

end JavaSource.IndentStyle
