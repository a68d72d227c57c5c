import JavaSource.Indent.Column
import JavaSource.Tree.Slot

/-!
# Indenting a space

`IndentStyle.indentSpace` moves the token after a space, and the comments in the space, to a column.
-/

namespace JavaSource.IndentStyle

/-- The column of the token after a space, from the start of its line or of the space. -/
def columnAfter (style : IndentStyle) (s : Space) : Nat := style.width s.indent

/-- A comment whose later lines are moved as far as its first line is, from the indent before it to
a column. -/
def shiftComment (style : IndentStyle) (before : Text) (column : Int) (c : Comment) : Comment :=
  let margin := before.lastLine
  let shift := column - style.width margin
  if shift = 0 then c
  else { c with text := c.text.mapLaterLines (style.shiftLine margin.length shift) }

/-- Moves a comment, and the token or comment after it, to a column. Only what starts a line moves,
or what stands before all other code. -/
def indentComment (style : IndentStyle) (startsFile : Bool) (before : Text) (column : Int)
    (c : Comment) : Comment :=
  let moved :=
    if startsFile || before.contains '\n' then style.shiftComment before column c else c
  if moved.suffix.contains '\n' then { moved with suffix := style.reindent column moved.suffix }
  else moved

/-- Moves comments to a column, and what follows the last of them to another. -/
def indentComments (style : IndentStyle) (startsFile : Bool) (column columnAfter : Int) :
    Text → List Comment → List Comment
  | _, [] => []
  | before, [c] => [style.indentComment startsFile before columnAfter c]
  | before, c :: cs =>
    style.indentComment startsFile before column c ::
      indentComments style startsFile column columnAfter c.suffix cs

/-- The comments in a space start a file, or stand as a block before a class. -/
def startsFile (slot : SpaceSlot) (comments : List Comment) : Bool :=
  slot == .leading .compilationUnit ||
    (slot == .leading .classDeclaration && comments.head?.any fun c => c.style.isMultiline)

/-- The column of the comments in a space, given that of the token after it: what stands before a
closing brace belongs to the block. -/
def commentColumn (style : IndentStyle) (slot : SpaceSlot) (column : Int) : Int :=
  if slot = .blockEnd then column + style.indentSize else column

/-- Moves the comments of a space, and the token after it, to a column. A space whose first comment
is there already is left as it is. White space at the start of a file goes. -/
def indentCommented (style : IndentStyle) (slot : SpaceSlot) (column : Int) (s : Space) : Space :=
  let commentColumn := style.commentColumn slot column
  let startsFile := startsFile slot s.comments
  let whitespace := if slot = .leading .compilationUnit then [] else s.whitespace
  if style.width s.whitespace.lastLine = commentColumn then ⟨whitespace, s.comments⟩
  else
    ⟨if startsFile || s.whitespace.contains '\n' then style.reindent commentColumn s.whitespace
      else whitespace,
      style.indentComments startsFile commentColumn column s.whitespace s.comments⟩

/-- Moves the token after a space without comments to a column, if it starts a line. White space at
the start of a file goes. -/
def indentBlank (style : IndentStyle) (slot : SpaceSlot) (column : Int) (whitespace : Text) :
    Text :=
  if slot = .leading .compilationUnit && !whitespace.isEmpty then
    if column = 0 then [] else style.reindent column whitespace
  else if whitespace.contains '\n' && style.width whitespace.lastLine ≠ column then
    style.reindent column whitespace
  else whitespace

/-- Moves the token after a space, and the comments in the space, to a column. -/
def indentSpace (style : IndentStyle) (slot : SpaceSlot) (column : Int) (s : Space) : Space :=
  if s.comments.isEmpty then ⟨style.indentBlank slot column s.whitespace, []⟩
  else style.indentCommented slot column s

end JavaSource.IndentStyle
