import JavaSource.Format.BlankLines
import JavaSource.Format.IndentCharacters
import JavaSource.Format.LeadingSpace
import JavaSource.Format.LineEnds
import JavaSource.Format.Spacing
import JavaSource.Format.WordGap
import JavaSource.Format.Wrapping
import JavaSource.Indent.Visitor

/-!
# Formatting

A `Pass` changes one aspect of the spaces of a tree and nothing else. `Tree.format` runs every pass
in the order of `Pass.all`: what breaks lines comes before what indents them, and line ends come
last.
-/

namespace JavaSource

/-- One aspect of formatting. -/
inductive Pass where
  /-- The leading space of declarations belongs to them. -/
  | leadingSpace
  /-- Words are kept apart. -/
  | wordGaps
  /-- No blanks before line ends. -/
  | trailingBlanks
  | blankLines
  /-- Blanks inside lines. -/
  | spacing
  /-- Statements start lines. -/
  | wrapping
  /-- Tabs or spaces. -/
  | indentCharacters
  /-- The columns of lines. -/
  | indents
  | lineEnds
deriving DecidableEq, Repr

namespace Pass

/-- The passes in their order. -/
def all : List Pass :=
  [leadingSpace, wordGaps, trailingBlanks, blankLines, spacing, wrapping, indentCharacters, indents,
    lineEnds]

/-- Runs a visitor without notes below frames that stand for these values. -/
def runPlain (v : Visitor Unit Unit) (above : List FrameValue) (t : Tree) :
    Except VisitError Tree :=
  return (← v.runAt (Trail.ofValues above) () t).1

/-- Indents a tree from the notes of the frames above it. -/
def runIndents (style : IndentStyle) (stopAfter : Option NodeId) (above : Trail IndentNote)
    (t : Tree) : Except VisitError Tree :=
  return (← (indenter style stopAfter).runAt above () t).1

/-- Runs a pass on a tree below frames that stand for these values, up to a node after which nothing
changes. -/
def run (styles : Styles) (stopAfter : Option NodeId) (above : List FrameValue) :
    Pass → Tree → Except VisitError Tree
  | leadingSpace => runPlain (leadingSpaceGatherer stopAfter) above
  | wordGaps => runPlain (wordSeparator stopAfter) above
  | trailingBlanks => runPlain (lineEndStripper stopAfter) above
  | blankLines => runPlain (blankLineBounder styles.blankLines stopAfter) above
  | spacing => runPlain (spacePadder styles stopAfter) above
  | wrapping => runPlain (lineWrapper stopAfter) above
  | indentCharacters => runPlain (indentRewriter styles.indents stopAfter) above
  | indents => runIndents styles.indents stopAfter (styles.indents.seeds above)
  | lineEnds => runPlain (lineEndUnifier styles.useCrlf stopAfter) above

end Pass

namespace Tree

/-- Formats a tree that stands below frames of these values, up to a node after which nothing
changes. -/
def formatBelow (styles : Styles) (stopAfter : Option NodeId) (above : List FrameValue) (t : Tree) :
    Except VisitError Tree :=
  Pass.all.foldlM (fun t pass => pass.run styles stopAfter above t) t

/-- Formats a whole tree, up to a node after which nothing changes. -/
def format (styles : Styles) (stopAfter : Option NodeId) (t : Tree) : Except VisitError Tree :=
  t.formatBelow styles stopAfter [.root]

end Tree

end JavaSource
