import JavaSource.Indent.Column
import JavaSource.Visit.Local

/-!
# Indent characters

Writes every indent in tabs or in spaces, as wide as it was.
-/

namespace JavaSource

/-- A comment with its indents written anew. -/
def Comment.rewriteIndents (style : IndentStyle) (c : Comment) : Comment :=
  { c with
    text := if c.style.isMultiline then style.rewriteIndents c.text else c.text
    suffix := style.rewriteIndents c.suffix }

/-- A space with its indents written anew. -/
def Space.rewriteIndents (style : IndentStyle) (s : Space) : Space :=
  s.map style.rewriteIndents (Comment.rewriteIndents style)

/-- Writes every indent anew. -/
def indentRewriter (style : IndentStyle) (stopAfter : Option NodeId) : Visitor Unit Unit :=
  .ofSpaces stopAfter fun _ => Space.rewriteIndents style

end JavaSource
