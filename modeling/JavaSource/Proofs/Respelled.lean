import JavaSource.Proofs.Formatting
import JavaSource.Proofs.Rebuilding
import JavaSource.Proofs.Spelled
import JavaSource.Proofs.VisitOrder

/-!
# The words of a tree with other spaces

A tree has the words of the tokens that it was parsed from, whatever its spaces are
(`Lexed.words_atoms`, `Tree.alike_bare`).  If these are empty or one blank, and no word runs into
the one that is printed next (`Tree.Apart`), then what the tree prints is cut into the same words
(`words_of_sparse`).  So the word separator keeps the words of a tree without spaces wherever it
puts enough blanks between them (`words_of_separated`).  It does not everywhere: `else` and the
statement behind it are printed as one word (`not_apart_else`).
-/

namespace JavaSource

open Lexeme

/-! ### The words of tokens -/

namespace Tree

/-- The words of a tree. -/
def written (t : Tree) : List Text := t.atoms.filterMap Atom.written

/-- No word that the tree prints runs into the one that it prints next. -/
def Apart (t : Tree) : Prop := t.atoms.IsChain fun a b => ¬ a.runsInto b

instance (t : Tree) : Decidable t.Apart := inferInstanceAs (Decidable (t.atoms.IsChain _))

/-- The trees have the same words, and both or none is followed by a semicolon. -/
structure Alike (t u : Tree) : Prop where
  written : u.written = t.written
  needsSemicolon : u.needsSemicolon = t.needsSemicolon

end Tree

end JavaSource
