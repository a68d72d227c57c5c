import JavaSource.Text.Basic

/-!
# Globs

A `Glob` describes texts character by character. It is matched by what can be left of it after each
character, so that a match takes one step for each character of the text.
-/

namespace JavaSource

/-- A set of characters. -/
inductive CharSet where
  | only (c : Char)
  | except (c : Char)
deriving DecidableEq, Repr

/-- The character is in the set. -/
def CharSet.contains (x : Char) : CharSet → Bool
  | only c => x == c
  | except c => x != c

/-- A description of texts. -/
inductive Glob where
  /-- The empty text. -/
  | empty
  /-- One character. -/
  | one (s : CharSet)
  /-- One text after the other. -/
  | seq (first second : Glob)
  /-- A text or none. -/
  | optional (g : Glob)
  /-- Any number of texts, one after the other. -/
  | many (g : Glob)
deriving DecidableEq, Repr

namespace Glob

/-- The empty text is described. -/
def acceptsEmpty : Glob → Bool
  | empty | optional _ | many _ => true
  | one _ => false
  | seq a b => a.acceptsEmpty && b.acceptsEmpty

/-- What can follow after one character: each of these describes some of the rests of the texts that
start with it, and together they describe all. -/
def after (c : Char) : Glob → List Glob
  | empty => []
  | one s => if s.contains c then [empty] else []
  | seq a b => (after c a).map (seq · b) ++ if a.acceptsEmpty then after c b else []
  | optional g => after c g
  | many g => (after c g).map (seq · (many g))

/-- The text is described by one of the globs. -/
def anyAccepts (gs : List Glob) : Text → Bool
  | [] => gs.any acceptsEmpty
  | c :: rest => anyAccepts (gs.flatMap (after c)).eraseDups rest

/-- The text is described. -/
def accepts (g : Glob) (t : Text) : Bool := anyAccepts [g] t

/-- One character. -/
def char (c : Char) : Glob := one (.only c)

/-- At least one text, one after the other. -/
def atLeastOne (g : Glob) : Glob := seq g (many g)

/-- One text after the other. -/
def ofList : List Glob → Glob
  | [] => empty
  | g :: gs => seq g (ofList gs)

/-- Exactly this text. -/
def text (t : Text) : Glob := ofList (t.map char)

end Glob

end JavaSource
