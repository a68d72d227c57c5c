import JavaSource.Proofs.Printed
import JavaSource.Grammar.State

/-!
# Atoms

What a tree prints and what is left of the tokens of an input are compared as lists of `Atom`s:
words and non-empty spaces, with every greater sign at the start of a word on its own.  The parser
reads such signs one by one and joins them into one operator, and it fills most spaces of a tree
with nothing; both leave the atoms alone.
-/

namespace JavaSource

/-- A word that is one token, or a space that is not empty. -/
inductive Atom where
  | word (t : Text)
  | space (s : Space)

/-- A word with each greater sign at its start as a word of its own. -/
def splitSigns : Text → List Text
  | [] => []
  | c :: rest => if c = '>' then [c] :: splitSigns rest else [c :: rest]

theorem flatten_splitSigns (t : Text) : (splitSigns t).flatten = t := by
  induction t with
  | nil => rfl
  | cons c rest ih => simp only [splitSigns]; split <;> simp [ih]

/-- The atoms of a word. -/
def wordAtoms (t : Text) : List Atom := (splitSigns t).map .word

@[simp] theorem wordAtoms_nil : wordAtoms [] = [] := rfl

/-- The atoms of a space. -/
def spaceAtoms (s : Space) : List Atom := if s.isEmpty then [] else [.space s]

@[simp] theorem spaceAtoms_empty : spaceAtoms .empty = [] := rfl

/-- The atoms of a word or space that is printed. -/
def Printed.atoms : Printed → List Atom
  | word t => wordAtoms t
  | space _ s => spaceAtoms s

namespace Tree

/-- The atoms of what a tree prints. -/
def atoms (t : Tree) : List Atom := t.printed.flatMap Printed.atoms

/-- The atoms of what a piece prints. -/
def pieceAtoms : Piece Tree → List Atom
  | .word w => wordAtoms w
  | .space _ s => spaceAtoms s
  | .part c => c.atoms
  | .terminator c => if c.needsSemicolon then wordAtoms [';'] else []

theorem atoms_eq (t : Tree) :
    t.atoms = spaceAtoms t.leading ++ t.shape.pieces.flatMap pieceAtoms := by
  rw [atoms, printed_eq, List.flatMap_cons, List.flatMap_assoc]
  refine congrArg _ (List.flatMap_congr fun p _ => ?_)
  cases p with
  | word w => simp [piecePrinted, pieceAtoms, Printed.atoms]
  | space l s => simp [piecePrinted, pieceAtoms, Printed.atoms]
  | part c => rfl
  | terminator c => simp only [piecePrinted, pieceAtoms]; split <;> simp [Printed.atoms]

end Tree

/-- The atoms of pieces. -/
def Piece.atoms (ps : List (Piece Tree)) : List Atom := ps.flatMap Tree.pieceAtoms

/-- The atoms of a token and the gap before it. -/
def Token.atoms (t : Token) : List Atom := spaceAtoms (Space.ofText t.gap) ++ wordAtoms t.text

/-- The atoms of what is left of an input. -/
def Input.atoms (i : Input) : List Atom :=
  match i.tokens with
  | [] => []
  | t :: ts =>
    (if i.gapTaken then [] else spaceAtoms (Space.ofText t.gap)) ++ wordAtoms t.text ++
      ts.flatMap Token.atoms

namespace Tree

@[simp] theorem atoms_node (i : NodeId) (s : Space) (x : Shape Tree) :
    (node i s x).atoms = spaceAtoms s ++ Piece.atoms x.pieces := atoms_eq _

/-- The space before a node and the rest of it. -/
theorem atoms_lift (t : Tree) : spaceAtoms t.lift.1 ++ t.lift.2.atoms = t.atoms := by
  cases t with
  | node i s x => simp [lift, withLeading, leading]

end Tree

namespace Piece

variable {ps qs : List (Piece Tree)}

@[simp] theorem atoms_nil : atoms [] = [] := rfl

@[simp] theorem atoms_word (w : Text) : atoms (word w :: ps) = wordAtoms w ++ atoms ps := rfl

@[simp] theorem atoms_space (l : SpaceSlot) (s : Space) :
    atoms (space l s :: ps) = spaceAtoms s ++ atoms ps := rfl

@[simp] theorem atoms_part (t : Tree) : atoms (part t :: ps) = t.atoms ++ atoms ps := rfl

@[simp] theorem atoms_terminator (t : Tree) :
    atoms (terminator t :: ps) = (if t.needsSemicolon then wordAtoms [';'] else []) ++ atoms ps :=
  rfl

@[simp] theorem atoms_append : atoms (ps ++ qs) = atoms ps ++ atoms qs := List.flatMap_append

@[simp] theorem atoms_map_part (ts : List Tree) : atoms (ts.map part) = ts.flatMap Tree.atoms := by
  induction ts with
  | nil => rfl
  | cons t ts ih => simp [ih]

theorem atoms_flatMap {α : Type} (f : α → List (Piece Tree)) (xs : List α) :
    atoms (xs.flatMap f) = xs.flatMap fun x => atoms (f x) := List.flatMap_assoc

@[simp] theorem atoms_ifPresent {α : Type} (f : α → List (Piece Tree)) (o : Option α) :
    atoms (ifPresent f o) = o.elim [] fun a => atoms (f a) := by
  cases o <;> rfl

@[simp] theorem atoms_ite (c : Prop) [Decidable c] :
    atoms (if c then ps else qs) = if c then atoms ps else atoms qs := by
  split <;> rfl

end Piece

/-- The atoms of an element and the space after it. -/
def Followed.atoms (x : Followed Tree) : List Atom := x.element.atoms ++ spaceAtoms x.after

@[simp] theorem Followed.element_bare (t : Tree) : (Followed.bare t).element = t := rfl

@[simp] theorem Followed.after_bare (t : Tree) : (Followed.bare t).after = .empty := rfl

@[simp] theorem Followed.atoms_bare (t : Tree) : (Followed.bare t).atoms = t.atoms := by
  simp [Followed.atoms, Followed.bare]

/-- The atoms of a statement and its semicolon, if it needs one. -/
def Followed.statementAtoms (x : Followed Tree) : List Atom :=
  x.atoms ++ if x.element.needsSemicolon then wordAtoms [';'] else []

/-- The atoms of an element behind the word that introduces it. -/
def Preceded.atoms (w : Text) (x : Preceded Tree) : List Atom :=
  spaceAtoms x.before ++ (wordAtoms w ++ x.element.atoms)

/-- The atoms of elements with a separator between them. -/
def joinedAtoms (w : Text) : List (Followed Tree) → List Atom
  | [] => []
  | x :: xs => x.atoms ++ xs.flatMap fun y => wordAtoms w ++ y.atoms

@[simp] theorem joinedAtoms_singleton (w : Text) (x : Followed Tree) :
    joinedAtoms w [x] = x.atoms := by
  simp [joinedAtoms]

theorem joinedAtoms_cons {w : Text} {x : Followed Tree} {xs : List (Followed Tree)}
    (h : xs ≠ []) : joinedAtoms w (x :: xs) = x.atoms ++ (wordAtoms w ++ joinedAtoms w xs) := by
  cases xs with
  | nil => exact absurd rfl h
  | cons y ys => simp [joinedAtoms]

/-- The atoms of a list between the word that opens it and the one that closes it. -/
def Series.atoms (opening separator closing : Text) (s : Series Tree) : List Atom :=
  spaceAtoms s.before ++ (wordAtoms opening ++
    (joinedAtoms separator s.elements ++ wordAtoms closing))

namespace Piece

@[simp] theorem atoms_followed (l : FollowedSlot) (x : Followed Tree) :
    atoms (followed l x) = x.atoms := by
  simp [followed, Followed.atoms]

@[simp] theorem atoms_statement (l : FollowedSlot) (x : Followed Tree) :
    atoms (statement l x) = x.statementAtoms := by
  simp [statement, Followed.statementAtoms]

/-- The atoms of a separated list do not depend on its slot. -/
@[simp] theorem atoms_separated (l : FollowedSlot) (w : Text) (xs : List (Followed Tree)) :
    atoms (separated l w xs) = joinedAtoms w xs := by
  fun_induction separated l w xs with
  | case1 => rfl
  | case2 x => simp [joinedAtoms]
  | case3 x y rest ih => simp [joinedAtoms, ih]

@[simp] theorem atoms_listed (l : SeriesSlot) (o w : Text) (s : Series Tree) :
    atoms (listed l o w s) = s.atoms o w [] := by
  simp [listed, Series.atoms]

@[simp] theorem atoms_enclosed (l : SeriesSlot) (o w c : Text) (s : Series Tree) :
    atoms (enclosed l o w c s) = s.atoms o w c := by
  simp [enclosed, Series.atoms]

@[simp] theorem atoms_arguments (l : SeriesSlot) (s : Series Tree) :
    atoms (arguments l s) = s.atoms ['('] [','] [')'] := atoms_enclosed ..

@[simp] theorem atoms_typeArguments (s : Series Tree) :
    atoms (typeArguments s) = s.atoms ['<'] [','] ['>'] := atoms_enclosed ..

@[simp] theorem atoms_introduced (l : PrecededSlot) (w : Text) (x : Preceded Tree) :
    atoms (introduced l w x) = x.atoms w := by
  simp [introduced, Preceded.atoms]

end Piece

end JavaSource
