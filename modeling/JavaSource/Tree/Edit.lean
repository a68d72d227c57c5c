import JavaSource.Tree.Children
import JavaSource.Tree.Traverse

/-!
# Editing a tree

Edits of one node, and putting a node in the place of another.
-/

namespace JavaSource.Tree

/-- An identity that no node of the tree has. -/
def freshId (t : Tree) : NodeId := (t.preorder.map id).foldl max 0 + 1

/-- Puts a tree in the place of the nodes of this identity that are no more than `budget` deep. -/
def replaceWithin (target : NodeId) (new : Tree) : Nat → Tree → Tree
  | 0, t => t
  | budget + 1, t =>
    if t.id = target then new else t.withShape (t.shape.map (replaceWithin target new budget))

/-- Puts a tree in the place of the node of this identity. -/
def replace (t : Tree) (target : NodeId) (new : Tree) : Tree := replaceWithin target new t.height t

/-- Puts a statement into a block, before the statement that is at this place or at the end. Other
nodes stay as they are. -/
def insertStatement (t : Tree) (place : Nat) (statement : Tree) : Tree :=
  match t.shape with
  | .block afterStatic statements beforeClose =>
    let (before, after) := statements.splitAt place
    t.withShape (.block afterStatic (before ++ .bare statement :: after) beforeClose)
  | _ => t

/-- Removes the statement of a block that is at this place, if there is one. Other nodes stay as
they are. -/
def removeStatement (t : Tree) (place : Nat) : Tree :=
  match t.shape with
  | .block afterStatic statements beforeClose =>
    t.withShape (.block afterStatic (statements.eraseIdx place) beforeClose)
  | _ => t

/-- Changes the annotations of a class, method or variable declaration. Other nodes stay as they
are. -/
def modifyAnnotations (t : Tree) (f : List Tree → List Tree) : Tree :=
  match t.shape with
  | .classDeclaration d =>
    t.withShape (.classDeclaration { d with annotations := f d.annotations })
  | .methodDeclaration d =>
    t.withShape (.methodDeclaration { d with annotations := f d.annotations })
  | .variableDeclarations d =>
    t.withShape (.variableDeclarations { d with annotations := f d.annotations })
  | _ => t

/-- Changes the modifiers of a class, method or variable declaration. Other nodes stay as they
are. -/
def modifyModifiers (t : Tree) (f : List Tree → List Tree) : Tree :=
  match t.shape with
  | .classDeclaration d =>
    t.withShape (.classDeclaration { d with modifiers := f d.modifiers })
  | .methodDeclaration d =>
    t.withShape (.methodDeclaration { d with modifiers := f d.modifiers })
  | .variableDeclarations d =>
    t.withShape (.variableDeclarations { d with modifiers := f d.modifiers })
  | _ => t

end JavaSource.Tree
