import JavaSource.Tree.Children
import JavaSource.Tree.Traverse

/-!
# Comparing trees

Two trees are the same when their nodes have the same identities, spaces, words and parts.
-/

namespace JavaSource

deriving instance DecidableEq for Followed, Preceded, Series

deriving instance DecidableEq for CompilationUnit, ClassDeclaration, MethodDeclaration,
  VariableDeclarations, MethodInvocation, Lambda

deriving instance DecidableEq for Shape

/-- A layer with its parts left out. -/
def Shape.skeleton {α : Type} (x : Shape α) : Shape Unit := x.map fun _ => ()

/-- The same nodes, spaces and words. -/
def Tree.same (a b : Tree) : Bool :=
  a.id == b.id && a.leading == b.leading && a.shape.skeleton == b.shape.skeleton &&
    a.children.length == b.children.length &&
    (a.children.attach.zip b.children).all fun p => same p.1.1 p.2
termination_by sizeOf a
decreasing_by exact sizeOf_lt_of_mem_children p.1.2

end JavaSource
