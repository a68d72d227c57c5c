import JavaSource.Visit.Visitor

/-!
# Local visitors

Visitors that keep nothing between two nodes: `Visitor.ofNodes` changes each node before its parts
are visited, `Visitor.ofSpaces` changes each space by its slot.
-/

namespace JavaSource

/-- The kind of the nearest node above the innermost frame. -/
def Trail.parentKind? {μ : Type} (trail : Trail μ) : Option NodeKind :=
  trail.tail.findSome? fun frame => frame.value.kind?

namespace Visitor

/-- Changes each node before its parts are visited, given the kind of the node above it. -/
def ofNodes (stopAfter : Option NodeId) (f : Option NodeKind → Tree → Tree) :
    Visitor Unit Unit where
  stopAfter
  node walk t := do walk (f (← Walk.trail).parentKind? t)

/-- Changes each space by its slot. -/
def ofSpaces (stopAfter : Option NodeId) (f : SpaceSlot → Space → Space) : Visitor Unit Unit where
  stopAfter
  space slot s := pure (f slot s)

end Visitor

end JavaSource
