import JavaSource.Visit.Visitor

/-!
# Where a node is

`Tree.framesAbove?` gives the frames that a visitor has when it reaches a node.
-/

namespace JavaSource

/-- The visitor that keeps what the frames above a node stand for. -/
def locator (id : NodeId) : Visitor Unit (Option (List FrameValue)) where
  enter t := do
    if t.id = id then
      let above := (← Walk.trail).values.tail
      Walk.modifyState fun found => found <|> some above
    return t

/-- What the frames above the node of this identity stand for, innermost first. -/
def Tree.framesAbove? (id : NodeId) (t : Tree) : Option (List FrameValue) :=
  match (locator id).run none t with
  | .ok (_, found) => found
  | .error _ => none

end JavaSource
