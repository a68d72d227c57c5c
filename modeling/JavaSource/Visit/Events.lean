import JavaSource.Visit.Visitor

/-!
# The events of a visit

What a visitor that changes nothing meets, in order.
-/

namespace JavaSource

/-- Something that a visit meets. -/
inductive VisitEvent where
  /-- A node before it is visited, and the number of frames down to it. -/
  | enter (kind : NodeKind) (depth : Nat)
  /-- A node after it was visited. -/
  | leave (kind : NodeKind) (depth : Nat)
  /-- A space, and what the frames down to it stand for. -/
  | space (slot : SpaceSlot) (s : Space) (path : List FrameValue)
  | followed (slot : FollowedSlot)
  | preceded (slot : PrecededSlot)
  | series (slot : SeriesSlot) (length : Nat)

namespace VisitEvent

/-- Adds an event to those that were met, latest first. -/
def record (e : VisitEvent) : Walk Unit (List VisitEvent) Unit := Walk.modifyState (e :: ·)

/-- The visitor that changes nothing and records what it meets. -/
def recorder (stopAfter : Option NodeId) : Visitor Unit (List VisitEvent) :=
  let space (slot : SpaceSlot) (s : Space) : Walk Unit (List VisitEvent) Space := do
    record (.space slot s (← Walk.trail).values)
    return s
  let followed (visit : Tree → Walk Unit (List VisitEvent) Tree) (slot : FollowedSlot)
      (x : Followed Tree) : Walk Unit (List VisitEvent) (Followed Tree) := do
    record (.followed slot)
    walkFollowed space visit slot x
  { stopAfter
    enter t := do
      record (.enter t.kind (← Walk.trail).length)
      return t
    leave t := do
      record (.leave t.kind (← Walk.trail).length)
      return t
    space
    followed
    preceded visit slot x := do
      record (.preceded slot)
      walkPreceded space visit slot x
    series visit slot s := do
      record (.series slot s.elements.length)
      walkSeries space (followed visit) slot s }

/-- The tree that a visit gives back, and what it met. -/
def ofVisit (stopAfter : Option NodeId) (t : Tree) : Except VisitError (Tree × List VisitEvent) := do
  let (t, events) ← (recorder stopAfter).run [] t
  return (t, events.reverse)

end VisitEvent

end JavaSource
