import JavaSource.Visit.Trail
import JavaSource.Tree.Children

/-!
# Visitors

A `Visitor` says what to do at nodes, spaces and padded elements; `Visitor.visit` goes down a tree
and rebuilds it from the answers, in the order of the source. What a visitor leaves out is walked
through unchanged.
-/

namespace JavaSource

section Walking

variable {μ σ : Type} [Inhabited μ]

/-- Visits an element, then the space after it. -/
def walkFollowed (space : SpaceSlot → Space → Walk μ σ Space) (visit : Tree → Walk μ σ Tree)
    (slot : FollowedSlot) (x : Followed Tree) : Walk μ σ (Followed Tree) :=
  Walk.within (.followed slot x.element) do
    let element ← visit x.element
    return ⟨element, ← space (.after slot) x.after⟩

/-- Visits the space before an element, then the element. -/
def walkPreceded (space : SpaceSlot → Space → Walk μ σ Space) (visit : Tree → Walk μ σ Tree)
    (slot : PrecededSlot) (x : Preceded Tree) : Walk μ σ (Preceded Tree) :=
  Walk.within (.preceded slot) do
    let before ← space (.before slot) x.before
    return ⟨before, ← visit x.element⟩

/-- Visits the space before a list, then its elements. -/
def walkSeries (space : SpaceSlot → Space → Walk μ σ Space)
    (followed : FollowedSlot → Followed Tree → Walk μ σ (Followed Tree))
    (slot : SeriesSlot) (s : Series Tree) : Walk μ σ (Series Tree) :=
  Walk.within (.series slot s) do
    let before ← space (.opening slot) s.before
    return ⟨before, ← s.elements.mapM (followed slot.element)⟩

end Walking

/-- What to do during a visit. The notes of the frames have type `μ`, the state has type `σ`. The
functions at nodes and padded elements are given the visit of a part. -/
structure Visitor (μ σ : Type) [Inhabited μ] where
  /-- The node after which nothing more is visited. -/
  stopAfter : Option NodeId := none
  /-- At a node, before anything of it is visited. -/
  enter : Tree → Walk μ σ Tree := pure
  /-- At a node, given the walk through its layer. -/
  node : (Tree → Walk μ σ Tree) → Tree → Walk μ σ Tree := fun walk t => walk t
  /-- At a node, after everything of it is visited. -/
  leave : Tree → Walk μ σ Tree := pure
  /-- At a space. -/
  space : SpaceSlot → Space → Walk μ σ Space := fun _ s => pure s
  /-- At an element with a space after it. -/
  followed : (Tree → Walk μ σ Tree) → FollowedSlot → Followed Tree → Walk μ σ (Followed Tree) :=
    walkFollowed space
  /-- At an element with a space before it. -/
  preceded : (Tree → Walk μ σ Tree) → PrecededSlot → Preceded Tree → Walk μ σ (Preceded Tree) :=
    walkPreceded space
  /-- At a list. -/
  series : (Tree → Walk μ σ Tree) → SeriesSlot → Series Tree → Walk μ σ (Series Tree) :=
    fun visit => walkSeries space (followed visit)

namespace Visitor

variable {μ σ : Type} [Inhabited μ]

/-- What the visitor does at the slots of a layer, given the visit of a part. -/
def actions (v : Visitor μ σ) (visit : Tree → Walk μ σ Tree) :
    SlotActions (Walk μ σ) Tree Tree where
  part := visit
  space := v.space
  followed := v.followed visit
  preceded := v.preceded visit
  word slot s := Walk.within (.preceded slot) (v.space (.before slot) s)
  series := v.series visit

/-- Visits the space before a node and the slots of its layer, given the visit of a part. -/
def walk (v : Visitor μ σ) (visit : Tree → Walk μ σ Tree) (t : Tree) : Walk μ σ Tree := do
  let leading ← v.space (.leading t.kind) t.leading
  return .node t.id leading (← t.shape.traverse (v.actions visit))

/-- Visits a tree, no more than `budget` nodes deep. -/
def visitWithin (v : Visitor μ σ) : Nat → Tree → Walk μ σ Tree
  | 0, t => return t
  | budget + 1, t => do
    if (← Walk.trail).isStopped then return t
    Walk.within (.tree t) do
      let t ← v.enter t
      let t ← v.node (v.walk (v.visitWithin budget)) t
      let t ← v.leave t
      if v.stopAfter = some t.id then Walk.modifyTrail Trail.stop
      return t

/-- Visits a tree. -/
def visit (v : Visitor μ σ) (t : Tree) : Walk μ σ Tree := v.visitWithin t.height t

/-- Visits a tree at the end of a trail, from a state; gives the tree and the state after it. -/
def runAt (v : Visitor μ σ) (trail : Trail μ) (state : σ) (t : Tree) :
    Except VisitError (Tree × σ) := do
  let (t, w) ← (v.visit t).run ⟨trail, state⟩
  return (t, w.state)

/-- Visits a whole tree. -/
def run (v : Visitor μ σ) (state : σ) (t : Tree) : Except VisitError (Tree × σ) :=
  v.runAt Trail.start state t

end Visitor

end JavaSource
