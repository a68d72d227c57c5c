import JavaSource.Proofs.Bare
import JavaSource.Proofs.Ink

/-!
# Trees that differ in white space

`Tree.Respaced t u` says that `u` is `t` with other white space: without their spaces they are one
tree, and the comments that they print are the same, up to the white space inside a comment.
-/

namespace JavaSource

/-- The comments in what is printed. -/
def Printed.comments : Printed → List Comment
  | word _ => []
  | space _ s => s.comments

namespace Tree

/-- The comments of a tree, in the order in which it prints them. -/
def comments (t : Tree) : List Comment := t.printed.flatMap Printed.comments

/-- The second tree is the first with other white space. -/
structure Respaced (t u : Tree) : Prop where
  bare : t.bare = u.bare
  comments : t.comments.map Comment.ink = u.comments.map Comment.ink

/-- The ink of the comments in a piece. -/
def pieceInk : Piece Tree → List (CommentStyle × Text)
  | .word _ | .terminator _ => []
  | .space _ s => s.ink
  | .part c => c.comments.map Comment.ink

theorem ink_comments (t : Tree) :
    t.comments.map Comment.ink = t.leading.ink ++ t.shape.pieces.flatMap pieceInk := by
  rw [comments, printed_eq, List.flatMap_cons, List.map_append, List.flatMap_assoc,
    List.map_flatMap]
  refine congrArg _ (List.flatMap_congr fun p _ => ?_)
  cases p with
  | word w => rfl
  | space l s => simp [piecePrinted, pieceInk, Printed.comments, Space.ink]
  | part c => rfl
  | terminator c =>
    simp only [piecePrinted, pieceInk]
    split <;> rfl

end Tree

/-- Layers that differ in white space. -/
abbrev Shape.Respaced : Shape Tree → Shape Tree → Prop :=
  Shape.Rel Tree.Respaced fun _ s s' => s.ink = s'.ink

theorem Shape.Respaced.ink_pieces {x y : Shape Tree} (h : x.Respaced y) :
    x.pieces.flatMap Tree.pieceInk = y.pieces.flatMap Tree.pieceInk := by
  have hps := h.pieces
  generalize x.pieces = ps, y.pieces = qs at hps ⊢
  induction hps with
  | nil => rfl
  | cons hp _ ih =>
    rw [List.flatMap_cons, List.flatMap_cons, ih]
    cases hp with
    | word | terminator => rfl
    | space hs => rw [Tree.pieceInk, Tree.pieceInk, hs]
    | part ht => rw [Tree.pieceInk, Tree.pieceInk, ht.comments]

/-- Trees that differ in white space make nodes that do. -/
theorem Tree.Respaced.congruence :
    Tree.Congruence Tree.Respaced fun _ s s' => s.ink = s'.ink where
  space _ _ := rfl
  node hs h :=
    { bare := bare_node (fun _ _ h => h.bare) h
      comments := by
        rw [ink_comments, ink_comments]
        exact congrArg₂ _ hs (Shape.Respaced.ink_pieces h) }
  trans h h' := ⟨h.bare.trans h'.bare, h.comments.trans h'.comments⟩

end JavaSource
