import JavaSource.Tree.Printer
import Mathlib.Data.List.Basic

/-!
# What a tree prints
-/

namespace JavaSource

/-- A word or a space that a tree prints. -/
inductive Printed where
  | word (t : Text)
  | space (slot : SpaceSlot) (s : Space)

namespace Printed

def text : Printed → Text
  | word t => t
  | space _ s => s.toText

end Printed

namespace Tree

/-- The words and spaces of a tree, in the order in which it prints them. -/
def printed (t : Tree) : List Printed :=
  .space (.leading t.kind) t.leading :: t.shape.pieces.attach.flatMap fun p =>
    match _h : p.1 with
    | .word w => [.word w]
    | .space l s => [.space l s]
    | .part c => c.printed
    | .terminator c => if c.needsSemicolon then [.word [';']] else []
termination_by sizeOf t
decreasing_by
  apply sizeOf_lt_of_mem_children
  rw [children, ← Shape.parts_pieces]
  exact Piece.mem_parts (_h ▸ p.2)

/-- The words and spaces of a piece. -/
def piecePrinted : Piece Tree → List Printed
  | .word w => [.word w]
  | .space l s => [.space l s]
  | .part c => c.printed
  | .terminator c => if c.needsSemicolon then [.word [';']] else []

theorem printed_eq (t : Tree) :
    t.printed = .space (.leading t.kind) t.leading :: t.shape.pieces.flatMap piecePrinted := by
  rw [printed]
  congr 1
  conv => rhs; rw [← List.attach_map_subtype_val t.shape.pieces, List.flatMap_map]
  congr 1
  funext ⟨p, _⟩
  cases p <;> rfl

theorem mem_children_of_part {t c : Tree} (h : Piece.part c ∈ t.shape.pieces) :
    c ∈ t.children := by
  rw [children, ← Shape.parts_pieces]
  exact Piece.mem_parts h

/-- A tree's text is that of its words and spaces. -/
theorem toText_eq_printed (t : Tree) : t.toText = t.printed.flatMap Printed.text := by
  induction t using Tree.induction with
  | node t ih =>
    rw [toText_eq, printed_eq, List.flatMap_cons, List.flatMap_assoc]
    refine congrArg _ (List.flatMap_congr fun p hp => ?_)
    cases p with
    | word w => simp [pieceText, piecePrinted, Printed.text]
    | space l s => simp [pieceText, piecePrinted, Printed.text]
    | part c => exact ih c (mem_children_of_part hp)
    | terminator c =>
      simp only [pieceText, piecePrinted]
      split <;> simp [Printed.text]

end Tree

end JavaSource
