import JavaSource.Proofs.SpaceVisits
import JavaSource.Proofs.VisitOrder

/-!
# Trees that differ in their spaces

`Tree.Differs S t u` says that `u` is `t` with other spaces: without their spaces they are one tree,
and a space of `u` has to do with the space of `t` in its place as `S` says.  A relation of spaces
that holds of a space and itself and goes on from one to the next makes this a congruence
(`Tree.Differs.congruence`), so what holds of the rule of a pass holds between a tree and what the
pass makes of it.
-/

namespace JavaSource

/-- Spaces in one slot that have to do with one another as `S` says. -/
structure InOneSlot (S : SpaceSlot → Space → Space → Prop) (p q : SpaceSlot × Space) : Prop where
  slot : p.1 = q.1
  space : S p.1 p.2 q.2

variable {R : Tree → Tree → Prop} {S S' : SpaceSlot → Space → Space → Prop}

theorem forall₂_trans {α : Type} {P : α → α → Prop} (hP : ∀ a b c, P a b → P b c → P a c)
    {as bs cs : List α} (h : List.Forall₂ P as bs) (h' : List.Forall₂ P bs cs) :
    List.Forall₂ P as cs := by
  induction h generalizing cs with
  | nil => exact h'
  | cons hab _ ih =>
    cases h' with
    | cons hbc hrest => exact .cons (hP _ _ _ hab hbc) (ih hrest)

theorem InOneSlot.trans (hS : ∀ l s s' s'', S l s s' → S l s' s'' → S l s s'')
    (p q r : SpaceSlot × Space) (h : InOneSlot S p q) (h' : InOneSlot S q r) : InOneSlot S p r where
  slot := h.slot.trans h'.slot
  space := hS _ _ _ _ h.space (h.slot ▸ h'.space)

/-! ### The spaces of related layers -/

theorem forall₂_unprinted {x y : Shape Tree} (h : Shape.Rel R S x y) :
    List.Forall₂ (InOneSlot S) x.unprinted y.unprinted := by
  cases h with
  | @importDeclaration s t isStatic a b beforeStatic name =>
    cases isStatic
    · exact .cons ⟨rfl, beforeStatic⟩ .nil
    · exact .nil
  | _ => exact .nil

theorem Piece.Rel.spacesWith {extra : Shape Tree → List (SpaceSlot × Space)}
    (hR : ∀ t u, R t u →
      List.Forall₂ (InOneSlot S) (t.spacesWith extra) (u.spacesWith extra))
    {p q : Piece Tree} (h : Piece.Rel R S p q) :
    List.Forall₂ (InOneSlot S) (Tree.pieceSpacesWith extra p) (Tree.pieceSpacesWith extra q) := by
  cases h with
  | word => exact .nil
  | space hs => exact .cons ⟨rfl, hs⟩ .nil
  | part ht => exact hR _ _ ht
  | terminator _ => exact .nil

namespace Tree

/-- Nodes with related spaces before them and related layers have related spaces. -/
theorem forall₂_spaces_node
    (hR : ∀ t u, R t u → List.Forall₂ (InOneSlot S) t.spaces u.spaces) {i j : NodeId}
    {s s' : Space} {x y : Shape Tree} (hs : S (.leading x.kind) s s') (h : Shape.Rel R S x y) :
    List.Forall₂ (InOneSlot S) (node i s x).spaces (node j s' y).spaces := by
  have hparts (t u : Tree) (htu : R t u) :
      List.Forall₂ (InOneSlot S) (t.spacesWith Shape.unprinted) (u.spacesWith Shape.unprinted) := by
    rw [← spaces_eq_spacesWith, ← spaces_eq_spacesWith]
    exact hR t u htu
  have hleading : InOneSlot S (.leading x.kind, s) (.leading y.kind, s') :=
    ⟨congrArg SpaceSlot.leading h.kind, hs⟩
  have hpieces : List.Forall₂ (InOneSlot S)
      (x.pieces.flatMap (pieceSpacesWith Shape.unprinted))
      (y.pieces.flatMap (pieceSpacesWith Shape.unprinted)) :=
    List.rel_flatMap h.pieces fun _ _ hpq => hpq.spacesWith hparts
  rw [spaces_eq_spacesWith, spaces_eq_spacesWith, spacesWith_eq, spacesWith_eq]
  exact List.rel_append (.cons hleading (forall₂_unprinted h)) hpieces

/-- The second tree is the first with other spaces, which have to do with the first's as `S` says
of their slots. -/
structure Differs (S : SpaceSlot → Space → Space → Prop) (t u : Tree) : Prop where
  bare : t.bare = u.bare
  spaces : List.Forall₂ (InOneSlot S) t.spaces u.spaces

namespace Differs

variable {t u : Tree}

/-- What holds of all spaces holds of those of the other tree, if it goes from one to the other. -/
theorem forall_mem_spaces (h : t.Differs S u) {P Q : SpaceSlot → Space → Prop}
    (hP : ∀ p ∈ t.spaces, P p.1 p.2) (hQ : ∀ l s s', S l s s' → P l s → Q l s') :
    ∀ q ∈ u.spaces, Q q.1 q.2 := by
  intro q hq
  obtain ⟨p, hp, hslot, hspace⟩ := exists_mem_of_forall₂ h.spaces hq
  rw [← hslot]
  exact hQ _ _ _ hspace (hP p hp)

/-- A weaker relation, where the spaces of the first tree are as `P` says. -/
theorem imp (h : t.Differs S u) {P : SpaceSlot → Space → Prop}
    (hP : ∀ p ∈ t.spaces, P p.1 p.2) (hS : ∀ l s s', P l s → S l s s' → S' l s s') :
    t.Differs S' u where
  bare := h.bare
  spaces := by
    have hboth : List.Forall₂ (fun p q => P p.1 p.2 ∧ InOneSlot S p q) t.spaces u.spaces :=
      (List.forall₂_and_left t.spaces u.spaces).2 ⟨hP, h.spaces⟩
    refine hboth.imp ?_
    rintro p q ⟨hp, hslot, hspace⟩
    exact ⟨hslot, hS _ _ _ hp hspace⟩

theorem congruence (hrefl : ∀ l s, S l s s)
    (htrans : ∀ l s s' s'', S l s s' → S l s' s'' → S l s s'') :
    Congruence (Differs S) S where
  space := hrefl
  node hs h :=
    { bare := bare_node (fun _ _ h => h.bare) h
      spaces := forall₂_spaces_node (fun _ _ h => h.spaces) hs h }
  trans h h' :=
    { bare := h.bare.trans h'.bare
      spaces := forall₂_trans (InOneSlot.trans htrans) h.spaces h'.spaces }

end Differs

/-- A change of each space by its slot is what the trees differ in. -/
theorem differs_respaced (h : SpaceSlot → Space → Space) (t : Tree) :
    t.Differs (fun l s s' => s' = h l s) (t.respaced h) where
  bare := (bare_respaced h t).symm
  spaces := by
    induction t using Tree.induction with
    | node t ih =>
      rw [respaced_eq]
      cases t with
      | node i s x =>
        exact forall₂_spaces_node (fun _ _ h => h) rfl
          (Shape.rel_respaced ih fun _ _ => rfl)

/-! ### What holds of all spaces -/

/-- All spaces of the tree are as `Q` says. -/
def EachSpace (Q : Space → Prop) (t : Tree) : Prop := ∀ p ∈ t.spaces, Q p.2

end Tree

/-- All spaces of the piece are as `Q` says. -/
def Piece.EachSpace (Q : Space → Prop) : Piece Tree → Prop
  | .space _ s => Q s
  | .part t => t.EachSpace Q
  | .word _ | .terminator _ => True

namespace Tree

variable {Q : Space → Prop} {t u : Tree}

theorem eachSpace_iff : t.EachSpace Q ↔ Q t.leading ∧ (∀ p ∈ t.shape.unprinted, Q p.2) ∧
    ∀ p ∈ t.shape.pieces, p.EachSpace Q := by
  have hpiece (p : Piece Tree) :
      (∀ q ∈ pieceSpacesWith Shape.unprinted p, Q q.2) ↔ p.EachSpace Q := by
    cases p with
    | word | terminator => exact iff_of_true (fun _ hq => absurd hq List.not_mem_nil) trivial
    | space l s => exact List.forall_mem_singleton
    | part a =>
      rw [Piece.EachSpace, EachSpace, spaces_eq_spacesWith]
      rfl
  rw [EachSpace, spaces_eq_spacesWith, spacesWith_eq, List.forall_mem_append,
    List.forall_mem_cons, List.forall_mem_flatMap, and_assoc]
  exact and_congr_right fun _ => and_congr_right fun _ => forall₂_congr fun p _ => hpiece p

/-- A property that goes from each space to the one in its place goes from tree to tree. -/
theorem congruence_eachSpace (Q : Space → Prop) :
    Congruence (fun t u => t.EachSpace Q → u.EachSpace Q) fun _ s s' => Q s → Q s' where
  space _ _ h := h
  node {i s s' x y} hs h ht := by
    obtain ⟨hleading, hunprinted, hpieces⟩ := eachSpace_iff.1 ht
    refine eachSpace_iff.2 ⟨hs hleading, fun q hq => ?_, fun q hq => ?_⟩
    · obtain ⟨p, hp, hpq⟩ := exists_mem_of_forall₂ (forall₂_unprinted h) hq
      exact hpq.space (hunprinted p hp)
    · obtain ⟨p, hp, hpq⟩ := exists_mem_of_forall₂ h.pieces hq
      have hp := hpieces p hp
      cases hpq with
      | word | terminator => trivial
      | space hs => exact hs hp
      | part hR => exact hR hp
  trans h h' := h' ∘ h

end Tree

end JavaSource
