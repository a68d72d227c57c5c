import JavaSource.Format.LeadingSpace
import JavaSource.Proofs.Respaced

/-!
# Gathering the leading space of a declaration

`Tree.gatherLeading` moves a space over no word: the space goes from the first part of a declaration
to the declaration, which prints its own space directly before that part.
-/

namespace JavaSource

namespace Tree

variable {i : NodeId} {s : Space} {x y : Shape Tree} {ps : List (Piece Tree)}

/-- Trees without their spaces make equal nodes without theirs. -/
theorem congruence_bare : Congruence (fun t u => t.bare = u.bare) fun _ _ _ => True where
  space _ _ := trivial
  node _ h := bare_node (fun _ _ h => h) h
  trans := Eq.trans

theorem bare_withLeading (t : Tree) (s : Space) : t.bare = (t.withLeading s).bare := by
  cases t with
  | node i s' x => exact congruence_bare.node trivial (congruence_bare.shape x)

theorem ink_withLeading (t : Tree) (s : Space) :
    (t.withLeading s).comments.map Comment.ink = s.ink ++ t.shape.pieces.flatMap pieceInk := by
  cases t with
  | node i s' x => exact ink_comments _

/-- The space before the first part of a node may as well end the node's own. -/
theorem Respaced.gather_part {m : Tree} (hx : x.pieces = .part m :: ps)
    (hy : y.pieces = .part (m.withLeading .empty) :: ps)
    (h : Shape.Rel (fun t u => t.bare = u.bare) (fun _ _ _ => True) x y) :
    Respaced (.node i s x) (.node i (s.append m.leading) y) where
  bare := congruence_bare.node trivial h
  comments := by
    rw [ink_comments, ink_comments, shape, shape, hx, hy, List.flatMap_cons, List.flatMap_cons,
      pieceInk, pieceInk, ink_withLeading, ink_comments m, leading, leading, Space.ink_append,
      List.append_assoc, List.append_assoc]
    rfl

/-- A space that a node prints first may as well end the node's own. -/
theorem Respaced.gather_space {l : SpaceSlot} {s' : Space} (hx : x.pieces = .space l s' :: ps)
    (hy : y.pieces = .space l .empty :: ps)
    (h : Shape.Rel (fun t u => t.bare = u.bare) (fun _ _ _ => True) x y) :
    Respaced (.node i s x) (.node i (s.append s') y) where
  bare := congruence_bare.node trivial h
  comments := by
    rw [ink_comments, ink_comments, shape, shape, hx, hy, List.flatMap_cons, List.flatMap_cons,
      pieceInk, pieceInk, leading, leading, Space.ink_append, List.append_assoc]
    rfl

/-- Gathering leading spaces changes white space only. -/
theorem respaced_gatherLeading (t : Tree) : Respaced t t.gatherLeading := by
  have C := congruence_bare
  have hrefl := Respaced.congruence.refl t
  have hfirst (m : Tree) (ms : List Tree) :
      List.Forall₂ (fun t u => t.bare = u.bare) (m :: ms) (m.withLeading .empty :: ms) :=
    .cons (bare_withLeading m .empty) (C.list ms)
  cases t with
  | node i s x =>
    cases x with
    | classDeclaration d =>
      obtain ⟨annotations, modifiers, beforeKind, kind, name, ps, superclass, interfaces, body, type⟩ := d
      match annotations, modifiers with
      | _ :: _, _ => exact hrefl
      | [], m :: ms =>
        exact .gather_part rfl rfl (.classDeclaration (C.list _) (hfirst m ms) trivial rfl (C.refl _)
          (C.option_series _) (C.option_preceded _) (C.option_series _) (C.refl _) rfl)
      | [], [] =>
        exact .gather_space rfl rfl (.classDeclaration (C.list _) (C.list _) trivial rfl (C.refl _)
          (C.option_series _) (C.option_preceded _) (C.option_series _) (C.refl _) rfl)
    | methodDeclaration d =>
      obtain ⟨annotations, modifiers, ps, returnType, name, parameters, thrown, body, type⟩ := d
      match annotations, modifiers, ps, returnType with
      | _ :: _, _, _, _ => exact hrefl
      | [], m :: ms, _, _ =>
        exact .gather_part rfl rfl (.methodDeclaration (C.list _) (hfirst m ms) (C.option_series _)
          (C.option _) (C.refl _) (C.series _) (C.option_series _) (C.option _) rfl)
      | [], [], some ps, _ =>
        exact .gather_space rfl rfl (.methodDeclaration (C.list _) (C.list _)
          (.some ⟨trivial, C.elements _⟩) (C.option _) (C.refl _) (C.series _) (C.option_series _)
          (C.option _) rfl)
      | [], [], none, some r =>
        exact .gather_part rfl rfl (.methodDeclaration (C.list _) (C.list _) .none
          (.some (bare_withLeading r .empty)) (C.refl _) (C.series _) (C.option_series _)
          (C.option _) rfl)
      | [], [], none, none =>
        exact .gather_part rfl rfl (.methodDeclaration (C.list _) (C.list _) .none .none
          (bare_withLeading name .empty) (C.series _) (C.option_series _) (C.option _) rfl)
    | variableDeclarations d =>
      obtain ⟨annotations, modifiers, type, beforeDots, declarators⟩ := d
      match annotations, modifiers, type with
      | _ :: _, _, _ => exact hrefl
      | [], [], none => exact hrefl
      | [], m :: ms, _ =>
        exact .gather_part rfl rfl (.variableDeclarations (C.list _) (hfirst m ms) (C.option _)
          (C.option_space (l := .dots) _) (C.elements _))
      | [], [], some type =>
        exact .gather_part rfl rfl (.variableDeclarations (C.list _) (C.list _)
          (.some (bare_withLeading type .empty)) (C.option_space (l := .dots) _) (C.elements _))
    | _ => exact hrefl

end Tree

end JavaSource
