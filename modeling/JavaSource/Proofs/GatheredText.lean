import JavaSource.Proofs.Formatting
import JavaSource.Proofs.RepeatedPasses
import JavaSource.Proofs.SpaceChanges

/-!
# Where gathered spaces go

To gather leading spaces moves them over no word: a tree prints the same text as before
(`Tree.printsAlike_gatherLeading`).  Node by node, what stands before a node afterwards is what
stood there, unless the declaration around the node has taken it over, and what the node takes over
itself (`Pass.gathers_leadingSpace`).
-/

namespace JavaSource

/-! ### The printed text -/

namespace Space

theorem toText_mapLastSuffix (t : Text) {cs : List Comment} (h : cs ≠ []) :
    (mapLastSuffix (· ++ t) cs).flatMap (fun c => c.delimited ++ c.suffix) =
      cs.flatMap (fun c => c.delimited ++ c.suffix) ++ t := by
  induction cs with
  | nil => exact absurd rfl h
  | cons c cs ih =>
    cases cs with
    | nil => simp [mapLastSuffix, Comment.delimited]
    | cons d ds =>
      have hrest := ih (List.cons_ne_nil d ds)
      rw [mapLastSuffix, List.flatMap_cons, hrest, ← List.append_assoc]
      · rfl
      · exact List.cons_ne_nil d ds

theorem toText_append (s t : Space) : (s.append t).toText = s.toText ++ t.toText := by
  obtain ⟨w, cs⟩ := s
  cases cs with
  | nil => simp [append, mapLastWhitespace, toText]
  | cons c cs =>
    have h := toText_mapLastSuffix t.whitespace (List.cons_ne_nil c cs)
    simp only [append, mapLastWhitespace, toText, List.flatMap_append, h, List.append_assoc]

end Space

namespace Shape

/-- What gathering does to a layer: it empties the leading space of the first part, or the space
that is printed first, or it does nothing. -/
theorem gathered_cases (x : Shape Tree) :
    (∃ part ps, x.gatheredPart? = some part ∧ x.gatheredSpace = part.leading ∧
      x.pieces = .part part :: ps ∧ x.gathered.pieces = .part (part.withLeading .empty) :: ps) ∨
    (∃ l ps, x.gatheredPart? = none ∧ x.pieces = .space l x.gatheredSpace :: ps ∧
      x.gathered.pieces = .space l .empty :: ps) ∨
    (x.gatheredPart? = none ∧ x.gatheredSpace = .empty ∧ x.gathered = x) := by
  cases x
  case classDeclaration d =>
    obtain ⟨annotations, modifiers, beforeKind, kind, name, ps, superclass, interfaces, body,
      type⟩ := d
    cases annotations with
    | cons a annotations => exact .inr (.inr ⟨rfl, rfl, rfl⟩)
    | nil =>
      cases modifiers with
      | cons m ms => exact .inl ⟨m, _, rfl, rfl, rfl, rfl⟩
      | nil => exact .inr (.inl ⟨_, _, rfl, rfl, rfl⟩)
  case methodDeclaration d =>
    obtain ⟨annotations, modifiers, ps, returnType, name, parameters, thrown, body, type⟩ := d
    cases annotations with
    | cons a annotations => exact .inr (.inr ⟨rfl, rfl, rfl⟩)
    | nil =>
      cases modifiers with
      | cons m ms => exact .inl ⟨m, _, rfl, rfl, rfl, rfl⟩
      | nil =>
        cases ps with
        | some ps => exact .inr (.inl ⟨_, _, rfl, rfl, rfl⟩)
        | none =>
          cases returnType with
          | some r => exact .inl ⟨r, _, rfl, rfl, rfl, rfl⟩
          | none => exact .inl ⟨name, _, rfl, rfl, rfl, rfl⟩
  case variableDeclarations d =>
    obtain ⟨annotations, modifiers, type, beforeDots, declarators⟩ := d
    cases annotations with
    | cons a annotations => exact .inr (.inr ⟨rfl, rfl, rfl⟩)
    | nil =>
      cases modifiers with
      | cons m ms => exact .inl ⟨m, _, rfl, rfl, rfl, rfl⟩
      | nil =>
        cases type with
        | some type => exact .inl ⟨type, _, rfl, rfl, rfl, rfl⟩
        | none => exact .inr (.inr ⟨rfl, rfl, rfl⟩)
  all_goals exact .inr (.inr ⟨rfl, rfl, rfl⟩)

end Shape

namespace Tree

/-- Whether a statement is followed by a semicolon does not depend on its spaces. -/
theorem needsSemicolon_bare (t : Tree) : t.bare.needsSemicolon = t.needsSemicolon := by
  induction t using Tree.induction with
  | node t ih =>
    obtain ⟨i, s, x⟩ := t
    rw [bare_eq]
    have h := Shape.rel_bareWith bare x
    change (node i .empty (x.bareWith bare)).needsSemicolon = _
    generalize x.bareWith bare = y at h
    cases h with
    | @labeled label label' statement statement' _ hstatement =>
      rw [needsSemicolon, needsSemicolon, hstatement]
      exact ih statement (by simp [children, shape, Shape.children])
    | @methodDeclaration d e _ _ _ _ _ _ _ hbody _ =>
      have isNone {o p : Option Tree} (ho : Option.Rel (fun a b => b = bare a) o p) :
          p.isNone = o.isNone := by
        cases ho <;> rfl
      exact isNone hbody
    | _ => simp only [needsSemicolon]

/-- The second tree is the first with other spaces, and prints the same text. -/
structure PrintsAlike (t u : Tree) : Prop where
  bare : t.bare = u.bare
  toText : t.toText = u.toText

theorem PrintsAlike.needsSemicolon {t u : Tree} (h : t.PrintsAlike u) :
    t.needsSemicolon = u.needsSemicolon := by
  rw [← needsSemicolon_bare, h.bare, needsSemicolon_bare]

theorem PrintsAlike.congruence :
    Congruence PrintsAlike fun _ s s' => s.toText = s'.toText where
  space _ _ := rfl
  trans h h' := ⟨h.bare.trans h'.bare, h.toText.trans h'.toText⟩
  node {i s s' x y} hs h :=
    { bare := bare_node (fun _ _ h => h.bare) h
      toText := by
        have hpieces : x.pieces.flatMap pieceText = y.pieces.flatMap pieceText := by
          have hps := h.pieces
          generalize x.pieces = ps, y.pieces = qs at hps ⊢
          induction hps with
          | nil => rfl
          | @cons p q ps qs hpq _ ih =>
            have htext : pieceText p = pieceText q := by
              cases hpq with
              | word => rfl
              | space hs => exact hs
              | part ht => exact ht.toText
              | terminator ht => rw [pieceText, pieceText, ht.needsSemicolon]
            rw [List.flatMap_cons, List.flatMap_cons, htext, ih]
        rw [toText_eq, toText_eq]
        exact congrArg₂ _ hs hpieces }

/-- Gathering leading spaces leaves the text. -/
theorem printsAlike_gatherLeading (t : Tree) : t.PrintsAlike t.gatherLeading where
  bare := (respaced_gatherLeading t).bare
  toText := by
    cases t with
    | node i s x =>
      rw [Shape.gatherLeading_node, toText_eq, toText_eq, leading, leading, shape, shape,
        Space.toText_append, List.append_assoc]
      refine congrArg _ ?_
      obtain ⟨part, ps, -, hspace, hx, hy⟩ | ⟨l, ps, -, hx, hy⟩ | ⟨-, hspace, hsame⟩ :=
        x.gathered_cases
      · obtain ⟨j, s', z⟩ := part
        rw [hspace, hx, hy, List.flatMap_cons, List.flatMap_cons, pieceText, pieceText, toText_eq,
          toText_eq]
        simp [leading, shape, withLeading]
      · rw [hx, hy, List.flatMap_cons, List.flatMap_cons, pieceText, pieceText]
        rfl
      · rw [hspace, hsame]
        rfl

/-! ### What holds of all spaces -/

theorem unprinted_gathered (x : Shape Tree) : x.gathered.unprinted = x.unprinted := by
  -- only an import has a space that is not printed
  have hnone (y : Shape Tree) (hy : y.kind ≠ .importDeclaration) : y.unprinted = [] := by
    cases y with
    | importDeclaration => exact absurd rfl hy
    | _ => rfl
  by_cases hx : x.kind = .importDeclaration
  · cases x with
    | importDeclaration => rfl
    | _ => cases hx
  · rw [hnone x hx, hnone _ (kind_gathered x ▸ hx)]

variable {Q : Space → Prop}

theorem EachSpace.withLeading {t : Tree} (h : t.EachSpace Q) {s : Space} (hs : Q s) :
    (t.withLeading s).EachSpace Q := by
  cases t with
  | node i s' x => exact eachSpace_iff.2 ⟨hs, (eachSpace_iff.1 h).2⟩

/-- A property of spaces that one space followed by another has is there after gathering. -/
theorem eachSpace_gatherLeading (hempty : Q .empty)
    (happend : ∀ s s', Q s → Q s' → Q (s.append s')) {t : Tree} (h : t.EachSpace Q) :
    t.gatherLeading.EachSpace Q := by
  obtain ⟨i, s, x⟩ := t
  obtain ⟨hs, hunprinted, hpieces⟩ := eachSpace_iff.1 h
  have hpieces : ∀ p ∈ x.pieces, p.EachSpace Q := hpieces
  rw [Shape.gatherLeading_node]
  obtain ⟨part, ps, -, hspace, hx, hy⟩ | ⟨l, ps, -, hx, hy⟩ | ⟨-, hspace, hsame⟩ :=
    x.gathered_cases
  · rw [hx, List.forall_mem_cons] at hpieces
    have hpart : part.EachSpace Q := hpieces.1
    refine eachSpace_iff.2 ⟨happend _ _ hs (hspace ▸ (eachSpace_iff.1 hpart).1), ?_, ?_⟩
    · exact (unprinted_gathered x).symm ▸ hunprinted
    · exact hy.symm ▸ List.forall_mem_cons.2 ⟨hpart.withLeading hempty, hpieces.2⟩
  · rw [hx, List.forall_mem_cons] at hpieces
    refine eachSpace_iff.2 ⟨happend _ _ hs hpieces.1, ?_, ?_⟩
    · exact (unprinted_gathered x).symm ▸ hunprinted
    · exact hy.symm ▸ List.forall_mem_cons.2 ⟨hempty, hpieces.2⟩
  · rw [hspace, hsame, Space.append_empty]
    exact h

/-! ### Node by node -/

/-- The node at an address, which is the way to it from the root, by the places of parts among
parts. -/
def subtreeAt (t : Tree) : List Nat → Option Tree
  | [] => some t
  | i :: rest => t.children[i]?.bind fun c => c.subtreeAt rest

/-- The declaration around the node at an address takes over the leading space of the node; for the
root itself as is given. -/
def isTakenAt (taken : Bool) (t : Tree) : List Nat → Bool
  | [] => taken
  | i :: rest =>
    t.children[i]?.any fun c => c.isTakenAt (i == 0 && t.shape.gatheredPart?.isSome) rest

/-- The second node is the first after the pass: what stands in front of it is what stood there,
unless that has been taken over, and then what it takes over itself.  What is left in front of its
own first part is what that part takes over. -/
structure GathersInto (taken : Bool) (v w : Tree) : Prop where
  leading : w.leading = (if taken then .empty else v.leading).append v.shape.gatheredSpace
  first : w.shape.gatheredSpace =
    (v.shape.gatheredPart?.map fun part => part.shape.gatheredSpace).getD .empty

/-- The tree without its leading space, if that is taken over. -/
def released (taken : Bool) (t : Tree) : Tree := if taken then t.withLeading .empty else t

theorem shape_released (taken : Bool) (t : Tree) : (t.released taken).shape = t.shape := by
  cases t
  unfold released
  split <;> rfl

theorem leading_released (taken : Bool) (t : Tree) :
    (t.released taken).leading = if taken then .empty else t.leading := by
  cases t
  unfold released
  split <;> rfl

theorem map_released_false (o : Option Tree) : o.map (released false) = o := by
  cases o <;> rfl

theorem children_gathered (x : Shape Tree) (i : Nat) : x.gathered.children[i]? =
    x.children[i]?.map (released (i == 0 && x.gatheredPart?.isSome)) := by
  rw [← Shape.parts_pieces, ← Shape.parts_pieces]
  obtain ⟨part, ps, hpart, -, hx, hy⟩ | ⟨l, ps, hpart, hx, hy⟩ | ⟨hpart, -, hsame⟩ :=
    x.gathered_cases
  · rw [hx, hy, hpart, Piece.parts_part, Piece.parts_part]
    cases i with
    | zero => rfl
    | succ i => exact (map_released_false _).symm
  · rw [hx, hy, hpart, Option.isSome_none, Bool.and_false, map_released_false]
    rfl
  · rw [hsame, hpart, Option.isSome_none, Bool.and_false, map_released_false]

section Rewriting

variable {n : Nat} (parent : Option NodeKind) {t : Tree}

theorem gathers_rewriteWithin (hn : t.height ≤ n) (taken : Bool) : t.GathersInto taken
    ((t.released taken).rewriteWithin (fun _ => gatherLeading) (fun _ s => s) n parent) := by
  obtain - | n := n
  · rw [height_eq] at hn
    omega
  rw [rewriteWithin_gatherLeading]
  refine ⟨by rw [Tree.leading, leading_released, shape_released], ?_⟩
  rw [Tree.shape, shape_released, (Shape.gathered_map t.shape).2]
  cases hpart : t.shape.gatheredPart? with
  | none => rfl
  | some part =>
    have hlt := height_lt_of_mem_children (t := t) (Shape.mem_children_of_gatheredPart? hpart)
    exact leading_rewriteWithin_released _ (by omega)

/-- The pass, at every address. -/
theorem gathers_subtreeAt (path : List Nat) (hn : t.height ≤ n) (taken : Bool) {v : Tree}
    (hv : t.subtreeAt path = some v) :
    ∃ w, ((t.released taken).rewriteWithin (fun _ => gatherLeading) (fun _ s => s) n
        parent).subtreeAt path = some w ∧ v.GathersInto (t.isTakenAt taken path) w := by
  induction path generalizing n t taken parent with
  | nil =>
    cases hv
    exact ⟨_, rfl, gathers_rewriteWithin parent hn taken⟩
  | cons i rest ih =>
    obtain - | n := n
    · rw [height_eq] at hn
      omega
    obtain ⟨c, hc, hcv⟩ := Option.bind_eq_some_iff.1 hv
    have hlt : c.height < t.height := height_lt_of_mem_children (List.mem_of_getElem? hc)
    obtain ⟨w, hw, hgathers⟩ := ih (some (t.released taken).kind) (t := c) (n := n) (by omega)
      (i == 0 && t.shape.gatheredPart?.isSome) hcv
    refine ⟨w, ?_, ?_⟩
    · rw [rewriteWithin_gatherLeading, subtreeAt, children, Tree.shape, shape_released,
        Shape.children_map, List.getElem?_map, children_gathered]
      have hc : t.shape.children[i]? = some c := hc
      rw [hc]
      exact hw
    · rw [isTakenAt, hc]
      exact hgathers

end Rewriting

end Tree

/-! ### The pass -/

namespace Pass

/-- **Gathering leading spaces** leaves the text and everything that is no space, and moves what
stands in front of the first part of a declaration without annotations to the declaration. -/
theorem gathers_leadingSpace (styles : Styles) (t : Tree) :
    ∃ u, run styles none [.root] .leadingSpace t = .ok u ∧ t.bare = u.bare ∧
      u.toText = t.toText ∧ ∀ path v, t.subtreeAt path = some v →
        ∃ w, u.subtreeAt path = some w ∧ v.GathersInto (t.isTakenAt false path) w := by
  have hrun : run styles none [.root] .leadingSpace t =
      .ok (t.rewrite (fun _ => Tree.gatherLeading) (fun _ s => s) none) :=
    runPlain_eq (Visitor.isLocal_ofNodes _) t
  obtain ⟨u, hu, halike⟩ : ∃ u, run styles none [.root] .leadingSpace t = .ok u ∧
      t.PrintsAlike u :=
    exists_runPlain fun values => Visitor.yields_ofNodes Tree.PrintsAlike.congruence
      (fun _ => Tree.printsAlike_gatherLeading) values t
  obtain rfl := Except.ok.inj (hrun.symm.trans hu)
  exact ⟨_, hu, halike.bare, halike.toText.symm, fun path v hv =>
    Tree.gathers_subtreeAt none path (Nat.le_refl t.height) false hv⟩

/-- The class in the place of a type has taken over the space before its keyword, and keeps it in
front of the variables that have taken over its own. -/
theorem exists_inner_space : ¬ ∀ (styles : Styles) (t u : Tree),
    run styles none [.root] .leadingSpace t = .ok u →
      ∀ v ∈ u.preorder, v.shape.gatheredSpace = .empty := by
  intro hempty
  have hrun := runPlain_eq (Visitor.isLocal_ofNodes fun _ => Tree.gatherLeading) localClass
  have hspace := hempty .standard localClass _ hrun _ (Tree.self_mem_preorder _)
  have hgathers := Tree.gathers_rewriteWithin none (Nat.le_refl localClass.height) false
  have hfirst := hgathers.first.symm.trans hspace
  exact absurd hfirst (by decide)

end Pass

end JavaSource
