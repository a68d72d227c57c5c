import JavaSource.Proofs.Deletion
import JavaSource.Proofs.ForHeader
import JavaSource.Proofs.Inner
import JavaSource.Proofs.LocalResults
import JavaSource.Proofs.Respaced

/-!
# Local passes beside deleted statements

The local passes do the same to a tree without some statements as to the tree with them
(`Tree.Rule.rewrite`), where each block keeps its first statement and a block of members keeps
all of them (`Tree.Spares`).
-/

namespace JavaSource

namespace Tree

variable {p : NodeId → Bool} {parent : Option NodeKind} {t u : Tree}

/-! ### Bare trees -/

theorem id_bare (t : Tree) : t.bare.id = t.id := by rw [bare_eq]; rfl

theorem height_bare (t : Tree) : t.bare.height = t.height := by
  induction t using Tree.induction with
  | node t ih =>
    rw [height_eq, height_eq, children_bare, List.map_map]
    congr 2
    exact List.map_congr_left ih

theorem Respaced.id (h : t.Respaced u) : u.id = t.id := by
  rw [← id_bare t, ← id_bare u, h.bare]

theorem Respaced.height (h : t.Respaced u) : u.height = t.height := by
  rw [← height_bare t, ← height_bare u, h.bare]

/-! ### Trees that keep enough -/

/-- When the statements that satisfy `p` are deleted from the tree, below a node of kind `parent`,
each block that is left keeps its first statement, and a block of members keeps all of them. -/
inductive Spares (p : NodeId → Bool) : Option NodeKind → Tree → Prop
  | mk {parent : Option NodeKind} {t : Tree}
    (first : t.kind = .block → ∀ c ∈ t.children.head?, p c.id = false)
    (members : t.kind = .block → parent.any NodeKind.hasMembers → ∀ c ∈ t.children, p c.id = false)
    (parts : ∀ c ∈ t.children, (t.kind = .block → p c.id = false) → Spares p (some t.kind) c) :
    Spares p parent t

theorem spares_iff : t.Spares p parent ↔
    (t.kind = .block → ∀ c ∈ t.children.head?, p c.id = false) ∧
    (t.kind = .block → parent.any NodeKind.hasMembers → ∀ c ∈ t.children, p c.id = false) ∧
    ∀ c ∈ t.children, (t.kind = .block → p c.id = false) → c.Spares p (some t.kind) :=
  ⟨fun ⟨first, members, parts⟩ => ⟨first, members, parts⟩, fun h => ⟨h.1, h.2.1, h.2.2⟩⟩

/-- Where no statement is deleted enough is kept. -/
theorem spares_of_forall (h : ∀ a ∈ t.preorder, p a.id = false) : t.Spares p parent := by
  induction t using Tree.induction generalizing parent with
  | node t ih =>
    have hkept (c : Tree) (hc : c ∈ t.children) : p c.id = false :=
      h c (mem_preorder_of_mem_children hc c.self_mem_preorder)
    refine spares_iff.2 ⟨fun _ c hc => hkept c (List.mem_of_mem_head? hc), fun _ _ => hkept, ?_⟩
    exact fun c hc _ => ih c hc fun a ha => h a (mem_preorder_of_mem_children hc ha)

theorem spares_bare : t.bare.Spares p parent ↔ t.Spares p parent := by
  induction t using Tree.induction generalizing parent with
  | node t ih =>
    have hfirst : (∀ c ∈ t.bare.children.head?, p c.id = false) ↔
        ∀ c ∈ t.children.head?, p c.id = false := by
      rw [children_bare, List.head?_map]
      cases t.children.head? <;> simp [id_bare]
    rw [spares_iff, spares_iff, kind_bare, hfirst, children_bare]
    simp only [List.forall_mem_map, id_bare]
    refine and_congr_right fun _ => and_congr_right fun _ => forall₂_congr fun c hc => ?_
    rw [ih c hc]

theorem Spares.respaced (h : t.Spares p parent) (htu : t.Respaced u) : u.Spares p parent := by
  rw [← spares_bare, ← htu.bare, spares_bare]
  exact h

/-! ### Deletion is an inner change -/

theorem inner_without (p : NodeId → Bool) : Inner (without p) where
  leading := leading_without
  kind := kind_without
  mapLeading f t := (without_mapLeading t f).symm
  shape t ht := by rw [shape_without, Shape.without_of_kind ht]
  withShape t x hx := by rw [without_withShape, Shape.without_of_kind hx]

end Tree

/-! ### Rules for one node -/

namespace Tree

variable {p : NodeId → Bool} {parent : Option NodeKind} {t u : Tree}

/-- Layers that are no blocks may be changed before or after the deletion, if the change does not
depend on the parts. -/
theorem without_relayer {F : Shape Tree → Shape Tree} (ht : t.kind ≠ .block)
    (hkind : (F t.shape).kind = t.kind)
    (hF : F (t.shape.map (without p)) = (F t.shape).map (without p)) :
    (t.withShape (F t.shape)).without p = (t.without p).withShape (F (t.without p).shape) := by
  rw [shape_without, Shape.without_of_kind ht, hF]
  exact ((inner_without p).withShape t _ (by rwa [hkind])).symm

theorem without_gatherLeading (t : Tree) :
    t.gatherLeading.without p = (t.without p).gatherLeading :=
  ((inner_without p).gatherLeading t).symm

theorem without_separateWords (t : Tree) :
    t.separateWords.without p = (t.without p).separateWords := by
  by_cases ht : t.kind = .block
  · obtain ⟨afterStatic, xs, beforeClose, hshape⟩ := exists_block ht
    rw [separateWords, separateWords, hshape, shape_without_block hshape]
    exact without_withShape_block ..
  · refine without_relayer (F := Shape.separateWords) ht ?_ ((inner_without p).separateWords _)
    rw [kind]
    cases t.shape <;> rfl

theorem mapEmptyBlock_of_kind (ht : t.kind ≠ .block) (f : Space → Space) :
    t.mapEmptyBlock f = t := by
  obtain ⟨i, s, x⟩ := t
  cases x <;> first | rfl | exact absurd rfl ht

/-- A block of members is empty after the deletion if it was before. -/
theorem mapEmptyBlock_without (ht : t.Spares p (some .classDeclaration)) (f h : Space → Space) :
    ((t.without p).mapLeading f).mapEmptyBlock h = ((t.mapLeading f).mapEmptyBlock h).without p := by
  have hkind (t : Tree) : (t.mapLeading f).kind = t.kind := by cases t; rfl
  have hshape (t : Tree) : (t.mapLeading f).shape = t.shape := by cases t; rfl
  by_cases hblock : t.kind = .block
  · obtain ⟨-, hkept, -⟩ := spares_iff.1 ht
    obtain ⟨afterStatic, xs, beforeClose, hx⟩ := exists_block hblock
    have hxs : keep p xs = xs.map (Followed.map (without p)) := by
      refine keep_of_forall fun x hmem => hkept hblock rfl _ ?_
      rw [children, hx]
      exact List.mem_map_of_mem hmem
    rw [mapEmptyBlock, mapEmptyBlock, hshape, hshape, shape_without_block hx, hx, hxs]
    cases xs with
    | nil =>
      refine Eq.trans ?_ (without_withShape_block (t.mapLeading f) afterStatic [] _).symm
      rw [without_mapLeading]
      rfl
    | cons x xs => exact (without_mapLeading t f).symm
  · rw [mapEmptyBlock_of_kind (by rwa [hkind, kind_without]),
      mapEmptyBlock_of_kind (by rwa [hkind]), without_mapLeading]

theorem without_pad (styles : Styles) (ht : t.Spares p parent) :
    (t.pad styles parent).without p = (t.without p).pad styles parent := by
  have G := inner_without p
  have hshape (t : Tree) := shape_padLeading styles.spacing (parent == some .annotationUse) t
  have hkind (t : Tree) : (t.padLeading styles.spacing (parent == some .annotationUse)).kind = t.kind := by rw [kind, hshape]; rfl
  rw [pad, pad, ← hshape t, ← hshape (t.without p), G.padLeading]
  by_cases hblock : t.kind = .block
  · obtain ⟨afterStatic, xs, beforeClose, hx⟩ := exists_block hblock
    have hx : (t.padLeading styles.spacing (parent == some .annotationUse)).shape = _ :=
      (hshape t).trans hx
    rw [hx, shape_without_block hx]
    exact without_withShape_block ..
  · refine without_relayer (by rwa [hkind]) ?_ ?_
    · rw [hkind, hshape, kind]
      cases t.shape <;> rfl
    · rw [hshape]
      refine G.pad styles _ _ hblock fun d hd f h => mapEmptyBlock_without ?_ f h
      have hbody : d.body ∈ t.children := by rw [children, hd]; simp [Shape.children]
      have hclass : t.kind = .classDeclaration := by rw [kind, hd]; rfl
      exact hclass ▸ (spares_iff.1 ht).2.2 _ hbody fun h => absurd h hblock

theorem without_wrapParts (ht : t.Spares p parent) :
    (t.withShape t.shape.wrapParts).without p =
      (t.without p).withShape (t.without p).shape.wrapParts := by
  by_cases hblock : t.kind = .block
  · obtain ⟨hfirst, -⟩ := spares_iff.1 ht
    obtain ⟨afterStatic, xs, beforeClose, hx⟩ := exists_block hblock
    have hwrapped (t : Tree) : t.wrapped.without p = (t.without p).wrapped := without_mapLeading t _
    have hid (t : Tree) : t.wrapped.id = t.id := by cases t; rfl
    have hkeep : keep p (mapRest (Followed.map wrapped) xs) =
        mapRest (Followed.map wrapped) (keep p xs) := by
      rw [children, hx] at hfirst
      cases xs with
      | nil => rfl
      | cons x xs =>
        have hx : p x.element.id = false := hfirst hblock _ rfl
        rw [mapRest, keep_cons hx, keep_cons hx, mapRest, keep_map hid hwrapped]
    rw [hx, shape_without_block hx, Shape.wrapParts, Shape.wrapParts, ← hkeep]
    exact without_withShape_block ..
  · refine without_relayer (F := Shape.wrapParts) hblock ?_ ((inner_without p).wrapParts _ hblock)
    rw [kind]
    cases t.shape <;> rfl

@[simp] theorem id_boundBlankLines (limit least : Nat) (t : Tree) :
    (t.boundBlankLines limit least).id = t.id := by cases t; rfl

theorem without_boundBlankLines (limit least : Nat) (t : Tree) :
    (t.boundBlankLines limit least).without p = (t.without p).boundBlankLines limit least :=
  without_mapLeading t _

theorem boundStatements_const (limit : Nat) (previous : Tree) (xs : List (Followed Tree)) :
    boundStatements limit (fun _ _ => 0) previous xs =
      xs.map (Followed.map (boundBlankLines limit 0)) := by
  induction xs generalizing previous with
  | nil => rfl
  | cons x xs ih => rw [boundStatements, ih, List.map_cons]

theorem keep_boundStatements (style : BlankLineStyle) (limit : Nat) (previous : Tree)
    {xs : List (Followed Tree)} (h : ∀ x ∈ xs, p x.element.id = false) :
    keep p (boundStatements limit style.between previous xs) =
      boundStatements limit style.between (previous.without p) (keep p xs) := by
  have hbetween (t u : Tree) : style.between (t.without p) (u.without p) = style.between t u := by
    rw [BlankLineStyle.between, kind_without, kind_without, BlankLineStyle.between]
  induction xs generalizing previous with
  | nil => rfl
  | cons x xs ih =>
    have hx : p x.element.id = false := h x List.mem_cons_self
    have hbound : p (x.element.boundBlankLines limit (style.between previous x.element)).id =
        false := by rwa [id_boundBlankLines]
    rw [boundStatements, keep_cons hbound, keep_cons hx, boundStatements,
      ih x.element fun y hy => h y (List.mem_cons_of_mem x hy)]
    refine congrArg₂ List.cons (congrArg (Followed.mk · x.after) ?_) rfl
    exact (without_boundBlankLines ..).trans (congrArg (boundBlankLines limit · _) (hbetween ..).symm)

theorem keep_boundBlock (style : BlankLineStyle) {xs : List (Followed Tree)}
    (hfirst : ∀ x ∈ xs.head?, p x.element.id = false)
    (hmembers : parent.any NodeKind.hasMembers → ∀ x ∈ xs, p x.element.id = false) :
    keep p (style.boundBlock parent xs) = style.boundBlock parent (keep p xs) := by
  cases xs with
  | nil => rfl
  | cons x xs =>
    have hx : p x.element.id = false := hfirst _ rfl
    unfold BlankLineStyle.boundBlock
    dsimp only
    rw [keep_cons hx, keep_cons (by rwa [← id_boundBlankLines] at hx)]
    refine congrArg₂ List.cons (congrArg (Followed.mk · x.after) (without_boundBlankLines ..)) ?_
    by_cases hparent : parent.any NodeKind.hasMembers
    · simp only [hparent, if_true]
      exact keep_boundStatements style _ _ fun y hy => hmembers hparent y (List.mem_cons_of_mem x hy)
    · simp only [hparent, Bool.false_eq_true, if_false, boundStatements_const]
      exact keep_map (id_boundBlankLines _ _) (without_boundBlankLines _ _) xs

theorem without_bound (style : BlankLineStyle) (ht : t.Spares p parent) :
    (t.withShape (style.bound parent t.shape)).without p =
      (t.without p).withShape (style.bound parent (t.without p).shape) := by
  by_cases hblock : t.kind = .block
  · obtain ⟨hfirst, hmembers, -⟩ := spares_iff.1 ht
    obtain ⟨afterStatic, xs, beforeClose, hx⟩ := exists_block hblock
    rw [children, hx] at hfirst hmembers
    have hkeep : keep p (style.boundBlock parent xs) = style.boundBlock parent (keep p xs) := by
      refine keep_boundBlock style (fun x hx => hfirst hblock _ ?_) fun hm x hx => ?_
      · cases xs with
        | nil => cases hx
        | cons y ys => exact Option.some.inj hx ▸ rfl
      · exact hmembers hblock hm _ (List.mem_map_of_mem hx)
    rw [hx, shape_without_block hx, BlankLineStyle.bound, BlankLineStyle.bound, ← hkeep]
    exact without_withShape_block ..
  · refine without_relayer hblock ?_ ((inner_without p).bound style parent _ hblock)
    rw [kind]
    cases t.shape <;> rfl

/-! ### Rewriting -/

/-- The function changes white space only, and does the same to a node with and without the
statements that satisfy `p`, where enough are kept. -/
structure Rule (p : NodeId → Bool) (f : Option NodeKind → Tree → Tree) : Prop where
  respaced : ∀ parent (t : Tree), t.Respaced (f parent t)
  without : ∀ parent (t : Tree), t.Spares p parent → (f parent t).without p = f parent (t.without p)

variable {f : Option NodeKind → Tree → Tree} {h : SpaceSlot → Space → Space}

theorem rewriteWithin_eq (hf : ∀ parent (t : Tree), t.Respaced (f parent t)) {n m : Nat} {t : Tree}
    {parent : Option NodeKind} (hn : t.height ≤ n) (hm : t.height ≤ m) :
    t.rewriteWithin f h n parent = t.rewriteWithin f h m parent := by
  have hpos : 0 < t.height := by rw [height_eq]; omega
  induction n generalizing m t parent with
  | zero => omega
  | succ n ih =>
    obtain - | m := m
    · omega
    · have hparts : ∀ c ∈ (f parent t).children, c.rewriteWithin f h n (some t.kind) =
          c.rewriteWithin f h m (some t.kind) := by
        intro c hc
        have hlt := height_lt_of_mem_children hc
        rw [(hf parent t).height] at hlt
        exact ih (by omega) (by omega) (by rw [height_eq]; omega)
      rw [rewriteWithin, rewriteWithin]
      exact congrArg (node _ _) (Shape.respaced_congr hparts)

theorem id_rewriteWithin (hf : ∀ parent (t : Tree), t.Respaced (f parent t)) (n : Nat)
    (parent : Option NodeKind) (t : Tree) : (t.rewriteWithin f h n parent).id = t.id := by
  cases n with
  | zero => rfl
  | succ n => exact (hf parent t).id

/-- Rewriting by a rule does the same to a tree with and without some statements. -/
theorem Rule.rewriteWithin (hf : Rule p f) (n : Nat) (ht : t.Spares p parent) :
    (t.rewriteWithin f h n parent).without p = (t.without p).rewriteWithin f h n parent := by
  induction n generalizing t parent with
  | zero => rfl
  | succ n ih =>
    have hu := ht.respaced (hf.respaced parent t)
    have hkind : (f parent t).kind = t.kind := (kind_eq_of_bare (hf.respaced parent t).bare).symm
    have hparts : ∀ c ∈ ((f parent t).shape.without p).children,
        (c.rewriteWithin f h n (some t.kind)).without p =
          (c.without p).rewriteWithin f h n (some t.kind) := by
      intro c hc
      refine ih (hkind ▸ (spares_iff.1 hu).2.2 c (Shape.children_without hc) fun hblock => ?_)
      exact Shape.kept_of_mem_children hc hblock
    rw [Tree.rewriteWithin, Tree.rewriteWithin, ← hf.without parent t ht, without_eq]
    simp only [id_without, leading_without, kind_without, shape_without]
    refine congrArg (node _ _) ?_
    rw [shape, Shape.without_respaced (id_rewriteWithin hf.respaced _ _), Shape.map_eq_respaced,
      Shape.map_eq_respaced, Shape.respaced_respaced, Shape.respaced_respaced]
    exact Shape.respaced_congr hparts

theorem Rule.rewrite (hf : Rule p f) (ht : t.Spares p parent) :
    (t.rewrite f h parent).without p = (t.without p).rewrite f h parent := by
  rw [Tree.rewrite, Tree.rewrite, hf.rewriteWithin _ ht]
  exact rewriteWithin_eq hf.respaced (height_without_le t) (Nat.le_refl _)

end Tree

end JavaSource
