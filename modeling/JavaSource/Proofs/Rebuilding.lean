import JavaSource.Proofs.Coupling

/-!
# Changing the parts and the spaces of a layer

`Shape.respaced h g` is a layer with its parts changed by `g` and its spaces by `h`, each by its
slot; `Shape.map g` keeps the spaces.  Changes one after another are one change
(`Shape.respaced_respaced`), and only what they do at the parts of the layer counts
(`Shape.respaced_congr`).
-/

namespace JavaSource

variable {α β γ : Type}

theorem run_option_mapM {γ δ : Type} (f : γ → Id δ) (o : Option γ) :
    Id.run (o.mapM f) = o.map fun a => (f a).run := by
  cases o <;> rfl

theorem run_list_mapM {γ δ : Type} (f : γ → Id δ) (as : List γ) :
    Id.run (as.mapM f) = as.map fun a => (f a).run := by
  induction as with
  | nil => rfl
  | cons a as ih => rw [List.mapM_cons, List.map_cons, ← ih]; rfl

/-- The actions that change each part by `g` and each space by `h`. -/
def SlotActions.respacing (h : SpaceSlot → Space → Space) (g : α → β) : SlotActions Id α β where
  part := g
  space := h
  followed l x := ⟨g x.element, h (.after l) x.after⟩
  preceded l x := ⟨h (.before l) x.before, g x.element⟩
  word l := h (.before l)
  series l s :=
    ⟨h (.opening l) s.before, s.elements.map fun x => ⟨g x.element, h (.after l.element) x.after⟩⟩

namespace Shape

/-- The layer with each part changed by `g` and each space by `h`. -/
def respaced (h : SpaceSlot → Space → Space) (g : α → β) (x : Shape α) : Shape β :=
  Id.run (x.traverse (.respacing h g))

theorem respaced_block (h : SpaceSlot → Space → Space) (g : α → β) (afterStatic : Option Space)
    (xs : List (Followed α)) (beforeClose : Space) :
    (block afterStatic xs beforeClose).respaced h g =
      block (afterStatic.map (h .afterStatic))
        (xs.map fun x => ⟨g x.element, h (.after .blockStatement) x.after⟩)
        (h .blockEnd beforeClose) := by
  simp only [respaced, traverse, SlotActions.respacing, run_option_mapM, run_list_mapM, Id.run_bind,
    Id.run_pure]
  rfl

theorem respaced_caseClause (h : SpaceSlot → Space → Space) (g : α → β) (value : Option α)
    (s : Series α) :
    (caseClause value s).respaced h g =
      caseClause (value.map g) ⟨h (.opening .caseStatements) s.before,
        s.elements.map fun x => ⟨g x.element, h (.after .caseStatement) x.after⟩⟩ := by
  simp only [respaced, traverse, SlotActions.respacing, run_option_mapM, Id.run_bind, Id.run_pure]
  rfl

theorem respaced_ifStatement (h : SpaceSlot → Space → Space) (g : α → β) (condition : α)
    (thenPart : Followed α) (alternative : Option α) :
    (ifStatement condition thenPart alternative).respaced h g =
      ifStatement (g condition) ⟨g thenPart.element, h (.after .thenBody) thenPart.after⟩
        (alternative.map g) := by
  simp only [respaced, traverse, SlotActions.respacing, run_option_mapM, Id.run_bind, Id.run_pure]
  rfl

theorem respaced_tryStatement (h : SpaceSlot → Space → Space) (g : α → β) (body : α)
    (catches : List α) (finallyBlock : Option (Preceded α)) :
    (tryStatement body catches finallyBlock).respaced h g =
      tryStatement (g body) (catches.map g)
        (finallyBlock.map fun x => ⟨h (.before .finallyBlock) x.before, g x.element⟩) := by
  simp only [respaced, traverse, SlotActions.respacing, run_option_mapM, run_list_mapM, Id.run_bind,
    Id.run_pure]
  rfl

theorem map_eq_respaced (g : α → β) (x : Shape α) : x.map g = x.respaced (fun _ s => s) g := rfl

theorem map_unary (g : α → β) (beforeOperator : Space) (operator : UnaryOperator) (operand : α) :
    (unary beforeOperator operator operand).map g = unary beforeOperator operator (g operand) := by
  cases operator <;> rfl

end Shape

section Equal

variable {R : α → β → Prop} {h k : SpaceSlot → Space → Space} {f : α → γ} {g : β → γ}

theorem map_eq_of_forall₂ {l : FollowedSlot} (hR : ∀ a b, R a b → f a = g b)
    {xs : List (Followed α)} {ys : List (Followed β)}
    (hxs : List.Forall₂ (Followed.Rel R (fun l s s' => h l s = k l s') l) xs ys) :
    xs.map (fun x => (⟨f x.element, h (.after l) x.after⟩ : Followed γ)) =
      ys.map fun y => ⟨g y.element, k (.after l) y.after⟩ := by
  induction hxs with
  | nil => rfl
  | cons hx _ ih => rw [List.map_cons, List.map_cons, ih, hR _ _ hx.element, hx.after]

theorem SlotActions.agree_respacing (hR : ∀ a b, R a b → f a = g b) :
    SlotActions.Agree R (fun l s s' => h l s = k l s') (respacing h f) (respacing k g) where
  part := hR
  space _ _ _ hs := hs
  followed _ _ _ hx := congrArg₂ Followed.mk (hR _ _ hx.element) hx.after
  preceded _ _ _ hx := congrArg₂ Preceded.mk hx.before (hR _ _ hx.element)
  word _ _ _ hs := hs
  series _ _ _ hs := congrArg₂ Series.mk hs.before (map_eq_of_forall₂ hR hs.elements)

/-- Layers are the same after changes that make their parts and spaces the same. -/
theorem Shape.Rel.respaced_eq (hR : ∀ a b, R a b → f a = g b) {x : Shape α} {y : Shape β}
    (hxy : Rel R (fun l s s' => h l s = k l s') x y) : x.respaced h f = y.respaced k g :=
  hxy.traverse_eq (SlotActions.agree_respacing hR)

end Equal

section Respaced

variable {h : SpaceSlot → Space → Space} {g : α → β} {R : α → β → Prop}
  {S : SpaceSlot → Space → Space → Prop} {x : Shape α}

theorem forall₂_map_followed {l : FollowedSlot} {xs : List (Followed α)}
    (hR : ∀ a ∈ items xs, R a (g a)) (hS : ∀ l s, S l s (h l s)) :
    List.Forall₂ (Followed.Rel R S l) xs
      (xs.map fun x => ⟨g x.element, h (.after l) x.after⟩) := by
  refine List.forall₂_map_right_iff.2 (List.forall₂_same.2 fun y hy => ?_)
  exact ⟨hR _ (List.mem_map_of_mem hy), hS _ _⟩

namespace Shape

/-- A layer is related to what it becomes when each part and space is. -/
theorem rel_respaced (hR : ∀ a ∈ x.children, R a (g a)) (hS : ∀ l s, S l s (h l s)) :
    Rel R S x (x.respaced h g) :=
  Answers.id.traverse
    { part := hR
      space := hS
      followed := fun _ _ _ hy => ⟨hR _ hy, hS _ _⟩
      preceded := fun _ _ hy => ⟨hS _ _, hR _ hy⟩
      word := fun _ _ => hS _ _
      series := fun _ _ hs => ⟨hS _ _, forall₂_map_followed (fun a ha => hR a (hs ha)) hS⟩ }

theorem kind_respaced (h : SpaceSlot → Space → Space) (g : α → β) (x : Shape α) :
    (x.respaced h g).kind = x.kind :=
  (rel_respaced (R := fun _ _ => True) (S := fun _ _ _ => True) (fun _ _ => trivial)
    fun _ _ => trivial).kind.symm

theorem children_respaced (h : SpaceSlot → Space → Space) (g : α → β) (x : Shape α) :
    (x.respaced h g).children = x.children.map g := by
  have hchildren := (rel_respaced (R := fun a b => b = g a) (S := fun _ _ _ => True) (h := h)
    (x := x) (fun _ _ => rfl) fun _ _ => trivial).children
  generalize x.children = as, (x.respaced h g).children = bs at hchildren ⊢
  induction hchildren with
  | nil => rfl
  | cons hab _ ih => rw [List.map_cons, hab, ih]

theorem respaced_congr {f g : α → β} (hfg : ∀ a ∈ x.children, f a = g a) :
    x.respaced h f = x.respaced h g :=
  Rel.respaced_eq (R := fun a b => f a = g b) (fun _ _ h => h) (rel_refl hfg fun _ _ => rfl)

theorem respaced_respaced (h k : SpaceSlot → Space → Space) (f : α → β) (g : β → γ)
    (x : Shape α) :
    (x.respaced h f).respaced k g = x.respaced (fun l s => k l (h l s)) fun a => g (f a) := by
  have hrel : Rel (fun a b => b = f a) (fun l s s' => k l (h l s) = k l s') x (x.respaced h f) :=
    rel_respaced (fun _ _ => rfl) fun _ _ => rfl
  exact (Rel.respaced_eq (fun _ _ hab => congrArg g hab.symm) hrel).symm

theorem rel_map (hR : ∀ a ∈ x.children, R a (g a)) : Rel R (fun _ => Eq) x (x.map g) :=
  rel_respaced hR fun _ _ => rfl

theorem kind_map (g : α → β) (x : Shape α) : (x.map g).kind = x.kind := kind_respaced _ g x

theorem children_map (g : α → β) (x : Shape α) : (x.map g).children = x.children.map g :=
  children_respaced _ g x

theorem map_congr {f g : α → β} (hfg : ∀ a ∈ x.children, f a = g a) : x.map f = x.map g :=
  respaced_congr hfg

theorem map_id {f : α → α} (hf : ∀ a ∈ x.children, f a = a) : x.map f = x :=
  (rel_map fun a ha => (hf a ha).symm).eq.symm

theorem map_map (f : α → β) (g : β → γ) (x : Shape α) : (x.map f).map g = x.map fun a => g (f a) :=
  respaced_respaced ..

/-- A layer whose parts and spaces are the changed ones is the changed layer. -/
theorem Rel.eq_respaced {y : Shape β} (hxy : Rel (fun a b => g a = b) (fun l s s' => h l s = s') x y) :
    y = x.respaced h g := by
  have hself : y.respaced (fun _ s => s) (fun b => b) = y := map_id fun _ _ => rfl
  rw [← hself]
  exact (Rel.respaced_eq (fun _ _ hab => hab) hxy).symm

end Shape

end Respaced

end JavaSource
