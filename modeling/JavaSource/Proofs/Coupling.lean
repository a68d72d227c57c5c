import JavaSource.Proofs.Traversal

/-!
# Two traversals side by side

`Couples m n` is a relation between actions of two monads, given what their answers have to do with
each other.  If the actions at related slots of two related layers are coupled, so are the
traversals of the layers (`Couples.traverse`).
-/

namespace JavaSource

/-- A relation between actions of two monads: it holds of related answers that are just given, and
of coupled actions that come after others. -/
structure Couples (m n : Type → Type) [Monad m] [Monad n] where
  Hold : {γ δ : Type} → m γ → n δ → (γ → δ → Prop) → Prop
  pure : ∀ {γ δ : Type} {P : γ → δ → Prop} {a : γ} {b : δ}, P a b →
    Hold (Pure.pure a) (Pure.pure b) P
  bind : ∀ {γ δ ε ζ : Type} {P : γ → δ → Prop} {Q : ε → ζ → Prop} {p : m γ} {q : n δ}
    {f : γ → m ε} {g : δ → n ζ}, Hold p q P → (∀ a b, P a b → Hold (f a) (g b) Q) →
    Hold (p >>= f) (q >>= g) Q

namespace Couples

variable {m n : Type → Type} [Monad m] [LawfulMonad m] [Monad n] [LawfulMonad n] (C : Couples m n)

section Lists

variable {γ δ ε ζ : Type} {P : γ → δ → Prop} {Q : ε → ζ → Prop} {f : γ → m ε} {g : δ → n ζ}

theorem mapM {xs : List γ} {ys : List δ} (h : ∀ a ∈ xs, ∀ b, P a b → C.Hold (f a) (g b) Q)
    (hxs : List.Forall₂ P xs ys) : C.Hold (xs.mapM f) (ys.mapM g) (List.Forall₂ Q) := by
  induction hxs with
  | nil => exact C.pure .nil
  | cons hab _ ih =>
    rw [List.mapM_cons, List.mapM_cons]
    refine C.bind (h _ List.mem_cons_self _ hab) fun c d hcd => ?_
    refine C.bind (ih fun a ha => h a (List.mem_cons_of_mem _ ha)) fun cs ds hcds => ?_
    exact C.pure (.cons hcd hcds)

theorem option_mapM {o : Option γ} {o' : Option δ}
    (h : ∀ a ∈ o, ∀ b, P a b → C.Hold (f a) (g b) Q) (ho : Option.Rel P o o') :
    C.Hold (o.mapM f) (o'.mapM g) (Option.Rel Q) := by
  cases ho with
  | none => exact C.pure .none
  | some hab =>
    rw [Option.mapM_some, Option.mapM_some, map_eq_pure_bind, map_eq_pure_bind]
    exact C.bind (h _ rfl _ hab) fun _ _ hcd => C.pure (.some hcd)

end Lists

variable {α α' β β' : Type} {R : α → α' → Prop} {S : SpaceSlot → Space → Space → Prop}
  {R' : β → β' → Prop} {S' : SpaceSlot → Space → Space → Prop} {act : SlotActions m α β}
  {act' : SlotActions n α' β'} {x : Shape α}

/-- Actions that are coupled at related slots, the first of them slots of one layer. -/
structure Relate (R : α → α' → Prop) (S : SpaceSlot → Space → Space → Prop) (R' : β → β' → Prop)
    (S' : SpaceSlot → Space → Space → Prop) (act : SlotActions m α β) (act' : SlotActions n α' β')
    (x : Shape α) : Prop where
  part : ∀ a ∈ x.children, ∀ a', R a a' → C.Hold (act.part a) (act'.part a') R'
  space : ∀ l s s', S l s s' → C.Hold (act.space l s) (act'.space l s') (S' l)
  followed : ∀ l ∈ x.kind.followedSlots, ∀ y : Followed α, y.element ∈ x.children → ∀ y',
    Followed.Rel R S l y y' →
    C.Hold (act.followed l y) (act'.followed l y') (Followed.Rel R' S' l)
  preceded : ∀ l, ∀ y : Preceded α, y.element ∈ x.children → ∀ y', Preceded.Rel R S l y y' →
    C.Hold (act.preceded l y) (act'.preceded l y') (Preceded.Rel R' S' l)
  word : ∀ l s s', S (.before l) s s' → C.Hold (act.word l s) (act'.word l s') (S' (.before l))
  series : ∀ l, ∀ s : Series α, items s.elements ⊆ x.children → ∀ s', Series.Rel R S l s s' →
    C.Hold (act.series l s) (act'.series l s') (Series.Rel R' S' l)

variable {C}

section Relate

variable (h : C.Relate R S R' S' act act' x)

include h

theorem Relate.parts {as : List α} {bs : List α'} (has : as ⊆ x.children)
    (hab : List.Forall₂ R as bs) :
    C.Hold (as.mapM act.part) (bs.mapM act'.part) (List.Forall₂ R') :=
  C.mapM (fun a ha => h.part a (has ha)) hab

theorem Relate.part? {o : Option α} {o' : Option α'} (ho : o.toList ⊆ x.children)
    (hab : Option.Rel R o o') :
    C.Hold (o.mapM act.part) (o'.mapM act'.part) (Option.Rel R') :=
  C.option_mapM (fun a ha => h.part a (ho (Option.mem_toList.2 ha))) hab

theorem Relate.space? {l : SpaceSlot} {o o' : Option Space} (hab : Option.Rel (S l) o o') :
    C.Hold (o.mapM (act.space l)) (o'.mapM (act'.space l)) (Option.Rel (S' l)) :=
  C.option_mapM (fun s _ => h.space l s) hab

theorem Relate.followeds {l : FollowedSlot} (hl : l ∈ x.kind.followedSlots) {ys : List (Followed α)}
    {ys' : List (Followed α')} (hys : items ys ⊆ x.children)
    (hab : List.Forall₂ (Followed.Rel R S l) ys ys') :
    C.Hold (ys.mapM (act.followed l)) (ys'.mapM (act'.followed l))
      (List.Forall₂ (Followed.Rel R' S' l)) :=
  C.mapM (fun y hy => h.followed l hl y (hys (List.mem_map_of_mem hy))) hab

theorem Relate.followed? {l : FollowedSlot} (hl : l ∈ x.kind.followedSlots)
    {o : Option (Followed α)} {o' : Option (Followed α')}
    (ho : (o.map Followed.element).toList ⊆ x.children)
    (hab : Option.Rel (Followed.Rel R S l) o o') :
    C.Hold (o.mapM (act.followed l)) (o'.mapM (act'.followed l))
      (Option.Rel (Followed.Rel R' S' l)) :=
  C.option_mapM (fun y hy => h.followed l hl y (ho (by cases hy; simp))) hab

theorem Relate.preceded? {l : PrecededSlot} {o : Option (Preceded α)} {o' : Option (Preceded α')}
    (ho : (o.map Preceded.element).toList ⊆ x.children)
    (hab : Option.Rel (Preceded.Rel R S l) o o') :
    C.Hold (o.mapM (act.preceded l)) (o'.mapM (act'.preceded l))
      (Option.Rel (Preceded.Rel R' S' l)) :=
  C.option_mapM (fun y hy => h.preceded l y (ho (by cases hy; simp))) hab

theorem Relate.series? {l : SeriesSlot} {o : Option (Series α)} {o' : Option (Series α')}
    (ho : Series.itemsOf o ⊆ x.children) (hab : Option.Rel (Series.Rel R S l) o o') :
    C.Hold (o.mapM (act.series l)) (o'.mapM (act'.series l)) (Option.Rel (Series.Rel R' S' l)) :=
  C.option_mapM (fun s hs => h.series l s (by cases hs; exact ho)) hab

theorem Relate.bound {o o' : Option (Space × WildcardBound)}
    (ho : Option.Rel (fun c d => S (.before .wildcardBound) c.1 d.1 ∧ c.2 = d.2) o o') :
    C.Hold (o.mapM fun b => return (← act.word .wildcardBound b.1, b.2))
      (o'.mapM fun b => return (← act'.word .wildcardBound b.1, b.2))
      (Option.Rel fun c d => S' (.before .wildcardBound) c.1 d.1 ∧ c.2 = d.2) :=
  C.option_mapM (fun _ _ _ hcd => C.bind (h.word _ _ _ hcd.1) fun _ _ hs => C.pure ⟨hs, hcd.2⟩) ho

end Relate

/-- Traversals of related layers by coupled actions give related layers. -/
theorem traverse {x' : Shape α'} (h : C.Relate R S R' S' act act' x) (hx : Shape.Rel R S x x') :
    C.Hold (x.traverse act) (x'.traverse act') (Shape.Rel R' S') := by
  cases hx <;> simp only [Shape.traverse]
  case' unary => split
  -- the slots are answered in turn, and the new layers are made of the answers
  all_goals
    repeat' with_reducible first
      | refine C.bind (h.part _ ?_ _ ‹_›) fun _ _ _ => ?_
      | refine C.bind (h.space _ _ _ ‹_›) fun _ _ _ => ?_
      | refine C.bind (h.followed _ ?_ _ ?_ _ ‹_›) fun _ _ _ => ?_
      | refine C.bind (h.preceded _ _ ?_ _ ‹_›) fun _ _ _ => ?_
      | refine C.bind (h.word _ _ _ ‹_›) fun _ _ _ => ?_
      | refine C.bind (h.series _ _ ?_ _ ‹_›) fun _ _ _ => ?_
      | refine C.bind (h.parts ?_ ‹_›) fun _ _ _ => ?_
      | refine C.bind (h.followeds ?_ ?_ ‹_›) fun _ _ _ => ?_
      | refine C.bind (h.part? ?_ ‹_›) fun _ _ _ => ?_
      | refine C.bind (h.space? ‹_›) fun _ _ _ => ?_
      | refine C.bind (h.followed? ?_ ?_ ‹_›) fun _ _ _ => ?_
      | refine C.bind (h.preceded? ?_ ‹_›) fun _ _ _ => ?_
      | refine C.bind (h.series? ?_ ‹_›) fun _ _ _ => ?_
      | refine C.bind (h.bound ‹_›) fun _ _ _ => ?_
      | exact C.pure (by constructor <;> assumption)
  all_goals first
    | simp [Shape.kind, NodeKind.followedSlots]
    | exact fun a ha => by simp_all [Shape.children]
    | simp [Shape.children]

end Couples

/-! ### Layers that are equal -/

section Equal

variable {α : Type}

theorem Followed.rel_eq (l : FollowedSlot) : Followed.Rel (α := α) Eq (fun _ => Eq) l = Eq := by
  funext ⟨a, s⟩ ⟨b, t⟩
  simp only [Followed.mk.injEq, eq_iff_iff]
  exact ⟨fun h => ⟨h.element, h.after⟩, fun h => ⟨h.1, h.2⟩⟩

theorem Preceded.rel_eq (l : PrecededSlot) : Preceded.Rel (α := α) Eq (fun _ => Eq) l = Eq := by
  funext ⟨s, a⟩ ⟨t, b⟩
  simp only [Preceded.mk.injEq, eq_iff_iff]
  exact ⟨fun h => ⟨h.before, h.element⟩, fun h => ⟨h.1, h.2⟩⟩

theorem Series.rel_eq (l : SeriesSlot) : Series.Rel (α := α) Eq (fun _ => Eq) l = Eq := by
  funext ⟨s, xs⟩ ⟨t, ys⟩
  simp only [Series.mk.injEq, eq_iff_iff, ← List.forall₂_eq_eq_eq, ← Followed.rel_eq l.element]
  exact ⟨fun h => ⟨h.before, h.elements⟩, fun h => ⟨h.1, h.2⟩⟩

theorem option_rel_eq : Option.Rel (Eq : α → α → Prop) = Eq := by
  funext o p
  rw [eq_iff_iff]
  constructor
  · rintro (h | -)
    · rw [h]
    · rfl
  · rintro rfl
    exact option_rel_refl fun _ _ => rfl

/-- Layers with equal parts and equal spaces are equal. -/
theorem Shape.Rel.eq {x y : Shape α} (h : Rel Eq (fun _ => Eq) x y) : x = y := by
  cases h
  case' classDeclaration d e _ _ _ _ _ _ _ _ _ _ => cases d; cases e
  case' compilationUnit d e _ _ _ _ => cases d; cases e
  case' lambda d e _ _ _ _ _ => cases d; cases e
  case' methodDeclaration d e _ _ _ _ _ _ _ _ _ => cases d; cases e
  case' methodInvocation d e _ _ _ _ _ => cases d; cases e
  case' variableDeclarations d e _ _ _ _ _ => cases d; cases e
  case' wildcard bound _ => cases bound
  all_goals
    simp_all [Followed.rel_eq, Preceded.rel_eq, Series.rel_eq, option_rel_eq, Prod.ext_iff,
      List.forall₂_eq_eq_eq]

end Equal

end JavaSource
