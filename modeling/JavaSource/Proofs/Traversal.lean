import JavaSource.Proofs.Layer
import JavaSource.Tree.Traverse

/-!
# Traversals and related layers

Two facts on `Shape.traverse` in any monad: related layers are traversed alike by actions that
cannot tell them apart (`Shape.Rel.traverse_eq`), and a layer is related to its traversal if each
answer is related to what it answers (`Answers.traverse`).
-/

namespace JavaSource

variable {α β : Type}

/-! ### Actions that agree -/

section Traverse

variable {m : Type → Type} [Monad m] [LawfulMonad m] {γ : Type} {R : α → β → Prop}
  {S : SpaceSlot → Space → Space → Prop}

theorem mapM_eq {δ ε ζ : Type} {P : δ → ε → Prop} {f : δ → m ζ} {g : ε → m ζ}
    (hfg : ∀ a b, P a b → f a = g b) {xs : List δ} {ys : List ε} (h : List.Forall₂ P xs ys) :
    xs.mapM f = ys.mapM g := by
  induction h with
  | nil => rfl
  | cons h _ ih => rw [List.mapM_cons, List.mapM_cons, hfg _ _ h, ih]

omit [LawfulMonad m] in
theorem option_mapM_eq {δ ε ζ : Type} {P : δ → ε → Prop} {f : δ → m ζ} {g : ε → m ζ}
    (hfg : ∀ a b, P a b → f a = g b) {o : Option δ} {p : Option ε} (h : Option.Rel P o p) :
    o.mapM f = p.mapM g := by
  cases h with
  | none => rfl
  | some h => simp only [Option.mapM_some, hfg _ _ h]

/-- Actions that cannot tell related things apart. -/
structure SlotActions.Agree (R : α → β → Prop) (S : SpaceSlot → Space → Space → Prop)
    (act : SlotActions m α γ) (act' : SlotActions m β γ) : Prop where
  part : ∀ a b, R a b → act.part a = act'.part b
  space : ∀ l s t, S l s t → act.space l s = act'.space l t
  followed : ∀ l x y, Followed.Rel R S l x y → act.followed l x = act'.followed l y
  preceded : ∀ l x y, Preceded.Rel R S l x y → act.preceded l x = act'.preceded l y
  word : ∀ l s t, S (.before l) s t → act.word l s = act'.word l t
  series : ∀ l s t, Series.Rel R S l s t → act.series l s = act'.series l t

/-- Traversals of related layers by actions that agree are equal. -/
theorem Shape.Rel.traverse_eq {act : SlotActions m α γ} {act' : SlotActions m β γ}
    (h : act.Agree R S act') {x : Shape α} {y : Shape β} (hxy : Rel R S x y) :
    x.traverse act = y.traverse act' := by
  have bind {δ : Type} {p q : m δ} {f g : δ → m (Shape γ)} (hpq : p = q)
      (hfg : ∀ a, f a = g a) : p >>= f = q >>= g := hpq ▸ bind_congr hfg
  have word {o p : Option (Space × WildcardBound)} (hop : Option.Rel
      (fun c d => S (.before .wildcardBound) c.1 d.1 ∧ c.2 = d.2) o p) :
      (o.mapM fun b => do return (← act.word .wildcardBound b.1, b.2)) =
        p.mapM fun b => do return (← act'.word .wildcardBound b.1, b.2) :=
    option_mapM_eq (fun c d hcd => by rw [h.word _ _ _ hcd.1, hcd.2]) hop
  cases hxy <;> simp only [Shape.traverse, *]
  case' unary => split
  -- the same actions run in the same order on both sides
  all_goals
    repeat' with_reducible first
      | rfl
      | intro _
      | exact h.part _ _ ‹_›
      | exact h.space _ _ _ ‹_›
      | exact h.followed _ _ _ ‹_›
      | exact h.preceded _ _ _ ‹_›
      | exact h.word _ _ _ ‹_›
      | exact h.series _ _ _ ‹_›
      | exact mapM_eq h.part ‹_›
      | exact mapM_eq (h.followed _) ‹_›
      | exact option_mapM_eq h.part ‹_›
      | exact option_mapM_eq (h.space _) ‹_›
      | exact option_mapM_eq (h.followed _) ‹_›
      | exact option_mapM_eq (h.preceded _) ‹_›
      | exact option_mapM_eq (h.series _) ‹_›
      | exact word ‹_›
      | apply bind

end Traverse

/-! ### Answers that are related -/

/-- The padded elements that stand directly in a layer of this kind. -/
def NodeKind.followedSlots : NodeKind → List FollowedSlot
  | .arrayDimension => [.arrayIndex]
  | .block => [.blockStatement]
  | .compilationUnit => [.packageDeclaration, .importDeclaration]
  | .controlParentheses | .parentheses => [.parentheses]
  | .doWhileLoop | .whileLoop => [.loopBody]
  | .elsePart => [.elseBody]
  | .enumValueSet => [.enumValue]
  | .forControl => [.forInit, .forCondition, .forUpdate]
  | .forEachControl => [.forEachVariable, .forEachIterable]
  | .forEachLoop | .forLoop => [.forBody]
  | .ifStatement => [.thenBody]
  | .labeled => [.label]
  | .lambda => [.lambdaParameter]
  | .methodInvocation => [.receiver]
  | .multiCatch => [.catchAlternative]
  | .variableDeclarations => [.declarator]
  | _ => []

/-- What may be said of the answers of actions: it holds of an answer that is just given, and of one
that comes after another. -/
structure Answers (m : Type → Type) [Monad m] where
  Hold : {γ : Type} → m γ → (γ → Prop) → Prop
  pure : ∀ {γ : Type} {P : γ → Prop} {a : γ}, P a → Hold (Pure.pure a) P
  bind : ∀ {γ δ : Type} {P : γ → Prop} {Q : δ → Prop} {p : m γ} {f : γ → m δ},
    Hold p P → (∀ a, P a → Hold (f a) Q) → Hold (p >>= f) Q

namespace Answers

variable {m : Type → Type} [Monad m] [LawfulMonad m] (A : Answers m) {γ δ : Type}

theorem mapM {P : γ → δ → Prop} {f : γ → m δ} {xs : List γ} (h : ∀ a ∈ xs, A.Hold (f a) (P a)) :
    A.Hold (xs.mapM f) (List.Forall₂ P xs) := by
  induction xs with
  | nil => exact A.pure .nil
  | cons a xs ih =>
    rw [List.mapM_cons]
    refine A.bind (h a List.mem_cons_self) fun b hb => ?_
    refine A.bind (ih fun c hc => h c (List.mem_cons_of_mem _ hc)) fun bs hbs => ?_
    exact A.pure (.cons hb hbs)

theorem option_mapM {P : γ → δ → Prop} {f : γ → m δ} {o : Option γ}
    (h : ∀ a ∈ o, A.Hold (f a) (P a)) : A.Hold (o.mapM f) (Option.Rel P o) := by
  cases o with
  | none => exact A.pure .none
  | some a =>
    rw [Option.mapM_some, map_eq_pure_bind]
    exact A.bind (h a rfl) fun _ hb => A.pure (.some hb)

/-- Actions that answer each slot of a layer with something related to it. -/
structure Relate (R : α → β → Prop) (S : SpaceSlot → Space → Space → Prop) (act : SlotActions m α β)
    (x : Shape α) : Prop where
  part : ∀ a ∈ x.children, A.Hold (act.part a) (R a)
  space : ∀ l s, A.Hold (act.space l s) (S l s)
  followed : ∀ l ∈ x.kind.followedSlots, ∀ y : Followed α, y.element ∈ x.children →
    A.Hold (act.followed l y) (Followed.Rel R S l y)
  preceded : ∀ l, ∀ y : Preceded α, y.element ∈ x.children →
    A.Hold (act.preceded l y) (Preceded.Rel R S l y)
  word : ∀ l s, A.Hold (act.word l s) (S (.before l) s)
  series : ∀ l, ∀ s : Series α, items s.elements ⊆ x.children →
    A.Hold (act.series l s) (Series.Rel R S l s)

section Relate

variable {A} {R : α → β → Prop} {S : SpaceSlot → Space → Space → Prop} {act : SlotActions m α β}
  {x : Shape α} (h : A.Relate R S act x)

include h

theorem Relate.parts {as : List α} (has : as ⊆ x.children) :
    A.Hold (as.mapM act.part) (List.Forall₂ R as) :=
  A.mapM fun a ha => h.part a (has ha)

theorem Relate.part? {o : Option α} (ho : o.toList ⊆ x.children) :
    A.Hold (o.mapM act.part) (Option.Rel R o) :=
  A.option_mapM fun a ha => h.part a (ho (Option.mem_toList.2 ha))

theorem Relate.space? {l : SpaceSlot} {o : Option Space} :
    A.Hold (o.mapM (act.space l)) (Option.Rel (S l) o) :=
  A.option_mapM fun s _ => h.space l s

theorem Relate.followeds {l : FollowedSlot} (hl : l ∈ x.kind.followedSlots)
    {ys : List (Followed α)} (hys : items ys ⊆ x.children) :
    A.Hold (ys.mapM (act.followed l)) (List.Forall₂ (Followed.Rel R S l) ys) :=
  A.mapM fun y hy => h.followed l hl y (hys (List.mem_map_of_mem hy))

theorem Relate.followed? {l : FollowedSlot} (hl : l ∈ x.kind.followedSlots)
    {o : Option (Followed α)} (ho : (o.map Followed.element).toList ⊆ x.children) :
    A.Hold (o.mapM (act.followed l)) (Option.Rel (Followed.Rel R S l) o) :=
  A.option_mapM fun y hy => h.followed l hl y (ho (by cases hy; simp))

theorem Relate.preceded? {l : PrecededSlot} {o : Option (Preceded α)}
    (ho : (o.map Preceded.element).toList ⊆ x.children) :
    A.Hold (o.mapM (act.preceded l)) (Option.Rel (Preceded.Rel R S l) o) :=
  A.option_mapM fun y hy => h.preceded l y (ho (by cases hy; simp))

theorem Relate.series? {l : SeriesSlot} {o : Option (Series α)}
    (ho : Series.itemsOf o ⊆ x.children) :
    A.Hold (o.mapM (act.series l)) (Option.Rel (Series.Rel R S l) o) :=
  A.option_mapM fun s hs => h.series l s (by cases hs; exact ho)

theorem Relate.bound? {o : Option (Space × WildcardBound)} :
    A.Hold (o.mapM fun b => return (← act.word .wildcardBound b.1, b.2))
      (Option.Rel (fun c d => S (.before .wildcardBound) c.1 d.1 ∧ c.2 = d.2) o) :=
  A.option_mapM fun b _ => A.bind (h.word _ b.1) fun _ hs => A.pure ⟨hs, rfl⟩

end Relate

/-- A layer is related to its traversal. -/
theorem traverse {R : α → β → Prop} {S : SpaceSlot → Space → Space → Prop}
    {act : SlotActions m α β} {x : Shape α} (h : A.Relate R S act x) :
    A.Hold (x.traverse act) (Shape.Rel R S x) := by
  cases x <;> simp only [Shape.traverse]
  case' unary => split
  -- each answer is related to its slot, and the new layer is made of the answers
  all_goals
    repeat' with_reducible first
      | refine A.bind (h.part _ ?_) fun _ _ => ?_
      | refine A.bind (h.space _ _) fun _ _ => ?_
      | refine A.bind (h.word _ _) fun _ _ => ?_
      | refine A.bind (h.followed _ ?_ _ ?_) fun _ _ => ?_
      | refine A.bind (h.preceded _ _ ?_) fun _ _ => ?_
      | refine A.bind (h.series _ _ ?_) fun _ _ => ?_
      | refine A.bind (h.parts ?_) fun _ _ => ?_
      | refine A.bind (h.part? ?_) fun _ _ => ?_
      | refine A.bind h.space? fun _ _ => ?_
      | refine A.bind h.bound? fun _ _ => ?_
      | refine A.bind (h.followeds ?_ ?_) fun _ _ => ?_
      | refine A.bind (h.followed? ?_ ?_) fun _ _ => ?_
      | refine A.bind (h.preceded? ?_) fun _ _ => ?_
      | refine A.bind (h.series? ?_) fun _ _ => ?_
      | exact A.pure (by constructor <;> first | assumption | rfl)
  all_goals first
    | simp [Shape.kind, NodeKind.followedSlots]
    | exact fun a ha => by simp_all [Shape.children]
    | simp [Shape.children]

/-- What holds of the answer itself, where actions do nothing else. -/
def id : Answers Id where
  Hold p P := P p.run
  pure h := h
  bind hp hf := hf _ hp

end Answers

end JavaSource
