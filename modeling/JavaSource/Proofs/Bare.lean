import JavaSource.Proofs.Traversal
import JavaSource.Proofs.Printed

/-!
# Trees without spaces

`Tree.bare` is a tree with every space replaced by the empty one.  Two trees with the same bare tree
have the same identities, words, operators, types and parts in the same places.
-/

namespace JavaSource

variable {α β γ : Type}

/-- An element with nothing after it, changed by `f`. -/
def Followed.bareWith (f : α → β) (x : Followed α) : Followed β := ⟨f x.element, .empty⟩

/-- The actions that change each part by `f` and empty each space. -/
def SlotActions.baring (f : α → β) : SlotActions Id α β where
  part := f
  space _ _ := .empty
  followed _ := Followed.bareWith f
  preceded _ x := ⟨.empty, f x.element⟩
  word _ _ := .empty
  series _ s := ⟨.empty, s.elements.map (Followed.bareWith f)⟩

/-- The layer with each part changed by `f` and each space empty. -/
def Shape.bareWith (f : α → β) (x : Shape α) : Shape β := Id.run (x.traverse (.baring f))

section Congruence

variable {f : α → γ} {g : β → γ} {R : α → β → Prop} {S : SpaceSlot → Space → Space → Prop}

theorem SlotActions.agree_baring (hR : ∀ a b, R a b → f a = g b) :
    SlotActions.Agree R S (baring f) (baring g) where
  part := hR
  space _ _ _ _ := rfl
  followed _ _ _ h := congrArg (Followed.mk · Space.empty) (hR _ _ h.element)
  preceded _ _ _ h := congrArg (Preceded.mk Space.empty) (hR _ _ h.element)
  word _ _ _ _ := rfl
  series _ s t h := by
    refine congrArg (Series.mk Space.empty) ?_
    have h := h.elements
    generalize s.elements = xs, t.elements = ys at h ⊢
    induction h with
    | nil => rfl
    | cons h _ ih =>
      rw [List.map_cons, List.map_cons, ih, Followed.bareWith, Followed.bareWith,
        hR _ _ h.element]

/-- Layers with the same words and parts that become the same are the same without their spaces. -/
theorem Shape.Rel.bareWith (hR : ∀ a b, R a b → f a = g b) {x : Shape α} {y : Shape β}
    (h : Rel R S x y) : x.bareWith f = y.bareWith g :=
  h.traverse_eq (SlotActions.agree_baring hR)

end Congruence

theorem Shape.bareWith_congr {f g : α → β} {x : Shape α} (h : ∀ a ∈ x.children, f a = g a) :
    x.bareWith f = x.bareWith g :=
  Rel.bareWith (R := fun a b => f a = g b) (S := fun _ _ _ => True) (fun _ _ h => h)
    (rel_refl h fun _ _ => trivial)

theorem Followed.forall₂_bareWith {f : α → β} {l : FollowedSlot} (xs : List (Followed α)) :
    List.Forall₂ (Followed.Rel (fun a b => b = f a) (fun _ _ s => s = .empty) l) xs
      (xs.map (bareWith f)) := by
  induction xs with
  | nil => exact .nil
  | cons x xs ih => exact .cons ⟨rfl, rfl⟩ ih

/-- A layer's words stay, and its spaces are empty. -/
theorem Shape.rel_bareWith (f : α → β) (x : Shape α) :
    Rel (fun a b => b = f a) (fun _ _ s => s = .empty) x (x.bareWith f) :=
  Answers.id.traverse
    { part := fun _ _ => rfl
      space := fun _ _ => rfl
      followed := fun _ _ _ _ => ⟨rfl, rfl⟩
      preceded := fun _ _ _ => ⟨rfl, rfl⟩
      word := fun _ _ => rfl
      series := fun _ s _ => ⟨rfl, Followed.forall₂_bareWith s.elements⟩ }

namespace Tree

/-- The tree without the spaces that are no more than `budget` nodes deep. -/
def bareWithin : Nat → Tree → Tree
  | 0, t => t
  | budget + 1, t => .node t.id .empty (t.shape.bareWith (bareWithin budget))

/-- The tree with every space empty. -/
def bare (t : Tree) : Tree := t.bareWithin t.height

theorem bareWithin_eq {n m : Nat} {t : Tree} (hn : t.height ≤ n) (hm : t.height ≤ m) :
    t.bareWithin n = t.bareWithin m := by
  have hpos : 0 < t.height := by rw [height_eq]; omega
  induction n generalizing m t with
  | zero => omega
  | succ n ih =>
    cases m with
    | zero => omega
    | succ m =>
      have hc : ∀ c ∈ t.shape.children, c.bareWithin n = c.bareWithin m := by
        intro c hc
        have := height_lt_of_mem_children (t := t) hc
        exact ih (by omega) (by omega) (by rw [height_eq]; omega)
      rw [bareWithin, bareWithin, Shape.bareWith_congr hc]

theorem bare_eq (t : Tree) : t.bare = .node t.id .empty (t.shape.bareWith bare) := by
  have hc : ∀ c ∈ t.shape.children, c.bareWithin t.height = c.bare := fun c hc =>
    bareWithin_eq (Nat.le_of_lt (height_lt_of_mem_children hc)) (Nat.le_refl _)
  rw [← Shape.bareWith_congr hc]
  exact bareWithin_eq (Nat.le_refl _) (Nat.le_succ _)

theorem kind_bare (t : Tree) : t.bare.kind = t.kind := by
  rw [bare_eq]
  exact (Shape.rel_bareWith bare t.shape).kind.symm

theorem children_bare (t : Tree) : t.bare.children = t.children.map bare := by
  have h := (Shape.rel_bareWith bare t.shape).children
  rw [bare_eq, children, children, shape]
  generalize t.shape.children = ts, (t.shape.bareWith bare).children = us at h ⊢
  induction h with
  | nil => rfl
  | cons h _ ih => rw [h, ih, List.map_cons]

theorem kind_eq_of_bare {t u : Tree} (h : t.bare = u.bare) : t.kind = u.kind := by
  rw [← kind_bare t, h, kind_bare]

/-- Nodes of one identity, with the same words and the same bare parts, have the same bare tree. -/
theorem bare_node {R : Tree → Tree → Prop} {S : SpaceSlot → Space → Space → Prop}
    (hR : ∀ t u, R t u → t.bare = u.bare) {i : NodeId} {s s' : Space} {x y : Shape Tree}
    (h : Shape.Rel R S x y) : (node i s x).bare = (node i s' y).bare := by
  rw [bare_eq, bare_eq]
  exact congrArg (node i .empty) (h.bareWith hR)

end Tree

end JavaSource
