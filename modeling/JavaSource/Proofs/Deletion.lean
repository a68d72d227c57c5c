import JavaSource.Proofs.ForHeader
import JavaSource.Proofs.Rebuilding
import JavaSource.Proofs.VisitOrder

/-!
# Deleting statements

`Tree.without p` is a tree without those statements of its blocks whose identity satisfies `p`; the
rest of it stays.
-/

namespace JavaSource

/-! ### Deleting statements -/

/-- The layer without the statements whose identity satisfies `p`, if it is a block. -/
def Shape.without (p : NodeId → Bool) : Shape Tree → Shape Tree
  | block afterStatic statements beforeClose =>
    block afterStatic (statements.filter fun x => !p x.element.id) beforeClose
  | x => x

theorem Shape.kind_without (p : NodeId → Bool) (x : Shape Tree) : (x.without p).kind = x.kind := by
  cases x <;> rfl

theorem Shape.children_without {p : NodeId → Bool} {x : Shape Tree} :
    (x.without p).children ⊆ x.children := by
  intro a ha
  cases x with
  | block afterStatic statements beforeClose =>
    obtain ⟨y, hy, rfl⟩ := List.mem_map.1 ha
    exact List.mem_map_of_mem (List.mem_of_mem_filter hy)
  | _ => exact ha

theorem Shape.kept_of_mem_children {p : NodeId → Bool} {x : Shape Tree} {a : Tree}
    (ha : a ∈ (x.without p).children) (hx : x.kind = .block) : p a.id = false := by
  cases x <;> try cases hx
  obtain ⟨y, hy, rfl⟩ := List.mem_map.1 ha
  simpa using (List.mem_filter.1 hy).2

theorem Shape.without_of_kind {p : NodeId → Bool} {x : Shape Tree} (h : x.kind ≠ .block) :
    x.without p = x := by
  cases x with
  | block => exact absurd rfl h
  | _ => rfl

theorem Shape.without_of_forall {p : NodeId → Bool} {x : Shape Tree}
    (h : ∀ c ∈ x.children, p c.id = false) : x.without p = x := by
  cases x with
  | block afterStatic statements beforeClose =>
    have hall (y : Followed Tree) (hy : y ∈ statements) : (!p y.element.id) = true := by
      rw [h y.element (List.mem_map_of_mem hy)]
      rfl
    rw [without, List.filter_eq_self.2 hall]
  | _ => rfl

theorem Shape.without_respaced {p : NodeId → Bool} {h : SpaceSlot → Space → Space}
    {g : Tree → Tree} (hg : ∀ t, (g t).id = t.id) (x : Shape Tree) :
    (x.respaced h g).without p = (x.without p).respaced h g := by
  by_cases hx : x.kind = .block
  · cases x <;> try cases hx
    rename_i afterStatic xs beforeClose
    rw [respaced_block, without, without, respaced_block, List.filter_map]
    simp only [Function.comp_def, hg]
  · rw [without_of_kind hx, without_of_kind (by rwa [kind_respaced])]

namespace Tree

/-- The tree without such statements in blocks that are no more than `budget` nodes deep. -/
def withoutWithin (p : NodeId → Bool) : Nat → Tree → Tree
  | 0, t => t
  | budget + 1, t => .node t.id t.leading ((t.shape.without p).map (withoutWithin p budget))

/-- The tree without the statements of blocks whose identity satisfies `p`. -/
def without (p : NodeId → Bool) (t : Tree) : Tree := t.withoutWithin p t.height

variable {p : NodeId → Bool}

theorem withoutWithin_eq {n m : Nat} {t : Tree} (hn : t.height ≤ n) (hm : t.height ≤ m) :
    t.withoutWithin p n = t.withoutWithin p m := by
  have hpos : 0 < t.height := by rw [height_eq]; omega
  induction n generalizing m t with
  | zero => omega
  | succ n ih =>
    cases m with
    | zero => omega
    | succ m =>
      have hc : ∀ c ∈ (t.shape.without p).children, c.withoutWithin p n = c.withoutWithin p m := by
        intro c hc
        have := height_lt_of_mem_children (t := t) (Shape.children_without hc)
        exact ih (by omega) (by omega) (by rw [height_eq]; omega)
      rw [withoutWithin, withoutWithin, Shape.map_congr hc]

theorem without_eq (t : Tree) :
    t.without p = .node t.id t.leading ((t.shape.without p).map (without p)) := by
  have hc : ∀ c ∈ (t.shape.without p).children, c.withoutWithin p t.height = c.without p :=
    fun c hc => withoutWithin_eq
      (Nat.le_of_lt (height_lt_of_mem_children (Shape.children_without hc))) (Nat.le_refl _)
  rw [← Shape.map_congr hc]
  exact withoutWithin_eq (Nat.le_refl _) (Nat.le_succ _)

@[simp] theorem id_without (t : Tree) : (t.without p).id = t.id := by rw [without_eq]; rfl

@[simp] theorem leading_without (t : Tree) : (t.without p).leading = t.leading := by
  rw [without_eq]; rfl

theorem shape_without (t : Tree) :
    (t.without p).shape = (t.shape.without p).map (without p) := by rw [without_eq]; rfl

@[simp] theorem kind_without (t : Tree) : (t.without p).kind = t.kind := by
  rw [kind, shape_without, Shape.kind_map, Shape.kind_without, kind]

theorem height_le {n : Nat} {t : Tree} (hn : 0 < n) (h : ∀ c ∈ t.children, c.height < n) :
    t.height ≤ n := by
  have foldr_lt (hs : List Nat) (hall : ∀ k ∈ hs, k < n) : hs.foldr max 0 < n := by
    induction hs with
    | nil => exact hn
    | cons k hs ih =>
      have hrest := ih fun m hm => hall m (List.mem_cons_of_mem k hm)
      exact Nat.max_lt.2 ⟨hall k List.mem_cons_self, hrest⟩
  have hlt := foldr_lt (t.children.map height) (List.forall_mem_map.2 h)
  rw [height_eq]
  omega

theorem height_without_le (t : Tree) : (t.without p).height ≤ t.height := by
  induction t using Tree.induction with
  | node t ih =>
    have hparts : ∀ c ∈ (t.without p).children, c.height < t.height := by
      intro c hc
      rw [children, shape_without, Shape.children_map] at hc
      obtain ⟨a, ha, rfl⟩ := List.mem_map.1 hc
      have ha := Shape.children_without ha
      exact Nat.lt_of_le_of_lt (ih a ha) (height_lt_of_mem_children ha)
    exact height_le (by rw [height_eq]; omega) hparts

theorem without_mapLeading (t : Tree) (f : Space → Space) :
    (t.mapLeading f).without p = (t.without p).mapLeading f := by
  cases t with
  | node i s' x => rw [without_eq, without_eq]; rfl

theorem without_withShape (t : Tree) (x : Shape Tree) :
    (t.withShape x).without p = (t.without p).withShape ((x.without p).map (without p)) := by
  cases t with
  | node i s' y => rw [without_eq, without_eq]; rfl

/-! ### The statements that are kept -/

/-- The statements of a block without those that satisfy `p`, and without such statements in them. -/
def keep (p : NodeId → Bool) (xs : List (Followed Tree)) : List (Followed Tree) :=
  (xs.filter fun x => !p x.element.id).map (Followed.map (without p))

theorem shape_without_block {afterStatic : Option Space} {xs : List (Followed Tree)}
    {beforeClose : Space} {t : Tree} (ht : t.shape = .block afterStatic xs beforeClose) :
    (t.without p).shape = .block afterStatic (keep p xs) beforeClose := by
  rw [shape_without, ht, Shape.without, Shape.map_eq_respaced, Shape.respaced_block,
    Option.map_id']
  rfl

theorem without_withShape_block (t : Tree) (afterStatic : Option Space) (xs : List (Followed Tree))
    (beforeClose : Space) :
    (t.withShape (.block afterStatic xs beforeClose)).without p =
      (t.without p).withShape (.block afterStatic (keep p xs) beforeClose) := by
  have hshape := shape_without_block (p := p) (shape_withShape t (.block afterStatic xs beforeClose))
  rw [without_withShape, ← hshape, shape_without, shape_withShape]

theorem keep_map {f : Tree → Tree} (hid : ∀ t, (f t).id = t.id)
    (hf : ∀ t, (f t).without p = f (t.without p)) (xs : List (Followed Tree)) :
    keep p (xs.map (Followed.map f)) = (keep p xs).map (Followed.map f) := by
  simp [keep, List.filter_map, Function.comp_def, Followed.map, hid, hf]

theorem keep_cons {x : Followed Tree} (hx : p x.element.id = false) (xs : List (Followed Tree)) :
    keep p (x :: xs) = x.map (without p) :: keep p xs := by
  simp [keep, hx]

theorem keep_cons_of_deleted {x : Followed Tree} (hx : p x.element.id) (xs : List (Followed Tree)) :
    keep p (x :: xs) = keep p xs := by
  rw [keep, List.filter_cons_of_neg (by simp [hx]), keep]

theorem keep_of_forall {xs : List (Followed Tree)} (h : ∀ x ∈ xs, p x.element.id = false) :
    keep p xs = xs.map (Followed.map (without p)) := by
  rw [keep, List.filter_eq_self.2 fun x hx => by rw [h x hx]; rfl]

/-- Where no statement is deleted the tree stays. -/
theorem without_of_forall {t : Tree} (h : ∀ a ∈ t.preorder, p a.id = false) : t.without p = t := by
  induction t using Tree.induction with
  | node t ih =>
    have hkept (c : Tree) (hc : c ∈ t.children) : p c.id = false :=
      h c (mem_preorder_of_mem_children hc c.self_mem_preorder)
    have hparts (c : Tree) (hc : c ∈ t.children) : c.without p = c :=
      ih c hc fun a ha => h a (mem_preorder_of_mem_children hc ha)
    obtain ⟨i, s, x⟩ := t
    have hshape : x.without p = x := Shape.without_of_forall hkept
    rw [without_eq, shape, hshape]
    exact congrArg (node i s) (Shape.map_id hparts)

end Tree

end JavaSource
