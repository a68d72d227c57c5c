import JavaSource.Proofs.Rebuilding
import JavaSource.Proofs.VisitOrder

/-!
# Trees with other identities

`Tree.renumber f` applies `f` to every identity of a tree and changes nothing else; two trees are one
but for their identities if they are equal once they are `Tree.unnumbered`.  `Tree.moved d front` is a
tree as it comes out of another place of another text: `d` more identities were given out before it,
and another space may be in front of it.
-/

namespace JavaSource

namespace Tree

/-- The tree with `f` applied to the identities that are less than `budget` nodes deep. -/
def renumberWithin (f : NodeId → NodeId) : Nat → Tree → Tree
  | 0, t => t
  | budget + 1, t => .node (f t.id) t.leading (t.shape.map (renumberWithin f budget))

/-- The tree with `f` applied to every identity. -/
def renumber (f : NodeId → NodeId) (t : Tree) : Tree := t.renumberWithin f t.height

/-- The tree without identities: all of them are zero. -/
def unnumbered (t : Tree) : Tree := t.renumber fun _ => 0

/-- The same tree but for identities and for the space in front of it. -/
def Same (t u : Tree) : Prop :=
  (t.withLeading .empty).unnumbered = (u.withLeading .empty).unnumbered

section Renumber

variable {f g : NodeId → NodeId}

theorem renumberWithin_eq {n m : Nat} {t : Tree} (hn : t.height ≤ n) (hm : t.height ≤ m) :
    t.renumberWithin f n = t.renumberWithin f m := by
  have hpos : 0 < t.height := by rw [height_eq]; omega
  induction n generalizing m t with
  | zero => omega
  | succ n ih =>
    cases m with
    | zero => omega
    | succ m =>
      have hc : ∀ c ∈ t.shape.children, c.renumberWithin f n = c.renumberWithin f m := by
        intro c hc
        have := height_lt_of_mem_children (t := t) hc
        exact ih (by omega) (by omega) (by rw [height_eq]; omega)
      rw [renumberWithin, renumberWithin, Shape.map_congr hc]

theorem renumber_eq (t : Tree) :
    t.renumber f = .node (f t.id) t.leading (t.shape.map (renumber f)) := by
  have hc : ∀ c ∈ t.shape.children, c.renumberWithin f t.height = c.renumber f := fun c hc =>
    renumberWithin_eq (Nat.le_of_lt (height_lt_of_mem_children hc)) (Nat.le_refl _)
  rw [← Shape.map_congr hc]
  exact renumberWithin_eq (Nat.le_refl _) (Nat.le_succ _)

theorem renumber_renumber (t : Tree) :
    (t.renumber f).renumber g = t.renumber fun i => g (f i) := by
  induction t using Tree.induction with
  | node t ih =>
    rw [renumber_eq t, renumber_eq (Tree.node ..), renumber_eq t, shape, Shape.map_map]
    exact congrArg _ (Shape.map_congr ih)

theorem needsSemicolon_renumber (t : Tree) : (t.renumber f).needsSemicolon = t.needsSemicolon := by
  induction t using Tree.induction with
  | node t ih =>
    have hrel : Shape.Rel (fun a b => b.needsSemicolon = a.needsSemicolon) (fun _ => Eq) t.shape
        (t.shape.map (renumber f)) := Shape.rel_map ih
    obtain ⟨i, s, x⟩ := t
    rw [renumber_eq]
    exact hrel.needsSemicolon fun _ _ h => h

end Renumber

/-! ### Later and elsewhere -/

/-- The tree with identities that are higher by `d` and, if it is another one, with the space that is
in front of it there. -/
def moved (d : Nat) (front : Option Space) (t : Tree) : Tree :=
  (t.renumber (· + d)).withLeading (front.getD t.leading)

variable {d : Nat} {front : Option Space}

theorem moved_node (i : NodeId) (s : Space) (x : Shape Tree) :
    (node i s x).moved d front = node (i + d) (front.getD s) (x.map (moved d none)) := by
  have hmap : moved d none = renumber (· + d) := by
    funext t
    rw [moved, renumber_eq]
    rfl
  rw [moved, renumber_eq, hmap]
  rfl

@[simp] theorem leading_moved (t : Tree) : (t.moved d front).leading = front.getD t.leading := by
  obtain ⟨i, s, x⟩ := t
  rw [moved_node]
  rfl

@[simp] theorem withLeading_moved (t : Tree) (s : Space) :
    (t.moved d front).withLeading s = (t.withLeading s).moved d none := by
  obtain ⟨i, s', x⟩ := t
  have hnode : (node i s x).moved d none = node (i + d) s (x.map (moved d none)) := moved_node ..
  rw [moved_node]
  exact hnode.symm

@[simp] theorem needsSemicolon_moved (t : Tree) :
    (t.moved d front).needsSemicolon = t.needsSemicolon := by
  rw [← needsSemicolon_renumber t (f := (· + d)), moved]
  obtain ⟨i, s, x⟩ := t.renumber (· + d)
  cases x <;> rfl

/-- Where a tree stands shows only in its identities and in the space in front of it. -/
theorem same_moved (t : Tree) : (t.moved d front).Same t := by
  have hmoved (u : Tree) : u.moved d none = u.renumber (· + d) := by
    rw [moved, renumber_eq]
    rfl
  rw [Same, withLeading_moved, hmoved, unnumbered, unnumbered, renumber_renumber]

end Tree

end JavaSource
