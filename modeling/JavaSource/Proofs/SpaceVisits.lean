import JavaSource.Proofs.LocalDeletion

/-!
# Visitors that change spaces

A visitor that leaves out everything but spaces gives the tree with each space changed by its slot,
`Tree.respaced`.  Changes one after another are one change (`Tree.respaced_respaced`), no change is
none (`Tree.respaced_id`), and all that is not a space stays (`Tree.bare_respaced`).  So two such
visitors one after another do what one does (`Visitor.run_spaces`).
-/

namespace JavaSource

namespace Tree

/-- The tree with each space changed by its slot. -/
def respaced (h : SpaceSlot → Space → Space) (t : Tree) : Tree := t.rewrite (fun _ t => t) h none

/-- What stands above the tree does not count. -/
theorem rewrite_eq_respaced (h : SpaceSlot → Space → Space) (parent : Option NodeKind) (t : Tree) :
    t.rewrite (fun _ t => t) h parent = t.respaced h := by
  rw [respaced, rewrite, rewrite]
  cases t.height <;> rfl

theorem respaced_eq (h : SpaceSlot → Space → Space) (t : Tree) :
    t.respaced h =
      .node t.id (h (.leading t.kind) t.leading) (t.shape.respaced h (respaced h)) := by
  have hself (_ : Option NodeKind) (u : Tree) : u.Respaced u := Respaced.congruence.refl u
  have hparts : ∀ c ∈ t.shape.children,
      c.rewriteWithin (fun _ t => t) h t.height (some t.kind) = c.respaced h := by
    intro c hc
    have hlt : c.height < t.height := height_lt_of_mem_children hc
    rw [rewriteWithin_eq hself (Nat.le_of_lt hlt) (Nat.le_refl c.height)]
    exact rewrite_eq_respaced h (some t.kind) c
  have hdeeper : t.respaced h = t.rewriteWithin (fun _ t => t) h (t.height + 1) none :=
    rewriteWithin_eq hself (Nat.le_refl _) (Nat.le_succ _)
  rw [hdeeper, rewriteWithin]
  exact congrArg (node _ _) (Shape.respaced_congr hparts)

theorem kind_respaced (h : SpaceSlot → Space → Space) (t : Tree) :
    (t.respaced h).kind = t.kind := by
  rw [respaced_eq]
  exact Shape.kind_respaced h (respaced h) t.shape

/-- **Changes one after another** are one change. -/
theorem respaced_respaced (h k : SpaceSlot → Space → Space) (t : Tree) :
    (t.respaced h).respaced k = t.respaced fun l s => k l (h l s) := by
  induction t using Tree.induction with
  | node t ih =>
    rw [respaced_eq k, kind_respaced, respaced_eq h, respaced_eq fun l s => k l (h l s)]
    refine congrArg (node _ _) ?_
    rw [shape, Shape.respaced_respaced]
    exact Shape.respaced_congr ih

/-- Where no space is changed, nothing is. -/
theorem respaced_id (t : Tree) : t.respaced (fun _ s => s) = t := by
  induction t using Tree.induction with
  | node t ih =>
    rw [respaced_eq, ← Shape.map_eq_respaced, Shape.map_id ih]
    cases t
    rfl

/-- All that is not a space stays. -/
theorem bare_respaced (h : SpaceSlot → Space → Space) (t : Tree) :
    (t.respaced h).bare = t.bare := by
  induction t using Tree.induction with
  | node t ih =>
    have hrel : Shape.Rel (fun c d => Tree.bare d = c.bare) (fun _ _ _ => True) t.shape
        (t.shape.respaced h (respaced h)) := Shape.rel_respaced ih fun _ _ => trivial
    rw [respaced_eq]
    cases t with
    | node i s x => exact (bare_node (fun _ _ h => h.symm) hrel).symm

end Tree

namespace Visitor

variable {μ σ : Type} [Inhabited μ]

/-- A visitor that changes spaces by their slots and leaves out everything else. -/
theorem run_space (h : SpaceSlot → Space → Space) (state : σ) (t : Tree) :
    ({ space := fun l s => pure (h l s) } : Visitor μ σ).run state t =
      .ok (t.respaced h, state) := by
  rw [run, (isLocal_space h).runAt_eq rfl, Tree.rewrite_eq_respaced]

/-- **Visitors that change spaces.** A visitor that leaves out everything gives the tree it is
given. Two that change spaces by their slots, one after another, give what one gives that makes both
changes at each space. Nothing but spaces is changed. -/
theorem run_spaces (f g : SpaceSlot → Space → Space) (state : σ) (t : Tree) :
    ({} : Visitor μ σ).run state t = .ok (t, state) ∧
    ∃ u v, ({ space := fun l s => pure (f l s) } : Visitor μ σ).run state t = .ok (u, state) ∧
      ({ space := fun l s => pure (g l s) } : Visitor μ σ).run state u = .ok (v, state) ∧
      ({ space := fun l s => pure (g l (f l s)) } : Visitor μ σ).run state t = .ok (v, state) ∧
      u.bare = t.bare ∧ v.bare = t.bare := by
  refine ⟨?_, t.respaced f, (t.respaced f).respaced g, run_space f state t,
    run_space g state (t.respaced f), ?_, t.bare_respaced f, ?_⟩
  · have hrun := run_space (μ := μ) (fun _ s => s) state t
    rw [Tree.respaced_id] at hrun
    exact hrun
  · rw [Tree.respaced_respaced]
    exact run_space (fun l s => g l (f l s)) state t
  · rw [Tree.bare_respaced, Tree.bare_respaced]

end Visitor

end JavaSource
