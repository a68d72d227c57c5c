import JavaSource.Format.Pass
import JavaSource.Proofs.Rebuilding
import JavaSource.Proofs.VisitOrder

/-!
# The results of local visitors

A visitor that keeps nothing between two nodes does what a function of trees does:
`Tree.rewrite f h` changes each node by `f` before its parts, and each space by `h`
(`Visitor.IsLocal.runAt_eq`).
-/

namespace JavaSource

variable {μ σ α β γ δ : Type}

/-- The kind of the innermost node on the trail. -/
def Trail.kind? (trail : Trail μ) : Option NodeKind :=
  trail.findSome? fun frame => frame.value.kind?

/-! ### Walks that leave the traversal alone -/

namespace Walk

/-- Where the innermost node has this kind and the visit has not been stopped, the walk gives an
answer as `P` says, and changes nothing else. -/
def Results (kind : Option NodeKind) (p : Walk μ σ α) (P : α → Prop) : Prop :=
  ∀ w, w.trail.isStopped = false → w.trail.kind? = kind → ∃ a, p.run w = .ok (a, w) ∧ P a

variable {kind : Option NodeKind} {P : α → Prop} {Q : β → Prop} {p : Walk μ σ α}

theorem Results.pure {a : α} (h : P a) : Results kind (Pure.pure a : Walk μ σ α) P :=
  fun _ _ _ => ⟨a, rfl, h⟩

theorem Results.bind {f : α → Walk μ σ β} (hp : Results kind p P)
    (hf : ∀ a, P a → Results kind (f a) Q) : Results kind (p >>= f) Q := by
  intro w hw hkind
  obtain ⟨a, ha, hP⟩ := hp w hw hkind
  obtain ⟨b, hb, hQ⟩ := hf a hP w hw hkind
  refine ⟨b, ?_, hQ⟩
  rw [StateT.run_bind, ha]
  exact hb

theorem Results.within [Inhabited μ] {value : FrameValue} (h : Results (value.kind?.or kind) p P) :
    Results kind (within value p) P := by
  intro w hw hkind
  have hnearest : Trail.kind? (Trail.fresh value :: w.trail) = value.kind?.or kind := by
    rw [← hkind, Trail.kind?, List.findSome?_cons]
    cases hv : value.kind? <;> simp [Trail.fresh, hv, Trail.kind?]
  obtain ⟨a, ha, hP⟩ := h ⟨Trail.fresh value :: w.trail, w.state⟩ hw hnearest
  exact ⟨a, by rw [run_within, ha]; rfl, hP⟩

/-- What a walk gives may be said of answers. -/
def resulting (kind : Option NodeKind) : Answers (Walk μ σ) where
  Hold := Results kind
  pure := .pure
  bind := .bind

end Walk

/-! ### Local visitors -/

namespace Tree

/-- Changes each node that is no more than `budget` deep by `f`, given the kind of the node above
it, and then its spaces by `h`. -/
def rewriteWithin (f : Option NodeKind → Tree → Tree) (h : SpaceSlot → Space → Space) :
    Nat → Option NodeKind → Tree → Tree
  | 0, _, t => t
  | budget + 1, parent, t =>
    let u := f parent t
    .node u.id (h (.leading u.kind) u.leading)
      (u.shape.respaced h (rewriteWithin f h budget (some t.kind)))

/-- Changes each node by `f`, given the kind of the node above it, and then its spaces by `h`. -/
def rewrite (f : Option NodeKind → Tree → Tree) (h : SpaceSlot → Space → Space)
    (parent : Option NodeKind) (t : Tree) : Tree :=
  t.rewriteWithin f h t.height parent

end Tree

namespace Visitor

/-- The visitor changes each node by `f` and each space by `h`, and does nothing else. -/
structure IsLocal [Inhabited μ] (v : Visitor μ σ) (f : Option NodeKind → Tree → Tree)
    (h : SpaceSlot → Space → Space) : Prop where
  stopAfter : v.stopAfter = none
  enter : v.enter = pure
  leave : v.leave = pure
  space : v.space = fun l s => pure (h l s)
  node : ∀ (walk : Tree → Walk μ σ Tree) t,
    v.node walk t = Walk.trail >>= fun trail => walk (f trail.parentKind? t)
  followed : v.followed = walkFollowed v.space
  preceded : v.preceded = walkPreceded v.space
  series : v.series = fun visit => walkSeries v.space (v.followed visit)

theorem isLocal_ofNodes (f : Option NodeKind → Tree → Tree) :
    (ofNodes none f).IsLocal f fun _ s => s :=
  ⟨rfl, rfl, rfl, rfl, fun _ _ => rfl, rfl, rfl, rfl⟩

/-- A visitor that changes spaces by their slots and leaves out everything else. -/
theorem isLocal_space [Inhabited μ] (h : SpaceSlot → Space → Space) :
    ({ space := fun l s => pure (h l s) } : Visitor μ σ).IsLocal (fun _ t => t) h :=
  ⟨rfl, rfl, rfl, rfl, fun _ _ => rfl, rfl, rfl, rfl⟩

theorem isLocal_ofSpaces (h : SpaceSlot → Space → Space) :
    (ofSpaces none h).IsLocal (fun _ t => t) h := isLocal_space h

namespace IsLocal

variable [Inhabited μ] {v : Visitor μ σ} {f : Option NodeKind → Tree → Tree}
  {h : SpaceSlot → Space → Space} {visit : Tree → Walk μ σ Tree} {g : Tree → Tree}
  {kind : Option NodeKind}

open Walk

theorem results_space (hv : v.IsLocal f h) (l : SpaceSlot) (s : Space) :
    Results kind (v.space l s) fun s' => h l s = s' := by
  rw [hv.space]
  exact .pure rfl

theorem results_followed (hv : v.IsLocal f h) (l : FollowedSlot) {x : Followed Tree}
    (hvisit : Results kind (visit x.element) fun u => g x.element = u) :
    Results kind (v.followed visit l x)
      (Followed.Rel (fun t u => g t = u) (fun l s s' => h l s = s') l x) := by
  rw [hv.followed]
  exact .within (Results.bind hvisit fun _ hu => (hv.results_space _ _).bind fun _ hs =>
    .pure ⟨hu, hs⟩)

theorem relate_actions (hv : v.IsLocal f h) {x : Shape Tree}
    (hvisit : ∀ a ∈ x.children, Results kind (visit a) fun u => g a = u) :
    (resulting kind).Relate (fun t u => g t = u) (fun l s s' => h l s = s') (v.actions visit)
      x where
  part := hvisit
  space := hv.results_space
  followed l _ _ hy := hv.results_followed l (hvisit _ hy)
  preceded l y hy := by
    rw [actions, hv.preceded]
    exact .within (Results.bind (hv.results_space _ _) fun _ hs => Results.bind (hvisit _ hy)
      fun _ hu => .pure ⟨hs, hu⟩)
  word _ _ := .within (hv.results_space _ _)
  series l s hs := by
    have helements := (resulting kind).mapM fun y hy => hv.results_followed l.element
      (hvisit _ (hs (List.mem_map_of_mem hy)))
    rw [actions, hv.series]
    exact .within (Results.bind (hv.results_space _ _) fun _ hbefore =>
      Results.bind helements fun _ hys => .pure ⟨hbefore, hys⟩)

theorem results_visitWithin (hv : v.IsLocal f h) (budget : Nat) (kind : Option NodeKind)
    (t : Tree) :
    Results kind (v.visitWithin budget t) fun u => t.rewriteWithin f h budget kind = u := by
  induction budget generalizing kind t with
  | zero => exact .pure rfl
  | succ budget ih =>
    intro w hw hkind
    let u := f kind t
    have hwalk : Results (some t.kind) (v.walk (v.visitWithin budget) u)
        fun u' => t.rewriteWithin f h (budget + 1) kind = u' := by
      refine Results.bind (hv.results_space _ _) fun s hs => ?_
      refine Results.bind ((resulting _).traverse (hv.relate_actions fun a _ => ih _ a)) ?_
      rintro y hy
      exact .pure (by rw [← hs, hy.eq_respaced]; rfl)
    have hparent : Trail.parentKind? (Trail.fresh (.tree t) :: w.trail) = kind := hkind
    obtain ⟨a, ha, hu⟩ := hwalk ⟨Trail.fresh (.tree t) :: w.trail, w.state⟩ hw rfl
    refine ⟨a, ?_, hu⟩
    rw [run_visitWithin _ _ _ hw, run_within]
    have hnode : (v.node (v.walk (v.visitWithin budget)) t).run
        ⟨Trail.fresh (.tree t) :: w.trail, w.state⟩ =
          .ok (a, ⟨Trail.fresh (.tree t) :: w.trail, w.state⟩) := by
      rw [hv.node, ← ha]
      exact congrArg (fun kind => (v.walk (v.visitWithin budget) (f kind t)).run
        ⟨Trail.fresh (.tree t) :: w.trail, w.state⟩) hparent
    simp only [hv.enter, hv.leave, hv.stopAfter, pure_bind, reduceCtorEq, if_false, bind_pure]
    rw [hnode]
    rfl

/-- **A local visitor rewrites the tree.** -/
theorem runAt_eq (hv : v.IsLocal f h) {trail : Trail μ} (hstopped : trail.isStopped = false)
    (t : Tree) (state : σ) : v.runAt trail state t = .ok (t.rewrite f h trail.kind?, state) := by
  obtain ⟨u, hu, heq⟩ := hv.results_visitWithin t.height trail.kind? t ⟨trail, state⟩ hstopped rfl
  rw [runAt, visit, hu, ← heq]
  rfl

end IsLocal

end Visitor

theorem Pass.runPlain_eq {v : Visitor Unit Unit} {f : Option NodeKind → Tree → Tree}
    {h : SpaceSlot → Space → Space} (hv : v.IsLocal f h) (t : Tree) :
    runPlain v [.root] t = .ok (t.rewrite f h none) := by
  rw [runPlain, hv.runAt_eq rfl]
  rfl

end JavaSource
