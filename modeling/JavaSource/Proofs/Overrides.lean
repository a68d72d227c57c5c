import JavaSource.Proofs.Coupling
import JavaSource.Proofs.VisitOrder

/-!
# Visitors with four callbacks

`Overrides` are what a visitor does before and after a node, at an identifier and at a space; the
rest of the tree is walked through.  `Overrides.recorded` keeps the calls that were made,
`Overrides.failing` fails at the calls it is told to; the visit of the one says where that of the
other ends (`Overrides.run_failing`).
-/

namespace JavaSource

variable {μ σ α β : Type}

/-- What to do before and after a node, at an identifier in place of its walk, and at a space. -/
structure Overrides (μ σ : Type) where
  enter : Tree → Walk μ σ Tree := pure
  leave : Tree → Walk μ σ Tree := pure
  space : SpaceSlot → Space → Walk μ σ Space := fun _ s => pure s
  identifier : Tree → Walk μ σ Tree := fun t => do
    let leading ← space (.leading .identifier) t.leading
    return t.withLeading leading

/-- What a callback is called for. -/
inductive Call where
  | enter
  | leave
  | identifier
  | space (l : SpaceSlot)

/-- A call, with the node it is made at: the one that is entered, left or named, or that holds the
space. -/
structure Step where
  node : Tree
  call : Call

/-- The innermost node on the trail. -/
def Trail.node? (trail : Trail μ) : Option Tree := trail.findSome? fun frame => frame.value.tree?

namespace Overrides

/-- The visitor that makes the calls and does nothing else. -/
def visitor [Inhabited μ] (o : Overrides μ σ) (stopAfter : Option NodeId) : Visitor μ σ where
  stopAfter
  enter := o.enter
  leave := o.leave
  space := o.space
  node walk t :=
    match t.shape with
    | .identifier .. => o.identifier t
    | _ => walk t

/-- Does something before each call. -/
def guarded (o : Overrides μ σ) (first : Call → Walk μ σ Unit) : Overrides μ σ where
  enter t := do
    first .enter
    o.enter t
  leave t := do
    first .leave
    o.leave t
  space l s := do
    first (.space l)
    o.space l s
  identifier t := do
    first .identifier
    o.identifier t

end Overrides

/-- The traversal without the steps that were recorded. -/
def Traversal.forget (w : Traversal μ (σ × List Step)) : Traversal μ σ := ⟨w.trail, w.state.1⟩

namespace Walk

/-- Runs an action beside a list of steps. -/
def beside (p : Walk μ σ α) : Walk μ (σ × List Step) α := fun w => do
  let (a, v) ← p.run w.forget
  return (a, ⟨v.trail, (v.state, w.state.2)⟩)

/-- Adds a call at the innermost node to the steps. -/
def record (call : Call) : Walk μ (σ × List Step) Unit := do
  match (← trail).node? with
  | none => return
  | some node => modifyState fun s => (s.1, s.2 ++ [⟨node, call⟩])

/-- Fails if a call at the innermost node does. -/
def failAt (fails : Step → Option VisitError) (call : Call) : Walk μ σ Unit := do
  match (← trail).node? with
  | none => return
  | some node =>
    match fails ⟨node, call⟩ with
    | none => return
    | some e => throw e

end Walk

namespace Overrides

/-- The same calls, beside a list of steps. -/
def beside (o : Overrides μ σ) : Overrides μ (σ × List Step) where
  enter t := Walk.beside (o.enter t)
  leave t := Walk.beside (o.leave t)
  space l s := Walk.beside (o.space l s)
  identifier t := Walk.beside (o.identifier t)

/-- The same calls, with a list of the steps that were made. -/
def recorded (o : Overrides μ σ) : Overrides μ (σ × List Step) := o.beside.guarded Walk.record

/-- Fails at the steps it is told to. -/
def failing (o : Overrides μ σ) (fails : Step → Option VisitError) : Overrides μ σ :=
  o.guarded (Walk.failAt fails)

end Overrides

/-! ### Steps that fail -/

/-- The walk `p` records its steps; the walk `q` ends with the error of the first of them that
fails, and like `p` when none does. -/
def Walk.Shadows (fails : Step → Option VisitError) (p : Walk μ (σ × List Step) α) (q : Walk μ σ β)
    (P : α → β → Prop) : Prop :=
  ∀ w, (∃ e e', p.run w = .error e ∧ q.run w.forget = .error e') ∨
    ∃ a v steps b, p.run w = .ok (a, v) ∧ v.state.2 = w.state.2 ++ steps ∧ P a b ∧
      ((∃ e, steps.findSome? fails = some e ∧ q.run w.forget = .error e) ∨
        (steps.findSome? fails = none ∧ q.run w.forget = .ok (b, v.forget)))

namespace Walk

variable {fails : Step → Option VisitError} {p : Walk μ (σ × List Step) α} {q : Walk μ σ β}
  {P : α → β → Prop}

theorem Shadows.pure {a : α} {b : β} (h : P a b) :
    Shadows fails (Pure.pure a : Walk μ (σ × List Step) α) (Pure.pure b) P :=
  fun w => .inr ⟨a, w, [], b, rfl, (List.append_nil _).symm, h, .inr ⟨rfl, rfl⟩⟩

theorem Shadows.bind {γ δ : Type} {Q : γ → δ → Prop} {f : α → Walk μ (σ × List Step) γ}
    {g : β → Walk μ σ δ} (hp : Shadows fails p q P)
    (hf : ∀ a b, P a b → Shadows fails (f a) (g b) Q) : Shadows fails (p >>= f) (q >>= g) Q := by
  intro w
  rw [StateT.run_bind, StateT.run_bind]
  obtain ⟨e, e', hpe, hqe⟩ | ⟨a, v, steps, b, hpa, hv, hP, hq⟩ := hp w
  · exact .inl ⟨e, e', by rw [hpe]; rfl, by rw [hqe]; rfl⟩
  rw [hpa]
  obtain ⟨e', e'', hfe, hge⟩ | ⟨c, u, steps', d, hfc, hu, hQ, hg⟩ := hf a b hP v
  · -- the second walk has failed before or fails now
    obtain ⟨e, hsome, hqe⟩ | ⟨hnone, hqb⟩ := hq
    · exact .inl ⟨e', e, hfe, by rw [hqe]; rfl⟩
    · exact .inl ⟨e', e'', hfe, by rw [hqb]; exact hge⟩
  · refine .inr ⟨c, u, steps ++ steps', d, hfc, by rw [hu, hv, List.append_assoc], hQ, ?_⟩
    rw [List.findSome?_append]
    obtain ⟨e, hsome, hqe⟩ | ⟨hnone, hqb⟩ := hq
    · exact .inl ⟨e, by rw [hsome]; rfl, by rw [hqe]; rfl⟩
    · rw [hnone, hqb, Option.none_or]
      exact hg

/-- Walks that shadow each other are coupled. -/
def shadowing (fails : Step → Option VisitError) :
    Couples (Walk μ (σ × List Step)) (Walk μ σ) where
  Hold := Shadows fails
  pure := .pure
  bind := .bind

theorem Shadows.within [Inhabited μ] {value : FrameValue} (h : Shadows fails p q P) :
    Shadows fails (within value p) (within value q) P := by
  intro w
  rw [run_within, run_within]
  have hforget : (⟨Trail.fresh value :: w.trail, w.state⟩ : Traversal μ (σ × List Step)).forget =
      ⟨Trail.fresh value :: w.forget.trail, w.forget.state⟩ := rfl
  obtain ⟨e, e', hpe, hqe⟩ | ⟨a, v, steps, b, hpa, hv, hP, hq⟩ :=
    h ⟨Trail.fresh value :: w.trail, w.state⟩
  · rw [← hforget, hpe, hqe]
    exact .inl ⟨e, e', rfl, rfl⟩
  · rw [← hforget, hpa]
    refine .inr ⟨a, ⟨v.trail.tail, v.state⟩, steps, b, rfl, hv, hP, ?_⟩
    obtain ⟨e, hsome, hqe⟩ | ⟨hnone, hqb⟩ := hq
    · exact .inl ⟨e, hsome, by rw [hqe]; rfl⟩
    · exact .inr ⟨hnone, by rw [hqb]; rfl⟩

theorem shadows_trail :
    Shadows fails (trail : Walk μ (σ × List Step) (Trail μ)) trail Eq :=
  fun w => .inr ⟨w.trail, w, [], w.trail, rfl, (List.append_nil _).symm, rfl, .inr ⟨rfl, rfl⟩⟩

theorem shadows_modifyTrail (f : Trail μ → Trail μ) :
    Shadows fails (modifyTrail f : Walk μ (σ × List Step) Unit) (modifyTrail f) Eq :=
  fun w => .inr ⟨⟨⟩, ⟨f w.trail, w.state⟩, [], ⟨⟩, rfl, (List.append_nil _).symm, rfl,
    .inr ⟨rfl, rfl⟩⟩

theorem shadows_beside (p : Walk μ σ α) : Shadows fails (beside p) p Eq := by
  intro w
  have hbeside : (beside p).run w =
      (fun r => (r.1, ⟨r.2.trail, (r.2.state, w.state.2)⟩)) <$> p.run w.forget := rfl
  rw [hbeside]
  cases hp : p.run w.forget with
  | error e => exact .inl ⟨e, e, rfl, rfl⟩
  | ok r =>
    exact .inr ⟨r.1, _, [], r.1, rfl, (List.append_nil _).symm, rfl, .inr ⟨rfl, rfl⟩⟩

theorem run_record (call : Call) (w : Traversal μ (σ × List Step)) :
    (record call).run w = .ok (⟨⟩, ⟨w.trail, (w.state.1,
      w.state.2 ++ w.trail.node?.toList.map fun node => ⟨node, call⟩)⟩) := by
  have hrun : (record call).run w = (match w.trail.node? with
      | none => Pure.pure ⟨⟩
      | some node => modifyState fun s => (s.1, s.2 ++ [⟨node, call⟩]) :
        Walk μ (σ × List Step) Unit).run w := rfl
  rw [hrun]
  cases w.trail.node? with
  | none => simp only [Option.toList_none, List.map_nil, List.append_nil]; rfl
  | some node => rfl

theorem run_failAt (call : Call) (w : Traversal μ σ) :
    (failAt fails call).run w = match w.trail.node?.bind fun node => fails ⟨node, call⟩ with
      | none => .ok (⟨⟩, w)
      | some e => .error e := by
  have hrun : (failAt fails call).run w = (match w.trail.node? with
      | none => Pure.pure ⟨⟩
      | some node =>
        match fails ⟨node, call⟩ with
        | none => Pure.pure ⟨⟩
        | some e => throw e : Walk μ σ Unit).run w := rfl
  rw [hrun]
  cases w.trail.node? with
  | none => rfl
  | some node => cases h : fails ⟨node, call⟩ <;> simp only [h, Option.bind_some] <;> rfl

/-- A call that is recorded and one that may fail. -/
theorem shadows_record (call : Call) :
    Shadows fails (record call : Walk μ (σ × List Step) Unit) (failAt fails call) Eq := by
  intro w
  refine .inr ⟨⟨⟩, _, _, ⟨⟩, run_record call w, rfl, rfl, ?_⟩
  rw [run_failAt, show w.forget.trail = w.trail from rfl]
  cases w.trail.node? with
  | none => exact .inr ⟨rfl, rfl⟩
  | some node =>
    cases h : fails ⟨node, call⟩ with
    | none => exact .inr ⟨by simp [h], by simp only [Option.bind_some, h]; rfl⟩
    | some e => exact .inl ⟨e, by simp [h], by simp only [Option.bind_some, h]⟩

end Walk

namespace Overrides

variable [Inhabited μ] {o : Overrides μ σ} {fails : Step → Option VisitError}
  {visit : Tree → Walk μ (σ × List Step) Tree} {visit' : Tree → Walk μ σ Tree}

open Walk

omit [Inhabited μ] in
theorem shadows_guarded {p : Walk μ σ α} (call : Call) :
    Shadows fails (record call >>= fun _ => Walk.beside p) (failAt fails call >>= fun _ => p) Eq :=
  (shadows_record call).bind fun _ _ _ => shadows_beside p

theorem shadows_followed (h : ∀ t, Shadows fails (visit t) (visit' t) Eq) (l : FollowedSlot)
    (x y : Followed Tree) (hxy : x = y) :
    Shadows fails (walkFollowed o.recorded.space visit l x)
      (walkFollowed (o.failing fails).space visit' l y) Eq := by
  subst hxy
  refine .within ((h x.element).bind ?_)
  rintro u _ rfl
  refine (shadows_guarded (.space (.after l))).bind ?_
  rintro s _ rfl
  exact .pure rfl

theorem relate_recorded {i : Option NodeId} (h : ∀ t, Shadows fails (visit t) (visit' t) Eq)
    (x : Shape Tree) :
    (shadowing fails).Relate Eq (fun _ => Eq) Eq (fun _ => Eq)
      ((o.recorded.visitor i).actions visit) (((o.failing fails).visitor i).actions visit') x where
  part := by
    rintro t - _ rfl
    exact h t
  space := by
    rintro l s _ rfl
    exact shadows_guarded _
  followed l _ x _ y hxy := by
    rw [Followed.rel_eq] at hxy ⊢
    exact shadows_followed h l x y hxy
  preceded l x _ y hxy := by
    rw [Preceded.rel_eq] at hxy ⊢
    subst hxy
    refine .within ((shadows_guarded (.space (.before l))).bind ?_)
    rintro s _ rfl
    refine (h x.element).bind ?_
    rintro u _ rfl
    exact .pure rfl
  word := by
    rintro l s _ rfl
    exact .within (shadows_guarded _)
  series l s _ t hst := by
    rw [Series.rel_eq] at hst ⊢
    subst hst
    refine .within ((shadows_guarded (.space (.opening l))).bind ?_)
    rintro before _ rfl
    have helements := (shadowing fails).mapM
      (fun x (_ : x ∈ s.elements) => shadows_followed (o := o) h l.element x)
      (List.forall₂_same.2 fun x _ => rfl)
    refine Shadows.bind helements ?_
    rintro xs ys hxs
    rw [List.forall₂_eq_eq_eq] at hxs
    exact .pure (congrArg (Series.mk before) hxs)

theorem shadows_node {i : Option NodeId} (h : ∀ t, Shadows fails (visit t) (visit' t) Eq)
    (t : Tree) :
    Shadows fails ((o.recorded.visitor i).node ((o.recorded.visitor i).walk visit) t)
      (((o.failing fails).visitor i).node (((o.failing fails).visitor i).walk visit') t) Eq := by
  simp only [visitor]
  split
  · exact shadows_guarded .identifier
  · refine (shadows_guarded (.space (.leading t.kind))).bind ?_
    rintro s _ rfl
    refine Shadows.bind ((shadowing fails).traverse (relate_recorded (i := i) h _)
      (Shape.rel_refl (fun _ _ => rfl) fun _ _ => rfl)) ?_
    rintro x y hxy
    exact .pure (congrArg (Tree.node t.id s) hxy.eq)

/-- The visit that fails where it is told to, beside the visit that records its steps. -/
theorem shadows_visitWithin (o : Overrides μ σ) (fails : Step → Option VisitError)
    (i : Option NodeId) (budget : Nat) (t : Tree) :
    Shadows fails ((o.recorded.visitor i).visitWithin budget t)
      (((o.failing fails).visitor i).visitWithin budget t) Eq := by
  induction budget generalizing t with
  | zero => exact .pure rfl
  | succ budget ih =>
    rw [Visitor.visitWithin, Visitor.visitWithin]
    refine shadows_trail.bind ?_
    rintro trail _ rfl
    split
    · exact .pure rfl
    refine .within ((shadows_guarded .enter).bind ?_)
    rintro u _ rfl
    refine (shadows_node ih u).bind ?_
    rintro u _ rfl
    refine (shadows_guarded .leave).bind ?_
    rintro u _ rfl
    have hrecorded : (o.recorded.visitor i).stopAfter = i := rfl
    have hfailing : ((o.failing fails).visitor i).stopAfter = i := rfl
    rw [hrecorded, hfailing]
    by_cases hi : i = some u.id
    · rw [if_pos hi, if_pos hi]
      exact (shadows_modifyTrail _).bind fun _ _ _ => .pure rfl
    · rw [if_neg hi, if_neg hi]
      exact .pure rfl

theorem run_visitor (o : Overrides μ σ) (i : Option NodeId) (state : σ) (t : Tree) :
    (o.visitor i).run state t =
      (fun r => (r.1, r.2.state)) <$> ((o.visitor i).visit t).run ⟨Trail.start, state⟩ := rfl

/-- A visitor that fails at steps it is told to ends with the error of the first of them that its
visit makes, and like the visitor that never fails when it makes none of them. -/
theorem run_failing (o : Overrides μ σ) (fails : Step → Option VisitError) {i : Option NodeId}
    {state state' : σ} {t u : Tree} {steps : List Step}
    (h : (o.recorded.visitor i).run (state, []) t = .ok (u, state', steps)) :
    ((o.failing fails).visitor i).run state t =
      match steps.findSome? fails with
      | some e => .error e
      | none => .ok (u, state') := by
  rw [run_visitor, Visitor.visit] at h ⊢
  obtain ⟨e, e', he, -⟩ | ⟨u', v, steps', b, hu, hv, hb, hrun⟩ :=
    shadows_visitWithin o fails i t.height t ⟨Trail.start, (state, [])⟩
  · rw [he] at h
    cases h
  · rw [hu] at h
    obtain ⟨rfl, hstate⟩ := Prod.mk.inj (Except.ok.inj h)
    have hsteps : steps' = steps := by
      rw [hstate] at hv
      exact hv.symm
    subst hb hsteps
    obtain ⟨e, hsome, hq⟩ | ⟨hnone, hq⟩ := hrun
    · rw [hsome]
      exact congrArg _ hq
    · rw [hnone]
      refine (congrArg _ hq).trans ?_
      exact congrArg (fun s => Except.ok (u', s)) (congrArg Prod.fst hstate)

omit [Inhabited μ] in
theorem failing_none (o : Overrides μ σ) : o.failing (fun _ => none) = o := by
  have hfail (call : Call) : (failAt (fun _ => none) call : Walk μ σ Unit) = Pure.pure ⟨⟩ := by
    funext w
    refine (run_failAt call w).trans ?_
    cases w.trail.node? <;> rfl
  simp only [failing, guarded, hfail, pure_bind]

/-- The steps of a visit can be recorded. -/
theorem exists_run_recorded {i : Option NodeId} {state state' : σ} {t u : Tree}
    (h : (o.visitor i).run state t = .ok (u, state')) :
    ∃ steps, (o.recorded.visitor i).run (state, []) t = .ok (u, state', steps) := by
  have hshadows := shadows_visitWithin o (fun _ => none) i t.height t
    ⟨Trail.start, (state, [])⟩
  rw [failing_none] at hshadows
  rw [run_visitor, Visitor.visit] at h ⊢
  obtain ⟨e, e', -, he⟩ | ⟨a, v, steps, b, ha, -, hab, hrun⟩ := hshadows
  · have he : ((o.visitor i).visitWithin t.height t).run ⟨Trail.start, state⟩ = .error e' := he
    rw [he] at h
    cases h
  · subst hab
    have hrun : ((o.visitor i).visitWithin t.height t).run ⟨Trail.start, state⟩ =
        .ok (a, v.forget) := by
      obtain ⟨e, he, -⟩ | ⟨-, hrun⟩ := hrun
      · rw [List.findSome?_eq_none_iff.2 fun _ _ => rfl] at he
        cases he
      · exact hrun
    rw [hrun] at h
    obtain ⟨rfl, rfl⟩ := Prod.mk.inj (Except.ok.inj h)
    exact ⟨v.state.2, by rw [ha]; rfl⟩

end Overrides

end JavaSource
