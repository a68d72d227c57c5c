import JavaSource.Proofs.Traversal
import JavaSource.Visit.Local

/-!
# Visits that succeed

`Walk.Yields values p P` says that wherever the frames of the trail stand for `values`, the walk `p`
succeeds with an answer that satisfies `P`, and leaves frames of the same values.  A visitor whose
steps yield related things yields a related tree (`Visitor.yields_visitWithin`,
`Visitor.yields_walk`).
-/

namespace JavaSource

variable {μ σ : Type}

namespace Walk

variable {α β : Type} {values : List FrameValue}

/-! ### Runs -/

theorem run_within [Inhabited μ] (value : FrameValue) (p : Walk μ σ α) (w : Traversal μ σ) :
    (within value p).run w = (fun r => (r.1, ⟨r.2.trail.tail, r.2.state⟩)) <$>
      p.run ⟨Trail.fresh value :: w.trail, w.state⟩ := rfl

theorem exists_of_run_bind {p : Walk μ σ α} {f : α → Walk μ σ β} {w v : Traversal μ σ} {b : β}
    (h : (p >>= f).run w = .ok (b, v)) :
    ∃ a u, p.run w = .ok (a, u) ∧ (f a).run u = .ok (b, v) := by
  rw [StateT.run_bind] at h
  cases hp : p.run w with
  | error e => rw [hp] at h; cases h
  | ok r => rw [hp] at h; exact ⟨r.1, r.2, rfl, h⟩

theorem exists_of_run_within [Inhabited μ] {value : FrameValue} {p : Walk μ σ α}
    {w v : Traversal μ σ} {a : α} (h : (within value p).run w = .ok (a, v)) :
    ∃ u, p.run ⟨Trail.fresh value :: w.trail, w.state⟩ = .ok (a, u) ∧
      v = ⟨u.trail.tail, u.state⟩ := by
  rw [run_within] at h
  cases hp : p.run ⟨Trail.fresh value :: w.trail, w.state⟩ with
  | error e => rw [hp] at h; cases h
  | ok r =>
    rw [hp] at h
    obtain ⟨rfl, rfl⟩ := Prod.mk.inj (Except.ok.inj h)
    exact ⟨r.2, rfl, rfl⟩

/-! ### Walks that succeed -/

/-- From frames of these values the walk succeeds, and its answer is as `P` says. -/
def Yields (values : List FrameValue) (p : Walk μ σ α) (P : α → Prop) : Prop :=
  ∀ w, w.trail.values = values → ∃ a v, p.run w = .ok (a, v) ∧ P a ∧ v.trail.values = values

theorem Yields.pure {P : α → Prop} {a : α} (h : P a) :
    Yields values (Pure.pure a : Walk μ σ α) P :=
  fun w hw => ⟨a, w, rfl, h, hw⟩

theorem Yields.bind {P : α → Prop} {Q : β → Prop} {p : Walk μ σ α} {f : α → Walk μ σ β}
    (hp : Yields values p P) (hf : ∀ a, P a → Yields values (f a) Q) :
    Yields values (p >>= f) Q := by
  intro w hw
  obtain ⟨a, v, hr, ha, hv⟩ := hp w hw
  obtain ⟨b, u, hr', hb, hu⟩ := hf a ha v hv
  refine ⟨b, u, ?_, hb, hu⟩
  rw [StateT.run_bind, hr]
  exact hr'

theorem Yields.mono {P Q : α → Prop} {p : Walk μ σ α} (hp : Yields values p P)
    (h : ∀ a, P a → Q a) : Yields values p Q := by
  intro w hw
  obtain ⟨a, v, hr, ha, hv⟩ := hp w hw
  exact ⟨a, v, hr, h a ha, hv⟩

theorem Yields.ite {c : Prop} [Decidable c] {P : α → Prop} {p q : Walk μ σ α}
    (hp : c → Yields values p P) (hq : ¬ c → Yields values q P) :
    Yields values (if c then p else q) P := by
  split
  · exact hp ‹_›
  · exact hq ‹_›

/-- What is yielded may be said of answers. -/
def yielding (values : List FrameValue) : Answers (Walk μ σ) where
  Hold p P := Yields values p P
  pure := .pure
  bind := .bind

theorem yields_trail : Yields values (trail : Walk μ σ (Trail μ)) fun t => t.values = values :=
  fun w hw => ⟨w.trail, w, rfl, hw, hw⟩

theorem yields_modifyTrail {f : Trail μ → Trail μ}
    (h : ∀ t, t.values = values → (f t).values = values) :
    Yields values (modifyTrail f : Walk μ σ Unit) fun _ => True :=
  fun w hw => ⟨⟨⟩, _, rfl, trivial, h w.trail hw⟩

theorem yields_within [Inhabited μ] {value : FrameValue} {p : Walk μ σ α} {P : α → Prop}
    (h : Yields (value :: values) p P) : Yields values (within value p) P := by
  intro w hw
  obtain ⟨a, v, hr, ha, hv⟩ := h ⟨Trail.fresh value :: w.trail, w.state⟩
    (congrArg (value :: ·) hw)
  refine ⟨a, ⟨v.trail.tail, v.state⟩, ?_, ha, ?_⟩
  · have hr : (p >>= fun a => modifyTrail List.tail >>= fun _ => Pure.pure a).run
        ⟨Trail.fresh value :: w.trail, w.state⟩ = .ok (a, ⟨v.trail.tail, v.state⟩) := by
      rw [StateT.run_bind, hr]
      rfl
    exact hr
  · rw [Trail.values, List.map_tail]
    exact congrArg List.tail hv

end Walk

theorem Trail.values_modifyFirst {p : Frame μ → Bool} {f : Frame μ → Frame μ}
    (h : ∀ frame, (f frame).value = frame.value) (t : Trail μ) :
    (t.modifyFirst p f).values = t.values := by
  fun_induction t.modifyFirst p f with
  | case1 => rfl
  | case2 frame => simp [values, h]
  | case3 frame rest => simp [values, h]
  | case4 frame rest _ _ ih => simpa [values] using ih

theorem Trail.values_stop (t : Trail μ) : t.stop.values = t.values :=
  values_modifyFirst (f := fun frame => { frame with stopped := true }) (fun _ => rfl) t

/-! ### Padded elements -/

section Padded

variable [Inhabited μ] {R : Tree → Tree → Prop} {S : SpaceSlot → Space → Space → Prop}
  {space : SpaceSlot → Space → Walk μ σ Space} {visit : Tree → Walk μ σ Tree}
  {values : List FrameValue}

open Walk

theorem yields_walkFollowed {l : FollowedSlot} {x : Followed Tree}
    (hvisit : Yields (.followed l x.element :: values) (visit x.element) (R x.element))
    (hspace : Yields (.followed l x.element :: values) (space (.after l) x.after)
      (S (.after l) x.after)) :
    Yields values (walkFollowed space visit l x) (Followed.Rel R S l x) :=
  yields_within (hvisit.bind fun _ hR => hspace.bind fun _ hS => .pure ⟨hR, hS⟩)

theorem yields_walkPreceded {l : PrecededSlot} {x : Preceded Tree}
    (hspace : Yields (.preceded l :: values) (space (.before l) x.before) (S (.before l) x.before))
    (hvisit : Yields (.preceded l :: values) (visit x.element) (R x.element)) :
    Yields values (walkPreceded space visit l x) (Preceded.Rel R S l x) :=
  yields_within (hspace.bind fun _ hS => hvisit.bind fun _ hR => .pure ⟨hS, hR⟩)

theorem yields_walkSeries {followed : FollowedSlot → Followed Tree → Walk μ σ (Followed Tree)}
    {l : SeriesSlot} {s : Series Tree}
    (hspace : Yields (.series l s :: values) (space (.opening l) s.before) (S (.opening l) s.before))
    (hfollowed : ∀ x ∈ s.elements, Yields (.series l s :: values) (followed l.element x)
      (Followed.Rel R S l.element x)) :
    Yields values (walkSeries space followed l s) (Series.Rel R S l s) :=
  yields_within (hspace.bind fun _ hS =>
    Yields.bind ((yielding _).mapM hfollowed) fun _ hxs => .pure ⟨hS, hxs⟩)

end Padded

/-! ### Visitors -/

namespace Visitor

variable [Inhabited μ] {v : Visitor μ σ} {R : Tree → Tree → Prop}
  {S : SpaceSlot → Space → Space → Prop} {visit : Tree → Walk μ σ Tree} {values : List FrameValue}

open Walk

/-- The walk through a node yields a related tree, if it does so at each space and part. -/
theorem yields_walk (C : Tree.Congruence R S) {t : Tree}
    (hleading : Yields values (v.space (.leading t.kind) t.leading) (S (.leading t.kind) t.leading))
    (hshape : (yielding values).Relate R S (v.actions visit) t.shape) :
    Yields values (v.walk visit t) (R t) := by
  refine hleading.bind fun s hs => Yields.bind ((yielding values).traverse hshape) fun x hx => ?_
  cases t with
  | node i s' y => exact .pure (C.node hs hx)

/-- A visit of a tree that fits its place yields a related tree, if it does so at each node whose
parts are visited so. -/
theorem yields_visitWithin (Fits : List FrameValue → Tree → Prop) (hrefl : ∀ t, R t t)
    (hnode : ∀ visit : Tree → Walk μ σ Tree,
      (∀ values t, Fits values t → Yields values (visit t) (R t)) →
      ∀ values t, Fits values t → Yields (.tree t :: values)
        (v.enter t >>= fun t => v.node (v.walk visit) t >>= v.leave) (R t))
    (budget : Nat) (values : List FrameValue) (t : Tree) (ht : Fits values t) :
    Yields values (v.visitWithin budget t) (R t) := by
  induction budget generalizing values t with
  | zero => exact .pure (hrefl t)
  | succ budget ih =>
    unfold visitWithin
    refine yields_trail.bind fun trail _ => .ite (fun _ => .pure (hrefl t)) fun _ => ?_
    have hstop (u : Tree) (hu : R t u) : Yields (.tree t :: values)
        (do
          if v.stopAfter = some u.id then modifyTrail Trail.stop
          return u : Walk μ σ Tree) (R t) :=
      .ite (fun _ => (yields_modifyTrail fun t => (Trail.values_stop t).trans).bind fun _ _ => .pure hu)
        fun _ => .pure hu
    have h := (hnode _ (fun values t => ih values t) values t ht).bind hstop
    simp only [bind_assoc] at h
    exact yields_within h

/-- A run at the end of a trail gives what the visit yields there. -/
theorem exists_runAt {trail : Trail μ} {P : Tree → Prop} {t : Tree}
    (h : Yields trail.values (v.visit t) P) (state : σ) :
    ∃ u state', v.runAt trail state t = .ok (u, state') ∧ P u := by
  obtain ⟨u, w, hr, hu, -⟩ := h ⟨trail, state⟩ rfl
  refine ⟨u, w.state, ?_, hu⟩
  rw [runAt, hr]
  rfl

end Visitor

/-! ### Local visitors -/

namespace Visitor

variable {R : Tree → Tree → Prop} {S : SpaceSlot → Space → Space → Prop}
  {visit : Tree → Walk Unit Unit Tree} {values : List FrameValue} {stopAfter : Option NodeId}

open Walk

section Plain

variable [Inhabited μ] {v : Visitor μ σ} {visit : Tree → Walk μ σ Tree}

/-- What a visitor yields at the slots of a layer, if it walks through padded elements. -/
theorem relate_actions (hvisit : ∀ values t, Yields values (visit t) (R t))
    (hspace : ∀ values l s, Yields values (v.space l s) (S l s))
    (hfollowed : v.followed visit = walkFollowed v.space visit)
    (hpreceded : v.preceded visit = walkPreceded v.space visit)
    (hseries : v.series visit = walkSeries v.space (v.followed visit)) (x : Shape Tree) :
    (yielding values).Relate R S (v.actions visit) x where
  part t _ := hvisit _ t
  space l s := hspace _ l s
  followed l _ x _ := by
    simp only [actions, hfollowed]
    exact yields_walkFollowed (hvisit _ _) (hspace _ _ _)
  preceded l x _ := by
    simp only [actions, hpreceded]
    exact yields_walkPreceded (hspace _ _ _) (hvisit _ _)
  word l s := yields_within (hspace _ _ _)
  series l s _ := by
    simp only [actions, hseries, hfollowed]
    exact yields_walkSeries (hspace _ _ _) fun x _ => yields_walkFollowed (hvisit _ _) (hspace _ _ _)

end Plain

/-- Changing spaces yields a related tree, if each space is related to the one it becomes. -/
theorem yields_ofSpaces (C : Tree.Congruence R S) {f : SpaceSlot → Space → Space}
    (hf : ∀ l s, S l s (f l s)) (values : List FrameValue) (t : Tree) :
    Yields values ((ofSpaces stopAfter f).visit t) (R t) := by
  refine yields_visitWithin (fun _ _ => True) C.refl (fun visit hvisit values t _ => ?_) _ values t
    trivial
  have hrel : Yields (.tree t :: values) ((ofSpaces stopAfter f).walk visit t) (R t) :=
    yields_walk C (.pure (hf _ t.leading)) (relate_actions (v := ofSpaces stopAfter f)
      (fun values t => hvisit values t ⟨⟩) (fun _ l s => .pure (hf l s)) rfl rfl rfl t.shape)
  exact .bind (P := (· = t)) (.pure rfl) fun _ h => h ▸ hrel.bind fun _ hu => .pure hu

/-- Changing nodes yields a related tree, if each node is related to the one it becomes. -/
theorem yields_ofNodes (C : Tree.Congruence R S) {f : Option NodeKind → Tree → Tree}
    (hf : ∀ k t, R t (f k t)) (values : List FrameValue) (t : Tree) :
    Yields values ((ofNodes stopAfter f).visit t) (R t) := by
  refine yields_visitWithin (fun _ _ => True) C.refl (fun visit hvisit values t _ => ?_) _ values t
    trivial
  have hrel (u : Tree) : Yields (.tree t :: values) ((ofNodes stopAfter f).walk visit u) (R u) :=
    yields_walk C (.pure (C.space _ _)) (relate_actions (v := ofNodes stopAfter f)
      (fun values t => hvisit values t ⟨⟩) (fun _ l s => .pure (C.space l s)) rfl rfl rfl u.shape)
  refine .bind (P := (· = t)) (.pure rfl) ?_
  rintro _ rfl
  refine .bind (yields_trail.bind fun trail _ => ?_) fun _ hu => .pure hu
  exact (hrel _).mono fun u => C.trans (hf _ _)

end Visitor

end JavaSource
