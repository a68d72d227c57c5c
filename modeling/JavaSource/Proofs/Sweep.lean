import JavaSource.Proofs.Overrides
import Mathlib.Data.List.Nodup

/-!
# Sweeps

`Sweep` says which nodes of a list a visit enters that stops after one of them, and what becomes of
the nodes: it enters them all, or those up to the end of this one, or, when it has been stopped,
none.  One sweep after another is a sweep (`Sweep.append`), and so is one inside a node
(`Sweep.around`, `Sweep.at_end`).  `Walk.Sweeps` are the walks that sweep over nodes; the walk
through a layer is one when the visits of its parts are (`Overrides.sweeps_traverse`).
-/

namespace JavaSource

variable {μ σ α β : Type}

/-! ### What callbacks may do -/

namespace Trail

/-- The trail without its notes. -/
def bare (trail : Trail μ) : Trail Unit := trail.map fun frame => ⟨frame.value, frame.stopped, ()⟩

theorem bare_modifyFirst (p : FrameValue → Bool) (trail : Trail μ) :
    (trail.modifyFirst (fun frame => p frame.value)
      fun frame => { frame with stopped := true }).bare =
      trail.bare.modifyFirst (fun frame => p frame.value) fun frame =>
        { frame with stopped := true } := by
  fun_induction trail.modifyFirst (fun frame => p frame.value)
    (fun frame => { frame with stopped := true }) with
  | case1 => rfl
  | case2 frame => rfl
  | case3 frame rest hrest hp =>
    cases rest with
    | nil => exact absurd rfl hrest
    | cons next rest => simp [bare, modifyFirst, hp]
  | case4 frame rest hrest hp ih =>
    cases rest with
    | nil => exact absurd rfl hrest
    | cons next rest =>
      simp only [bare, List.map_cons, modifyFirst, hp] at ih ⊢
      simp [ih]

theorem bare_stop (trail : Trail μ) : trail.stop.bare = trail.bare.stop :=
  bare_modifyFirst (fun value => value.kind? == some .compilationUnit) trail

theorem node?_bare (trail : Trail μ) : trail.bare.node? = trail.node? := by
  simp [bare, node?, List.findSome?_map, Function.comp_def]

theorem isStopped_bare (trail : Trail μ) : trail.bare.isStopped = trail.isStopped := by
  simp [bare, isStopped, List.any_map, Function.comp_def]

theorem node?_eq_values (trail : Trail μ) :
    trail.node? = trail.values.findSome? FrameValue.tree? := by
  simp [values, node?, List.findSome?_map, Function.comp_def]

theorem node?_stop (trail : Trail μ) : trail.stop.node? = trail.node? := by
  rw [node?_eq_values, node?_eq_values, values_stop]

theorem isStopped_stop {trail : Trail μ} (h : trail ≠ []) : trail.stop.isStopped = true := by
  unfold stop
  fun_induction trail.modifyFirst (fun frame => frame.value.kind? == some .compilationUnit)
    (fun frame => { frame with stopped := true }) with
  | case1 => exact absurd rfl h
  | case2 frame => rfl
  | case3 frame rest hrest hp => rfl
  | case4 frame rest hrest hp ih => simpa [isStopped] using Or.inr (ih hrest)

theorem stop_cons {frame : Frame μ} {trail : Trail μ} (h : trail ≠ [])
    (hkind : frame.value.kind? ≠ some .compilationUnit) :
    stop (frame :: trail) = frame :: trail.stop := by
  cases trail with
  | nil => exact absurd rfl h
  | cons next rest => simp [stop, modifyFirst, hkind]

theorem ne_nil_of_node? {trail : Trail μ} {t : Tree} (h : trail.node? = some t) : trail ≠ [] := by
  rintro rfl
  cases h

theorem node?_of_bare {trail trail' : Trail μ} {stops : Bool}
    (h : trail'.bare = if stops then trail.bare.stop else trail.bare) :
    trail'.node? = trail.node? := by
  rw [← node?_bare, h, ← node?_bare trail]
  split
  · exact node?_stop _
  · rfl

/-- A stop is noted above a frame that stands for no file. -/
theorem bare_tail [Inhabited μ] {trail trail' : Trail μ} {value : FrameValue} {stops : Bool}
    (hne : trail ≠ []) (hvalue : stops = true → value.kind? ≠ some .compilationUnit)
    (h : trail'.bare = if stops then Trail.stop (bare (fresh value :: trail))
      else bare (fresh value :: trail)) :
    Trail.bare (List.tail trail') = if stops then trail.bare.stop else trail.bare := by
  have htail : Trail.bare (List.tail trail') = List.tail (Trail.bare trail') := List.map_tail ..
  rw [htail, h]
  cases stops with
  | false => rfl
  | true =>
    have hne : trail.bare ≠ [] := by simpa [bare] using hne
    have hcons : bare (fresh value :: trail) = ⟨value, false, ()⟩ :: trail.bare := rfl
    rw [if_pos rfl, hcons, stop_cons hne (hvalue rfl)]
    rfl

end Trail

namespace Overrides

/-- The callback gives a node with the identity and the parts of the one it is given, and changes no
more of the trail than the notes. -/
def KeepsNode (call : Tree → Walk μ σ Tree) : Prop :=
  ∀ t w u v, (call t).run w = .ok (u, v) →
    u.id = t.id ∧ u.children = t.children ∧ v.trail.bare = w.trail.bare

/-- All callbacks keep the identity and the parts of nodes, and of the trail all but its notes. -/
structure Keeps (o : Overrides μ σ) : Prop where
  enter : KeepsNode o.enter
  leave : KeepsNode o.leave
  identifier : KeepsNode o.identifier
  space : ∀ l s w s' v, (o.space l s).run w = .ok (s', v) → v.trail.bare = w.trail.bare

end Overrides

/-! ### Sweeps -/

namespace Step

/-- The node that is entered, if one is. -/
def entered? : Step → Option Tree
  | ⟨node, .enter⟩ => some node
  | _ => none

/-- The call is for a space that the node holds. -/
def IsSpaceOf (m : Tree) (s : Step) : Prop := s.node = m ∧ ∃ l, s.call = .space l

/-- The call is for a space of a node that encloses `n`, or leaves such a node. -/
def Encloses (n : Tree) (s : Step) : Prop :=
  n ∈ s.node.preorder.tail ∧ (s.call = .leave ∨ ∃ l, s.call = .space l)

end Step

/-- The nodes that are entered. -/
def entered (steps : List Step) : List Tree := steps.filterMap Step.entered?

theorem entered_append (steps steps' : List Step) :
    entered (steps ++ steps') = entered steps ++ entered steps' := List.filterMap_append ..

theorem entered_of_leave (n : Tree) {steps : List Step} (h : ∀ s ∈ steps, s.Encloses n) :
    entered (⟨n, .leave⟩ :: steps) = [] := by
  have hsteps : entered steps = [] := by
    refine List.filterMap_eq_nil_iff.2 fun s hs => ?_
    obtain ⟨node, call⟩ := s
    obtain ⟨-, rfl | ⟨l, rfl⟩⟩ := h _ hs <;> rfl
  exact hsteps

/-- The nodes `ns` become `ns'` where a visit stops after `n` in the middle of them: it enters those
up to the last node of `n`, and the nodes after it stay.  After leaving `n` it takes only steps that
enclose `n` and those of `own`. -/
inductive Cut (n : Tree) (own : Step → Prop) : List Tree → List Tree → List Step → Prop
  | intro (first first' rest : List Tree) (before after : List Step) (hn : n ∉ first)
      (hids : first'.map Tree.id = (first ++ n.preorder).map Tree.id)
      (hentered : entered before = first ++ n.preorder)
      (hbefore : ∀ s ∈ before, s.call = .leave → s.node ≠ n)
      (hafter : ∀ s ∈ after, own s ∨ s.Encloses n) :
    Cut n own (first ++ n.preorder ++ rest) (first' ++ rest) (before ++ ⟨n, .leave⟩ :: after)

/-- What a visit that stops after `n` does with the nodes `ns`: when it has been stopped, it only
takes steps of `own`; else it enters all of them, or stops in the middle of them. -/
inductive Sweep (n : Tree) (own : Step → Prop) :
    List Tree → List Tree → Bool → List Step → Bool → Prop
  | skip {ns steps} (hsteps : ∀ s ∈ steps, own s) : Sweep n own ns ns true steps false
  | all {ns ns' steps} (hn : n ∉ ns) (hids : ns'.map Tree.id = ns.map Tree.id)
      (hentered : entered steps = ns) (hleave : ∀ s ∈ steps, s.call = .leave → s.node ∈ ns) :
    Sweep n own ns ns' false steps false
  | cut {ns ns' steps} (h : Cut n own ns ns' steps) : Sweep n own ns ns' false steps true

namespace Sweep

variable {n : Tree} {own : Step → Prop} {ns ns' ms ms' : List Tree} {stopped stops stops' : Bool}
  {steps steps' : List Step}

theorem nil (stopped : Bool) : Sweep n own [] [] stopped [] false := by
  cases stopped with
  | true => exact .skip (by simp)
  | false => exact .all (by simp) rfl rfl (by simp)

theorem space (stopped : Bool) (m : Tree) (l : SpaceSlot) :
    Sweep n (Step.IsSpaceOf m) [] [] stopped [⟨m, .space l⟩] false := by
  cases stopped with
  | true => exact .skip (by simp [Step.IsSpaceOf])
  | false => exact .all (by simp) rfl rfl (by simp)

theorem stops_eq_false (h : Sweep n own ns ns' true steps stops) : stops = false := by
  cases h with
  | skip => rfl

/-- One sweep after another. -/
theorem append (h : Sweep n own ns ns' stopped steps stops)
    (h' : Sweep n own ms ms' (stopped || stops) steps' stops') :
    Sweep n own (ns ++ ms) (ns' ++ ms') stopped (steps ++ steps') (stops || stops') := by
  cases h with
  | skip hsteps =>
    cases h' with
    | skip hsteps' => exact .skip (by simpa [or_imp, forall_and] using ⟨hsteps, hsteps'⟩)
  | all hn hids hentered hleave =>
    cases h' with
    | all hn' hids' hentered' hleave' =>
      refine .all (by simp [hn, hn']) (by simp [hids, hids'])
        (by rw [entered_append, hentered, hentered']) ?_
      intro s hs hcall
      rcases List.mem_append.1 hs with hs | hs
      · exact List.mem_append_left _ (hleave s hs hcall)
      · exact List.mem_append_right _ (hleave' s hs hcall)
    | cut hcut =>
      obtain ⟨first, first', rest, before, after, hfirst, hids', hentered', hbefore, hafter⟩ := hcut
      have hcut : Cut n own _ _ _ := Cut.intro (ns ++ first) (ns' ++ first') rest
        (steps ++ before) after (by simp [hn, hfirst]) (by simp [hids, hids'])
        (by rw [entered_append, hentered, hentered', List.append_assoc]) ?_ hafter
      · simpa using Sweep.cut hcut
      · intro s hs hcall heq
        rcases List.mem_append.1 hs with hs | hs
        · exact hn (heq ▸ hleave s hs hcall)
        · exact hbefore s hs hcall heq
  | cut hcut =>
    obtain ⟨first, first', rest, before, after, hfirst, hids', hentered', hbefore, hafter⟩ := hcut
    cases h' with
    | skip hsteps' =>
      have hcut : Cut n own _ _ _ :=
        Cut.intro first first' (rest ++ ms) before (after ++ steps') hfirst hids' hentered'
          hbefore ?_
      · simpa using Sweep.cut hcut
      · intro s hs
        rcases List.mem_append.1 hs with hs | hs
        · exact hafter s hs
        · exact .inl (hsteps' s hs)

end Sweep

/-! ### The nodes of a tree -/

/-- The nodes of a list of trees, each before its parts. -/
abbrev nodesOf (ts : List Tree) : List Tree := ts.flatMap Tree.preorder

namespace Tree

theorem height_le_of_mem_preorder {t c : Tree} (h : c ∈ t.preorder) : c.height ≤ t.height := by
  induction t using Tree.induction with
  | node t ih =>
    rw [preorder_eq, List.mem_cons] at h
    rcases h with rfl | h
    · exact Nat.le_refl _
    · obtain ⟨a, ha, hc⟩ := List.mem_flatMap.1 h
      exact Nat.le_of_lt (Nat.lt_of_le_of_lt (ih a ha hc) (height_lt_of_mem_children ha))

theorem not_mem_nodesOf_children (t : Tree) : t ∉ nodesOf t.children := by
  intro h
  obtain ⟨c, hc, ht⟩ := List.mem_flatMap.1 h
  exact absurd (height_le_of_mem_preorder ht) (Nat.not_le.2 (height_lt_of_mem_children hc))

/-- How many nodes come before the end of the first node of this identity, its parts included. -/
def countThrough (t n : Tree) : Nat := t.preorder.findIdx (·.id == n.id) + n.preorder.length

end Tree

theorem Cut.mem {n : Tree} {own : Step → Prop} {ns ns' : List Tree} {steps : List Step}
    (h : Cut n own ns ns' steps) : n ∈ ns := by
  cases h
  simp [Tree.self_mem_preorder]

theorem Cut.take_countThrough {n t : Tree} {own : Step → Prop} {ns' : List Tree} {steps : List Step}
    (hid : ∀ a ∈ t.preorder, a.id = n.id → a = n) (h : Cut n own t.preorder ns' steps) :
    ∃ before after, steps = before ++ ⟨n, .leave⟩ :: after ∧
      entered before = t.preorder.take (t.countThrough n) ∧
      ns'.map Tree.id = t.preorder.map Tree.id ∧
      ns'.drop (t.countThrough n) = t.preorder.drop (t.countThrough n) ∧
      (∀ s ∈ before, s.call = .leave → s.node ≠ n) ∧ ∀ s ∈ after, own s ∨ s.Encloses n := by
  generalize hns : t.preorder = ns at h hid
  obtain ⟨first, first', rest, before, after, hfirst, hids, hentered, hbefore, hafter⟩ := h
  have hindex : (first ++ n.preorder ++ rest).findIdx (·.id == n.id) = first.length := by
    have hnone (a : Tree) (ha : a ∈ first) : (a.id == n.id) = false := by
      refine beq_eq_false_iff_ne.2 fun heq => hfirst ?_
      have := hid a (by simp [ha]) heq
      exact this ▸ ha
    have hlength : first.findIdx (·.id == n.id) = first.length :=
      List.findIdx_eq_length_of_false hnone
    rw [List.append_assoc, List.findIdx_append, hlength, if_neg (Nat.lt_irrefl _),
      Tree.preorder_eq n, List.cons_append, List.findIdx_cons, beq_self_eq_true]
    exact Nat.zero_add _
  have hcount : t.countThrough n = (first ++ n.preorder).length := by
    rw [Tree.countThrough, hns, hindex, List.length_append]
  have hlength : first'.length = (first ++ n.preorder).length := by
    have := congrArg List.length hids
    simpa only [List.length_map] using this
  rw [hcount]
  refine ⟨before, after, rfl, ?_, ?_, ?_, hbefore, hafter⟩
  · rw [hentered, List.take_left]
  · rw [List.map_append, hids, ← List.map_append]
  · rw [List.drop_left, ← hlength, List.drop_left]

/-- A sweep that comes to `n` stops after it. -/
theorem Sweep.cut_of_mem {n : Tree} {own : Step → Prop} {ns ns' : List Tree} {steps : List Step}
    {stops : Bool} (h : Sweep n own ns ns' false steps stops) (hn : n ∈ ns) :
    Cut n own ns ns' steps := by
  cases h with
  | all hnot => exact absurd hn hnot
  | cut hcut => exact hcut

theorem Sweep.cut_of_stops {n : Tree} {own : Step → Prop} {ns ns' : List Tree} {stopped : Bool}
    {steps : List Step} (h : Sweep n own ns ns' stopped steps true) : Cut n own ns ns' steps := by
  cases h with
  | cut hcut => exact hcut

namespace Sweep

variable {n c u : Tree} {own own' : Step → Prop} {ns : List Tree} {stops : Bool}
  {steps : List Step}

/-- The visit of `n` itself stops when it is left. -/
theorem at_end (h : Sweep n own (nodesOf n.children) ns false steps stops) (hid : u.id = n.id) :
    stops = false ∧
      Sweep n own' n.preorder (u :: ns) false (⟨n, .enter⟩ :: steps ++ [⟨n, .leave⟩]) true := by
  cases h with
  | all hn hids hentered hleave =>
    refine ⟨rfl, ?_⟩
    have hcut : Cut n own' _ _ _ := Cut.intro [] (u :: ns) [] (⟨n, .enter⟩ :: steps) []
      List.not_mem_nil (by simp [hids, hid, Tree.preorder_eq n]) ?_ ?_ (by simp)
    · simpa using Sweep.cut hcut
    · rw [List.nil_append, Tree.preorder_eq n]
      exact congrArg (n :: ·) hentered
    · intro s hs hcall heq
      rcases List.mem_cons.1 hs with rfl | hs
      · cases hcall
      · exact hn (heq ▸ hleave s hs hcall)
  | cut hcut => exact absurd hcut.mem n.not_mem_nodesOf_children

/-- The visit of another node goes on, or was stopped at one of its parts. -/
theorem around (h : Sweep n (Step.IsSpaceOf c) (nodesOf c.children) ns false steps stops)
    (hid : u.id = c.id) (hne : n ≠ c) :
    Sweep n own c.preorder (u :: ns) false (⟨c, .enter⟩ :: steps ++ [⟨c, .leave⟩]) stops := by
  have hpreorder : c.preorder = c :: nodesOf c.children := c.preorder_eq
  have htail : c.preorder.tail = nodesOf c.children := by rw [hpreorder, List.tail_cons]
  rw [hpreorder]
  generalize nodesOf c.children = ms at h htail ⊢
  cases h with
  | all hn hids hentered hleave =>
    refine .all (by simp [hne, hn]) (by simp [hid, hids]) ?_ ?_
    · rw [entered_append]
      exact (List.append_nil _).trans (congrArg (c :: ·) hentered)
    · intro s hs hcall
      rcases List.mem_append.1 hs with hs | hs
      · rcases List.mem_cons.1 hs with rfl | hs
        · cases hcall
        · exact List.mem_cons_of_mem _ (hleave s hs hcall)
      · rw [List.mem_singleton.1 hs]
        exact List.mem_cons_self
  | cut hcut =>
    have hmem : n ∈ c.preorder.tail := htail ▸ hcut.mem
    obtain ⟨first, first', rest, before, after, hfirst, hids, hentered, hbefore, hafter⟩ := hcut
    have hcut : Cut n own _ _ _ := Cut.intro (c :: first) (u :: first') rest (⟨c, .enter⟩ :: before)
      (after ++ [⟨c, .leave⟩]) (by simp [hne, hfirst]) (by simp [hid, hids])
      (congrArg (c :: ·) hentered) ?_ ?_
    · simpa using Sweep.cut hcut
    · intro s hs hcall heq
      rcases List.mem_cons.1 hs with rfl | hs
      · cases hcall
      · exact hbefore s hs hcall heq
    · intro s hs
      rcases List.mem_append.1 hs with hs | hs
      · refine .inr ?_
        obtain ⟨hnode, hspace⟩ | hs := hafter s hs
        · exact ⟨hnode ▸ hmem, .inr hspace⟩
        · exact hs
      · rw [List.mem_singleton.1 hs]
        exact .inr ⟨hmem, .inl rfl⟩

end Sweep

/-! ### Walks that sweep -/

/-- Where `m` is the innermost node, the walk sweeps over the nodes `ns`; its answer has to do with
the nodes after the sweep as `P` says.  When the sweep stops, so does the trail. -/
def Walk.Sweeps (n m : Tree) (p : Walk μ (σ × List Step) α) (ns : List Tree)
    (P : α → List Tree → Prop) : Prop :=
  ∀ w a v, w.trail.node? = some m → p.run w = .ok (a, v) → ∃ steps stops ns',
    v.state.2 = w.state.2 ++ steps ∧
    v.trail.bare = (if stops then w.trail.bare.stop else w.trail.bare) ∧
    Sweep n (Step.IsSpaceOf m) ns ns' w.trail.isStopped steps stops ∧ P a ns'

namespace Walk

variable {n m : Tree} {ns ms : List Tree} {p : Walk μ (σ × List Step) α}
  {P : α → List Tree → Prop} {Q : β → List Tree → Prop}

theorem Sweeps.pure {a : α} (h : P a []) :
    Sweeps n m (Pure.pure a : Walk μ (σ × List Step) α) [] P := by
  rintro w _ _ _ ⟨⟩
  exact ⟨[], false, [], (List.append_nil _).symm, rfl, .nil _, h⟩

theorem Sweeps.bind {f : α → Walk μ (σ × List Step) β} (hp : Sweeps n m p ns P)
    (hf : ∀ a ns', P a ns' → Sweeps n m (f a) ms fun b ms' => Q b (ns' ++ ms')) :
    Sweeps n m (p >>= f) (ns ++ ms) Q := by
  intro w b u hm hrun
  obtain ⟨a, v, hpw, hrun⟩ := exists_of_run_bind hrun
  · obtain ⟨steps, stops, ns', hlog, htrail, hsweep, hP⟩ := hp w a v hm hpw
    have hnode : v.trail.node? = some m := (Trail.node?_of_bare htrail).trans hm
    obtain ⟨steps', stops', ms', hlog', htrail', hsweep', hQ⟩ := hf a ns' hP v b u hnode hrun
    have hstopped : v.trail.isStopped = (w.trail.isStopped || stops) := by
      rw [← Trail.isStopped_bare, htrail]
      cases stops with
      | true =>
        have hne : w.trail.bare ≠ [] := by
          refine Trail.ne_nil_of_node? (t := m) ?_
          rw [Trail.node?_bare, hm]
        simpa using Trail.isStopped_stop hne
      | false => simp [Trail.isStopped_bare]
    rw [hstopped] at hsweep'
    refine ⟨steps ++ steps', stops || stops', ns' ++ ms', ?_, ?_, hsweep.append hsweep', hQ⟩
    · rw [hlog', hlog, List.append_assoc]
    · rw [htrail', htrail]
      cases stops with
      | false => simp
      | true =>
        rw [Bool.or_true] at hsweep'
        rw [hsweep'.stops_eq_false]
        rfl

theorem Sweeps.into {f : α → β} (h : Sweeps n m p ns P) (hP : ∀ a ns', P a ns' → Q (f a) ns') :
    Sweeps n m (p >>= fun a => Pure.pure (f a)) ns Q := by
  rw [← List.append_nil ns]
  refine h.bind fun a ns' ha => .pure ?_
  rw [List.append_nil]
  exact hP a ns' ha

theorem Sweeps.map {f : α → β} (h : Sweeps n m p ns P) (hP : ∀ a ns', P a ns' → Q (f a) ns') :
    Sweeps n m (f <$> p) ns Q := by
  rw [map_eq_pure_bind]
  exact h.into hP

theorem Sweeps.of_map {f : α → β} (h : Sweeps n m (f <$> p) ns Q) :
    Sweeps n m p ns fun a ns' => Q (f a) ns' := by
  intro w a v hm hrun
  exact h w (f a) v hm (by rw [StateT.run_map, hrun]; rfl)

/-- A frame that is no node and is not kept. -/
theorem Sweeps.within [Inhabited μ] {value : FrameValue} (hvalue : value.tree? = none)
    (h : Sweeps n m p ns P) : Sweeps n m (within value p) ns P := by
  intro w a v hm hrun
  obtain ⟨u, hp, rfl⟩ := exists_of_run_within hrun
  have hnode : Trail.node? (Trail.fresh value :: w.trail) = some m := by
    rw [← hm]
    simp [Trail.node?, Trail.fresh, hvalue]
  obtain ⟨steps, stops, ns', hlog, htrail, hsweep, hP⟩ := h _ a u hnode hp
  have hkind : value.kind? ≠ some .compilationUnit := by simp [FrameValue.kind?, hvalue]
  have htail := Trail.bare_tail (Trail.ne_nil_of_node? hm) (fun _ => hkind) htrail
  exact ⟨steps, stops, ns', hlog, htail, hsweep, hP⟩

theorem sweeps_mapM {γ : Type} {f : γ → Walk μ (σ × List Step) α} {g : γ → List Tree}
    {k : α → List Tree} {xs : List γ}
    (h : ∀ x ∈ xs, Sweeps n m (f x) (g x) fun a ns => ns = k a) :
    Sweeps n m (xs.mapM f) (xs.flatMap g) fun as ns => ns = as.flatMap k := by
  induction xs with
  | nil => exact .pure rfl
  | cons x xs ih =>
    rw [List.mapM_cons, List.flatMap_cons]
    refine (h x List.mem_cons_self).bind fun a ns hns => ?_
    have hrest := ih fun y hy => h y (List.mem_cons_of_mem x hy)
    refine hrest.into fun as ms hms => ?_
    rw [hns, hms, List.flatMap_cons]

end Walk

namespace Overrides

variable [Inhabited μ] {o : Overrides μ σ} {n m : Tree}

open Walk

omit [Inhabited μ] in
/-- A call that is recorded: what is called, and its step. -/
theorem exists_of_run_guarded {p : Walk μ σ α} {call : Call} {w v : Traversal μ (σ × List Step)}
    {a : α} (hm : w.trail.node? = some m)
    (h : (record call >>= fun _ => Walk.beside p).run w = .ok (a, v)) :
    ∃ u, p.run w.forget = .ok (a, u) ∧ v.trail = u.trail ∧
      v.state.2 = w.state.2 ++ [⟨m, call⟩] := by
  rw [StateT.run_bind, run_record, hm] at h
  have h : (fun r : α × Traversal μ σ => (r.1, (⟨r.2.trail, (r.2.state,
      w.state.2 ++ [⟨m, call⟩])⟩ : Traversal μ (σ × List Step)))) <$> p.run w.forget =
      .ok (a, v) := h
  cases hp : p.run w.forget with
  | error e => rw [hp] at h; cases h
  | ok r =>
    obtain ⟨b, u⟩ := r
    rw [hp] at h
    obtain ⟨rfl, rfl⟩ := Prod.mk.inj (Except.ok.inj h)
    exact ⟨u, rfl, rfl, rfl⟩

omit [Inhabited μ] in
theorem sweeps_space (hk : o.Keeps) (l : SpaceSlot) (s : Space) :
    Sweeps n m (o.recorded.space l s) [] fun _ ns => ns = [] := by
  intro w s' v hm hrun
  obtain ⟨u, hu, hv, hlog⟩ := exists_of_run_guarded hm hrun
  refine ⟨_, false, [], hlog, ?_, .space _ m l, rfl⟩
  rw [hv]
  exact hk.space _ _ _ _ _ hu

variable {visit : Tree → Walk μ (σ × List Step) Tree}

theorem sweeps_followed (hk : o.Keeps) {l : FollowedSlot} {x : Followed Tree}
    (h : Sweeps n m (visit x.element) x.element.preorder fun u ns => ns = u.preorder) :
    Sweeps n m (walkFollowed o.recorded.space visit l x) x.element.preorder fun y ns =>
      ns = y.element.preorder := by
  rw [← List.append_nil x.element.preorder]
  refine .within rfl (h.bind ?_)
  rintro u _ rfl
  refine (sweeps_space hk _ _).into ?_
  rintro s _ rfl
  exact List.append_nil _

theorem sweeps_preceded (hk : o.Keeps) {l : PrecededSlot} {x : Preceded Tree}
    (h : Sweeps n m (visit x.element) x.element.preorder fun u ns => ns = u.preorder) :
    Sweeps n m (walkPreceded o.recorded.space visit l x) x.element.preorder fun y ns =>
      ns = y.element.preorder := by
  rw [← List.nil_append x.element.preorder]
  refine .within rfl ((sweeps_space hk _ _).bind ?_)
  rintro s _ rfl
  refine h.into ?_
  rintro u _ rfl
  rfl

theorem sweeps_series (hk : o.Keeps) {l : SeriesSlot} {s : Series Tree}
    (h : ∀ a ∈ items s.elements,
      Sweeps n m (visit a) a.preorder fun u ns => ns = u.preorder) :
    Sweeps n m (walkSeries o.recorded.space (walkFollowed o.recorded.space visit) l s)
      (nodesOf (items s.elements)) fun y ns => ns = nodesOf (items y.elements) := by
  have hfollowed (x : Followed Tree) (hx : x ∈ s.elements) :=
    sweeps_followed hk (l := l.element) (x := x) (h _ (List.mem_map_of_mem hx))
  have helements := sweeps_mapM (g := fun x : Followed Tree => x.element.preorder) hfollowed
  have hitems (xs : List (Followed Tree)) :
      nodesOf (items xs) = xs.flatMap fun x => x.element.preorder := List.flatMap_map ..
  rw [hitems, ← List.nil_append (List.flatMap _ _)]
  refine .within rfl ((sweeps_space hk _ _).bind ?_)
  rintro before _ rfl
  refine helements.into ?_
  rintro ys _ rfl
  rw [hitems]
  rfl

theorem sweeps_slot (hk : o.Keeps) {i : Option NodeId} {x : Slot Tree}
    (h : ∀ a ∈ x.parts, Sweeps n m (visit a) a.preorder fun u ns => ns = u.preorder) :
    Sweeps n m (((o.recorded.visitor i).actions visit).slot x) (nodesOf x.parts) fun y ns =>
      ns = nodesOf y.parts := by
  have hone (t : Tree) : t.preorder = nodesOf [t] := by simp
  cases x with
  | part a =>
    have ha := h a List.mem_cons_self
    rw [hone] at ha
    refine Sweeps.map ha ?_
    rintro u _ rfl
    exact hone u
  | space l s => exact (sweeps_space hk l s).map fun _ _ hns => hns
  | followed l x =>
    have hx := sweeps_followed hk (l := l) (h x.element List.mem_cons_self)
    rw [hone] at hx
    refine hx.map ?_
    rintro y _ rfl
    exact hone _
  | preceded l x =>
    have hx := sweeps_preceded hk (l := l) (h x.element List.mem_cons_self)
    rw [hone] at hx
    refine hx.map ?_
    rintro y _ rfl
    exact hone _
  | word l s => exact (Sweeps.within rfl (sweeps_space hk _ s)).map fun _ _ hns => hns
  | series l s =>
    rw [Slot.parts_series] at h ⊢
    refine (sweeps_series hk h).map ?_
    rintro t _ rfl
    rw [Slot.parts_series]

/-- The walk through a layer sweeps over the nodes of its parts. -/
theorem sweeps_traverse (hk : o.Keeps) {i : Option NodeId} {x : Shape Tree}
    (h : ∀ a ∈ x.children, Sweeps n m (visit a) a.preorder fun u ns => ns = u.preorder) :
    Sweeps n m (x.traverse ((o.recorded.visitor i).actions visit)) (nodesOf x.children)
      fun y ns => ns = nodesOf y.children := by
  have hnodes (xs : List (Slot Tree)) :
      nodesOf (xs.flatMap Slot.parts) = xs.flatMap fun x => nodesOf x.parts := List.flatMap_assoc
  have hslots : Sweeps n m (x.slots.mapM ((o.recorded.visitor i).actions visit).slot)
      (x.slots.flatMap fun x => nodesOf x.parts)
      fun ys ns => ns = ys.flatMap fun y => nodesOf y.parts := by
    refine sweeps_mapM fun y hy => sweeps_slot hk fun a ha => h a ?_
    rw [Shape.children_eq_slots]
    exact List.mem_flatMap.2 ⟨y, hy, ha⟩
  have hshape : Sweeps n m
      ((fun y => (y.kind, y.slots)) <$> x.traverse ((o.recorded.visitor i).actions visit))
      (nodesOf x.children)
      fun (r : NodeKind × List (Slot Tree)) ns => ns = nodesOf (r.2.flatMap Slot.parts) := by
    rw [Shape.slots_traverse, Shape.children_eq_slots, hnodes]
    refine hslots.map ?_
    rintro ys _ rfl
    exact (hnodes ys).symm
  simpa only [Shape.children_eq_slots] using hshape.of_map

end Overrides

end JavaSource
