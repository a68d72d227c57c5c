import JavaSource.Proofs.Sweep

/-!
# Where a visit stops

After the node that it is told to stop after, a visit enters no node any more: it leaves the nodes
that enclose this one, and calls for the spaces that they hold (`Overrides.run_stopAfter`).  The
stop is noted at the innermost file, so it ends with it: where a file is nested in what is visited,
the visit goes on after it (`Overrides.exists_run_past_stop`).
-/

namespace JavaSource

variable {μ σ : Type}

namespace Overrides

variable [Inhabited μ] {o : Overrides μ σ} {n m : Tree} {visit : Tree → Walk μ (σ × List Step) Tree}

open Walk

/-! ### The visit of a node -/

omit [Inhabited μ] in
/-- A recorded callback at a node. -/
theorem exists_of_run_callback {f : Tree → Walk μ σ Tree} (hf : KeepsNode f) {call : Call}
    {t u : Tree} {w v : Traversal μ (σ × List Step)} (hm : w.trail.node? = some m)
    (h : (record call >>= fun _ => Walk.beside (f t)).run w = .ok (u, v)) :
    u.id = t.id ∧ u.children = t.children ∧ v.trail.bare = w.trail.bare ∧
      v.state.2 = w.state.2 ++ [⟨m, call⟩] := by
  obtain ⟨w', hw', hv, hlog⟩ := exists_of_run_guarded hm h
  obtain ⟨hid, hchildren, htrail⟩ := hf _ _ _ _ hw'
  exact ⟨hid, hchildren, by rw [hv, htrail]; rfl, hlog⟩

/-- The walk at a node whose parts are swept over. -/
theorem sweep_node (hk : o.Keeps) {i : Option NodeId} {t u : Tree}
    (h : ∀ a ∈ t.children, Sweeps n m (visit a) a.preorder fun u ns => ns = u.preorder)
    {w v : Traversal μ (σ × List Step)} (hm : w.trail.node? = some m)
    (hw : w.trail.isStopped = false)
    (hrun : ((o.recorded.visitor i).node ((o.recorded.visitor i).walk visit) t).run w =
      .ok (u, v)) :
    u.id = t.id ∧ ∃ steps stops, v.state.2 = w.state.2 ++ steps ∧
      v.trail.bare = (if stops then w.trail.bare.stop else w.trail.bare) ∧
      Sweep n (Step.IsSpaceOf m) (nodesOf t.children) (nodesOf u.children) false steps stops := by
  simp only [visitor] at hrun
  split at hrun
  case h_1 name type hshape =>
    obtain ⟨hid, hchildren, htrail, hlog⟩ := exists_of_run_callback hk.identifier hm hrun
    have hnone : t.children = [] := by rw [Tree.children, hshape]; rfl
    refine ⟨hid, _, false, hlog, htrail, ?_⟩
    rw [hchildren, hnone]
    exact .all (by simp) rfl rfl (by simp)
  case h_2 =>
    have hwalk : Sweeps n m ((o.recorded.visitor i).walk visit t) ([] ++ nodesOf t.children)
        fun u ns => u.id = t.id ∧ ns = nodesOf u.children := by
      refine (sweeps_space hk _ _).bind ?_
      rintro s _ rfl
      refine (sweeps_traverse hk h).into ?_
      rintro y _ rfl
      exact ⟨rfl, rfl⟩
    obtain ⟨steps, stops, ns, hlog, htrail, hsweep, hid, rfl⟩ := hwalk w u v hm hrun
    rw [hw] at hsweep
    exact ⟨hid, steps, stops, hlog, htrail, hsweep⟩

/-- What a visit does between the frame of a node and the end of that frame. -/
def atNode (v : Visitor μ σ) (visit : Tree → Walk μ σ Tree) (t : Tree) : Walk μ σ Tree := do
  let t ← v.enter t
  let t ← v.node (v.walk visit) t
  let t ← v.leave t
  if v.stopAfter = some t.id then Walk.modifyTrail Trail.stop
  return t

/-- Inside its frame, the visit of a node sweeps over the nodes of the tree. -/
theorem sweep_atNode (hk : o.Keeps) {c : Tree} {own : Step → Prop}
    (hid : ∀ a ∈ c.preorder, a.id = n.id → a = n)
    (h : ∀ a ∈ c.children, Sweeps n c (visit a) a.preorder fun u ns => ns = u.preorder)
    {w v : Traversal μ (σ × List Step)} {u : Tree} (hc : w.trail.node? = some c)
    (hw : w.trail.isStopped = false)
    (hrun : (atNode (o.recorded.visitor (some n.id)) visit c).run w = .ok (u, v)) :
    ∃ steps stops, v.state.2 = w.state.2 ++ steps ∧
      v.trail.bare = (if stops then w.trail.bare.stop else w.trail.bare) ∧
      Sweep n own c.preorder u.preorder false steps stops := by
  obtain ⟨c₁, w₁, henter, hrun⟩ := exists_of_run_bind hrun
  obtain ⟨c₂, w₂, hnode, hrun⟩ := exists_of_run_bind hrun
  obtain ⟨c₃, w₃, hleave, hrun⟩ := exists_of_run_bind hrun
  obtain ⟨hid₁, hchildren₁, htrail₁, hlog₁⟩ := exists_of_run_callback hk.enter hc henter
  rw [← hchildren₁] at h
  obtain ⟨hid₂, steps, stops, hlog₂, htrail₂, hsweep⟩ := sweep_node hk h
    (by rw [← Trail.node?_bare, htrail₁, Trail.node?_bare, hc])
    (by rw [← Trail.isStopped_bare, htrail₁, Trail.isStopped_bare, hw]) hnode
  have hc₂ : w₂.trail.node? = some c := by
    rw [Trail.node?_of_bare htrail₂, ← Trail.node?_bare, htrail₁, Trail.node?_bare, hc]
  obtain ⟨hid₃, hchildren₃, htrail₃, hlog₃⟩ := exists_of_run_callback hk.leave hc₂ hleave
  rw [hchildren₁, ← hchildren₃] at hsweep
  have hlog : w₃.state.2 = w.state.2 ++ (⟨c, .enter⟩ :: steps ++ [⟨c, .leave⟩]) := by
    rw [hlog₃, hlog₂, hlog₁]
    simp
  have hpreorder : c₃.preorder = c₃ :: nodesOf c₃.children := c₃.preorder_eq
  have hidc : c₃.id = c.id := by rw [hid₃, hid₂, hid₁]
  have hend : u = c₃ ∧ v.state = w₃.state ∧
      v.trail.bare = if n.id = c₃.id then w₃.trail.bare.stop else w₃.trail.bare := by
    have hrun : (if some n.id = some c₃.id then modifyTrail Trail.stop >>= fun _ => pure c₃
      else pure c₃ : Walk μ (σ × List Step) Tree).run w₃ = .ok (u, v) := hrun
    by_cases hn : n.id = c₃.id
    · rw [if_pos (congrArg some hn)] at hrun
      obtain ⟨rfl, rfl⟩ := Prod.mk.inj (Except.ok.inj hrun)
      exact ⟨rfl, rfl, by rw [if_pos hn, ← Trail.bare_stop]⟩
    · rw [if_neg fun h => hn (Option.some.inj h)] at hrun
      obtain ⟨rfl, rfl⟩ := Prod.mk.inj (Except.ok.inj hrun)
      exact ⟨rfl, rfl, by rw [if_neg hn]⟩
  obtain ⟨rfl, hstate, htrail⟩ := hend
  rw [htrail₃, htrail₂, htrail₁, hidc] at htrail
  rw [hpreorder, hstate]
  by_cases hn : n = c
  · subst hn
    obtain ⟨rfl, hend⟩ := hsweep.at_end hidc
    exact ⟨_, true, hlog, by rw [htrail, if_pos rfl]; rfl, hend⟩
  · have hne : ¬ n.id = c.id := fun heq => hn (hid c c.self_mem_preorder heq.symm).symm
    rw [if_neg hne] at htrail
    exact ⟨_, stops, hlog, htrail, hsweep.around hidc hn⟩

/-- The visit of a part sweeps over the nodes of the part, if no file that encloses `n` is in it. -/
theorem sweeps_visitWithin (hk : o.Keeps) {budget : Nat} {c : Tree} (hc : c.height ≤ budget)
    (hid : ∀ a ∈ c.preorder, a.id = n.id → a = n)
    (hunits : ∀ a ∈ c.preorder, n ∈ a.preorder → a.kind ≠ .compilationUnit) :
    Sweeps n m ((o.recorded.visitor (some n.id)).visitWithin budget c) c.preorder
      fun u ns => ns = u.preorder := by
  induction budget generalizing c m with
  | zero =>
    rw [Tree.height_eq] at hc
    omega
  | succ budget ih =>
    intro w u v hm hrun
    cases hw : w.trail.isStopped with
    | true =>
      have hskip : ((o.recorded.visitor (some n.id)).visitWithin (budget + 1) c).run w =
          .ok (c, w) := by
        rw [Visitor.visitWithin, StateT.run_bind]
        change (if w.trail.isStopped = true then pure c else _ :
          Walk μ (σ × List Step) Tree).run w = _
        rw [hw]
        rfl
      rw [hskip] at hrun
      obtain ⟨rfl, rfl⟩ := Prod.mk.inj (Except.ok.inj hrun)
      exact ⟨[], false, _, (List.append_nil _).symm, rfl, .skip (by simp), rfl⟩
    | false =>
      rw [Visitor.run_visitWithin _ _ _ hw] at hrun
      have hchildren (a : Tree) (ha : a ∈ c.children) :
          Sweeps n c ((o.recorded.visitor (some n.id)).visitWithin budget a) a.preorder
            fun u ns => ns = u.preorder := by
        have := Tree.height_lt_of_mem_children ha
        exact ih (by omega) (fun b hb => hid b (Tree.mem_preorder_of_mem_children ha hb))
          fun b hb => hunits b (Tree.mem_preorder_of_mem_children ha hb)
      obtain ⟨w', hat, rfl⟩ := exists_of_run_within hrun
      obtain ⟨steps, stops, hlog, htrail, hsweep⟩ :=
        sweep_atNode hk hid hchildren (w := ⟨Trail.fresh (.tree c) :: w.trail, w.state⟩) rfl hw hat
      have hne := Trail.ne_nil_of_node? hm
      refine ⟨steps, stops, _, hlog, Trail.bare_tail hne ?_ htrail, hsweep, rfl⟩
      rintro rfl
      simpa [FrameValue.kind?, FrameValue.tree?] using
        hunits c c.self_mem_preorder hsweep.cut_of_stops.mem

theorem exists_of_run_visitor {i : Option NodeId} {state state' : σ} {t u : Tree}
    (h : (o.visitor i).run state t = .ok (u, state')) :
    ∃ v, ((o.visitor i).visit t).run ⟨Trail.start, state⟩ = .ok (u, v) ∧ v.state = state' := by
  rw [run_visitor] at h
  cases hv : ((o.visitor i).visit t).run ⟨Trail.start, state⟩ with
  | error e => rw [hv] at h; cases h
  | ok r =>
    rw [hv] at h
    obtain ⟨rfl, hstate⟩ := Prod.mk.inj (Except.ok.inj h)
    exact ⟨r.2, rfl, hstate⟩

/-- Where a visitor stops after the node `n`, and no file but the whole tree encloses `n`: it enters
exactly the nodes up to the last one of `n`, every node after them stays as it is, after `n` is left
only spaces of nodes that enclose `n` are visited and such nodes left, and if calls fail, the error
is that of the first of them. -/
theorem run_stopAfter (hk : o.Keeps) {t : Tree} (hids : (t.preorder.map Tree.id).Nodup)
    (hn : n ∈ t.preorder)
    (hunits : ∀ a ∈ t.preorder, n ∈ a.preorder → a.kind = .compilationUnit → a = t)
    {state state' : σ} {u : Tree} (hrun : (o.visitor (some n.id)).run state t = .ok (u, state')) :
    ∃ steps, (o.recorded.visitor (some n.id)).run (state, []) t = .ok (u, state', steps) ∧
      entered steps = t.preorder.take (t.countThrough n) ∧
      u.preorder.map Tree.id = t.preorder.map Tree.id ∧
      u.preorder.drop (t.countThrough n) = t.preorder.drop (t.countThrough n) ∧
      (∃ before after, steps = before ++ ⟨n, .leave⟩ :: after ∧
        (∀ s ∈ before, s.call = .leave → s.node ≠ n) ∧ ∀ s ∈ after, s.Encloses n) ∧
      ∀ fails : Step → Option VisitError,
        ((o.failing fails).visitor (some n.id)).run state t =
          match steps.findSome? fails with
          | some e => .error e
          | none => .ok (u, state') := by
  have hid (a : Tree) (ha : a ∈ t.preorder) (h : a.id = n.id) : a = n :=
    List.inj_on_of_nodup_map hids ha hn h
  obtain ⟨steps, hrecorded⟩ := exists_run_recorded hrun
  have hcut : Cut n (fun _ => False) t.preorder u.preorder steps := by
    obtain ⟨k, hk'⟩ : ∃ k, t.height = k + 1 := ⟨_, t.height_eq.trans (Nat.add_comm ..)⟩
    have hchildren (a : Tree) (ha : a ∈ t.children) :
        Sweeps n t ((o.recorded.visitor (some n.id)).visitWithin k a) a.preorder
          fun u ns => ns = u.preorder := by
      have := Tree.height_lt_of_mem_children ha
      refine sweeps_visitWithin hk (by omega)
        (fun b hb => hid b (Tree.mem_preorder_of_mem_children ha hb)) fun b hb hnb hunit => ?_
      have hbt := hunits b (Tree.mem_preorder_of_mem_children ha hb) hnb hunit
      exact t.not_mem_nodesOf_children (List.mem_flatMap.2 ⟨a, ha, hbt ▸ hb⟩)
    obtain ⟨v, hv, hsteps⟩ := exists_of_run_visitor hrecorded
    rw [Visitor.visit, hk', Visitor.run_visitWithin _ _ _ rfl] at hv
    obtain ⟨w, hat, rfl⟩ := exists_of_run_within hv
    obtain ⟨steps', stops, hlog, -, hsweep⟩ :=
      sweep_atNode hk hid hchildren (w := ⟨Trail.fresh (.tree t) :: Trail.start, (state, [])⟩)
        rfl rfl hat
    obtain rfl : steps = steps' := (congrArg Prod.snd hsteps).symm.trans hlog
    exact hsweep.cut_of_mem hn
  obtain ⟨before, after, rfl, hentered, hids', hdrop, hbefore, hafter⟩ :=
    hcut.take_countThrough hid
  have hafter (s : Step) (hs : s ∈ after) : s.Encloses n := (hafter s hs).resolve_left id
  refine ⟨_, hrecorded, ?_, hids', hdrop, ⟨before, after, rfl, hbefore, hafter⟩,
    fun fails => run_failing o fails hrecorded⟩
  rw [entered_append, hentered, entered_of_leave n hafter, List.append_nil]

/-! ### Visits that go on -/

end Overrides

namespace Tree

/-- A name. -/
def named (i : NodeId) (name : Text) : Tree := .node i .empty (.identifier name none)

/-- A file with nothing in it. -/
def emptyFile (i : NodeId) : Tree := .node i .empty (.compilationUnit ⟨none, [], [], .empty⟩)

/-- A sum. -/
def sum (left right : Tree) : Tree := .node 0 .empty (.binary left .empty .addition right none)

theorem preorder_named (i : NodeId) (name : Text) : (named i name).preorder = [named i name] :=
  preorder_eq _

theorem preorder_emptyFile (i : NodeId) : (emptyFile i).preorder = [emptyFile i] :=
  preorder_eq _

theorem preorder_sum (a b : Tree) : (sum a b).preorder = sum a b :: (a.preorder ++ b.preorder) := by
  have hchildren : (sum a b).children = [a, b] := rfl
  rw [preorder_eq, hchildren]
  simp

theorem height_sum {a b : Tree} (ha : a.height = 1) (hb : b.height = 1) : (sum a b).height = 2 := by
  have hchildren : (sum a b).children = [a, b] := rfl
  rw [height_eq, hchildren]
  simp [ha, hb]

theorem countThrough_sum {a b : Tree} (ha : a.preorder = [a]) (hid : a.id ≠ 0) :
    (sum a b).countThrough a = 2 := by
  have hsum : ((sum a b).id == a.id) = false := beq_eq_false_iff_ne.2 (Ne.symm hid)
  rw [countThrough, preorder_sum, ha, List.findIdx_cons, hsum]
  simp [List.findIdx_cons]

end Tree

namespace Overrides

/-- Changes the name of every identifier. -/
def relabel (rename : Text → Text) : Overrides Unit Unit where
  identifier t :=
    match t.shape with
    | .identifier name type => pure (t.withShape (.identifier (rename name) type))
    | _ => pure t

/-- Changes the space before the second operand of an operation when it leaves the operation. -/
def spaceOperand (s : Space) : Overrides Unit Unit where
  leave t :=
    match t.shape with
    | .binary left before operator right type =>
      pure (t.withShape (.binary left before operator (right.withLeading s) type))
    | _ => pure t

/-- The callback keeps the identities of all nodes of a tree. -/
def KeepsIds (call : Tree → Walk μ σ Tree) : Prop :=
  ∀ t w u v, (call t).run w = .ok (u, v) → u.preorder.map Tree.id = t.preorder.map Tree.id

theorem keepsNode_pure : KeepsNode (pure : Tree → Walk μ σ Tree) := by
  rintro t w u v ⟨⟩
  exact ⟨rfl, rfl, rfl⟩

theorem relabel_keeps (rename : Text → Text) : (relabel rename).Keeps where
  enter := keepsNode_pure
  leave := keepsNode_pure
  identifier := by
    rintro ⟨i, s, x⟩ w u v h
    cases x <;> (obtain ⟨rfl, rfl⟩ := Prod.mk.inj (Except.ok.inj h); exact ⟨rfl, rfl, rfl⟩)
  space := by
    rintro l s w s' v ⟨⟩
    rfl

theorem spaceOperand_keepsIds (s : Space) : KeepsIds (spaceOperand s).leave := by
  rintro ⟨i, leading, x⟩ w u v h
  cases x
  case binary left before operator right type =>
    obtain ⟨rfl, rfl⟩ := Prod.mk.inj (Except.ok.inj h)
    obtain ⟨j, s', y⟩ := right
    simp [Tree.preorder_eq, Tree.children, Tree.withShape, Tree.withLeading, Tree.shape,
      Shape.children, Tree.id]
  all_goals
    obtain ⟨rfl, rfl⟩ := Prod.mk.inj (Except.ok.inj h)
    rfl

/-- After the first operand the second one is not entered. -/
theorem run_stopAfter_sum :
    ∃ steps, ((relabel (· ++ ['_'])).recorded.visitor (some 1)).run ((), [])
        (.sum (.named 1 ['a']) (.named 2 ['b'])) =
          .ok (.sum (.named 1 ['a', '_']) (.named 2 ['b']), (), steps) ∧
      entered steps = [.sum (.named 1 ['a']) (.named 2 ['b']), .named 1 ['a']] := by
  have hpreorder : (Tree.sum (.named 1 ['a']) (.named 2 ['b'])).preorder =
      [.sum (.named 1 ['a']) (.named 2 ['b']), .named 1 ['a'], .named 2 ['b']] := by
    rw [Tree.preorder_sum, Tree.preorder_named, Tree.preorder_named]
    rfl
  have hheight : (Tree.sum (.named 1 ['a']) (.named 2 ['b'])).height = 2 :=
    Tree.height_sum (Tree.height_eq _) (Tree.height_eq _)
  have hrun : ((relabel (· ++ ['_'])).visitor (some (Tree.named 1 ['a']).id)).run ()
      (.sum (.named 1 ['a']) (.named 2 ['b'])) =
        .ok (.sum (.named 1 ['a', '_']) (.named 2 ['b']), ()) := by
    rw [run_visitor, Visitor.visit, hheight]
    rfl
  obtain ⟨steps, hrecorded, hentered, -⟩ := run_stopAfter (relabel_keeps _)
    (by rw [hpreorder]; decide) (by rw [hpreorder]; simp)
    (by rw [hpreorder]; simp [Tree.kind, Tree.shape, Tree.sum, Tree.named, Shape.kind]) hrun
  refine ⟨steps, hrecorded, ?_⟩
  rw [hentered, hpreorder, Tree.countThrough_sum (Tree.preorder_named _ _) (by decide)]
  rfl

/-- A visit goes on after a file that is nested in the tree; and it is no use to keep the identities
alone, since a callback can still change the parts of the node that it leaves. -/
theorem exists_run_past_stop :
    (∃ (o : Overrides Unit Unit) (t n u : Tree), o.Keeps ∧ (t.preorder.map Tree.id).Nodup ∧
      n ∈ t.preorder ∧ (o.visitor (some n.id)).run () t = .ok (u, ()) ∧
      u.preorder.drop (t.countThrough n) ≠ t.preorder.drop (t.countThrough n)) ∧
    ∃ (o : Overrides Unit Unit) (t n u : Tree), KeepsIds o.enter ∧ KeepsIds o.leave ∧
      KeepsIds o.identifier ∧ (t.preorder.map Tree.id).Nodup ∧
      n ∈ t.preorder ∧ (o.visitor (some n.id)).run () t = .ok (u, ()) ∧
      u.preorder.drop (t.countThrough n) ≠ t.preorder.drop (t.countThrough n) := by
  constructor
  · have hheight : (Tree.sum (.emptyFile 1) (.named 2 ['b'])).height = 2 :=
      Tree.height_sum (Tree.height_eq _) (Tree.height_eq _)
    refine ⟨relabel (· ++ ['_']), .sum (.emptyFile 1) (.named 2 ['b']), .emptyFile 1,
      .sum (.emptyFile 1) (.named 2 ['b', '_']), relabel_keeps _, ?_, ?_, ?_, ?_⟩
    · rw [Tree.preorder_sum, Tree.preorder_emptyFile, Tree.preorder_named]
      decide
    · rw [Tree.preorder_sum, Tree.preorder_emptyFile]
      simp
    · rw [run_visitor, Visitor.visit, hheight]
      rfl
    · rw [Tree.countThrough_sum (Tree.preorder_emptyFile _) (by decide), Tree.preorder_sum,
        Tree.preorder_sum, Tree.preorder_emptyFile, Tree.preorder_named, Tree.preorder_named]
      intro h
      cases h
  · have hheight : (Tree.sum (.named 1 ['a']) (.named 2 ['b'])).height = 2 :=
      Tree.height_sum (Tree.height_eq _) (Tree.height_eq _)
    refine ⟨spaceOperand ⟨[' '], []⟩, .sum (.named 1 ['a']) (.named 2 ['b']), .named 1 ['a'],
      .sum (.named 1 ['a']) ((Tree.named 2 ['b']).withLeading ⟨[' '], []⟩), ?_,
      spaceOperand_keepsIds _, ?_, ?_, ?_, ?_, ?_⟩
    · rintro t w u v ⟨⟩
      rfl
    · rintro ⟨i, s, x⟩ w u v ⟨⟩
      rfl
    · rw [Tree.preorder_sum, Tree.preorder_named, Tree.preorder_named]
      decide
    · rw [Tree.preorder_sum, Tree.preorder_named]
      simp
    · rw [run_visitor, Visitor.visit, hheight]
      rfl
    · have hspaced : ((Tree.named 2 ['b']).withLeading ⟨[' '], []⟩).preorder =
          [(Tree.named 2 ['b']).withLeading ⟨[' '], []⟩] := Tree.preorder_eq _
      rw [Tree.countThrough_sum (Tree.preorder_named _ _) (by decide), Tree.preorder_sum,
        Tree.preorder_sum, Tree.preorder_named, Tree.preorder_named, hspaced]
      intro h
      cases h

end Overrides

end JavaSource
