import JavaSource.Proofs.Printed
import JavaSource.Proofs.Slots
import JavaSource.Proofs.Walking
import Mathlib.Data.List.ReduceOption

/-!
# The order of a visit

`Tree.mets` lists the nodes and the spaces of a tree in the order in which a visit meets them.  A
visitor with callbacks at nodes and spaces calls them in this order and does nothing else
(`Visitor.calls_visitWithin`).
-/

namespace JavaSource

variable {μ σ α β : Type}

/-! ### What a visit meets -/

/-- A node or a space that a visit meets. -/
inductive Met where
  | node (t : Tree)
  | space (l : SpaceSlot) (s : Space)

namespace Met

/-- The node, if it is one. -/
def node? : Met → Option Tree
  | node t => some t
  | space _ _ => none

/-- The space in its slot, if it is one. -/
def space? : Met → Option (SpaceSlot × Space)
  | node _ => none
  | space l s => some (l, s)

end Met

namespace Tree

theorem mem_children_of_met {t c : Tree} (h : Piece.part c ∈ t.shape.met) : c ∈ t.children := by
  rw [children, ← Shape.parts_met]
  exact Piece.mem_parts h

/-- The nodes and spaces of a tree, in the order in which a visit meets them. -/
def mets (t : Tree) : List Met :=
  .node t :: .space (.leading t.kind) t.leading :: t.shape.met.attach.flatMap fun p =>
    match _h : p.1 with
    | .space l s => [.space l s]
    | .part c => c.mets
    | .word _ | .terminator _ => []
termination_by sizeOf t
decreasing_by exact sizeOf_lt_of_mem_children (mem_children_of_met (_h ▸ p.2))

/-- The nodes and spaces of a piece. -/
def pieceMets : Piece Tree → List Met
  | .space l s => [.space l s]
  | .part c => c.mets
  | .word _ | .terminator _ => []

theorem mets_eq (t : Tree) :
    t.mets = .node t :: .space (.leading t.kind) t.leading :: t.shape.met.flatMap pieceMets := by
  rw [mets]
  congr 2
  conv => rhs; rw [← List.attach_map_subtype_val t.shape.met, List.flatMap_map]
  congr 1
  funext ⟨p, _⟩
  cases p <;> rfl

/-- The spaces of a tree in their slots, in the order in which a visit meets them. -/
def spaces (t : Tree) : List (SpaceSlot × Space) := t.mets.filterMap Met.space?

end Tree

/-! ### Visitors with callbacks -/

/-- An action at a node or a space that does not look at the trail. -/
abbrev Callback (σ : Type) := StateT σ (Except VisitError)

/-- What to call at each node before its parts are visited, and at each space. -/
structure Callbacks (σ : Type) where
  enter : Tree → Callback σ Unit := fun _ => pure ()
  space : SpaceSlot → Space → Callback σ Space := fun _ s => pure s

/-- Runs a callback during a visit. -/
def Walk.call (p : Callback σ α) : Walk μ σ α := fun w => do
  let (a, state) ← p.run w.state
  return (a, ⟨w.trail, state⟩)

namespace Callbacks

/-- The visitor that calls the functions and does nothing else. -/
def visitor (c : Callbacks σ) : Visitor Unit σ where
  enter t := do
    Walk.call (c.enter t)
    return t
  space l s := Walk.call (c.space l s)

/-- Calls the function for a node or a space; gives the new space. -/
def call (c : Callbacks σ) : Met → Callback σ (Option (SpaceSlot × Space))
  | .node t => do
    c.enter t
    return none
  | .space l s => return some (l, ← c.space l s)

end Callbacks

/-- Where the visit has not been stopped, the walk makes the calls for `ms`: it fails if they fail,
and otherwise has an answer that has to do with the new spaces as `P` says. -/
def Walk.Calls (c : Callbacks σ) (p : Walk μ σ α) (ms : List Met)
    (P : α → List (SpaceSlot × Space) → Prop) : Prop :=
  ∀ w, w.trail.isStopped = false →
    (∃ e, (ms.mapM c.call).run w.state = .error e ∧ p.run w = .error e) ∨
    ∃ ss state a, (ms.mapM c.call).run w.state = .ok (ss, state) ∧
      p.run w = .ok (a, ⟨w.trail, state⟩) ∧ P a ss.reduceOption

namespace Walk

variable {c : Callbacks σ} {p : Walk μ σ α} {ms ns : List Met}
  {P : α → List (SpaceSlot × Space) → Prop} {Q : β → List (SpaceSlot × Space) → Prop}

theorem Calls.pure {a : α} (h : P a []) : Calls c (Pure.pure a : Walk μ σ α) [] P :=
  fun w _ => .inr ⟨[], w.state, a, rfl, rfl, h⟩

theorem Calls.bind {f : α → Walk μ σ β} (hp : Calls c p ms P)
    (hf : ∀ a ss, P a ss → Calls c (f a) ns fun b ss' => Q b (ss ++ ss')) :
    Calls c (p >>= f) (ms ++ ns) Q := by
  intro w hw
  rw [List.mapM_append, StateT.run_bind, StateT.run_bind]
  obtain ⟨e, he, hpe⟩ | ⟨ss, state, a, hok, ha, hP⟩ := hp w hw
  · exact .inl ⟨e, by rw [he]; rfl, by rw [hpe]; rfl⟩
  rw [hok, ha]
  have hrest : ((ns.mapM c.call >>= fun ss' => Pure.pure (ss ++ ss')) : Callback σ _).run state =
      (fun r => (ss ++ r.1, r.2)) <$> (ns.mapM c.call).run state := StateT.run_map ..
  obtain ⟨e, he, hfe⟩ | ⟨ss', state', b, hok', hb, hQ⟩ := hf a _ hP ⟨w.trail, state⟩ hw
  · refine .inl ⟨e, hrest.trans ?_, hfe⟩
    rw [he]
    rfl
  · refine .inr ⟨ss ++ ss', state', b, hrest.trans ?_, hb, by rwa [List.reduceOption_append]⟩
    rw [hok']
    rfl

theorem Calls.into {f : α → β} (h : Calls c p ms P) (hP : ∀ a ss, P a ss → Q (f a) ss) :
    Calls c (p >>= fun a => Pure.pure (f a)) ms Q := by
  rw [← List.append_nil ms]
  refine h.bind fun a ss hss => .pure ?_
  rw [List.append_nil]
  exact hP a ss hss

theorem Calls.map {f : α → β} (h : Calls c p ms P) (hP : ∀ a ss, P a ss → Q (f a) ss) :
    Calls c (f <$> p) ms Q := by
  rw [map_eq_pure_bind]
  exact h.into hP

theorem calls_of_call {q : Callback σ α} {m : Met} {f : α → Option (SpaceSlot × Space)}
    (h : c.call m = f <$> q) :
    Calls c (call q : Walk μ σ α) [m] fun a ss => ss = (f a).toList := by
  intro w _
  have hcall : ([m].mapM c.call).run w.state = (fun r => ([f r.1], r.2)) <$> q.run w.state := by
    simp [h]
  have hrun : (call q : Walk μ σ α).run w =
      (fun r => (r.1, ⟨w.trail, r.2⟩)) <$> q.run w.state := rfl
  rw [hcall, hrun]
  cases q.run w.state with
  | error e => exact .inl ⟨e, rfl, rfl⟩
  | ok r =>
    refine .inr ⟨_, _, _, rfl, rfl, ?_⟩
    cases h : f r.1 <;> simp [h]

theorem calls_space (l : SpaceSlot) (s : Space) :
    Calls c (call (c.space l s) : Walk μ σ Space) [.space l s] fun s' ss => ss = [(l, s')] :=
  calls_of_call (f := fun s' => some (l, s')) (map_eq_pure_bind ..).symm

theorem calls_enter (t : Tree) :
    Calls c (call (c.enter t) : Walk μ σ Unit) [.node t] fun _ ss => ss = [] :=
  calls_of_call (f := fun _ => none) (map_eq_pure_bind ..).symm

theorem Calls.within [Inhabited μ] {value : FrameValue} (h : Calls c p ms P) :
    Calls c (within value p) ms P := by
  intro w hw
  obtain ⟨e, he, hpe⟩ | ⟨ss, state, a, hok, ha, hP⟩ := h ⟨Trail.fresh value :: w.trail, w.state⟩ hw
  · exact .inl ⟨e, he, by rw [run_within, hpe]; rfl⟩
  · exact .inr ⟨ss, state, a, hok, by rw [run_within, ha]; rfl, hP⟩

theorem Calls.of_map {f : α → β} (h : Calls c (f <$> p) ms Q) :
    Calls c p ms fun a ss => Q (f a) ss := by
  intro w hw
  specialize h w hw
  rw [StateT.run_map] at h
  cases hp : p.run w with
  | error e =>
    obtain ⟨e', he, hpe⟩ | ⟨_, _, _, _, ha, _⟩ := h
    · rw [hp] at hpe
      cases hpe
      exact .inl ⟨e, he, rfl⟩
    · rw [hp] at ha
      cases ha
  | ok r =>
    obtain ⟨e', _, hpe⟩ | ⟨ss, state, b, hok, hb, hQ⟩ := h
    · rw [hp] at hpe
      cases hpe
    · obtain ⟨a, v⟩ := r
      rw [hp] at hb
      obtain ⟨rfl, rfl⟩ := Prod.mk.inj (Except.ok.inj hb)
      exact .inr ⟨ss, state, a, hok, rfl, hQ⟩

theorem calls_mapM {γ : Type} {f : γ → Walk μ σ α} {g : γ → List Met}
    {k : α → List (SpaceSlot × Space)} {xs : List γ}
    (h : ∀ x ∈ xs, Calls c (f x) (g x) fun a ss => ss = k a) :
    Calls c (xs.mapM f) (xs.flatMap g) fun as ss => ss = as.flatMap k := by
  induction xs with
  | nil => exact .pure rfl
  | cons x xs ih =>
    rw [List.mapM_cons, List.flatMap_cons]
    refine (h x List.mem_cons_self).bind fun a ss hss => ?_
    have hrest := ih fun y hy => h y (List.mem_cons_of_mem x hy)
    refine hrest.into fun as ss' hss' => ?_
    rw [hss, hss', List.flatMap_cons]

end Walk

/-! ### The calls of a visit -/

/-- The nodes and spaces at a slot. -/
def Slot.mets (x : Slot Tree) : List Met := x.pieces.flatMap Tree.pieceMets

/-- The spaces among what is met at a slot. -/
def Slot.spaces (x : Slot Tree) : List (SpaceSlot × Space) := x.mets.filterMap Met.space?

theorem Slot.mets_part (t : Tree) : (part t).mets = t.mets := by
  simp [mets, pieces, Tree.pieceMets]

theorem Slot.spaces_part (t : Tree) : (part t).spaces = t.spaces := by
  rw [spaces, mets_part, Tree.spaces]

theorem Slot.spaces_followed (l : FollowedSlot) (x : Followed Tree) :
    (followed l x).spaces = x.element.spaces ++ [(.after l, x.after)] := by
  simp [spaces, mets, pieces, Piece.followed, Tree.pieceMets, Tree.spaces, Met.space?]

theorem Slot.spaces_preceded (l : PrecededSlot) (x : Preceded Tree) :
    (preceded l x).spaces = (.before l, x.before) :: x.element.spaces := by
  simp [spaces, mets, pieces, Tree.pieceMets, Tree.spaces, Met.space?]

theorem Slot.spaces_series (l : SeriesSlot) (s : Series Tree) :
    (series l s).spaces =
      (.opening l, s.before) :: s.elements.flatMap fun x => (followed l.element x).spaces := by
  simp [spaces, mets, pieces, Tree.pieceMets, Met.space?, List.flatMap_assoc,
    List.filterMap_flatMap]

theorem Tree.spaces_eq (t : Tree) :
    t.spaces = (.leading t.kind, t.leading) :: t.shape.slots.flatMap Slot.spaces := by
  rw [spaces, mets_eq, Shape.met, List.flatMap_assoc, List.filterMap_cons, List.filterMap_cons,
    List.filterMap_flatMap]
  rfl

namespace Visitor

variable {c : Callbacks σ} {visit : Tree → Walk Unit σ Tree}

open Walk

theorem calls_followed {l : FollowedSlot} {x : Followed Tree}
    (h : Calls c (visit x.element) x.element.mets fun u ss => ss = u.spaces) :
    Calls c (c.visitor.followed visit l x) (Slot.followed l x).mets fun y ss =>
      ss = (Slot.followed l y).spaces := by
  have hmets : (Slot.followed l x).mets = x.element.mets ++ [.space (.after l) x.after] := by
    simp [Slot.mets, Slot.pieces, Piece.followed, Tree.pieceMets]
  rw [hmets]
  refine .within (h.bind ?_)
  rintro u _ rfl
  refine (calls_space _ _).into ?_
  rintro s _ rfl
  rw [Slot.spaces_followed]

theorem calls_preceded {l : PrecededSlot} {x : Preceded Tree}
    (h : Calls c (visit x.element) x.element.mets fun u ss => ss = u.spaces) :
    Calls c (c.visitor.preceded visit l x) (Slot.preceded l x).mets fun y ss =>
      ss = (Slot.preceded l y).spaces := by
  have hmets : (Slot.preceded l x).mets = [.space (.before l) x.before] ++ x.element.mets := by
    simp [Slot.mets, Slot.pieces, Tree.pieceMets]
  rw [hmets]
  refine .within ((calls_space _ _).bind ?_)
  rintro s _ rfl
  refine h.into ?_
  rintro u _ rfl
  simp [Slot.spaces, Slot.mets, Slot.pieces, Tree.pieceMets, Tree.spaces, Met.space?]

theorem calls_series {l : SeriesSlot} {s : Series Tree}
    (h : ∀ a ∈ items s.elements, Calls c (visit a) a.mets fun u ss => ss = u.spaces) :
    Calls c (c.visitor.series visit l s) (Slot.series l s).mets fun y ss =>
      ss = (Slot.series l y).spaces := by
  have hmets : (Slot.series l s).mets = [.space (.opening l) s.before] ++
      s.elements.flatMap fun x => (Slot.followed l.element x).mets := by
    simp [Slot.mets, Slot.pieces, Tree.pieceMets, List.flatMap_assoc]
  rw [hmets]
  refine .within ((calls_space _ _).bind ?_)
  rintro before _ rfl
  refine (calls_mapM fun x hx => calls_followed (h _ (List.mem_map_of_mem hx))).into ?_
  rintro ys _ rfl
  rw [Slot.spaces_series]
  rfl

theorem calls_slot {x : Slot Tree}
    (h : ∀ a ∈ x.parts, Calls c (visit a) a.mets fun u ss => ss = u.spaces) :
    Calls c ((c.visitor.actions visit).slot x) x.mets fun y ss => ss = y.spaces := by
  cases x with
  | part a =>
    rw [Slot.mets_part]
    refine (h a List.mem_cons_self).map fun u ss hss => ?_
    rw [hss, Slot.spaces_part]
  | space l s => exact (calls_space l s).map fun s ss hss => hss
  | followed l x =>
    exact (calls_followed (h x.element List.mem_cons_self)).map fun y ss hss => hss
  | preceded l x =>
    exact (calls_preceded (h x.element List.mem_cons_self)).map fun y ss hss => hss
  | word l s => exact (calls_space _ s).within.map fun s ss hss => hss
  | series l s =>
    rw [Slot.parts_series] at h
    exact (calls_series h).map fun y ss hss => hss

theorem calls_walk {t : Tree}
    (h : ∀ a ∈ t.children, Calls c (visit a) a.mets fun u ss => ss = u.spaces) :
    Calls c (c.visitor.walk visit t)
      (.space (.leading t.kind) t.leading :: t.shape.met.flatMap Tree.pieceMets)
      fun u ss => ss = u.spaces := by
  have hslots : Calls c (t.shape.slots.mapM (c.visitor.actions visit).slot)
      (t.shape.met.flatMap Tree.pieceMets) fun ys ss => ss = ys.flatMap Slot.spaces := by
    rw [Shape.met, List.flatMap_assoc]
    refine calls_mapM fun x hx => calls_slot fun a ha => h a ?_
    rw [Tree.children, Shape.children_eq_slots]
    exact List.mem_flatMap.2 ⟨x, hx, ha⟩
  have hshape : Calls c (t.shape.traverse (c.visitor.actions visit))
      (t.shape.met.flatMap Tree.pieceMets)
      fun (y : Shape Tree) ss => y.kind = t.kind ∧ ss = y.slots.flatMap Slot.spaces := by
    refine Calls.of_map (f := fun y : Shape Tree => (y.kind, y.slots))
      (Q := fun (r : NodeKind × List (Slot Tree)) ss => r.1 = t.kind ∧
        ss = r.2.flatMap Slot.spaces) ?_
    rw [Shape.slots_traverse]
    exact hslots.map fun ys ss hss => ⟨rfl, hss⟩
  refine (calls_space (.leading t.kind) t.leading).bind ?_
  rintro s _ rfl
  refine hshape.into ?_
  rintro y _ ⟨hkind, rfl⟩
  rw [Tree.spaces_eq, ← hkind]
  rfl

/-- Where it has not been stopped, a visit goes one frame down. -/
theorem run_visitWithin [Inhabited μ] (v : Visitor μ σ) (budget : Nat) (t : Tree)
    {w : Traversal μ σ} (hw : w.trail.isStopped = false) :
    (v.visitWithin (budget + 1) t).run w = (Walk.within (.tree t) do
      let t ← v.enter t
      let t ← v.node (v.walk (v.visitWithin budget)) t
      let t ← v.leave t
      if v.stopAfter = some t.id then Walk.modifyTrail Trail.stop
      return t).run w := by
  rw [visitWithin, StateT.run_bind]
  change (if w.trail.isStopped = true then _ else _ : Walk μ σ Tree).run w = _
  rw [hw]
  rfl

/-- A visit calls the functions for the nodes and spaces of the tree, in the order in which it meets
them. -/
theorem calls_visitWithin {budget : Nat} {t : Tree} (ht : t.height ≤ budget) :
    Calls c (c.visitor.visitWithin budget t) t.mets fun u ss => ss = u.spaces := by
  induction budget generalizing t with
  | zero =>
    rw [Tree.height_eq] at ht
    omega
  | succ budget ih =>
    intro w hw
    rw [run_visitWithin c.visitor budget t hw]
    refine Calls.within (P := fun (u : Tree) ss => ss = u.spaces) ?_ w hw
    rw [Tree.mets_eq, ← List.singleton_append]
    refine Calls.bind (P := fun u ss => u = t ∧ ss = [])
      ((calls_enter t).into fun _ _ h => ⟨rfl, h⟩) ?_
    rintro u _ ⟨rfl, rfl⟩
    have hwalk : Calls c (c.visitor.walk (c.visitor.visitWithin budget) u) _ _ :=
      calls_walk fun a ha => ih (by have := Tree.height_lt_of_mem_children ha; omega)
    exact hwalk.into fun _ _ h => h

end Visitor

/-! ### What is met, entered and printed -/

namespace Printed

/-- The space in its slot, if it is one. -/
def space? : Printed → Option (SpaceSlot × Space)
  | word _ => none
  | space l s => some (l, s)

/-- The same word, or the space changed by its slot. -/
def mapSpace (f : SpaceSlot → Space → Space) : Printed → Printed
  | word t => word t
  | space l s => space l (f l s)

end Printed

namespace Tree

theorem map_snd_preorderFrom (d : Nat) (t : Tree) :
    (t.preorderFrom d).map Prod.snd = t.preorder := by
  rw [preorder]
  induction t using Tree.induction generalizing d with
  | node t ih =>
    rw [preorderFrom_eq, preorderFrom_eq, List.map_cons, List.map_cons, List.map_flatMap,
      List.map_flatMap]
    refine congrArg _ (List.flatMap_congr fun c hc => ?_)
    rw [ih c hc, ih c hc (0 + 1)]

theorem preorder_eq (t : Tree) : t.preorder = t :: t.children.flatMap preorder := by
  rw [preorder, preorderFrom_eq, List.map_cons, List.map_flatMap]
  refine congrArg _ (List.flatMap_congr fun c _ => ?_)
  exact map_snd_preorderFrom 1 c

/-- Something holds of all nodes if it holds of the root and of all nodes of its parts. -/
theorem forall_mem_preorder {t : Tree} {p : Tree → Prop} :
    (∀ u ∈ t.preorder, p u) ↔ p t ∧ ∀ c ∈ t.children, ∀ u ∈ c.preorder, p u := by
  rw [preorder_eq, List.forall_mem_cons, List.forall_mem_flatMap]

theorem self_mem_preorder (t : Tree) : t ∈ t.preorder := by
  rw [preorder_eq]
  exact List.mem_cons_self

theorem mem_preorder_of_mem_children {t c a : Tree} (hc : c ∈ t.children) (ha : a ∈ c.preorder) :
    a ∈ t.preorder := by
  rw [preorder_eq]
  exact List.mem_cons_of_mem _ (List.mem_flatMap.2 ⟨c, hc, ha⟩)

/-- The nodes of a node of the tree are nodes of the tree. -/
theorem preorder_subset {t : Tree} : ∀ n ∈ t.preorder, n.preorder ⊆ t.preorder := by
  induction t using Tree.induction with
  | node t ih =>
    refine forall_mem_preorder.2 ⟨List.Subset.refl _, ?_⟩
    intro c hc n hn a ha
    exact mem_preorder_of_mem_children hc (ih c hc n hn ha)

theorem filterMap_pieceMets {γ : Type} {f : Met → Option γ} (ps : List (Piece Tree))
    (hf : ∀ l s, f (.space l s) = none) :
    (ps.flatMap pieceMets).filterMap f = (Piece.parts ps).flatMap fun c => c.mets.filterMap f := by
  induction ps with
  | nil => rfl
  | cons p ps ih => cases p <;> simp [pieceMets, ih, hf]

/-- The nodes that a visit meets are those of the tree, each before its parts. -/
theorem nodes_mets (t : Tree) : t.mets.filterMap Met.node? = t.preorder := by
  induction t using Tree.induction with
  | node t ih =>
    rw [mets_eq, preorder_eq]
    simp only [List.filterMap_cons, Met.node?]
    rw [filterMap_pieceMets _ fun _ _ => rfl, Shape.parts_met]
    exact congrArg _ (List.flatMap_congr ih)

/-- The spaces of a tree in the order in which they are printed; between the space before a node and
its layer those that `extra` adds. -/
def spacesWith (extra : Shape Tree → List (SpaceSlot × Space)) (t : Tree) :
    List (SpaceSlot × Space) :=
  (.leading t.kind, t.leading) :: extra t.shape ++ t.shape.pieces.attach.flatMap fun p =>
    match _h : p.1 with
    | .space l s => [(l, s)]
    | .part c => c.spacesWith extra
    | .word _ | .terminator _ => []
termination_by sizeOf t
decreasing_by exact sizeOf_lt_of_mem_children (mem_children_of_part (_h ▸ p.2))

/-- The spaces of a piece. -/
def pieceSpacesWith (extra : Shape Tree → List (SpaceSlot × Space)) :
    Piece Tree → List (SpaceSlot × Space)
  | .space l s => [(l, s)]
  | .part c => c.spacesWith extra
  | .word _ | .terminator _ => []

theorem spacesWith_eq (extra : Shape Tree → List (SpaceSlot × Space)) (t : Tree) :
    t.spacesWith extra = (.leading t.kind, t.leading) :: extra t.shape ++
      t.shape.pieces.flatMap (pieceSpacesWith extra) := by
  rw [spacesWith]
  congr 1
  conv => rhs; rw [← List.attach_map_subtype_val t.shape.pieces, List.flatMap_map]
  congr 1
  funext ⟨p, _⟩
  cases p <;> rfl

/-- With none added, they are the spaces that are printed. -/
theorem spaces_printed (t : Tree) :
    t.printed.filterMap Printed.space? = t.spacesWith fun _ => [] := by
  induction t using Tree.induction with
  | node t ih =>
    rw [printed_eq, spacesWith_eq]
    simp only [List.filterMap_cons, Printed.space?, List.filterMap_flatMap,
      List.cons_append]
    refine congrArg _ (List.flatMap_congr fun p hp => ?_)
    cases p with
    | word w => rfl
    | space l s => rfl
    | part c => exact ih c (mem_children_of_part hp)
    | terminator c =>
      simp only [piecePrinted, pieceSpacesWith]
      split <;> rfl

/-- A visit meets the spaces that are printed and those before the missing `static` of imports. -/
theorem spaces_eq_spacesWith (t : Tree) : t.spaces = t.spacesWith Shape.unprinted := by
  have hmets (extra : Shape Tree → List (SpaceSlot × Space)) (ps : List (Piece Tree)) :
      (Piece.mets ps).flatMap (pieceSpacesWith extra) = ps.flatMap (pieceSpacesWith extra) := by
    induction ps with
    | nil => rfl
    | cons p ps ih => cases p <;> simp [pieceSpacesWith, ih]
  induction t using Tree.induction with
  | node t ih =>
    have hpieces : t.shape.met.flatMap (fun p => (pieceMets p).filterMap Met.space?) =
        t.shape.met.flatMap (pieceSpacesWith Shape.unprinted) := by
      refine List.flatMap_congr fun p hp => ?_
      cases p with
      | word w => rfl
      | space l s => rfl
      | part c => exact ih c (mem_children_of_met hp)
      | terminator c => rfl
    have hunprinted : (t.shape.unprinted.map fun u => Piece.space u.1 u.2).flatMap
        (pieceSpacesWith Shape.unprinted) = t.shape.unprinted := by
      simp [List.flatMap_map, pieceSpacesWith]
    rw [spaces, mets_eq, spacesWith_eq, List.filterMap_cons, List.filterMap_cons,
      List.filterMap_flatMap, hpieces, Shape.met_eq, List.flatMap_append, hmets, hunprinted]
    rfl

end Tree

/-! ### What a visit that changes spaces prints -/

/-- Where the visit has not been stopped, the walk succeeds with an answer as `P` says. -/
def Walk.Gives (p : Walk μ σ α) (P : α → Prop) : Prop :=
  ∀ w, w.trail.isStopped = false → ∃ a state, p.run w = .ok (a, ⟨w.trail, state⟩) ∧ P a

namespace Walk

theorem Gives.pure {P : α → Prop} {a : α} (h : P a) : Gives (Pure.pure a : Walk μ σ α) P :=
  fun w _ => ⟨a, w.state, rfl, h⟩

theorem Gives.bind {P : α → Prop} {Q : β → Prop} {p : Walk μ σ α} {f : α → Walk μ σ β}
    (hp : Gives p P) (hf : ∀ a, P a → Gives (f a) Q) : Gives (p >>= f) Q := by
  intro w hw
  obtain ⟨a, state, ha, hP⟩ := hp w hw
  obtain ⟨b, state', hb, hQ⟩ := hf a hP ⟨w.trail, state⟩ hw
  refine ⟨b, state', ?_, hQ⟩
  rw [StateT.run_bind, ha]
  exact hb

theorem Gives.within [Inhabited μ] {P : α → Prop} {p : Walk μ σ α} {value : FrameValue}
    (h : Gives p P) : Gives (within value p) P := by
  intro w hw
  obtain ⟨a, state, ha, hP⟩ := h ⟨Trail.fresh value :: w.trail, w.state⟩ hw
  exact ⟨a, state, by rw [run_within, ha]; rfl, hP⟩

/-- What is given may be said of answers. -/
def giving : Answers (Walk μ σ) where
  Hold p P := Gives p P
  pure := .pure
  bind := .bind

end Walk

theorem Shape.Rel.needsSemicolon {R : Tree → Tree → Prop} {S : SpaceSlot → Space → Space → Prop}
    (hR : ∀ t u, R t u → u.needsSemicolon = t.needsSemicolon) {i j : NodeId} {s s' : Space}
    {x y : Shape Tree} (h : Rel R S x y) :
    (Tree.node j s' y).needsSemicolon = (Tree.node i s x).needsSemicolon := by
  cases h with
  | labeled label statement => simpa [Tree.needsSemicolon] using hR _ _ statement
  | @methodDeclaration d e _ _ _ _ _ _ _ body _ =>
    have isNone {o p : Option Tree} (h : Option.Rel R o p) : p.isNone = o.isNone := by
      cases h <;> rfl
    exact isNone body
  | _ => simp only [Tree.needsSemicolon]

namespace Tree

/-- The tree prints what the other prints, with its spaces changed by their slots. -/
structure Changes (f : SpaceSlot → Space → Space) (t u : Tree) : Prop where
  printed : u.printed = t.printed.map (Printed.mapSpace f)
  needsSemicolon : u.needsSemicolon = t.needsSemicolon

theorem changes_node {f : SpaceSlot → Space → Space} {i : NodeId} {s : Space} {x y : Shape Tree}
    (h : Shape.Rel (Changes f) (fun l s s' => s' = f l s) x y) :
    Changes f (node i s x) (node i (f (.leading x.kind) s) y) where
  needsSemicolon := h.needsSemicolon fun _ _ h => h.needsSemicolon
  printed := by
    have hpiece {p q : Piece Tree} (hpq : Piece.Rel (Changes f) (fun l s s' => s' = f l s) p q) :
        piecePrinted q = (piecePrinted p).map (Printed.mapSpace f) := by
      cases hpq with
      | word => rfl
      | space hs => rw [hs]; rfl
      | part ht => exact ht.printed
      | terminator ht =>
        simp only [piecePrinted, ht.needsSemicolon]
        split <;> rfl
    have hpieces : y.pieces.flatMap piecePrinted =
        (x.pieces.flatMap piecePrinted).map (Printed.mapSpace f) := by
      have hxy := h.pieces
      generalize x.pieces = ps, y.pieces = qs at hxy ⊢
      induction hxy with
      | nil => rfl
      | cons hpq _ ih => rw [List.flatMap_cons, List.flatMap_cons, List.map_append, ih, hpiece hpq]
    rw [printed_eq, printed_eq, List.map_cons, shape, shape, hpieces, kind, shape, ← h.kind]
    rfl

end Tree

namespace Visitor

variable {f : SpaceSlot → Space → Space} {visit : Tree → Walk Unit Unit Tree}

open Walk

theorem gives_space (l : SpaceSlot) (s : Space) :
    Gives ((ofSpaces none f).space l s) fun s' => s' = f l s := .pure rfl

theorem gives_followed {l : FollowedSlot} {x : Followed Tree}
    (h : Gives (visit x.element) (Tree.Changes f x.element)) :
    Gives ((ofSpaces none f).followed visit l x)
      (Followed.Rel (Tree.Changes f) (fun l s s' => s' = f l s) l x) :=
  .within (h.bind fun _ hu => (gives_space _ _).bind fun _ hs => .pure ⟨hu, hs⟩)

/-- At the slots of a layer stand the changed spaces. -/
theorem relate_ofSpaces {x : Shape Tree}
    (h : ∀ a ∈ x.children, Gives (visit a) (Tree.Changes f a)) :
    giving.Relate (Tree.Changes f) (fun l s s' => s' = f l s) ((ofSpaces none f).actions visit)
      x where
  part := h
  space := gives_space
  followed _ _ y hy := gives_followed (h _ hy)
  preceded _ y hy :=
    .within ((gives_space _ _).bind fun _ hs => (h _ hy).bind fun _ hu => .pure ⟨hs, hu⟩)
  word _ _ := (gives_space _ _).within
  series l s hs := by
    have helements := giving.mapM fun y hy => gives_followed (l := l.element)
      (h _ (hs (List.mem_map_of_mem hy)))
    exact .within ((gives_space _ _).bind fun _ hbefore =>
      Gives.bind helements fun _ hys => .pure ⟨hbefore, hys⟩)

theorem gives_visitWithin {budget : Nat} {t : Tree} (ht : t.height ≤ budget) :
    Gives ((ofSpaces none f).visitWithin budget t) (Tree.Changes f t) := by
  induction budget generalizing t with
  | zero =>
    rw [Tree.height_eq] at ht
    omega
  | succ budget ih =>
    intro w hw
    rw [run_visitWithin _ budget t hw]
    refine Gives.within (P := Tree.Changes f t) ?_ w hw
    have hshape := giving.traverse (relate_ofSpaces (f := f) (x := t.shape) fun a ha =>
      ih (by have := Tree.height_lt_of_mem_children (t := t) ha; omega))
    have hwalk : Gives ((ofSpaces none f).walk ((ofSpaces none f).visitWithin budget) t)
        (Tree.Changes f t) := by
      refine (gives_space _ _).bind fun s hs => Gives.bind hshape fun y hy => .pure ?_
      obtain ⟨i, s', x⟩ := t
      rw [hs]
      exact Tree.changes_node hy
    exact hwalk.bind fun u hu => .pure hu

end Visitor

/-! ### The result -/

namespace Callbacks

theorem run_visitor (c : Callbacks σ) (state : σ) (t : Tree) :
    (fun r => (r.1.spaces, r.2)) <$> c.visitor.run state t =
      (fun r => (r.1.reduceOption, r.2)) <$> (t.mets.mapM c.call).run state := by
  have hrun : c.visitor.run state t =
      (fun r => (r.1, r.2.state)) <$> (c.visitor.visit t).run ⟨Trail.start, state⟩ := rfl
  have hcalls := Visitor.calls_visitWithin (c := c) (Nat.le_refl t.height)
  obtain ⟨e, he, hv⟩ | ⟨ss, state', u, hok, hv, hss⟩ := hcalls ⟨Trail.start, state⟩ rfl
  · rw [hrun, Visitor.visit, hv, he]
    rfl
  · rw [hrun, Visitor.visit, hv, hok]
    exact congrArg (fun s => Except.ok (s, state')) hss.symm

/-- Where nothing is done at nodes, the calls are those for the spaces. -/
theorem mapM_call_space (f : SpaceSlot → Space → Callback σ Space) (ms : List Met) :
    List.reduceOption <$> ms.mapM ({ space := f } : Callbacks σ).call =
      (ms.filterMap Met.space?).mapM fun u => (u.1, ·) <$> f u.1 u.2 := by
  induction ms with
  | nil => rfl
  | cons m ms ih =>
    cases m with
    | node t => simpa [call, List.filterMap_cons, Met.space?] using ih
    | space l s => simp [call, Met.space?, ← ih]

/-- Where spaces stay, the calls are those for the nodes. -/
theorem mapM_call_enter (f : Tree → Callback σ Unit) (ms : List Met) :
    (fun _ => ()) <$> ms.mapM ({ enter := f } : Callbacks σ).call =
      forM (ms.filterMap Met.node?) f := by
  induction ms with
  | nil => rfl
  | cons m ms ih =>
    cases m with
    | node t => simp [call, Met.node?, ← ih]
    | space l s => simpa [call, List.filterMap_cons, Met.node?] using ih

end Callbacks

/-- Printing, walking and listing the parts of a tree agree.  A visitor that changes spaces and does
nothing else is given the printed spaces in their order, and before the name of an import the space
before a missing `static`; a visitor that looks at nodes and does nothing else is given those of
`Tree.preorder`; and where each space is changed by its slot, the words that are printed stay and
each space between them is the changed one. -/
theorem visits_in_printing_order (t : Tree) :
    (∀ (f : SpaceSlot → Space → Callback σ Space) (state : σ),
      (fun r => (r.1.spacesWith Shape.unprinted, r.2)) <$>
          ({ space := f } : Callbacks σ).visitor.run state t =
        ((t.spacesWith Shape.unprinted).mapM fun u => (u.1, ·) <$> f u.1 u.2).run state) ∧
    (t.spacesWith fun _ => []) = t.printed.filterMap Printed.space? ∧
    (∀ (f : Tree → Callback σ Unit) (state : σ),
      (fun r => ((), r.2)) <$> ({ enter := f } : Callbacks σ).visitor.run state t =
        (forM t.preorder f).run state) ∧
    ∀ f : SpaceSlot → Space → Space, ∃ u, (Visitor.ofSpaces none f).run () t = .ok (u, ()) ∧
      u.printed = t.printed.map (Printed.mapSpace f) ∧
      u.toText = (t.printed.map (Printed.mapSpace f)).flatMap Printed.text := by
  refine ⟨fun f state => ?_, t.spaces_printed.symm, fun f state => ?_, fun f => ?_⟩
  · have h := Callbacks.run_visitor { space := f } state t
    simp only [Tree.spaces_eq_spacesWith] at h
    rw [h, ← Tree.spaces_eq_spacesWith, Tree.spaces, ← Callbacks.mapM_call_space, StateT.run_map]
  · have h := congrArg (Functor.map fun r => ((), r.2))
      (Callbacks.run_visitor { enter := f } state t)
    simp only [Functor.map_map] at h
    rw [h, ← Tree.nodes_mets, ← Callbacks.mapM_call_enter, StateT.run_map]
  · obtain ⟨u, state, hu, hchanges⟩ :=
      Visitor.gives_visitWithin (f := f) (Nat.le_refl t.height) ⟨Trail.start, ()⟩ rfl
    refine ⟨u, ?_, hchanges.printed, by rw [Tree.toText_eq_printed, hchanges.printed]⟩
    rw [Visitor.run, Visitor.runAt, Visitor.visit, hu]
    rfl

end JavaSource
