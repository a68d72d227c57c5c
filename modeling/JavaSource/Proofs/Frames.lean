import JavaSource.Proofs.Slots
import JavaSource.Proofs.VisitOrder
import JavaSource.Visit.Locate

/-!
# The frames above a node

`Tree.Reaches` gives the frames above each node of a tree (`Tree.exists_reaches`), as a visit has them
there (`Tree.exists_reaches_of_framesAbove?`).
-/

namespace JavaSource

/-- The parts at a slot, each with the frames between the node and the part. -/
def Slot.ways : Slot Tree → List (List FrameValue × Tree)
  | part c => [([], c)]
  | followed l x => [([.followed l x.element], x.element)]
  | preceded l x => [([.preceded l], x.element)]
  | series l s =>
    s.elements.map fun x => ([.followed l.element x.element, .series l s], x.element)
  | space _ _ | word _ _ => []

namespace Tree

/-- The node is in the tree below frames of these values, innermost first. -/
inductive Reaches (t : Tree) : List FrameValue → Tree → Prop where
  | root : Reaches t [.root] t
  | part {above way : List FrameValue} {n c : Tree} {p : Slot Tree} (hn : Reaches t above n)
      (hp : p ∈ n.shape.slots) (hc : (way, c) ∈ p.ways) : Reaches t (way ++ .tree n :: above) c

end Tree

namespace Slot

variable {p : Slot Tree} {way : List FrameValue} {c : Tree}

theorem mem_parts_of_mem_ways (h : (way, c) ∈ p.ways) : c ∈ p.parts := by
  cases p with
  | part => simp_all [ways, parts, pieces]
  | followed => simp_all [ways, parts, pieces, Piece.followed]
  | preceded => simp_all [ways, parts, pieces]
  | series l s =>
    rw [parts_series]
    obtain ⟨x, hx, heq⟩ := List.mem_map.1 h
    exact (Prod.mk.inj heq).2 ▸ List.mem_map_of_mem hx
  | space | word => cases h

theorem exists_mem_ways (h : c ∈ p.parts) : ∃ way, (way, c) ∈ p.ways := by
  cases p with
  | part => simp_all [ways, parts, pieces]
  | followed => simp_all [ways, parts, pieces, Piece.followed]
  | preceded => simp_all [ways, parts, pieces]
  | series l s =>
    rw [parts_series] at h
    obtain ⟨x, hx, rfl⟩ := List.mem_map.1 h
    exact ⟨_, List.mem_map_of_mem hx⟩
  | space | word => simp_all [parts, pieces]

theorem tree?_of_mem_ways (h : (way, c) ∈ p.ways) : ∀ v ∈ way, v.tree? = none := by
  cases p with
  | part => simp_all [ways]
  | followed => simp_all [ways, FrameValue.tree?]
  | preceded => simp_all [ways, FrameValue.tree?]
  | series l s =>
    obtain ⟨x, -, heq⟩ := List.mem_map.1 h
    simp [← (Prod.mk.inj heq).1, FrameValue.tree?]
  | space | word => cases h

theorem mem_children_of_mem_ways {x : Shape Tree} (hp : p ∈ x.slots) (h : (way, c) ∈ p.ways) :
    c ∈ x.children := by
  rw [Shape.children_eq_slots]
  exact List.mem_flatMap.2 ⟨p, hp, mem_parts_of_mem_ways h⟩

end Slot

namespace Tree

variable {t n : Tree}

theorem Reaches.mem_preorder {above : List FrameValue} (h : t.Reaches above n) :
    n ∈ t.preorder := by
  induction h with
  | root => exact t.self_mem_preorder
  | part _ hp hc ih =>
    have hc := Slot.mem_children_of_mem_ways hp hc
    exact preorder_subset _ ih (mem_preorder_of_mem_children hc (self_mem_preorder _))

/-- There are frames above each node of a tree. -/
theorem exists_reaches (hn : n ∈ t.preorder) : ∃ above, t.Reaches above n := by
  suffices h : ∀ (m : Tree) {above}, t.Reaches above m → n ∈ m.preorder →
      ∃ above, t.Reaches above n from h t .root hn
  intro m
  induction m using Tree.induction with
  | node m ih =>
    intro above hm hn
    rw [preorder_eq, List.mem_cons, List.mem_flatMap] at hn
    rcases hn with rfl | ⟨c, hc, hn⟩
    · exact ⟨above, hm⟩
    · have hslots := hc
      rw [children, Shape.children_eq_slots] at hslots
      obtain ⟨p, hp, hparts⟩ := List.mem_flatMap.1 hslots
      obtain ⟨way, hway⟩ := Slot.exists_mem_ways hparts
      exact ih c hc (hm.part hp hway) hn

end Tree

/-! ### Visits that look for a node -/

namespace Walk

variable {σ α β : Type} {Found : σ → Prop} {values : List FrameValue}

/-- From frames of these values the walk succeeds, its answer is as `P` says, and what it has gathered
stays as `Found` says. -/
def Gathers (Found : σ → Prop) (values : List FrameValue) (p : Walk Unit σ α) (P : α → Prop) : Prop :=
  ∀ w, w.trail.values = values → Found w.state →
    ∃ a v, p.run w = .ok (a, v) ∧ P a ∧ v.trail.values = values ∧ Found v.state

theorem Gathers.pure {P : α → Prop} {a : α} (h : P a) :
    Gathers Found values (Pure.pure a : Walk Unit σ α) P :=
  fun w hw hf => ⟨a, w, rfl, h, hw, hf⟩

theorem Gathers.bind {P : α → Prop} {Q : β → Prop} {p : Walk Unit σ α} {f : α → Walk Unit σ β}
    (hp : Gathers Found values p P) (hf : ∀ a, P a → Gathers Found values (f a) Q) :
    Gathers Found values (p >>= f) Q := by
  intro w hw hfound
  obtain ⟨a, v, hr, ha, hv, hfound⟩ := hp w hw hfound
  obtain ⟨b, u, hr', hb, hu, hfound⟩ := hf a ha v hv hfound
  refine ⟨b, u, ?_, hb, hu, hfound⟩
  rw [StateT.run_bind, hr]
  exact hr'

theorem Gathers.within {value : FrameValue} {p : Walk Unit σ α} {P : α → Prop}
    (h : Gathers Found (value :: values) p P) : Gathers Found values (within value p) P := by
  intro w hw hfound
  obtain ⟨a, v, hr, ha, hv, hfound⟩ := h ⟨Trail.fresh value :: w.trail, w.state⟩
    (congrArg (value :: ·) hw) hfound
  refine ⟨a, ⟨v.trail.tail, v.state⟩, ?_, ha, ?_, hfound⟩
  · rw [run_within, hr]
    rfl
  · rw [Trail.values, List.map_tail]
    exact congrArg List.tail hv

/-- What is gathered may be said of answers. -/
def gathering (Found : σ → Prop) (values : List FrameValue) : Answers (Walk Unit σ) where
  Hold p P := Gathers Found values p P
  pure := .pure
  bind := .bind

end Walk

namespace Tree

variable {t : Tree} {id : NodeId}

/-- What has been found so far are the frames above a node of this identity. -/
def FoundAbove (t : Tree) (id : NodeId) (found : Option (List FrameValue)) : Prop :=
  ∀ above ∈ found, ∃ n, n.id = id ∧ t.Reaches above n

open Walk

theorem gathers_enter {above : List FrameValue} {n : Tree} (hn : t.Reaches above n) :
    Gathers (t.FoundAbove id) (.tree n :: above) ((locator id).enter n) fun u => u = n := by
  rintro ⟨trail, found⟩ htrail hfound
  have henter : (locator id).enter n = (do
      if n.id = id then
        let above := (← Walk.trail).values.tail
        Walk.modifyState fun found => found <|> some above
      return n) := rfl
  rw [henter]
  by_cases hid : n.id = id
  · rw [if_pos hid]
    refine ⟨n, ⟨trail, found <|> some trail.values.tail⟩, rfl, rfl, htrail, fun above' h => ?_⟩
    rw [htrail] at h
    cases found with
    | none => exact ⟨n, hid, Option.some.inj h ▸ hn⟩
    | some first => exact hfound above' h
  · rw [if_neg hid]
    exact ⟨n, ⟨trail, found⟩, rfl, rfl, htrail, hfound⟩

theorem gathers_slot {visit : Tree → Walk Unit (Option (List FrameValue)) Tree}
    {values : List FrameValue} {p : Slot Tree}
    (hvisit : ∀ way c, (way, c) ∈ p.ways →
      Gathers (t.FoundAbove id) (way ++ values) (visit c) fun _ => True) :
    (gathering (t.FoundAbove id) values).AtSlot (fun _ _ => True) (fun _ _ _ => True)
      ((locator id).actions visit) p := by
  have hspace {values : List FrameValue} (s : Space) : Gathers (t.FoundAbove id) values
      (pure s : Walk Unit _ Space) fun _ => True := .pure trivial
  cases p with
  | part c => exact hvisit [] c List.mem_cons_self
  | space l s => exact hspace s
  | followed l x =>
    refine .within (.bind (hvisit _ _ List.mem_cons_self) fun _ _ => .bind (hspace _) fun _ _ => ?_)
    exact .pure ⟨trivial, trivial⟩
  | preceded l x =>
    refine .within (.bind (hspace _) fun _ _ => .bind (hvisit _ _ List.mem_cons_self) fun _ _ => ?_)
    exact .pure ⟨trivial, trivial⟩
  | word l s => exact .within (hspace s)
  | series l s =>
    have helements : Gathers (t.FoundAbove id) (.series l s :: values)
        (s.elements.mapM ((locator id).followed visit l.element))
        (List.Forall₂ (Followed.Rel (fun _ _ => True) (fun _ _ _ => True) l.element) s.elements) := by
      refine (gathering _ _).mapM fun x hx => ?_
      refine .within (.bind (hvisit _ _ (List.mem_map_of_mem hx)) fun _ _ => .bind (hspace _) ?_)
      exact fun _ _ => .pure ⟨trivial, trivial⟩
    exact .within (.bind (hspace _) fun _ _ => .bind helements fun _ h => .pure ⟨trivial, h⟩)

theorem gathers_visitWithin {budget : Nat} {above : List FrameValue} {n : Tree}
    (hn : t.Reaches above n) :
    Gathers (t.FoundAbove id) above ((locator id).visitWithin budget n) fun _ => True := by
  -- on the depth that is visited: a part is reached through a way of its slot
  induction budget generalizing above n with
  | zero => exact .pure trivial
  | succ budget ih =>
    have hslots : Gathers (t.FoundAbove id) (.tree n :: above)
        (n.shape.traverse ((locator id).actions ((locator id).visitWithin budget))) _ :=
      Answers.traverse_of_slots fun p hp => gathers_slot fun way c hc => ih (hn.part hp hc)
    have hwalk : Gathers (t.FoundAbove id) (.tree n :: above)
        ((locator id).walk ((locator id).visitWithin budget) n) fun _ => True :=
      .bind (P := fun _ => True) (.pure trivial) fun _ _ => .bind hslots fun _ _ => .pure trivial
    have hbelow : Gathers (t.FoundAbove id) above (within (.tree n) do
        let n ← (locator id).enter n
        let n ← (locator id).node ((locator id).walk ((locator id).visitWithin budget)) n
        let n ← (locator id).leave n
        if (locator id).stopAfter = some n.id then modifyTrail Trail.stop
        return n) fun _ => True := by
      refine .within (.bind (gathers_enter hn) ?_)
      rintro _ rfl
      exact .bind hwalk fun _ _ => .pure trivial
    intro w hw hfound
    cases hstopped : w.trail.isStopped with
    | true =>
      refine ⟨n, w, ?_, trivial, hw, hfound⟩
      rw [Visitor.visitWithin, StateT.run_bind]
      change (if w.trail.isStopped = true then _ else _ : Walk Unit _ Tree).run w = _
      rw [hstopped]
      rfl
    | false =>
      rw [Visitor.run_visitWithin _ budget n hstopped]
      exact hbelow w hw hfound

/-- The frames that are found above a node are those that it is below. -/
theorem exists_reaches_of_framesAbove? {above : List FrameValue}
    (h : t.framesAbove? id = some above) : ∃ n, n.id = id ∧ t.Reaches above n := by
  have hvisit : Gathers (t.FoundAbove id) [.root] ((locator id).visit t) fun _ => True :=
    gathers_visitWithin .root
  obtain ⟨u, w, hrun, -, -, hfound⟩ := hvisit ⟨Trail.start, none⟩ rfl nofun
  refine hfound above ?_
  rw [framesAbove?, Visitor.run, Visitor.runAt, hrun] at h
  exact h

end Tree

end JavaSource
