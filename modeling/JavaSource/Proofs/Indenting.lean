import JavaSource.Indent.Visitor
import JavaSource.Proofs.ForHeader
import JavaSource.Proofs.Walking

/-!
# What the indenter changes

The indenter succeeds on every tree whose `for` headers are below `for` loops, and changes spaces by
`IndentStyle.indentSpace` and nothing else (`yields_indenter`).
-/

namespace JavaSource

open Walk

/-! ### Notes -/

theorem Trail.values_modify (distance : Nat) (f : IndentNote → IndentNote) (t : Trail IndentNote) :
    Trail.values (t.modify distance fun frame => { frame with note := f frame.note }) = t.values := by
  induction t generalizing distance with
  | nil => cases distance <;> rfl
  | cons frame rest ih =>
    cases distance with
    | zero => rfl
    | succ n => exact congrArg (frame.value :: ·) (ih n)

theorem Trail.values_takeAfterAnnotation (t : Trail IndentNote) :
    t.takeAfterAnnotation.2.values = t.values := by
  fun_induction takeAfterAnnotation t with
  | case1 => rfl
  | case2 frame rest => rfl
  | case3 frame rest _ found rest' h ih =>
    rw [h] at ih
    exact congrArg (frame.value :: ·) ih

theorem Trail.elements_ne_nil {t : Trail IndentNote} {slot : SeriesSlot} {s : Series Tree}
    {rest : List FrameValue} (h : t.values = .series slot s :: rest) (hs : s.elements ≠ []) :
    t.elements ≠ [] := by
  cases t with
  | nil => cases h
  | cons frame above =>
    obtain ⟨value, stopped, note⟩ := frame
    obtain rfl : value = .series slot s := (List.cons.inj h).1
    exact hs

namespace IndentWalk

variable {values : List FrameValue}

theorem yields_modifyNoteAt (distance : Nat) (f : IndentNote → IndentNote) :
    Yields values (modifyNoteAt distance f) fun _ => True :=
  yields_modifyTrail fun t => (Trail.values_modify distance f t).trans

theorem yields_setColumn (distance : Nat) (column : Int) :
    Yields values (setColumn distance column) fun _ => True :=
  yields_modifyNoteAt distance _

theorem yields_setStep (distance : Nat) (step : IndentStep) :
    Yields values (setStep distance step) fun _ => True :=
  yields_modifyNoteAt distance _

theorem yields_alignsWithAnnotation : Yields values alignsWithAnnotation fun _ => True := by
  refine yields_trail.bind fun trail ht => ?_
  split
  · refine .ite (fun _ => ?_) fun _ => .ite (fun _ => .pure trivial) fun _ => ?_
    · exact (yields_modifyNoteAt 2 _).bind fun _ _ => .pure trivial
    · refine (yields_modifyTrail fun _ _ => ?_).bind fun _ _ => .pure trivial
      exact (Trail.values_takeAfterAnnotation _).trans ht
  · exact .pure trivial

end IndentWalk

/-! ### Spaces and elements -/

/-- The indenter may change the space: where a file starts, only if there is a comment or a line
break. -/
def IsIndented (l : SpaceSlot) (s : Space) : Prop :=
  l = .leading .compilationUnit → ¬ (s.comments.isEmpty && !s.hasNewline)

theorem isIndented_after {l : FollowedSlot} {s : Space} : IsIndented (.after l) s := by
  intro h
  cases h

theorem isIndented_opening {l : SeriesSlot} {s : Space} : IsIndented (.opening l) s := by
  intro h
  cases h

section Elements

variable {R : Tree → Tree → Prop} {S : SpaceSlot → Space → Space → Prop} (C : Tree.Congruence R S)
  {style : IndentStyle} (hS : ∀ l column s, IsIndented l s → S l s (style.indentSpace l column s))
  {values : List FrameValue}

include C hS

open IndentWalk

theorem yields_indentAt (l : SpaceSlot) (s : Space) :
    Yields values (indentAt style l s) (S l s) := by
  refine (yields_modifyNoteAt 0 _).bind fun _ _ => yields_trail.bind fun trail _ => ?_
  split
  · refine yields_alignsWithAnnotation.bind fun aligned _ => ?_
    refine .ite (fun _ => .pure (C.space l s)) fun hspace => ?_
    refine .ite (fun _ => ?_) fun _ => .pure (hS l _ s fun _ => hspace)
    exact (yields_setColumn 0 _).bind fun _ _ => .pure (hS l _ s fun _ => hspace)
  · exact .pure (C.space l s)

variable {visit : Tree → IndentWalk Tree} {l : FollowedSlot} {x : Followed Tree}

section Visited

variable (hvisit : Yields values (visit x.element) (R x.element))

include hvisit

theorem yields_indentElement :
    Yields values (indentElement style visit l x) (Followed.Rel R S l x) :=
  hvisit.bind fun _ ht => (yields_indentAt C hS _ _).bind fun _ hs => .pure ⟨ht, hs⟩

omit C in
theorem yields_indentElementTo (column : Int) :
    Yields values (indentElementTo style visit l column x) (Followed.Rel R S l x) :=
  hvisit.bind fun _ ht => .pure ⟨ht, hS _ _ _ isIndented_after⟩

omit C in
theorem yields_indentElementFrom (start column after : Int) :
    Yields values (indentElementFrom style visit l start column after x) (Followed.Rel R S l x) :=
  (yields_setColumn 1 _).bind fun _ _ => hvisit.bind fun _ ht =>
    (yields_setColumn 1 _).bind fun _ _ => .pure ⟨ht, hS _ _ _ isIndented_after⟩

theorem yields_indentForPart (column : Int) {around : Trail IndentNote}
    (haround : InForLoop around.values) :
    Yields values (indentForPart style visit l column around x) (Followed.Rel R S l x) := by
  refine .ite (fun _ => yields_indentElement C hS hvisit) fun _ => ?_
  obtain ⟨initColumn, h⟩ := Trail.exists_forInitColumn haround
  rw [h]
  exact yields_indentElementFrom hS hvisit _ _ _

theorem yields_indentParameter (column : Int) {around : Trail IndentNote}
    (haround : around.elements ≠ []) :
    Yields values (indentParameter style visit l column around x) (Followed.Rel R S l x) := by
  unfold indentParameter
  split
  · contradiction
  · refine .ite (fun _ => yields_indentElementTo hS hvisit column) fun _ => ?_
    refine .ite (fun _ => .pure (C.followed x)) fun _ => ?_
    exact yields_indentElementFrom hS hvisit _ _ _

omit C in
theorem yields_indentArgument (column : Int) :
    Yields values (indentArgument style visit l column x) (Followed.Rel R S l x) := by
  have hto := yields_indentElementTo (l := l) hS hvisit column
  exact .ite (fun _ => (yields_setColumn 1 _).bind fun _ _ => hto) fun _ => hto

theorem yields_indentReceiver (column : Int) :
    Yields values (indentReceiver style visit l column x) (Followed.Rel R S l x) := by
  refine yields_trail.bind fun trail _ => (yields_setColumn 1 _).bind fun _ _ => ?_
  refine (yields_indentElement C hS hvisit).bind fun _ hx => ?_
  exact (yields_setColumn 1 _).bind fun _ _ => .pure hx

theorem yields_indentAnnotationArgument (around : Trail IndentNote) :
    Yields values (indentAnnotationArgument style visit l around x) (Followed.Rel R S l x) := by
  refine hvisit.bind fun t ht => ?_
  have hafter : Yields values
      (indentAt style (.after l) x.after >>= fun s => pure ⟨t, s⟩) (Followed.Rel R S l x) :=
    (yields_indentAt C hS _ _).bind fun _ hs => .pure ⟨ht, hs⟩
  exact .ite (fun _ => (yields_setStep 1 _).bind fun _ _ => hafter) fun _ => hafter

theorem yields_indentInlineArgument (column : Int) (around : Trail IndentNote) :
    Yields values (indentInlineArgument style visit l column around x) (Followed.Rel R S l x) := by
  have helement := yields_indentElement (l := l) C hS hvisit
  refine .ite (fun _ => ?_) fun _ => yields_indentElementTo hS hvisit column
  exact .ite (fun _ => (yields_setColumn 0 _).bind fun _ _ => helement) fun _ => helement

end Visited

/-- Nothing keeps an element from being indented: a part of a `for` header is below a loop with a
header, and a parameter is in the list that it is an element of. -/
structure Indentable (l : FollowedSlot) (values : List FrameValue) : Prop where
  inForLoop : l = .forCondition ∨ l = .forUpdate → InForLoop values
  inList : l = .methodParameter → ∃ slot s rest, values = .series slot s :: rest ∧ s.elements ≠ []

theorem yields_indentFollowed (hl : Indentable l values)
    (hvisit : Yields (.followed l x.element :: values) (visit x.element) (R x.element)) :
    Yields values (indentFollowed style visit l x) (Followed.Rel R S l x) := by
  refine yields_within (yields_trail.bind fun trail htrail => ?_)
  have haround : Trail.values trail.tail = values :=
    List.map_tail.trans (congrArg List.tail htrail)
  refine .ite (fun _ => ?_) fun _ => ?_
  · unfold indentBrokenElement
    split
    · exact yields_indentForPart C hS hvisit _ (haround ▸ hl.inForLoop (.inl rfl))
    · exact yields_indentForPart C hS hvisit _ (haround ▸ hl.inForLoop (.inr rfl))
    · obtain ⟨slot, s, rest, hrest, hs⟩ := hl.inList rfl
      exact yields_indentParameter C hS hvisit _
        (Trail.elements_ne_nil (haround.trans hrest) hs)
    · exact yields_indentArgument hS hvisit _
    · exact yields_indentElementTo hS hvisit _
    · exact yields_indentElementTo hS hvisit _
    · exact yields_indentElementTo hS hvisit _
    · exact yields_indentElementTo hS hvisit _
    · exact yields_indentReceiver C hS hvisit _
    · exact yields_indentAnnotationArgument C hS hvisit _
    · exact yields_indentElement C hS hvisit
  · unfold indentInlineElement
    split
    · exact yields_indentInlineArgument C hS hvisit _ _
    · exact yields_indentInlineArgument C hS hvisit _ _
    · exact hvisit.bind fun _ ht => .pure ⟨ht, C.space _ _⟩

omit C hS in
theorem indentable_element {slot : SeriesSlot} {s : Series Tree} (hs : s.elements ≠ []) :
    Indentable slot.element (.series slot s :: values) where
  inForLoop h := by cases slot <;> simp [SeriesSlot.element] at h
  inList _ := ⟨slot, s, values, rfl, hs⟩

theorem yields_indentSeries {slot : SeriesSlot} {s : Series Tree}
    (hvisit : ∀ x ∈ s.elements, Yields (.followed slot.element x.element :: .series slot s :: values)
      (visit x.element) (R x.element)) :
    Yields values (indentSeries style visit slot s) (Series.Rel R S slot s) := by
  refine yields_within (yields_trail.bind fun trail _ => ?_)
  have helements : Yields (.series slot s :: values)
      (s.elements.mapM (indentFollowed style visit slot.element))
      (List.Forall₂ (Followed.Rel R S slot.element) s.elements) :=
    (yielding _).mapM fun x hx =>
      yields_indentFollowed C hS (indentable_element (List.ne_nil_of_mem hx)) (hvisit x hx)
  have hrest (before : Space) (hs : S (.opening slot) s.before before) :
      Yields (.series slot s :: values)
        (s.elements.mapM (indentFollowed style visit slot.element) >>= fun xs => pure ⟨before, xs⟩)
        (Series.Rel R S slot s) :=
    helements.bind fun _ hxs => .pure ⟨hs, hxs⟩
  have hbefore : Yields (.series slot s :: values)
      (indentAt style (.opening slot) s.before >>= fun before =>
        s.elements.mapM (indentFollowed style visit slot.element) >>= fun xs => pure ⟨before, xs⟩)
      (Series.Rel R S slot s) :=
    (yields_indentAt C hS _ _).bind hrest
  refine .ite (fun _ => ?_) fun _ => ?_
  · exact (yields_setStep 0 _).bind fun _ _ => (yields_setColumn 0 _).bind fun _ _ =>
      hrest _ (hS _ _ _ isIndented_opening)
  · exact .ite (fun _ => (yields_setStep 0 _).bind fun _ _ => hbefore) fun _ => hbefore

end Elements

/-! ### Trees -/

/-- The tree's headers of `for` loops are below loops, also where the tree itself is one. -/
def FitsBelow (values : List FrameValue) (t : Tree) : Prop :=
  t.Housed ∧ (t.kind = .forControl → InForLoop values)

theorem inForLoop_cons {values : List FrameValue} {value : FrameValue}
    (h : value.kind? ≠ some .forLoop) : InForLoop (value :: values) ↔ InForLoop values := by
  simp [InForLoop, h]

theorem FitsBelow.child {values : List FrameValue} {t c : Tree} (h : FitsBelow values t)
    (hc : c ∈ t.children) : FitsBelow (.tree t :: values) c := by
  obtain ⟨here, parts⟩ := h.1
  refine ⟨parts c hc, fun hk => ?_⟩
  obtain ⟨control, body, hshape, hcontrol⟩ := here c hc hk
  refine ⟨t, values, ?_, control, body, hshape, hcontrol⟩
  have hkind : t.kind = .forLoop := by rw [Tree.kind, hshape]; rfl
  simp [FrameValue.kind?, FrameValue.tree?, hkind]

theorem FitsBelow.cons {values : List FrameValue} {t : Tree} (h : FitsBelow values t)
    {value : FrameValue} (hv : value.tree? = none) : FitsBelow (value :: values) t :=
  ⟨h.1, fun hk => (inForLoop_cons (by simp [FrameValue.kind?, hv])).2 (h.2 hk)⟩

theorem kind_of_forPart {l : FollowedSlot} {k : NodeKind} (hl : l ∈ k.followedSlots)
    (h : l = .forCondition ∨ l = .forUpdate) : k = .forControl := by
  rcases h with rfl | rfl <;> cases k <;> simp [NodeKind.followedSlots] at hl <;> rfl

theorem FitsBelow.indentable {values : List FrameValue} {t : Tree} (h : FitsBelow values t)
    {l : FollowedSlot} (hl : l ∈ t.kind.followedSlots) : Indentable l (.tree t :: values) where
  inForLoop hfor := by
    have hk := kind_of_forPart hl hfor
    exact (inForLoop_cons (by simp [FrameValue.kind?, FrameValue.tree?, hk])).2 (h.2 hk)
  inList hparameter := by
    subst hparameter
    cases hk : t.kind <;> simp [hk, NodeKind.followedSlots] at hl

theorem yields_visitWithin_indenter {R : Tree → Tree → Prop} {S : SpaceSlot → Space → Space → Prop}
    (C : Tree.Congruence R S) {style : IndentStyle} {stopAfter : Option NodeId}
    (hS : ∀ l column s, IsIndented l s → S l s (style.indentSpace l column s)) (budget : Nat)
    {values : List FrameValue} {t : Tree} (ht : FitsBelow values t) :
    Yields values ((indenter style stopAfter).visitWithin budget t) (R t) := by
  refine Visitor.yields_visitWithin FitsBelow C.refl (fun visit hvisit values t ht => ?_) budget
    values t ht
  refine Yields.bind (P := (· = t)) ?_ ?_
  · exact (IndentWalk.yields_setStep 0 _).bind fun _ _ => .pure rfl
  · rintro _ rfl
    refine Yields.bind ?_ fun _ h => .pure h
    refine Visitor.yields_walk C (yields_indentAt C hS _ _) ?_
    exact {
      part := fun c hc => hvisit _ c (ht.child hc)
      space := fun l s => yields_indentAt C hS l s
      followed := fun l hl x hx => yields_indentFollowed C hS (ht.indentable hl)
        (hvisit _ _ ((ht.child hx).cons rfl))
      preceded := fun l x hx => yields_walkPreceded (yields_indentAt C hS _ _)
        (hvisit _ _ ((ht.child hx).cons rfl))
      word := fun l s => yields_within (yields_indentAt C hS _ s)
      series := fun l s hs => yields_indentSeries C hS fun x hx =>
        hvisit _ _ (((ht.child (hs (List.mem_map_of_mem hx))).cons rfl).cons rfl) }

/-- **The indenter changes spaces only**, by `IndentStyle.indentSpace`, and it succeeds. -/
theorem yields_indenter {R : Tree → Tree → Prop} {S : SpaceSlot → Space → Space → Prop}
    (C : Tree.Congruence R S) {style : IndentStyle} {stopAfter : Option NodeId}
    (hS : ∀ l column s, IsIndented l s → S l s (style.indentSpace l column s))
    {values : List FrameValue} {t : Tree} (ht : FitsBelow values t) :
    Yields values ((indenter style stopAfter).visit t) (R t) :=
  yields_visitWithin_indenter C hS _ ht

end JavaSource
