import JavaSource.Proofs.BlockStructure
import JavaSource.Proofs.Marks

/-!
# Indenting block-structured trees

On a block-structured tree the indenter moves each line to the column of its place, as
`Tree.aligned` does, and leaves the trail above the tree as it was (`restores_visit`).  While it
walks through a layer, the frame of the layer keeps its step and the column of its line
(`Trail.Holds`).
-/

namespace JavaSource

open Walk

/-! ### Trails -/

namespace Trail

variable {trail outer : Trail IndentNote} {frame : Frame IndentNote}

/-- A trail below its root that is neither stopped nor inside an annotation nor just after one. -/
structure Clear (trail : Trail IndentNote) : Prop where
  ne_nil : trail ≠ []
  stopped : trail.isStopped = false
  marks : trail.marks = 0
  annotation : trail.hasAnnotationFrame = false

/-- The slot of the last space directly at the innermost frame. -/
def lastSlot (trail : Trail IndentNote) : Option SpaceSlot :=
  trail.head?.bind fun frame => frame.note.lastSlot

theorem Clear.cons (h : outer.Clear) (hstopped : frame.stopped = false)
    (hmark : frame.note.afterAnnotation = false) (hkind : frame.value.kind? ≠ some .annotationUse) :
    Clear (frame :: outer) where
  ne_nil := List.cons_ne_nil _ _
  stopped := by simpa [isStopped, hstopped] using h.stopped
  marks := by
    rw [Trail.marks, List.countP_cons_of_neg (by simp [hmark])]
    exact h.marks
  annotation := by simpa [hasAnnotationFrame, hkind] using h.annotation

/-- Nothing lines up with an annotation on such a trail. -/
theorem Clear.align (h : outer.Clear) (hmark : frame.note.afterAnnotation = false) :
    align (frame :: outer) = (false, frame :: outer) := by
  refine Calm.align_eq (.inr (Nat.le_of_eq h.marks)) (fun v hv hkind => ?_) hmark
  refine Bool.eq_false_iff.1 h.annotation (hasAnnotationFrame_iff.2 ⟨v, ?_, hkind⟩)
  exact List.mem_of_mem_head? hv

theorem column_cons (frame : Frame IndentNote) (outer : Trail IndentNote) :
    Trail.column (frame :: outer) = frame.note.column.getD outer.column := by
  rw [column, column?, List.findSome?_cons]
  cases frame.note.column <;> rfl

theorem indentStep_cons (frame : Frame IndentNote) (outer : Trail IndentNote) :
    Trail.indentStep (frame :: outer) = frame.note.step.getD outer.indentStep := by
  rw [indentStep, List.findSome?_cons]
  cases frame.note.step <;> rfl

end Trail

/-! ### Spaces -/

section Spaces

variable {style : IndentStyle} {l : SpaceSlot} {s : Space} {frame : Frame IndentNote}
  {outer : Trail IndentNote}

/-- The frame after a space directly at it. -/
def Frame.noteSlot (frame : Frame IndentNote) (l : SpaceSlot) : Frame IndentNote :=
  { frame with note := { frame.note with lastSlot := some l } }

/-- The frame with the column of its line. -/
def Frame.noteColumn (frame : Frame IndentNote) (column : Int) : Frame IndentNote :=
  { frame with note := { frame.note with column := some column } }

/-- What is done at a space without comments. -/
theorem run_indentAt_eq (hne : outer ≠ []) (hs : s.comments = []) :
    (indentAt style l s).run ⟨frame :: outer, ()⟩ =
      let aligned := Trail.align (frame.noteSlot l :: outer)
      if s.hasNewline then
        let column := Trail.column (frame :: outer) +
          style.columns (indentStepAt l s aligned.1 (frame.noteSlot l) outer)
        .ok (style.indentSpace l column s, ⟨if frame.value.setsColumn
          then aligned.2.mapNoteAt 0 fun note => { note with column := some column }
          else aligned.2, ()⟩)
      else .ok (s, ⟨aligned.2, ()⟩) := by
  obtain ⟨parent, above, rfl⟩ := List.exists_cons_of_ne_nil hne
  have hrun : (indentAt style l s).run ⟨frame :: parent :: above, ()⟩ =
      (IndentWalk.alignsWithAnnotation >>= fun aligned =>
        if s.comments.isEmpty && !s.hasNewline then return s
        else
          let step := indentStepAt l s aligned (frame.noteSlot l) (parent :: above)
          let column := Trail.column (frame.noteSlot l :: parent :: above) + style.columns step
          if frame.value.setsColumn then do
            IndentWalk.setColumn 0 column
            return style.indentSpace l column s
          else return style.indentSpace l column s : IndentWalk Space).run
        ⟨frame.noteSlot l :: parent :: above, ()⟩ := rfl
  rw [hrun, StateT.run_bind, Trail.run_aligns, hs]
  cases s.hasNewline with
  | false => rfl
  | true =>
    dsimp only
    cases frame.value.setsColumn <;> rfl

theorem run_indentAt (houter : outer.Clear) (hmark : frame.note.afterAnnotation = false)
    (hs : s.comments = []) :
    (indentAt style l s).run ⟨frame :: outer, ()⟩ =
      if s.hasNewline then
        let column :=
          Trail.column (frame :: outer) + style.columns (indentStepAt l s false frame outer)
        .ok (style.indentSpace l column s, ⟨(if frame.value.setsColumn
          then (frame.noteSlot l).noteColumn column else frame.noteSlot l) :: outer, ()⟩)
      else .ok (s, ⟨frame.noteSlot l :: outer, ()⟩) := by
  have halign : Trail.align (frame.noteSlot l :: outer) = (false, _) := houter.align hmark
  rw [run_indentAt_eq houter.ne_nil hs, halign]
  cases s.hasNewline with
  | false => rfl
  | true =>
    dsimp only
    cases frame.value.setsColumn <;> rfl

theorem run_indentAt_inline (houter : outer.Clear) (hmark : frame.note.afterAnnotation = false)
    (hs : s.comments = []) (h : s.hasNewline = false) :
    (indentAt style l s).run ⟨frame :: outer, ()⟩ = .ok (s, ⟨frame.noteSlot l :: outer, ()⟩) := by
  rw [run_indentAt houter hmark hs, h]
  rfl

theorem indentStepAt_closes (hl : l.closes) : indentStepAt l s false frame outer = .align := by
  rw [indentStepAt, hl]
  rfl

theorem indentStepAt_endOfUnit (h : outer.lastSlot ≠ some (.before .superclass)) :
    indentStepAt .endOfUnit s false frame outer = outer.indentStep := by
  have hslot : ((outer.head?.bind fun f => f.note.lastSlot) == some (.before .superclass)) = false :=
    beq_eq_false_iff_ne.2 h
  rw [indentStepAt, hslot]
  rfl

/-- A node of this kind that starts a line is a step away from the line above. -/
def Trail.Indents (trail : Trail IndentNote) (step : IndentStep) (k : NodeKind) : Prop :=
  SpaceSlot.closes (.leading k) ∨
    trail.indentStep = step ∧ trail.lastSlot ≠ some (.before .superclass) ∧
    (k = .block → trail.findSome? (fun f => f.value.kind?) = some .block ∨ step = .align)

theorem indentStepAt_leading {step : IndentStep} {k : NodeKind} (h : outer.Indents step k) :
    indentStepAt (.leading k) s false frame outer =
      if SpaceSlot.closes (.leading k) then .align else step := by
  rw [indentStepAt, Bool.false_or]
  rcases h with h | ⟨hstep, hslot, hblock⟩
  · rw [h]
    rfl
  · cases hcloses : SpaceSlot.closes (.leading k) with
    | true => rfl
    | false =>
      rw [Bool.false_or]
      split
      · next hopens =>
        simp only [opensOwnLine, Bool.and_eq_true, beq_iff_eq, bne_iff_ne, SpaceSlot.leading.injEq]
          at hopens
        exact ((hblock hopens.1.1.1).resolve_left hopens.2).symm
      · have hslot :
            ((outer.head?.bind fun f => f.note.lastSlot) == some (.before .superclass)) = false :=
          beq_eq_false_iff_ne.2 hslot
        rw [hslot]
        exact hstep

/-- The frame after a space directly at it that was moved to a column. -/
def Frame.noteMoved (frame : Frame IndentNote) (l : SpaceSlot) (s : Space) (column : Nat) :
    Frame IndentNote :=
  if s.hasNewline && frame.value.setsColumn then (frame.noteSlot l).noteColumn column
  else frame.noteSlot l

theorem run_indentAt_moves (houter : outer.Clear) (hmark : frame.note.afterAnnotation = false)
    (hs : s.comments = []) {column : Nat} (hcolumn : s.hasNewline →
      Trail.column (frame :: outer) + style.columns (indentStepAt l s false frame outer) = column) :
    (indentAt style l s).run ⟨frame :: outer, ()⟩ =
      .ok (style.moveToken column l s, ⟨frame.noteMoved l s column :: outer, ()⟩) := by
  rw [run_indentAt houter hmark hs, IndentStyle.moveToken, Frame.noteMoved]
  cases h : s.hasNewline with
  | false => rfl
  | true =>
    rw [if_pos rfl, if_pos rfl, hcolumn h]
    rfl

end Spaces

/-! ### Elements -/

namespace IndentWalk

variable {α β : Type} {trail outer : Trail IndentNote} {style : IndentStyle}
  {visit : Tree → IndentWalk Tree}

/-- The walk gives this and leaves the trail as it was. -/
def Restores (trail : Trail IndentNote) (p : IndentWalk α) (a : α) : Prop :=
  p.run ⟨trail, ()⟩ = .ok (a, ⟨trail, ()⟩)

theorem run_bind_ok {p : IndentWalk α} {f : α → IndentWalk β} {w v : Traversal IndentNote Unit}
    {a : α} (h : p.run w = .ok (a, v)) : (p >>= f).run w = (f a).run v := by
  rw [StateT.run_bind, h]
  rfl

theorem restores_mapM {f : α → IndentWalk β} {g : α → β} {xs : List α}
    (h : ∀ x ∈ xs, Restores trail (f x) (g x)) : Restores trail (xs.mapM f) (xs.map g) := by
  induction xs with
  | nil => rfl
  | cons x xs ih =>
    have hrest := ih fun y hy => h y (List.mem_cons_of_mem x hy)
    rw [Restores, List.mapM_cons]
    exact (run_bind_ok (h x List.mem_cons_self)).trans (run_bind_ok hrest)

/-- A walk one frame further down leaves the trail as it was, if it changes that frame only. -/
theorem restores_within {value : FrameValue} {frame : Frame IndentNote} {p : IndentWalk α} {a : α}
    (h : p.run ⟨Trail.fresh value :: trail, ()⟩ = .ok (a, ⟨frame :: trail, ()⟩)) :
    Restores trail (within value p) a := by
  rw [Restores, run_within, h]
  rfl

/-- Elements in these slots have no place of their own. -/
theorem indentBrokenElement_eq {l : FollowedSlot}
    (hl : l ∈ [.blockStatement, .packageDeclaration, .importDeclaration, .thenBody, .caseStatement])
    (column : Int) (around : Trail IndentNote) (x : Followed Tree) :
    indentBrokenElement style visit l column around x = indentElement style visit l x := by
  simp only [List.mem_cons, List.not_mem_nil, or_false] at hl
  rcases hl with rfl | rfl | rfl | rfl | rfl <;> rfl

/-- A space that starts no line stays where it is. -/
theorem indentSpace_after {l : FollowedSlot} {s : Space} (hs : s.comments = [])
    (h : s.hasNewline = false) (column : Int) : style.indentSpace (.after l) column s = s := by
  obtain ⟨w, cs⟩ := s
  obtain rfl : cs = [] := hs
  have hw : w.contains '\n' = false := h
  have hblank : style.indentBlank (.after l) column w = w := by
    rw [IndentStyle.indentBlank, if_neg (by simp), hw]
    rfl
  exact congrArg (Space.mk · []) hblank

theorem restores_followed {l : FollowedSlot} {x : Followed Tree} {e : Tree} (houter : outer.Clear)
    (hvisit : Restores (Trail.fresh (.followed l x.element) :: outer) (visit x.element) e)
    (hcomments : x.after.comments = []) (hafter : x.after.hasNewline = false)
    (hl : x.element.leading.hasNewline → l ∈
      [.blockStatement, .packageDeclaration, .importDeclaration, .thenBody, .caseStatement])
    (helements : l = .constructorArgument ∨ l = .methodArgument →
      ∀ y ∈ outer.elements, y.element.leading.hasNewline = false) :
    Restores outer (indentFollowed style visit l x) ⟨e, x.after⟩ := by
  have helement : (indentElement style visit l x).run
      ⟨Trail.fresh (.followed l x.element) :: outer, ()⟩ = .ok (⟨e, x.after⟩,
        ⟨(Trail.fresh (.followed l x.element)).noteSlot (.after l) :: outer, ()⟩) :=
    (run_bind_ok hvisit).trans
      (run_bind_ok (run_indentAt_inline houter rfl hcomments hafter))
  have hto (column : Int) : (indentElementTo style visit l column x).run
      ⟨Trail.fresh (.followed l x.element) :: outer, ()⟩ =
        .ok (⟨e, x.after⟩, ⟨Trail.fresh (.followed l x.element) :: outer, ()⟩) := by
    refine (run_bind_ok hvisit).trans ?_
    rw [indentSpace_after hcomments hafter]
    rfl
  have hargument (h : l = .constructorArgument ∨ l = .methodArgument) (column : Int) :
      indentInlineArgument style visit l column outer x = indentElementTo style visit l column x := by
    have hlater : (((outer.elements.dropWhile fun a => a.element.id != x.element.id).drop 1).any
        fun a => a.element.leading.hasNewline) = false := by
      refine List.any_eq_false.2 fun y hy => ?_
      rw [helements h y ((List.dropWhile_suffix _).mem (List.mem_of_mem_drop hy))]
      exact Bool.false_ne_true
    rw [indentInlineArgument, hlater]
    rfl
  have hinline (column : Int) : (indentInlineElement style visit l column outer x).run
      ⟨Trail.fresh (.followed l x.element) :: outer, ()⟩ =
        .ok (⟨e, x.after⟩, ⟨Trail.fresh (.followed l x.element) :: outer, ()⟩) := by
    unfold indentInlineElement
    split
    · rw [hargument (.inl rfl)]
      exact hto column
    · rw [hargument (.inr rfl)]
      exact hto column
    · exact run_bind_ok hvisit
  -- an element that starts no line may take the way of an argument, which sets it to a column
  cases h : x.element.leading.hasNewline with
  | true =>
    refine restores_within (Eq.trans ?_ helement)
    change (if x.after.hasNewline || x.element.leading.hasNewline then
      indentBrokenElement style visit l _ outer x else _ : IndentWalk (Followed Tree)).run _ = _
    rw [h, Bool.or_true, if_pos rfl, indentBrokenElement_eq (hl h)]
  | false =>
    refine restores_within (Eq.trans ?_
      (hinline (Trail.column (Trail.fresh (.followed l x.element) :: outer))))
    change (if x.after.hasNewline || x.element.leading.hasNewline then
      _ else indentInlineElement style visit l _ outer x : IndentWalk (Followed Tree)).run _ = _
    rw [h, hafter, Bool.or_false, if_neg Bool.false_ne_true]

variable {column : Nat}

/-- A space before a word, and what it introduces: the space moves if it closes what is around it. -/
theorem run_indentAt_before {l : PrecededSlot} {s : Space} (houter : outer.Clear)
    (hcolumn : outer.column = column) (hcomments : s.comments = [])
    (hl : s.hasNewline → SpaceSlot.closes (.before l)) :
    (indentAt style (.before l) s).run ⟨Trail.fresh (.preceded l) :: outer, ()⟩ =
      .ok (style.moveToken column (.before l) s,
        ⟨(Trail.fresh (.preceded l)).noteSlot (.before l) :: outer, ()⟩) := by
  have hmoved : (Trail.fresh (.preceded l)).noteMoved (.before l) s column =
      (Trail.fresh (.preceded l)).noteSlot (.before l) := by
    rw [Frame.noteMoved]
    exact if_neg (by simp [Trail.fresh, FrameValue.setsColumn])
  rw [← hmoved]
  refine run_indentAt_moves houter rfl hcomments fun h => ?_
  rw [indentStepAt_closes (hl h), Trail.column_cons]
  exact (Int.add_zero _).trans hcolumn

theorem restores_preceded {l : PrecededSlot} {x : Preceded Tree} {e : Tree} (houter : outer.Clear)
    (hcolumn : outer.column = column) (hcomments : x.before.comments = [])
    (hl : x.before.hasNewline → SpaceSlot.closes (.before l))
    (hvisit : Restores ((Trail.fresh (.preceded l)).noteSlot (.before l) :: outer)
      (visit x.element) e) :
    Restores outer (walkPreceded (indentAt style) visit l x)
      ⟨style.moveToken column (.before l) x.before, e⟩ :=
  restores_within ((run_bind_ok (run_indentAt_before houter hcolumn hcomments hl)).trans
    (run_bind_ok hvisit))

theorem restores_word {l : PrecededSlot} {s : Space} (houter : outer.Clear)
    (hcolumn : outer.column = column) (hcomments : s.comments = [])
    (hl : s.hasNewline → SpaceSlot.closes (.before l)) :
    Restores outer (within (.preceded l) (indentAt style (.before l) s))
      (style.moveToken column (.before l) s) :=
  restores_within (run_indentAt_before houter hcolumn hcomments hl)

/-- The frame of a list whose opening starts no line. -/
def seriesFrame (l : SeriesSlot) (s : Series Tree) : Frame IndentNote :=
  ⟨.series l s, false,
    { (default : IndentNote) with
      step := if l.continuesStatement then some .continuation else none
      lastSlot := some (.opening l) }⟩

theorem restores_series {l : SeriesSlot} {s : Series Tree} {g : Followed Tree → Followed Tree}
    (houter : outer.Clear) (hcomments : s.before.comments = [])
    (hbefore : s.before.hasNewline = false)
    (helements : ∀ x ∈ s.elements,
      Restores (seriesFrame l s :: outer) (indentFollowed style visit l.element x) (g x)) :
    Restores outer (indentSeries style visit l s) ⟨s.before, s.elements.map g⟩ := by
  have hrest : (indentAt style (.opening l) s.before >>= fun before =>
      s.elements.mapM (indentFollowed style visit l.element) >>= fun xs => pure ⟨before, xs⟩ :
        IndentWalk (Series Tree)).run
      ⟨{ (Trail.fresh (.series l s) : Frame IndentNote) with
        note := { (default : IndentNote) with
          step := if l.continuesStatement then some .continuation else none } } :: outer, ()⟩ =
      .ok (⟨s.before, s.elements.map g⟩, ⟨seriesFrame l s :: outer, ()⟩) :=
    (run_bind_ok (run_indentAt_inline houter rfl hcomments hbefore)).trans
      (run_bind_ok (restores_mapM helements))
  refine restores_within (Eq.trans ?_ hrest)
  rw [hbefore]
  cases l.continuesStatement <;> rfl

end IndentWalk

/-! ### Layers -/

/-- The frame of a node while its layer is walked through: the parts of the node are indented from
this column. -/
structure Frame.Holds (frame : Frame IndentNote) (t : Tree) (above : Trail IndentNote)
    (column : Nat) : Prop where
  value : frame.value = .tree t
  stopped : frame.stopped = false
  mark : frame.note.afterAnnotation = false
  step : frame.note.step = some (.ofKind t.kind)
  lastSlot : frame.note.lastSlot ≠ some (.before .superclass)
  column : Trail.column (frame :: above) = column

section Layers

variable {style : IndentStyle} {visit : Tree → IndentWalk Tree} {t : Tree} {above : Trail IndentNote}
  {frame : Frame IndentNote} {column : Nat} {l : SpaceSlot} {s : Space}

theorem Frame.Holds.clear (h : frame.Holds t above column) (habove : above.Clear)
    (ht : t.kind ≠ .annotationUse) : Trail.Clear (frame :: above) :=
  habove.cons h.stopped h.mark (by rw [h.value]; exact fun hkind => ht (Option.some.inj hkind))

theorem Frame.Holds.elements (h : frame.Holds t above column) :
    Trail.elements (frame :: above) = [] := by
  obtain ⟨value, stopped, note⟩ := frame
  obtain rfl : value = .tree t := h.value
  rfl

/-- A space directly at the node moves to the column of the node. -/
theorem Frame.Holds.run_indentAt (h : frame.Holds t above column) (habove : above.Clear)
    (hl : l ≠ .before .superclass) (hs : s.comments = []) (hstep : s.hasNewline →
      indentStepAt l s false frame above = .align) :
    ∃ frame' : Frame IndentNote, (indentAt style l s).run ⟨frame :: above, ()⟩ =
      .ok (style.moveToken column l s, ⟨frame' :: above, ()⟩) ∧ frame'.Holds t above column := by
  refine ⟨_, run_indentAt_moves habove h.mark hs fun hnewline => ?_, ?_⟩
  · rw [hstep hnewline, h.column]
    exact Int.add_zero _
  · have hslot : some l ≠ some (.before .superclass) := fun heq => hl (Option.some.inj heq)
    have hcolumn := h.column
    rw [Trail.column_cons] at hcolumn
    rw [Frame.noteMoved]
    split
    · exact ⟨h.value, h.stopped, h.mark, h.step, hslot, Trail.column_cons _ _⟩
    · exact ⟨h.value, h.stopped, h.mark, h.step, hslot, (Trail.column_cons _ _).trans hcolumn⟩

/-- What holds of the answers of walks that keep what the frame of a node holds. -/
def IndentWalk.holding (t : Tree) (above : Trail IndentNote) (column : Nat) : Answers IndentWalk where
  Hold p P := ∀ frame, Frame.Holds frame t above column → ∃ a frame',
    p.run ⟨frame :: above, ()⟩ = .ok (a, ⟨frame' :: above, ()⟩) ∧ P a ∧ frame'.Holds t above column
  pure h frame hframe := ⟨_, frame, rfl, h, hframe⟩
  bind hp hf frame hframe := by
    obtain ⟨a, frame', hrun, ha, hframe'⟩ := hp frame hframe
    obtain ⟨b, frame'', hrun', hb, hframe''⟩ := hf a ha frame' hframe'
    exact ⟨b, frame'', (IndentWalk.run_bind_ok hrun).trans hrun', hb, hframe''⟩

/-- A part that starts a line is a step away from the column of the node, behind frames that say
nothing else. -/
theorem Frame.Holds.indents (h : frame.Holds t above column) {k : NodeKind} (hk : k.mayStartIn t.kind)
    {inner : Trail IndentNote} (hinner : ∀ f ∈ inner, f.note.step = none ∧ f.value.kind? = none)
    (hlast : Trail.lastSlot (inner ++ frame :: above) ≠ some (.before .superclass)) :
    Trail.Indents (inner ++ frame :: above) (.ofKind t.kind) k := by
  have hstep : Trail.indentStep (inner ++ frame :: above) = .ofKind t.kind := by
    rw [Trail.indentStep, List.findSome?_append,
      List.findSome?_eq_none_iff.2 fun f hf => (hinner f hf).1, List.findSome?_cons, h.step]
    rfl
  have hkind : (inner ++ frame :: above).findSome? (fun f => f.value.kind?) = some t.kind := by
    rw [List.findSome?_append, List.findSome?_eq_none_iff.2 fun f hf => (hinner f hf).2,
      List.findSome?_cons, h.value]
    rfl
  refine .inr ⟨hstep, hlast, ?_⟩
  rintro rfl
  rcases NodeKind.mayStartIn_block hk with hholder | hholder
  · exact .inl (hholder ▸ hkind)
  · exact .inr (by rw [hholder]; rfl)

/-- What a visit of a part does that is at a column, a step away from it if the part starts a line. -/
def IndentWalk.Places (visit : Tree → IndentWalk Tree) (g : Tree → Tree) (t : Tree) (column : Nat) :
    Prop :=
  ∀ c ∈ t.children, ∀ trail : Trail IndentNote, trail.Clear → trail.column = column →
    (c.leading.hasNewline → trail.Indents (.ofKind t.kind) c.kind) →
    IndentWalk.Restores trail (visit c) (g c)

section Slots

variable {g : Tree → Tree} (ht : t.shape.BlockStructured) (habove : above.Clear)
  (hvisit : IndentWalk.Places visit g t column) (hframe : frame.Holds t above column)

include ht

/-- A space with a place of its own starts no line. -/
theorem Shape.BlockStructured.inline {p : Slot Tree} (hp : p ∈ t.shape.slots)
    (h : .space l s ∈ p.pieces) (hl : l.mayBreak = false) : s.hasNewline = false := by
  refine Bool.eq_false_iff.2 ?_
  intro hs
  have := (ht.spaces (l, s) (Shape.mem_spaces_of_slot hp h)).2 hs
  rw [hl] at this
  cases this

include habove hvisit hframe

open IndentWalk

theorem restores_slot_part {c : Tree} (hp : .part c ∈ t.shape.slots) :
    Restores (frame :: above) (visit c) (g c) := by
  have hc : c ∈ t.children := Shape.mem_children_of_slot hp List.mem_cons_self
  refine hvisit c hc _ (hframe.clear habove ht.kind) hframe.column fun h => ?_
  exact hframe.indents (ht.mayStartIn hc h) (List.forall_mem_nil _) hframe.lastSlot

theorem restores_slot_followed {l : FollowedSlot} {x : Followed Tree}
    (hp : .followed l x ∈ t.shape.slots) :
    Restores (frame :: above) (indentFollowed style visit l x) ⟨g x.element, x.after⟩ := by
  have hclear := hframe.clear habove ht.kind
  have hc : x.element ∈ t.children := Shape.mem_children_of_slot hp List.mem_cons_self
  have hafter : .space (.after l) x.after ∈ (Slot.followed l x).pieces :=
    List.mem_cons_of_mem _ List.mem_cons_self
  have helement : Restores (Trail.fresh (.followed l x.element) :: frame :: above) (visit x.element)
      (g x.element) := by
    refine hvisit _ hc _ (hclear.cons rfl rfl nofun) ?_ fun h => ?_
    · exact (Trail.column_cons _ _).trans hframe.column
    · exact hframe.indents (ht.mayStartIn hc h) (List.forall_mem_singleton.2 ⟨rfl, rfl⟩) nofun
  refine restores_followed hclear helement (ht.spaces _ (Shape.mem_spaces_of_slot hp hafter)).1
    (ht.inline hp hafter rfl) (fun h => ?_)
    fun _ => by rw [hframe.elements]; exact List.forall_mem_nil _
  have hplain := NodeKind.followedSlots_of_mayStartIn (ht.mayStartIn hc h) (t.shape.fits_slots _ hp)
  exact List.mem_append_left [.caseStatement] hplain

theorem restores_slot_series {l : SeriesSlot} {s : Series Tree} (hp : .series l s ∈ t.shape.slots) :
    Restores (frame :: above) (indentSeries style visit l s)
      ⟨s.before, s.elements.map fun x => ⟨g x.element, x.after⟩⟩ := by
  have hclear := hframe.clear habove ht.kind
  have hbefore : .space (.opening l) s.before ∈ (Slot.series l s).pieces := List.mem_cons_self
  have hchild {x : Followed Tree} (hx : x ∈ s.elements) : x.element ∈ t.children :=
    Shape.mem_children_of_slot hp (Shape.mem_pieces_series hx List.mem_cons_self)
  -- only the statements of a case start lines
  have hcases {x : Followed Tree} (hx : x ∈ s.elements) (h : x.element.leading.hasNewline) :
      l = .caseStatements :=
    NodeKind.seriesSlots_of_mayStartIn (ht.mayStartIn (hchild hx) h) (t.shape.fits_slots _ hp)
  refine restores_series hclear (ht.spaces _ (Shape.mem_spaces_of_slot hp hbefore)).1
    (ht.inline hp hbefore rfl) fun x hx => ?_
  have hafter : .space (.after l.element) x.after ∈ (Slot.series l s).pieces :=
    Shape.mem_pieces_series hx (List.mem_cons_of_mem _ List.mem_cons_self)
  have hlist : Trail.Clear (seriesFrame l s :: frame :: above) := hclear.cons rfl rfl nofun
  have helement : Restores
      (Trail.fresh (.followed l.element x.element) :: seriesFrame l s :: frame :: above)
      (visit x.element) (g x.element) := by
    refine hvisit _ (hchild hx) _ (hlist.cons rfl rfl nofun) ?_ fun h => ?_
    · exact (Trail.column_cons _ _).trans ((Trail.column_cons _ _).trans hframe.column)
    · obtain rfl := hcases hx h
      exact hframe.indents (ht.mayStartIn (hchild hx) h)
        (List.forall_mem_cons.2 ⟨⟨rfl, rfl⟩, List.forall_mem_singleton.2 ⟨rfl, rfl⟩⟩) nofun
  refine restores_followed hlist helement (ht.spaces _ (Shape.mem_spaces_of_slot hp hafter)).1
    (ht.inline hp hafter rfl) (fun h => ?_) fun hargument y hy => Bool.eq_false_iff.2 fun h => ?_
  · obtain rfl := hcases hx h
    decide
  · obtain rfl := hcases hy h
    exact absurd hargument (by decide)

theorem restores_slot_preceded {l : PrecededSlot} {x : Preceded Tree}
    (hp : .preceded l x ∈ t.shape.slots) :
    Restores (frame :: above) (walkPreceded (indentAt style) visit l x)
      ⟨style.moveToken column (.before l) x.before, g x.element⟩ := by
  have hclear := hframe.clear habove ht.kind
  have hc : x.element ∈ t.children :=
    Shape.mem_children_of_slot hp (List.mem_cons_of_mem _ List.mem_cons_self)
  obtain ⟨hcomments, hbreak⟩ := ht.spaces _ (Shape.mem_spaces_of_slot hp List.mem_cons_self)
  refine restores_preceded hclear hframe.column hcomments
    (fun h => (SpaceSlot.closes_of_mayBreak (hbreak h)).resolve_right nofun) ?_
  refine hvisit _ hc _ (hclear.cons rfl rfl nofun) ?_ fun h => ?_
  · exact (Trail.column_cons _ _).trans hframe.column
  · have hk := ht.mayStartIn hc h
    obtain rfl := NodeKind.precededSlots_of_mayStartIn hk (t.shape.fits_slots _ hp)
    exact hframe.indents hk (List.forall_mem_singleton.2 ⟨rfl, rfl⟩) fun heq =>
      absurd (Option.some.inj heq) (by decide)

end Slots

variable (style) in
/-- At each slot of a block-structured node the tokens that start lines are moved to their
columns. -/
theorem holding_atSlot {g : Tree → Tree} (ht : t.shape.BlockStructured) (habove : above.Clear)
    (hfile : t.kind = .compilationUnit → above.indentStep = .align ∧
      above.lastSlot ≠ some (.before .superclass))
    (hvisit : IndentWalk.Places visit g t column) : ∀ p ∈ t.shape.slots,
    (IndentWalk.holding t above column).AtSlot (fun c d => g c = d)
      (fun l s s' => style.moveToken column l s = s') ((indenter style none).actions visit) p := by
  intro p hp
  have hinline {l : SpaceSlot} {s : Space} (h : .space l s ∈ p.pieces) (hl : l.mayBreak = false) :
      style.moveToken column l s = s := style.moveToken_of_inline (ht.inline hp h hl)
  cases p with
  | part c =>
    intro frame hframe
    exact ⟨_, frame, restores_slot_part ht habove hvisit hframe hp, rfl, hframe⟩
  | space l s =>
    intro frame hframe
    obtain ⟨hcomments, hbreak⟩ := ht.spaces _ (Shape.mem_spaces_of_slot hp List.mem_cons_self)
    have hslot := NodeKind.ne_before_of_mem_spaceSlots (t.shape.fits_slots _ hp)
    -- the end of a file is as far to the right as the file
    have hstep (h : s.hasNewline) : indentStepAt l s false frame above = .align := by
      rcases SpaceSlot.closes_of_mayBreak (hbreak h) with hcloses | rfl
      · exact indentStepAt_closes hcloses
      · obtain ⟨hstep, hlast⟩ :=
          hfile (NodeKind.eq_compilationUnit_of_endOfUnit (t.shape.fits_slots _ hp))
        exact (indentStepAt_endOfUnit hlast).trans hstep
    obtain ⟨frame', hrun, hframe'⟩ :=
      hframe.run_indentAt habove (hslot .superclass) hcomments hstep
    exact ⟨_, frame', hrun, rfl, hframe'⟩
  | followed l x =>
    intro frame hframe
    refine ⟨_, frame, restores_slot_followed ht habove hvisit hframe hp, ⟨rfl, ?_⟩, hframe⟩
    exact hinline (List.mem_cons_of_mem _ List.mem_cons_self) rfl
  | preceded l x =>
    intro frame hframe
    exact ⟨_, frame, restores_slot_preceded ht habove hvisit hframe hp, ⟨rfl, rfl⟩, hframe⟩
  | word l s =>
    intro frame hframe
    obtain ⟨hcomments, hbreak⟩ := ht.spaces _ (Shape.mem_spaces_of_slot hp List.mem_cons_self)
    refine ⟨_, frame, IndentWalk.restores_word (hframe.clear habove ht.kind) hframe.column hcomments
      fun h => ?_, rfl, hframe⟩
    exact (SpaceSlot.closes_of_mayBreak (hbreak h)).resolve_right nofun
  | series l s =>
    intro frame hframe
    refine ⟨_, frame, restores_slot_series ht habove hvisit hframe hp,
      ⟨hinline List.mem_cons_self rfl, ?_⟩, hframe⟩
    refine List.forall₂_map_right_iff.2 (List.forall₂_same.2 fun y hy => ⟨rfl, ?_⟩)
    exact hinline (Shape.mem_pieces_series hy (List.mem_cons_of_mem _ List.mem_cons_self)) rfl

end Layers

/-! ### Trees -/

/-- The frame of a node when it is entered. -/
def Tree.entryFrame (t : Tree) : Frame IndentNote :=
  ⟨.tree t, false, { (default : IndentNote) with step := some (.ofKind t.kind) }⟩

section Trees

variable {style : IndentStyle} {trail : Trail IndentNote} {column : Nat} {step : IndentStep}
  {t : Tree}

/-- Behind the space before a node its parts are indented from the column of its line. -/
theorem holds_entryFrame (hcolumn : trail.column = column) :
    Frame.Holds
      (t.entryFrame.noteMoved (.leading t.kind) t.leading (style.startColumn column step t)) t trail
      (style.innerColumn column step t) := by
  have hslot : some (SpaceSlot.leading t.kind) ≠ some (.before .superclass) := nofun
  have hsets : t.entryFrame.value.setsColumn = (t.kind != .enumValueSet) := rfl
  rw [Frame.noteMoved, hsets]
  cases h : t.leading.hasNewline && t.kind != .enumValueSet with
  | true =>
    simp only [Bool.and_eq_true, bne_iff_ne] at h
    refine ⟨rfl, rfl, rfl, rfl, hslot, ?_⟩
    rw [IndentStyle.innerColumn, if_neg h.2]
    exact Trail.column_cons _ _
  | false =>
    refine ⟨rfl, rfl, rfl, rfl, hslot, ?_⟩
    have hinner : style.innerColumn column step t = column := by
      rw [IndentStyle.innerColumn, IndentStyle.startColumn]
      simp only [Bool.and_eq_false_iff, bne_eq_false_iff_eq] at h
      rcases h with h | h
      · rw [h, if_neg Bool.false_ne_true, ite_self]
      · rw [if_pos h]
    rw [hinner]
    exact (Trail.column_cons _ _).trans hcolumn

open IndentWalk

/-- A visit of a block-structured tree gives what `Tree.alignWithin` says. -/
theorem restores_visitWithin {n : Nat} (ht : t.BlockStructured) (hn : t.Nested) (htrail : trail.Clear)
    (hcolumn : trail.column = column) (hline : t.leading.hasNewline → trail.Indents step t.kind)
    (hfile : t.kind = .compilationUnit → trail.indentStep = .align ∧
      trail.lastSlot ≠ some (.before .superclass)) :
    Restores trail ((indenter style none).visitWithin n t) (t.alignWithin style n column step) := by
  -- on the depth that is visited: the parts of a node are visited below its frame, which holds the
  -- column that they are indented from
  induction n generalizing t trail column step with
  | zero => rfl
  | succ n ih =>
    obtain ⟨⟨hcomments, hshape⟩, hparts⟩ := Tree.blockStructured_iff.1 ht
    obtain ⟨hnests, hnested⟩ := Tree.nested_iff.1 hn
    have hleading : (indentAt style (.leading t.kind) t.leading).run ⟨t.entryFrame :: trail, ()⟩ =
        .ok (style.moveToken (style.startColumn column step t) (.leading t.kind) t.leading,
          ⟨t.entryFrame.noteMoved (.leading t.kind) t.leading (style.startColumn column step t) ::
            trail, ()⟩) := by
      refine run_indentAt_moves htrail rfl hcomments fun h => ?_
      rw [Trail.column_cons, indentStepAt_leading (hline h), IndentStyle.startColumn, if_pos h,
        Int.natCast_add, ← hcolumn]
      rfl
    have hplaces : Places ((indenter style none).visitWithin n)
        (Tree.alignWithin style n (style.innerColumn column step t) (.ofKind t.kind)) t
        (style.innerColumn column step t) := by
      intro c hc trail htrail hcolumn hline
      refine ih (hparts c hc) (hnested c hc) htrail hcolumn hline fun hfile => ?_
      exact absurd hfile (hnests c hc).file
    have hslots := holding_atSlot style hshape htrail hfile hplaces
    obtain ⟨y, frame, hrun, hy, -⟩ :=
      Answers.traverse_of_slots hslots _ (holds_entryFrame hcolumn)
    have henter : ((indenter style none).enter t).run ⟨Trail.fresh (.tree t) :: trail, ()⟩ =
        .ok (t, ⟨t.entryFrame :: trail, ()⟩) := rfl
    have hwalk : ((indenter style none).walk ((indenter style none).visitWithin n) t).run
        ⟨t.entryFrame :: trail, ()⟩ =
          .ok (t.alignWithin style (n + 1) column step, ⟨frame :: trail, ()⟩) := by
      rw [Tree.alignWithin, ← hy.eq_respaced]
      exact (run_bind_ok hleading).trans (run_bind_ok hrun)
    rw [Restores, Visitor.run_visitWithin _ n t htrail.stopped]
    exact restores_within ((run_bind_ok henter).trans ((run_bind_ok hwalk).trans rfl))

/-- **Lines are moved to the columns of their places.**  The indenter gives what `Tree.aligned` says
on a block-structured tree. -/
theorem restores_visit (ht : t.BlockStructured) (hn : t.Nested) (htrail : trail.Clear)
    (hcolumn : trail.column = column) (hline : t.leading.hasNewline → trail.Indents step t.kind)
    (hfile : t.kind = .compilationUnit → trail.indentStep = .align ∧
      trail.lastSlot ≠ some (.before .superclass)) :
    Restores trail ((indenter style none).visit t) (t.aligned style column step) :=
  restores_visitWithin ht hn htrail hcolumn hline hfile

end Trees

end JavaSource
