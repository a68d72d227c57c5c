import JavaSource.Indent.Visitor
import JavaSource.Proofs.DeletedText

/-!
# Trails through a tree without some statements

`Trail.without p` is a trail through the same frames with the same notes, in the tree without some
statements.  What the indenter reads off a trail is the same for both.
-/

namespace JavaSource

/-! ### Loops and labels -/

namespace Tree

/-- A `for` loop has a header, and the label of a statement has no parts. -/
structure Headed (t : Tree) : Prop where
  loop : t.kind = .forLoop → t.HasForHeader
  label : ∀ name body, t.shape = .labeled name body → name.element.children = []

/-- Every `for` loop of the tree has a header, and no label has parts. -/
inductive Regular : Tree → Prop
  | mk {t : Tree} (here : t.Headed) (parts : ∀ c ∈ t.children, Regular c) : Regular t

theorem regular_iff {t : Tree} : t.Regular ↔ t.Headed ∧ ∀ c ∈ t.children, c.Regular :=
  ⟨fun ⟨here, parts⟩ => ⟨here, parts⟩, fun h => ⟨h.1, h.2⟩⟩

theorem without_of_children {p : NodeId → Bool} {t : Tree} (ht : t.children = []) :
    t.without p = t := by
  have hshape : t.shape.without p = t.shape := by
    by_cases hkind : t.kind = .block
    · obtain ⟨afterStatic, xs, beforeClose, hx⟩ := exists_block hkind
      rw [children, hx] at ht
      have hxs : xs = [] := List.map_eq_nil_iff.1 ht
      rw [hx, hxs]
      rfl
    · exact Shape.without_of_kind hkind
  rw [without_eq, hshape, Shape.map_id]
  · cases t; rfl
  · intro c hc
    rw [show t.shape.children = [] from ht] at hc
    cases hc

end Tree

/-! ### Frames and trails -/

section Trail

variable {μ : Type} {p : NodeId → Bool}

/-- What the frame stands for in the tree without the statements that satisfy `p`. -/
def FrameValue.without (p : NodeId → Bool) : FrameValue → FrameValue
  | root => root
  | tree t => tree (t.without p)
  | followed slot element => followed slot (element.without p)
  | preceded slot => preceded slot
  | series slot s => series slot (s.mapElements (List.map (Followed.map (Tree.without p))))

/-- The frame in the tree without the statements that satisfy `p`. -/
def Frame.without (p : NodeId → Bool) (frame : Frame μ) : Frame μ :=
  ⟨frame.value.without p, frame.stopped, frame.note⟩

/-- The trail in the tree without the statements that satisfy `p`. -/
def Trail.without (p : NodeId → Bool) (trail : Trail μ) : Trail μ := trail.map (Frame.without p)

@[simp] theorem FrameValue.kind?_without (v : FrameValue) : (v.without p).kind? = v.kind? := by
  cases v <;> simp [without, kind?, tree?]

theorem FrameValue.tree?_without (v : FrameValue) :
    (v.without p).tree? = v.tree?.map (Tree.without p) := by
  cases v <;> rfl

@[simp] theorem Frame.note_without (frame : Frame μ) : (frame.without p).note = frame.note := rfl

@[simp] theorem Frame.value_without (frame : Frame μ) :
    (frame.without p).value = frame.value.without p := rfl

namespace Trail

@[simp] theorem without_cons (frame : Frame μ) (rest : Trail μ) :
    without p (frame :: rest) = frame.without p :: without p rest := rfl

@[simp] theorem tail_without (trail : Trail μ) : (trail.without p).tail = without p trail.tail :=
  List.map_tail.symm

@[simp] theorem isStopped_without (trail : Trail μ) :
    (trail.without p).isStopped = trail.isStopped := by
  rw [isStopped, without, List.any_map]
  rfl

variable {trail : Trail IndentNote}

@[simp] theorem column?_without (trail : Trail IndentNote) :
    (trail.without p).column? = trail.column? := by
  rw [column?, without, List.findSome?_map]
  rfl

@[simp] theorem column_without (trail : Trail IndentNote) :
    (trail.without p).column = trail.column := by
  rw [column, column?_without, column]

@[simp] theorem indentStep_without (trail : Trail IndentNote) :
    (trail.without p).indentStep = trail.indentStep := by
  rw [indentStep, without, List.findSome?_map]
  rfl

@[simp] theorem hasAnnotationFrame_without (trail : Trail IndentNote) :
    hasAnnotationFrame (trail.without p) = trail.hasAnnotationFrame := by
  simp [hasAnnotationFrame, without, List.any_map, Function.comp_def]

theorem takeAfterAnnotation_without (trail : Trail IndentNote) :
    takeAfterAnnotation (trail.without p) =
      (trail.takeAfterAnnotation.1, without p trail.takeAfterAnnotation.2) := by
  induction trail with
  | nil => rfl
  | cons frame rest ih =>
    rw [without_cons, takeAfterAnnotation, takeAfterAnnotation, Frame.note_without, ih]
    split <;> rfl

theorem elements_without (trail : Trail IndentNote) :
    (trail.without p).elements = trail.elements.map (Followed.map (Tree.without p)) := by
  obtain - | ⟨⟨value, stopped, note⟩, rest⟩ := trail
  · rfl
  · cases value <;> rfl

theorem chainColumn_without (column : Int) (trail : Trail IndentNote) :
    chainColumn column (trail.without p) = chainColumn column trail := by
  induction trail generalizing column with
  | nil => rfl
  | cons frame rest ih =>
    obtain ⟨value, stopped, note⟩ := frame
    cases value with
    | tree t =>
      have hcolumn := column?_without (p := p) (⟨.tree t, stopped, note⟩ :: rest)
      simp only [without_cons, chainColumn, Frame.value_without, FrameValue.without,
        Tree.kind_without] at hcolumn ⊢
      rw [hcolumn, ih]
    | followed slot element => exact ih column
    | _ => rfl

theorem modify_without (distance : Nat) (f : IndentNote → IndentNote) (trail : Trail IndentNote) :
    (trail.without p).modify distance (fun frame => { frame with note := f frame.note }) =
      without p (trail.modify distance fun frame => { frame with note := f frame.note }) := by
  induction trail generalizing distance with
  | nil => cases distance <;> rfl
  | cons frame rest ih =>
    cases distance with
    | zero => rfl
    | succ n => exact congrArg (frame.without p :: ·) (ih n)

/-- The frames from the innermost one that stands for a node. -/
def fromNode (trail : Trail μ) : Trail μ := trail.dropWhile fun frame => frame.value.tree?.isNone

/-- The node that the innermost such frame stands for, if it is a labeled statement. -/
def label? (trail : Trail μ) : Option Tree :=
  (trail.fromNode.head?.bind fun frame => frame.value.tree?).filter fun t => t.kind == .labeled

theorem fromNode_without (trail : Trail μ) : fromNode (trail.without p) = without p trail.fromNode := by
  rw [fromNode, without, List.dropWhile_map]
  simp only [Function.comp_def, Frame.value_without, FrameValue.tree?_without, Option.isNone_map]
  rfl

theorem label?_without (trail : Trail μ) :
    label? (trail.without p) = trail.label?.map (Tree.without p) := by
  rw [label?, label?, fromNode_without]
  cases trail.fromNode with
  | nil => rfl
  | cons frame rest =>
    obtain ⟨value, stopped, note⟩ := frame
    cases value with
    | tree t =>
      by_cases ht : t.kind = .labeled
      · simp [FrameValue.without, FrameValue.tree?, Frame.without, Option.filter, ht]
      · simp [FrameValue.without, FrameValue.tree?, Frame.without, Option.filter, ht]
    | _ => rfl

theorem exists_of_label? {l : Tree} (hl : l ∈ trail.label?) (h : ∀ frame ∈ trail, ∀ t ∈ frame.value.tree?, t.Headed) :
    ∃ name body, l.shape = .labeled name body ∧ name.element.without p = name.element := by
  obtain ⟨hl, hkind⟩ := Option.filter_eq_some_iff.1 hl
  obtain ⟨frame, hframe, htree⟩ := Option.bind_eq_some_iff.1 hl
  obtain ⟨name, body, hshape⟩ := Tree.exists_labeled (beq_iff_eq.1 hkind)
  have hmem : frame ∈ trail := List.dropWhile_subset _ (List.mem_of_mem_head? hframe)
  exact ⟨name, body, hshape, Tree.without_of_children ((h frame hmem l htree).label name body hshape)⟩

theorem forInitColumn_eq {trail above : Trail IndentNote} {loop : Tree} {stopped : Bool}
    {note : IndentNote} (h : trail.dropWhile (fun frame => frame.value.kind? != some .forLoop) =
      ⟨.tree loop, stopped, note⟩ :: above) :
    trail.forInitColumn =
      match columnInParentheses
        (if above.label?.isSome then above.fromNode
          else ⟨.tree loop, stopped, note⟩ :: above : Trail IndentNote).column 0 false
        (forHeader above.label? loop).toText with
      | some column => .ok column
      | none => .error .missingForControl := by
  rw [forInitColumn, h]
  rfl

/-- The column of the first initializer of the nearest loop stays. -/
theorem forInitColumn_without {trail : Trail IndentNote}
    (h : ∀ frame ∈ trail, ∀ t ∈ frame.value.tree?, t.Headed) :
    (trail.without p).forInitColumn = trail.forInitColumn := by
  have hdrop : (trail.without p).dropWhile (fun frame => frame.value.kind? != some .forLoop) =
      without p (trail.dropWhile fun frame => frame.value.kind? != some .forLoop) := by
    rw [without, without, List.dropWhile_map]
    simp only [Function.comp_def, Frame.value_without, FrameValue.kind?_without]
  have hsub := List.dropWhile_subset (l := trail) fun frame => frame.value.kind? != some .forLoop
  have hhead := List.head?_dropWhile_not (fun frame => frame.value.kind? != some .forLoop) trail
  cases hloop : trail.dropWhile fun frame => frame.value.kind? != some .forLoop with
  | nil => rw [forInitColumn, forInitColumn, hdrop, hloop]; rfl
  | cons frame above =>
    rw [hloop] at hsub hhead hdrop
    obtain ⟨value, stopped, note⟩ := frame
    cases value with
    | tree loop =>
      have hkind : loop.kind = .forLoop := by
        simpa [FrameValue.kind?, FrameValue.tree?] using hhead
      have hlabel (l : Tree) (hl : l ∈ label? above) :=
        exists_of_label? (p := p) hl fun frame hf => h frame (hsub (List.mem_cons_of_mem _ hf))
      have hheader := Tree.columnInParentheses_without
        ((h _ (hsub List.mem_cons_self) loop rfl).loop hkind) hlabel
      have hcolumn := column_without (p := p) (⟨.tree loop, stopped, note⟩ :: above)
      have hdrop : (trail.without p).dropWhile (fun frame => frame.value.kind? != some .forLoop) =
        ⟨.tree (loop.without p), stopped, note⟩ :: without p above := hdrop
      rw [forInitColumn_eq hloop, forInitColumn_eq hdrop, label?_without, Option.isSome_map, hheader,
        apply_ite column, apply_ite column, fromNode_without, column_without]
      have hcolumn : Trail.column (⟨.tree (loop.without p), stopped, note⟩ :: without p above) =
        Trail.column (⟨.tree loop, stopped, note⟩ :: above) := hcolumn
      rw [hcolumn]
    | _ => rw [forInitColumn, forInitColumn, hdrop, hloop]; rfl

end Trail

theorem setsColumn_without (v : FrameValue) : (v.without p).setsColumn = v.setsColumn := by
  cases v <;> simp [FrameValue.without, FrameValue.setsColumn]

theorem opensOwnLine_without (slot : SpaceSlot) (s : Space) (frame : Frame IndentNote)
    (above : Trail IndentNote) :
    opensOwnLine slot s (frame.without p) (Trail.without p above) =
      opensOwnLine slot s frame above := by
  simp [opensOwnLine, Trail.without, List.findSome?_map, Function.comp_def]

theorem indentStepAt_without (slot : SpaceSlot) (s : Space) (aligned : Bool)
    (frame : Frame IndentNote) (above : Trail IndentNote) :
    indentStepAt slot s aligned (frame.without p) (Trail.without p above) =
      indentStepAt slot s aligned frame above := by
  have hhead : ((Trail.without p above).head?.bind fun f => f.note.lastSlot) =
      above.head?.bind fun f => f.note.lastSlot := by
    cases above <;> rfl
  rw [indentStepAt, indentStepAt, opensOwnLine_without, hhead, Trail.indentStep_without]

end Trail

/-! ### Nodes -/

section Nodes

variable {p : NodeId → Bool}

theorem Tree.rel_without {t : Tree} (ht : t.kind ≠ .block) :
    Shape.Rel (fun a b => a.without p = b) (fun _ => Eq) t.shape (t.without p).shape := by
  rw [shape_without, Shape.without_of_kind ht]
  exact Shape.rel_map fun _ _ => rfl

theorem Tree.isInlineLambda_without (t : Tree) :
    (t.without p).isInlineLambda = t.isInlineLambda := by
  by_cases ht : t.kind = .block
  · obtain ⟨afterStatic, xs, beforeClose, hx⟩ := exists_block ht
    rw [isInlineLambda, isInlineLambda, hx, shape_without_block hx]
  · have hrel := rel_without (p := p) ht
    rw [isInlineLambda, isInlineLambda]
    generalize t.shape = x, (t.without p).shape = y at hrel
    cases hrel with
    | lambda _ _ _ _ hbody =>
      dsimp only
      rw [← hbody, kind_without, leading_without]
    | _ => rfl

theorem Tree.continuesCall_without (t : Tree) :
    (t.without p).continuesCall = t.continuesCall := by
  by_cases ht : t.kind = .block
  · obtain ⟨afterStatic, xs, beforeClose, hx⟩ := exists_block ht
    rw [continuesCall, continuesCall, hx, shape_without_block hx]
  · have hrel := rel_without (p := p) ht
    rw [continuesCall, continuesCall]
    generalize t.shape = x, (t.without p).shape = y at hrel
    cases hrel with
    | @methodInvocation i j receiver =>
      dsimp only
      rw [leading_without]
      generalize i.receiver = r, j.receiver = r' at receiver
      cases receiver with
      | none => rfl
      | some hreceiver =>
        simp only [Option.any_some]
        rw [← hreceiver.element, kind_without]
    | _ => rfl

/-- The frame stands for the header of a loop whose first initializer starts a line. -/
def FrameValue.initStartsLine (v : FrameValue) : Bool :=
  match v.tree?.map Tree.shape with
  | some (.forControl init _ _) => init.head?.any fun i => i.element.leading.hasNewline
  | _ => false

theorem FrameValue.initStartsLine_without (v : FrameValue) :
    (v.without p).initStartsLine = v.initStartsLine := by
  rw [initStartsLine, initStartsLine, tree?_without]
  cases v.tree? with
  | none => rfl
  | some t =>
    simp only [Option.map_some]
    by_cases ht : t.kind = .block
    · obtain ⟨afterStatic, xs, beforeClose, hx⟩ := Tree.exists_block ht
      rw [hx, Tree.shape_without_block hx]
    · have hrel := Tree.rel_without (p := p) ht
      generalize t.shape = x, (t.without p).shape = y at hrel
      cases hrel with
      | forControl hinit =>
        dsimp only
        cases hinit with
        | nil => rfl
        | cons hfirst _ =>
          simp only [List.head?_cons, Option.any_some]
          rw [← hfirst.element, Tree.leading_without]
      | _ => rfl

end Nodes

end JavaSource
