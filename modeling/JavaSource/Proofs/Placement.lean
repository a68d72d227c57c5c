import JavaSource.Proofs.BlockIndents
import JavaSource.Proofs.Formatting
import JavaSource.Proofs.Frames

/-!
# Where lines start

`IndentStyle.lineColumn` is the column of the line that the innermost of some frames is on.  The
indenter puts each statement one step to the right of the line of its block (`aligned_of_parseFrom`).
Since these columns can be read off the frames above a node, it leaves each node of an indented tree
as it is, also where it is run on that node alone (`indents_below_of_parseFrom`).
-/

namespace JavaSource

/-! ### The columns of lines -/

/-- The column of the line that the innermost frame is on: the one that the nearest node starts at
that starts a line, or the first.  A tab counts as `IndentStyle.tabColumns`. -/
def IndentStyle.lineColumn (style : IndentStyle) : List FrameValue → Nat
  | [] => 0
  | .tree t :: above =>
    if t.leading.hasNewline then style.columnAfter t.leading else style.lineColumn above
  | _ :: above => style.lineColumn above

theorem IndentStyle.lineColumn_append (style : IndentStyle) {way : List FrameValue}
    (h : ∀ v ∈ way, v.tree? = none) (above : List FrameValue) :
    style.lineColumn (way ++ above) = style.lineColumn above := by
  induction way with
  | nil => rfl
  | cons v way ih =>
    rw [List.forall_mem_cons] at h
    cases v with
    | tree t => cases h.1
    | _ => exact ih h.2

/-- Where lines start in the layer of a node that is on a line of this column: statements of a block
or a case are one step to the right, and what closes a block or goes on with a statement is at the
column itself. -/
def Shape.Aligned (style : IndentStyle) (column : Nat) : Shape Tree → Prop
  | block _ statements beforeClose =>
    (∀ x ∈ statements, x.element.leading.hasNewline →
      style.columnAfter x.element.leading = column + style.indentSize) ∧
    (beforeClose.hasNewline → style.columnAfter beforeClose = column)
  | caseClause _ statements =>
    ∀ x ∈ statements.elements, x.element.leading.hasNewline →
      style.columnAfter x.element.leading = column + style.indentSize
  | ifStatement _ _ alternative =>
    ∀ e ∈ alternative, e.leading.hasNewline → style.columnAfter e.leading = column
  | tryStatement _ catches finallyBlock =>
    (∀ c ∈ catches, c.leading.hasNewline → style.columnAfter c.leading = column) ∧
    ∀ f ∈ finallyBlock, f.before.hasNewline → style.columnAfter f.before = column
  | _ => True

theorem SpaceSlot.closes_leading (k : NodeKind) :
    SpaceSlot.closes (.leading k) = k.clauseOf?.isSome := by
  cases k <;> rfl

/-- Only two kinds of statement have clauses. -/
theorem NodeKind.NestsIn.clauseOf?_eq_none {k holder : NodeKind} (h : k.NestsIn holder)
    (hif : holder ≠ .ifStatement) (htry : holder ≠ .tryStatement) : k.clauseOf? = none := by
  cases hk : k.clauseOf? with
  | none => rfl
  | some s =>
    obtain rfl := h.clause s hk
    cases k <;> simp_all [clauseOf?]

section Aligned

variable {style : IndentStyle} {column : Nat} {x : Shape Tree}

theorem Shape.aligned_of_isInline (h : x.kind.isInline) : x.Aligned style column := by
  cases x <;> trivial

/-- The layer after its lines are moved to the columns of their places. -/
abbrev Shape.placed (style : IndentStyle) (column : Nat) (x : Shape Tree) : Shape Tree :=
  x.respaced (style.moveToken column) (Tree.aligned style column (.ofKind x.kind))

section Parts

variable {step : IndentStep} {c : Tree} (hc : c.kind ≠ .compilationUnit)
  (hcomments : c.leading.comments = []) (h : (c.aligned style column step).leading.hasNewline)

include hc hcomments h

theorem columnAfter_statement (hclause : c.kind.clauseOf? = none) :
    style.columnAfter (c.aligned style column step).leading = column + style.columns step := by
  rw [Tree.hasNewline_aligned hc] at h
  rw [Tree.columnAfter_aligned hc hcomments h, IndentStyle.startColumn, if_pos h,
    SpaceSlot.closes_leading, hclause]
  rfl

theorem columnAfter_clause (hclause : c.leading.hasNewline → c.kind.clauseOf?.isSome) :
    style.columnAfter (c.aligned style column step).leading = column := by
  rw [Tree.hasNewline_aligned hc] at h
  rw [Tree.columnAfter_aligned hc hcomments h, IndentStyle.startColumn, if_pos h,
    SpaceSlot.closes_leading, if_pos (hclause h)]
  rfl

end Parts

theorem columnAfter_space (hx : x.BlockStructured) {l : SpaceSlot} {s : Space}
    (hs : (l, s) ∈ x.spaces) (hl : l ≠ .leading .compilationUnit) (h : (style.moveToken column l s).hasNewline) :
    style.columnAfter (style.moveToken column l s) = column := by
  rw [style.hasNewline_moveToken hl] at h
  exact style.columnAfter_moveToken hl column (hx.spaces _ hs).1 h

/-- Moved lines start where they should. -/
theorem Shape.aligned_placed (hx : x.BlockStructured) (hn : x.Nested)
    (hparts : ∀ c ∈ x.children, c.leading.comments = []) :
    (x.placed style column).Aligned style column := by
  cases x
  case block afterStatic statements beforeClose =>
    have hclose :
        .space .blockEnd beforeClose ∈ (block afterStatic statements beforeClose).slots := by
      simp [slots]
    rw [placed, respaced_block]
    refine ⟨List.forall_mem_map.2 fun x hx h => ?_, columnAfter_space hx ?_ (by rintro ⟨⟩)⟩
    · have hc : x.element ∈ (block afterStatic statements beforeClose).children :=
        List.mem_map_of_mem hx
      exact columnAfter_statement (hn _ hc).file (hparts _ hc) h
        ((hn _ hc).clauseOf?_eq_none (by rintro ⟨⟩) (by rintro ⟨⟩))
    · exact mem_spaces_of_slot hclose List.mem_cons_self
  case caseClause value statements =>
    rw [placed, respaced_caseClause]
    refine List.forall_mem_map.2 fun x hx h => ?_
    have hc : x.element ∈ (caseClause value statements).children :=
      List.mem_append_right _ (List.mem_map_of_mem hx)
    exact columnAfter_statement (hn _ hc).file (hparts _ hc) h
      ((hn _ hc).clauseOf?_eq_none (by rintro ⟨⟩) (by rintro ⟨⟩))
  case ifStatement condition thenPart alternative =>
    rw [placed, respaced_ifStatement]
    intro e he h
    obtain ⟨c, rfl, rfl⟩ := Option.map_eq_some_iff.1 he
    have hc : c ∈ (ifStatement condition thenPart (some c)).children := by simp [children]
    refine columnAfter_clause (hn _ hc).file (hparts _ hc) h fun h => ?_
    -- no other part of a choice may start a line
    have hk : c.kind.mayStartIn .ifStatement := hx.mayStartIn hc h
    rw [eq_of_beq hk]
    rfl
  case tryStatement body catches finallyBlock =>
    rw [placed, respaced_tryStatement]
    refine ⟨List.forall_mem_map.2 fun c hc h => ?_, fun f hf h => ?_⟩
    · have hc : c ∈ (tryStatement body catches finallyBlock).children := by simp [children, hc]
      refine columnAfter_clause (hn _ hc).file (hparts _ hc) h fun h => ?_
      have hk : c.kind.mayStartIn .tryStatement := hx.mayStartIn hc h
      rw [eq_of_beq hk]
      rfl
    · obtain ⟨f, rfl, rfl⟩ := Option.map_eq_some_iff.1 hf
      have hfinally : .preceded .finallyBlock f ∈ (tryStatement body catches (some f)).slots := by
        simp [slots]
      exact columnAfter_space hx (mem_spaces_of_slot hfinally List.mem_cons_self)
        (by rintro ⟨⟩) h
  case unary before operator operand =>
    rw [placed, respaced, traverse]
    split <;> trivial
  all_goals trivial

end Aligned

/-! ### The nodes of a tree whose lines are moved -/

/-- The second tree is the first with its lines moved, below frames that are on the line of this
column unless that is of no account. -/
structure Placed (style : IndentStyle) (above : List FrameValue) (column : Nat) (step : IndentStep)
    (t u : Tree) : Prop where
  structured : t.BlockStructured
  nested : t.Nested
  aligned : t.aligned style column step = u
  file : t.kind = .compilationUnit → column = 0 ∧ step = .align
  column : t.Flat ∨ style.lineColumn above = column

namespace Placed

variable {style : IndentStyle} {above way : List FrameValue} {column : Nat} {step : IndentStep}
  {t u c n : Tree}

theorem lineColumn (h : Placed style above column step t u) (ht : ¬ t.Flat) :
    style.lineColumn (.tree u :: above) = style.startColumn column step t := by
  obtain rfl := h.aligned
  have hcolumn := h.column.resolve_left ht
  rw [IndentStyle.lineColumn, hcolumn]
  by_cases hfile : t.kind = .compilationUnit
  · obtain ⟨rfl, rfl⟩ := h.file hfile
    have hstart : style.startColumn 0 .align t = 0 := by
      rw [IndentStyle.startColumn, ite_self]
      split <;> rfl
    rw [Tree.leading_aligned, hstart, hfile, style.hasNewline_moveToken_file
      (Tree.blockStructured_iff.1 h.structured).1.1]
    rfl
  · rw [Tree.hasNewline_aligned hfile]
    split
    · exact Tree.columnAfter_aligned hfile (Tree.blockStructured_iff.1 h.structured).1.1 ‹_›
    · rw [IndentStyle.startColumn, if_neg ‹_›]

/-- The parts of a node whose lines are moved are parts with their lines moved. -/
theorem part (h : Placed style above column step t u) (hc : c ∈ t.children)
    (hway : ∀ v ∈ way, v.tree? = none) :
    Placed style (way ++ .tree u :: above) (style.innerColumn column step t) (.ofKind t.kind) c
      (c.aligned style (style.innerColumn column step t) (.ofKind t.kind)) where
  structured := (Tree.blockStructured_iff.1 h.structured).2 c hc
  nested := (Tree.nested_iff.1 h.nested).2 c hc
  aligned := rfl
  file hfile := absurd hfile ((Tree.nested_iff.1 h.nested).1 c hc).file
  column := by
    by_cases ht : t.Flat
    · exact .inl ((Tree.flat_iff.1 ht).2 c hc)
    by_cases hk : t.kind = .enumValueSet
    · exact .inl (Tree.flat_of_isInline h.structured h.nested (by rw [hk]; rfl) c hc)
    · rw [IndentStyle.lineColumn_append _ hway, h.lineColumn ht, IndentStyle.innerColumn, if_neg hk]
      exact .inr rfl

theorem of_reaches (h : Placed style [.root] column step t u) (hn : u.Reaches above n) :
    ∃ column step m, Placed style above column step m n := by
  induction hn with
  | root => exact ⟨column, step, t, h⟩
  | part hn hp hc ih =>
    obtain ⟨column, step, m, hm⟩ := ih
    have hpart := Slot.mem_children_of_mem_ways hp hc
    obtain ⟨c, hc', rfl⟩ : ∃ c ∈ m.children,
        c.aligned style (style.innerColumn column step m) (.ofKind m.kind) = _ := by
      rw [← List.mem_map, ← Tree.children_aligned, hm.aligned]
      exact hpart
    exact ⟨_, _, c, hm.part hc' (Slot.tree?_of_mem_ways hc)⟩

/-- Lines start where they should in the layer of a node whose lines are moved. -/
theorem aligned_shape (h : Placed style above column step t u) :
    u.shape.Aligned style (style.lineColumn (.tree u :: above)) := by
  obtain ⟨hstructured, hparts⟩ := Tree.blockStructured_iff.1 h.structured
  obtain ⟨hnests, -⟩ := Tree.nested_iff.1 h.nested
  have hinline (hk : t.kind.isInline) :
      u.shape.Aligned style (style.lineColumn (.tree u :: above)) := by
    refine Shape.aligned_of_isInline ?_
    rw [← h.aligned]
    exact (congrArg NodeKind.isInline Tree.kind_aligned).trans hk
  by_cases ht : t.Flat
  · exact hinline (Tree.flat_iff.1 ht).1.1
  -- a list of enum values keeps the column from above, but no lines start directly in it
  by_cases hk : t.kind = .enumValueSet
  · exact hinline (by rw [hk]; rfl)
  rw [h.lineColumn ht, ← h.aligned, Tree.shape_aligned, IndentStyle.innerColumn, if_neg hk]
  exact Shape.aligned_placed hstructured.2 hnests fun c hc =>
    (Tree.blockStructured_iff.1 (hparts c hc)).1.1

end Placed

/-! ### Frames with the columns of their lines -/

namespace Trail

variable {trail : Trail IndentNote}

theorem column_noteStep (trail : Trail IndentNote) : trail.noteStep.column = trail.column := by
  fun_induction noteStep trail with
  | case1 => rfl
  | case2 frame rest => rw [column_cons, column_cons]
  | case3 frame rest _ ih => rw [column_cons, column_cons, ih]

theorem indentStep_noteStep (h : ∀ frame ∈ trail, frame.note.step = none) :
    trail.noteStep.indentStep =
      ((trail.values.findSome? FrameValue.kind?).map IndentStep.ofKind).getD .align := by
  fun_induction noteStep trail with
  | case1 => rfl
  | case2 frame rest kind hkind =>
    rw [indentStep_cons, values, List.map_cons, List.findSome?_cons, hkind]
    rfl
  | case3 frame rest hkind ih =>
    rw [List.forall_mem_cons] at h
    rw [indentStep_cons, h.1, values, List.map_cons, List.findSome?_cons, hkind]
    exact ih h.2

theorem mem_noteStep {frame : Frame IndentNote} (h : frame ∈ trail.noteStep) :
    ∃ frame' ∈ trail, frame.value = frame'.value ∧ frame.stopped = frame'.stopped ∧
      frame.note.lastSlot = frame'.note.lastSlot ∧
      frame.note.afterAnnotation = frame'.note.afterAnnotation := by
  fun_induction noteStep trail with
  | case1 => cases h
  | case2 first rest =>
    rcases List.mem_cons.1 h with rfl | h
    · exact ⟨first, List.mem_cons_self, rfl, rfl, rfl, rfl⟩
    · exact ⟨frame, List.mem_cons_of_mem _ h, rfl, rfl, rfl, rfl⟩
  | case3 first rest _ ih =>
    rcases List.mem_cons.1 h with rfl | h
    · exact ⟨frame, List.mem_cons_self, rfl, rfl, rfl, rfl⟩
    · obtain ⟨frame', hmem, heq⟩ := ih h
      exact ⟨frame', List.mem_cons_of_mem _ hmem, heq⟩

end Trail

namespace IndentStyle

variable (style : IndentStyle) {above : List FrameValue}

theorem mem_seeds {frame : Frame IndentNote} (h : frame ∈ style.seeds above) :
    frame.value ∈ above ∧ frame.stopped = false ∧ frame.note.lastSlot = none ∧
      frame.note.afterAnnotation = false := by
  obtain ⟨frame', hmem, hvalue, hstopped, hslot, hmark⟩ := Trail.mem_noteStep h
  obtain ⟨v, hv, rfl⟩ := List.mem_map.1 hmem
  exact ⟨hvalue ▸ hv, hstopped, hslot, hmark⟩

theorem clear_seeds (hne : above ≠ []) (h : ∀ v ∈ above, v.kind? ≠ some .annotationUse) :
    (style.seeds above).Clear where
  ne_nil heq := by
    have hvalues := style.values_seeds above
    rw [heq] at hvalues
    exact hne hvalues.symm
  stopped := List.any_eq_false.2 fun frame hframe => by simp [(style.mem_seeds hframe).2.1]
  marks := List.countP_eq_zero.2 fun frame hframe => by simp [(style.mem_seeds hframe).2.2.2]
  annotation := List.any_eq_false.2 fun frame hframe => by
    simpa using h _ (style.mem_seeds hframe).1

theorem lastSlot_seeds : (style.seeds above).lastSlot = none := by
  rw [Trail.lastSlot]
  cases h : style.seeds above with
  | nil => rfl
  | cons frame rest => exact (style.mem_seeds (h ▸ List.mem_cons_self)).2.2.1

theorem indentStep_seeds : (style.seeds above).indentStep =
    ((above.findSome? FrameValue.kind?).map IndentStep.ofKind).getD .align := by
  have hvalues : Trail.values (above.map style.seed) = above := by
    rw [Trail.values, List.map_map]
    exact List.map_id above
  rw [seeds, Trail.indentStep_noteStep, hvalues]
  intro frame hframe
  obtain ⟨v, -, rfl⟩ := List.mem_map.1 hframe
  rfl

theorem column_seeds_cons (v : FrameValue) (above : List FrameValue) :
    (style.seeds (v :: above)).column =
      ((style.seed v).note.column).getD (style.seeds above).column := by
  rw [seeds, Trail.column_noteStep, seeds, Trail.column_noteStep, List.map_cons, Trail.column_cons]

/-- Frames from which a node that starts a line is indented by the step. -/
theorem indents_seeds {step : IndentStep} {k : NodeKind}
    (hstep : ((above.findSome? FrameValue.kind?).map IndentStep.ofKind).getD .align = step)
    (hblock : k = .block → above.findSome? FrameValue.kind? = some .block ∨ step = .align) :
    (style.seeds above).Indents step k := by
  refine .inr ⟨style.indentStep_seeds.trans hstep, by rw [lastSlot_seeds]; nofun, fun hk => ?_⟩
  have hkind : (style.seeds above).findSome? (fun f => f.value.kind?) =
      above.findSome? FrameValue.kind? := by
    conv => rhs; rw [← style.values_seeds above, Trail.values, List.findSome?_map]
    rfl
  rw [hkind]
  exact hblock hk

end IndentStyle

/-- An indented tree, where the indenter leaves the trail through the frames above as it was. -/
theorem Pass.run_indents_of_restores {styles : Styles} {above : List FrameValue} {t u : Tree}
    (h : IndentWalk.Restores (styles.indents.seeds above) ((indenter styles.indents none).visit t)
      u) :
    Pass.indents.run styles none above t = .ok u := by
  rw [Pass.run, runIndents, Visitor.runAt, h]
  rfl

/-! ### Indenting a whole tree -/

theorem IndentStyle.restores_root (style : IndentStyle) {t : Tree} (ht : t.BlockStructured)
    (hn : t.Nested) : IndentWalk.Restores (style.seeds [.root]) ((indenter style none).visit t)
      (t.aligned style 0 .align) := by
  have hclear : (style.seeds [.root]).Clear :=
    style.clear_seeds (List.cons_ne_nil _ _) (by simp [FrameValue.kind?, FrameValue.tree?])
  exact restores_visit ht hn hclear rfl (fun _ => style.indents_seeds rfl fun _ => .inr rfl)
    fun _ => ⟨rfl, by rintro ⟨⟩⟩

/-- **Indentation columns.**  In a block-structured tree that has been indented, each statement of a
block or a case that starts a line is one step to the right of the line of the block or the case, and
what closes a block or goes on with a statement is on the column of its line. -/
theorem aligned_of_parseFrom {kind : SourceKind} {source : Text} {firstId nextId : NodeId} {t : Tree}
    (h : parseFrom kind source firstId = .ok (t, nextId)) (ht : t.BlockStructured) (styles : Styles) :
    ∃ u, Pass.indents.run styles none [.root] t = .ok u ∧
      ∀ n ∈ u.preorder, (∃ above, u.Reaches above n) ∧ ∀ above, u.Reaches above n →
        n.shape.Aligned styles.indents (styles.indents.lineColumn (.tree n :: above)) := by
  have hn := nested_of_parseFrom h
  refine ⟨_, Pass.run_indents_of_restores (styles.indents.restores_root ht hn), ?_⟩
  intro n hmem
  refine ⟨Tree.exists_reaches hmem, ?_⟩
  intro above hreaches
  have hroot : Placed styles.indents [.root] 0 .align t _ :=
    ⟨ht, hn, rfl, fun _ => ⟨rfl, rfl⟩, .inr rfl⟩
  obtain ⟨column, step, m, hm⟩ := hroot.of_reaches hreaches
  exact hm.aligned_shape

/-- A condition and a choice in a method, indented with tabs. -/
theorem aligned_of_parseFrom_nested :
    ∃ t n u, parseFrom .unit ("class A \x7b\nvoid f() \x7b\nif (a) \x7b\n b();\n\x7d\nelse c();\n" ++
        "switch (d) \x7b\ncase 1:\ne();\n\x7d\n\x7d\n\x7d").toList 0 = .ok (t, n) ∧
      t.BlockStructured ∧
      Pass.indents.run { indents := { useTabs := true, indentSize := 6 } } none [.root] t = .ok u ∧
      ∀ n ∈ u.preorder, (∃ above, u.Reaches above n) ∧ ∀ above, u.Reaches above n →
        n.shape.Aligned { useTabs := true, indentSize := 6 }
          (IndentStyle.lineColumn { useTabs := true, indentSize := 6 } (.tree n :: above)) := by
  obtain ⟨t, n, h, ht⟩ : ∃ t n, parseFrom .unit
      ("class A \x7b\nvoid f() \x7b\nif (a) \x7b\n b();\n\x7d\nelse c();\n" ++
        "switch (d) \x7b\ncase 1:\ne();\n\x7d\n\x7d\n\x7d").toList 0 = .ok (t, n) ∧
      decide t.BlockStructured := exists_parseFrom (by decide +kernel)
  have ht := of_decide_eq_true ht
  obtain ⟨u, hu, hlines⟩ :=
    aligned_of_parseFrom h ht { indents := { useTabs := true, indentSize := 6 } }
  exact ⟨t, n, u, h, ht, hu, hlines⟩

/-! ### Indenting in place -/

/-- A node whose lines are where they should be, below frames from which this can be told. -/
structure Settled (style : IndentStyle) (above : List FrameValue) (column : Nat) (step : IndentStep)
    (t : Tree) : Prop extends Placed style above column step t t where
  frames_ne_nil : above ≠ []
  frames : ∀ v ∈ above, v.kind? ≠ some .annotationUse
  seeds : (style.seeds above).column = style.lineColumn above
  indents : t.leading.hasNewline → (style.seeds above).Indents step t.kind
  root : t.kind = .compilationUnit → (style.seeds above).indentStep = .align

namespace Settled

variable {style : IndentStyle} {above way : List FrameValue} {column : Nat} {step : IndentStep}
  {t c n : Tree}

/-- The nearest line that starts to the right of the first column is the nearest line, unless all
lines around start at the first column. -/
theorem column_seeds (h : Settled style above column step t) :
    (style.seeds (.tree t :: above)).column = style.lineColumn (.tree t :: above) := by
  rw [style.column_seeds_cons, h.seeds]
  have hseed : (style.seed (.tree t)).note.column =
      if t.leading.hasNewline && style.columnAfter t.leading != 0
      then some (style.columnAfter t.leading : Int) else none := rfl
  rw [hseed]
  cases hnewline : t.leading.hasNewline with
  | false =>
    rw [IndentStyle.lineColumn, hnewline]
    rfl
  | true =>
    have hflat : ¬ t.Flat := fun hflat => by
      rw [(Tree.flat_iff.1 hflat).1.2] at hnewline
      cases hnewline
    have hstart := h.toPlaced.lineColumn hflat
    have habove := h.toPlaced.column.resolve_left hflat
    have hle : column ≤ style.startColumn column step t := by
      rw [IndentStyle.startColumn, if_pos hnewline]
      exact Nat.le_add_right _ _
    have hline : style.lineColumn (.tree t :: above) = style.columnAfter t.leading := by
      rw [IndentStyle.lineColumn, if_pos hnewline]
    -- a line at the first column leaves no column on its frame: the one above has the same then
    by_cases hzero : style.columnAfter t.leading = 0
    · rw [hline, hzero, habove]
      have : column = 0 := by omega
      simp [this]
    · rw [hline, if_pos (by simp [hzero])]
      rfl

/-- The frames between a node and its part have no lines of their own. -/
theorem column_seeds_way (h : Settled style above column step t) {p : Slot Tree}
    (hp : p ∈ t.shape.slots) (hc : (way, c) ∈ p.ways) :
    (style.seeds (way ++ .tree t :: above)).column = (style.seeds (.tree t :: above)).column := by
  have hshape := (Tree.blockStructured_iff.1 h.structured).1.2
  cases p with
  | part => simp_all [Slot.ways]
  | followed l x =>
    obtain ⟨rfl, -⟩ := Prod.mk.inj (List.mem_singleton.1 hc)
    exact style.column_seeds_cons _ _
  | preceded l x =>
    obtain ⟨rfl, -⟩ := Prod.mk.inj (List.mem_singleton.1 hc)
    exact style.column_seeds_cons _ _
  | series l s =>
    obtain ⟨x, -, heq⟩ := List.mem_map.1 hc
    obtain ⟨rfl, -⟩ := Prod.mk.inj heq
    have hbefore : (style.seed (.series l s)).note.column = none := by
      have hs : s.before.hasNewline = false := hshape.inline hp List.mem_cons_self rfl
      simp [IndentStyle.seed, FrameValue.leading?, hs]
    refine (style.column_seeds_cons _ _).trans ((style.column_seeds_cons _ _).trans ?_)
    rw [hbefore]
    rfl
  | space | word => cases hc

/-- The lines of the parts of a node are where they should be. -/
theorem part (h : Settled style above column step t) {p : Slot Tree} (hp : p ∈ t.shape.slots)
    (hc : (way, c) ∈ p.ways) : Settled style (way ++ .tree t :: above)
      (style.innerColumn column step t) (.ofKind t.kind) c := by
  have hmem := Slot.mem_children_of_mem_ways hp hc
  have hway := Slot.tree?_of_mem_ways hc
  have hshape := (Tree.blockStructured_iff.1 h.structured).1.2
  have haligned : c.aligned style (style.innerColumn column step t) (.ofKind t.kind) = c := by
    have hmap :
        t.children.map (Tree.aligned style (style.innerColumn column step t) (.ofKind t.kind)) =
          t.children.map id := by
      rw [← Tree.children_aligned, h.aligned, List.map_id]
    exact List.map_inj_left.1 hmap c hmem
  have hplaced := h.toPlaced.part hmem hway
  rw [haligned] at hplaced
  have hkind : (way ++ .tree t :: above).findSome? FrameValue.kind? = some t.kind := by
    rw [List.findSome?_append, List.findSome?_eq_none_iff.2 fun v hv => by
      rw [FrameValue.kind?, hway v hv]; rfl]
    rfl
  exact {
    toPlaced := hplaced
    frames_ne_nil := by simp
    frames := by
      refine List.forall_mem_append.2 ⟨fun v hv => ?_, List.forall_mem_cons.2 ⟨?_, h.frames⟩⟩
      · rw [FrameValue.kind?, hway v hv]
        rintro ⟨⟩
      · intro heq
        exact hshape.kind (Option.some.inj heq)
    seeds := by
      rw [h.column_seeds_way hp hc, h.column_seeds, style.lineColumn_append hway]
    indents := fun hnewline => by
      have hmay := hshape.mayStartIn hmem hnewline
      refine style.indents_seeds (by rw [hkind]; rfl) fun hblock => ?_
      rw [hblock] at hmay
      rcases NodeKind.mayStartIn_block hmay with hk | hk
      · exact .inl (hkind.trans (congrArg some hk))
      · exact .inr (congrArg IndentStep.ofKind hk)
    root := fun hfile => absurd hfile ((Tree.nested_iff.1 h.nested).1 c hmem).file }

theorem of_reaches (h : Settled style [.root] column step t) (hn : t.Reaches above n) :
    ∃ column step, Settled style above column step n := by
  induction hn with
  | root => exact ⟨column, step, h⟩
  | part hn hp hc ih =>
    obtain ⟨column, step, hm⟩ := ih
    exact ⟨_, _, hm.part hp hc⟩

/-- A node whose lines are where they should be stays as it is. -/
theorem restores (h : Settled style above column step t) :
    IndentWalk.Restores (style.seeds above) ((indenter style none).visit t) t := by
  have hfile (hk : t.kind = .compilationUnit) : (style.seeds above).indentStep = .align ∧
      (style.seeds above).lastSlot ≠ some (.before .superclass) :=
    ⟨h.root hk, by rw [style.lastSlot_seeds]; nofun⟩
  have hvisit : IndentWalk.Restores (style.seeds above) ((indenter style none).visit t)
      (t.aligned style (style.lineColumn above) step) :=
    restores_visit h.structured h.nested (style.clear_seeds h.frames_ne_nil h.frames) h.seeds
      h.indents hfile
  have haligned : t.aligned style (style.lineColumn above) step = t := by
    rcases h.column with hflat | hcolumn
    · exact Tree.aligned_of_flat h.structured hflat
    · exact hcolumn ▸ h.aligned
  rwa [haligned] at hvisit

end Settled

/-- **Indenting in place agrees with indenting the whole tree.**  Where indenting a block-structured
tree changes nothing, indenting one of its nodes alone, below the frames above it, changes nothing
either.  So it is where the frames are those that a visit finds there. -/
theorem indents_below_of_parseFrom {kind : SourceKind} {source : Text} {firstId nextId : NodeId}
    {t : Tree} (h : parseFrom kind source firstId = .ok (t, nextId)) (ht : t.BlockStructured)
    {styles : Styles} (hfixed : Pass.indents.run styles none [.root] t = .ok t) :
    (∀ n ∈ t.preorder, (∃ above, t.Reaches above n) ∧
        ∀ above, t.Reaches above n → Pass.indents.run styles none above n = .ok n) ∧
      ∀ id above, t.framesAbove? id = some above →
        ∃ n ∈ t.preorder, n.id = id ∧ Pass.indents.run styles none above n = .ok n := by
  have hnested := nested_of_parseFrom h
  have haligned := Pass.run_indents_of_restores (styles.indents.restores_root ht hnested)
  -- the lines of the whole tree are where they should be
  have hroot : Settled styles.indents [.root] 0 .align t :=
    { structured := ht
      nested := hnested
      aligned := Except.ok.inj (haligned.symm.trans hfixed)
      file := fun _ => ⟨rfl, rfl⟩
      column := .inr rfl
      frames_ne_nil := List.cons_ne_nil _ _
      frames := by simp [FrameValue.kind?, FrameValue.tree?]
      seeds := rfl
      indents := fun _ => styles.indents.indents_seeds rfl fun _ => .inr rfl
      root := fun _ => rfl }
  -- so are those of each node below, and from the frames above it this can be told
  have hbelow {above : List FrameValue} {n : Tree} (hn : t.Reaches above n) :
      Pass.indents.run styles none above n = .ok n := by
    obtain ⟨column, step, hsettled⟩ := hroot.of_reaches hn
    exact Pass.run_indents_of_restores hsettled.restores
  refine ⟨fun n hn => ⟨Tree.exists_reaches hn, fun above => hbelow⟩, ?_⟩
  intro id above hfound
  obtain ⟨n, hid, hn⟩ := Tree.exists_reaches_of_framesAbove? hfound
  exact ⟨n, hn.mem_preorder, hid, hbelow hn⟩

/-- The nodes of an indented file with a block in a block. -/
theorem indents_below_of_parseFrom_nested :
    ∃ t k, parseFrom .unit
        ("class A \x7b\n    void f() \x7b\n        a: \x7b\n            b();\n" ++
          "        \x7d\n    \x7d\n\x7d").toList 0 = .ok (t, k) ∧
      t.BlockStructured ∧ Pass.indents.run {} none [.root] t = .ok t ∧
      (∀ n ∈ t.preorder, (∃ above, t.Reaches above n) ∧
        ∀ above, t.Reaches above n → Pass.indents.run {} none above n = .ok n) ∧
      ∀ id above, t.framesAbove? id = some above →
        ∃ n ∈ t.preorder, n.id = id ∧ Pass.indents.run {} none above n = .ok n := by
  obtain ⟨t, k, h, hb⟩ : ∃ t k, parseFrom .unit
      ("class A \x7b\n    void f() \x7b\n        a: \x7b\n            b();\n" ++
        "        \x7d\n    \x7d\n\x7d").toList 0 = .ok (t, k) ∧
      (decide t.BlockStructured && t.settledWithin {} t.height 0 .align) :=
    exists_parseFrom (by decide +kernel)
  simp only [Bool.and_eq_true, decide_eq_true_eq] at hb
  have hfixed : Pass.indents.run {} none [.root] t = .ok t := by
    have hrun : Pass.indents.run {} none [.root] t = .ok (t.aligned {} 0 .align) :=
      Pass.run_indents_of_restores (IndentStyle.restores_root _ hb.1 (nested_of_parseFrom h))
    rwa [Tree.aligned, Tree.alignWithin_of_settledWithin hb.2] at hrun
  exact ⟨t, k, h, hb.1, hfixed, indents_below_of_parseFrom h hb.1 hfixed⟩

end JavaSource
