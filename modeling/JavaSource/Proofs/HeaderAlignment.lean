import JavaSource.Proofs.HeaderColumns
import JavaSource.Proofs.Placement
import JavaSource.Proofs.SoundTrails
import JavaSource.Proofs.TargetedFormatting

/-!
# The headers of `for` loops

The condition and the updates of a `for` loop that start a line are put under the first initializer
(`headers_align_of_parseFrom`).  While the header is visited its frame carries the column of the
loop, or for the time of one part that of the first initializer without the continuation that the
part adds to it (`IndentWalk.KeepsHeader`).

That column may be negative, and the token at it is then printed in the first column.  A loop in the
condition or an update of another one may start from such a column, and its header is not aligned
(`not_headers_align`).  It is where the loop is to the right of the first column, and where it is in
no such part.
-/

namespace JavaSource

open Trail Tree

/-! ### Below the frame of a header -/

section Header

variable {style : IndentStyle} {control : Tree} {frame : Frame IndentNote}
  {outer trail : Trail IndentNote} {column initColumn : Int} {n : Nat} {l : FollowedSlot}
  {e u : Tree} {w : Traversal IndentNote Unit}

/-- The frame of the header while its parts are visited from this column. -/
structure Frame.IsHeader (control : Tree) (outer : Trail IndentNote) (column : Int)
    (frame : Frame IndentNote) : Prop where
  value : frame.value = .tree control
  stopped : frame.stopped = false
  mark : frame.note.afterAnnotation = false
  step : frame.note.step = some .continuation
  column : Trail.column (frame :: outer) = column

theorem Frame.IsHeader.noteColumn (h : frame.IsHeader control outer column) (c : Int) :
    (frame.noteColumn c).IsHeader control outer c :=
  ⟨h.value, h.stopped, h.mark, h.step, Trail.column_cons _ _⟩

/-- The frames around a header whose first initializer starts no line and is at this column. -/
structure Trail.AroundHeader (control : Tree) (initColumn : Int) (outer : Trail IndentNote) :
    Prop where
  kind : control.kind = .forControl
  sheltered : Sheltered [] outer
  running : outer.isStopped = false
  first : (FrameValue.tree control).initStartsLine = false
  init : ∀ frame : Frame IndentNote, frame.value = .tree control →
    Trail.forInitColumn (frame :: outer) = .ok initColumn

namespace Trail.AroundHeader

variable (houter : outer.AroundHeader control initColumn)

include houter

theorem calm_cons (h : frame.IsHeader control outer column) : Calm 0 (frame :: outer) :=
  houter.sheltered.calm.cons_of_unmarked h.mark

theorem sheltered_cons (h : frame.IsHeader control outer column) :
    Sheltered [] (frame :: outer) := by
  have hkind : (FrameValue.tree control).kind? ≠ some .annotationUse := by
    simp [FrameValue.kind?, FrameValue.tree?, houter.kind]
  have hheaded : control.Headed := by
    have hk := houter.kind
    refine ⟨fun hloop => ?_, fun name body hlabel => ?_⟩
    · rw [hk] at hloop
      cases hloop
    · rw [Tree.kind, hlabel] at hk
      cases hk
  have hinner : Sheltered [.tree control] outer := by
    refine houter.sheltered.cons (.inr hkind) ?_
    rintro _ ⟨⟩
    exact hheaded
  have hvalues : Trail.values [frame] = [.tree control] := congrArg (· :: []) h.value
  refine Sheltered.shift [] hinner hvalues (houter.calm_cons h) ?_ (by simp)
  rintro _ ⟨⟩
  exact hkind

end Trail.AroundHeader

/-- The tree is no deeper than a visit goes, and there is no comment in front of it. -/
structure Tree.ReadyWithin (n : Nat) (e : Tree) : Prop where
  regular : e.Regular
  height : e.height ≤ n
  uncommented : e.leading.comments = []

theorem exists_of_run_atNode {visit : Tree → IndentWalk Tree}
    (h : (atNode style visit e).run ⟨fresh (.tree e) :: outer, ()⟩ = .ok (u, w)) :
    ∃ s v x, (indentAt style (.leading e.kind) e.leading).run ⟨e.entryFrame :: outer, ()⟩ =
        .ok (s, v) ∧
      (e.shape.traverse ((indenter style none).actions visit)).run v = .ok (x, w) ∧
      u = .node e.id s x := by
  obtain ⟨_, v, hset, h⟩ := Walk.exists_of_run_bind h
  cases hset
  obtain ⟨s, v, hspace, h⟩ := Walk.exists_of_run_bind h
  obtain ⟨x, w, htraverse, h⟩ := Walk.exists_of_run_bind h
  cases h
  exact ⟨s, v, x, hspace, htraverse, rfl⟩

/-- A visit of an element leaves the frames around that of the element. -/
theorem exists_of_run_element (htrail : Sheltered [] trail) (he : e.ReadyWithin n)
    (h : ((indenter style none).visitWithin n e).run ⟨fresh (.followed l e) :: trail, ()⟩ =
      .ok (u, w)) :
    ∃ f : Frame IndentNote, w = ⟨f :: trail, ()⟩ ∧ f.value = .followed l e ∧
      Calm 1 (f :: trail) := by
  have hinner : Sheltered [.followed l e] trail := htrail.cons (.inr nofun) nofun
  have halike : IndentWalk.VisitsAlike (fun _ => false) ((indenter style none).visitWithin n)
      ((indenter style none).visitWithin n) e :=
    visitsAlike_indenter he.regular he.height
      (Nat.le_trans (Tree.height_without_le e) he.height)
  obtain ⟨_, inner, rfl, hvalues, hcalm, -⟩ := halike _ trail hinner
    (.inl (List.cons_ne_nil _ _)) [fresh (.followed l e)] u w rfl
    ((htrail.calm.mono (Nat.zero_le 1)).cons _) h
  obtain ⟨f, rest, rfl⟩ := List.exists_cons_of_ne_nil
    (show inner ≠ [] by rintro rfl; cases hvalues)
  obtain ⟨hf, hrest⟩ := List.cons.inj hvalues
  obtain rfl : rest = [] := List.map_eq_nil_iff.1 hrest
  exact ⟨f, rfl, hf, hcalm⟩

/-- A part of a header that starts a line is put a continuation behind the column of the frame. -/
theorem leading_of_run_part (houter : outer.AroundHeader control initColumn)
    (hframe : frame.IsHeader control outer column) (he : e.ReadyWithin n) (hkind : e.kind.isInline)
    (h : ((indenter style none).visitWithin n e).run
      ⟨fresh (.followed l e) :: frame :: outer, ()⟩ = .ok (u, w)) :
    u.leading = if e.leading.hasNewline then
      style.indentSpace (.leading e.kind) (column + style.continuation) e.leading else e.leading := by
  obtain - | n := n
  · have := he.height
    rw [Tree.height_eq] at this
    omega
  have hrunning : Trail.isStopped (fresh (.followed l e) :: frame :: outer) = false := by
    rw [isStopped, List.any_cons, List.any_cons, hframe.stopped]
    exact houter.running
  obtain ⟨v, hnode, -⟩ := exists_of_run_visitWithin hrunning h
  obtain ⟨s, v, x, hspace, -, rfl⟩ := exists_of_run_atNode hnode
  have halign : align (e.entryFrame.noteSlot (.leading e.kind) ::
      fresh (.followed l e) :: frame :: outer) = (false, _) :=
    ((houter.calm_cons hframe).cons _).align_eq (by rintro _ ⟨⟩ h; cases h) rfl
  have hindents : Trail.Indents (fresh (.followed l e) :: frame :: outer) .continuation e.kind := by
    refine .inr ⟨?_, by rintro ⟨⟩, fun hblock => ?_⟩
    · rw [Trail.indentStep_cons, Trail.indentStep_cons, hframe.step]
      rfl
    · rw [hblock] at hkind
      cases hkind
  have hcloses : SpaceSlot.closes (.leading e.kind) = false := by
    generalize e.kind = k at hkind
    cases k <;> first | rfl | cases hkind
  have hcolumn : Trail.column (e.entryFrame :: fresh (.followed l e) :: frame :: outer) = column :=
    hframe.column
  rw [run_indentAt_eq (List.cons_ne_nil _ _) he.uncommented, halign, hcolumn] at hspace
  dsimp only at hspace
  rw [indentStepAt_leading hindents, hcloses] at hspace
  cases hnewline : e.leading.hasNewline <;> rw [hnewline] at hspace <;> cases hspace <;> rfl

end Header

/-! ### Walks that keep a header -/

namespace IndentWalk

variable {α β : Type} {P : α → Prop}

/-- From the frame of the header the walk comes to such a frame again, with the frames around it as
they were, and its answer is as `P` says. -/
def KeepsHeader (control : Tree) (outer : Trail IndentNote) (column : Int) (q : IndentWalk α)
    (P : α → Prop) : Prop :=
  ∀ frame a w, Frame.IsHeader control outer column frame → q.run ⟨frame :: outer, ()⟩ = .ok (a, w) →
    (∃ frame', w = ⟨frame' :: outer, ()⟩ ∧ frame'.IsHeader control outer column) ∧ P a

/-- What is kept of a header may be said of answers. -/
def keepingHeader (control : Tree) (outer : Trail IndentNote) (column : Int) :
    Answers IndentWalk where
  Hold q P := KeepsHeader control outer column q P
  pure h := by
    rintro frame _ _ hframe ⟨⟩
    exact ⟨⟨frame, rfl, hframe⟩, h⟩
  bind hq hf := by
    intro frame b w hframe hrun
    obtain ⟨a, v, hqa, hfa⟩ := Walk.exists_of_run_bind hrun
    obtain ⟨⟨frame', rfl, hframe'⟩, ha⟩ := hq frame a v hframe hqa
    exact hf a ha frame' b w hframe' hfa

end IndentWalk

/-- The element starts no line, or is at this column. -/
def Followed.At (style : IndentStyle) (column : Nat) (x : Followed Tree) : Prop :=
  x.element.leading.hasNewline → style.columnAfter x.element.leading = column

instance (style : IndentStyle) (column : Nat) : DecidablePred (Followed.At style column) :=
  fun x => inferInstanceAs (Decidable (x.element.leading.hasNewline →
    style.columnAfter x.element.leading = column))

/-- The condition and the updates of a header that start a line are at this column. -/
def Shape.PartsAt (style : IndentStyle) (column : Nat) (x : Shape Tree) : Prop :=
  ∀ y ∈ x.headerParts, y.At style column

instance (style : IndentStyle) (column : Nat) : DecidablePred (Shape.PartsAt style column) :=
  fun x => inferInstanceAs (Decidable (∀ y ∈ x.headerParts, y.At style column))

section Header

open IndentWalk

variable {style : IndentStyle} {control u : Tree} {outer : Trail IndentNote}
  {column initColumn : Int} {n : Nat} {w : Traversal IndentNote Unit} {x : Followed Tree}
  (houter : outer.AroundHeader control initColumn)

include houter

/-- An initializer leaves the frame of the header as it is. -/
theorem keepsHeader_init (hx : x.element.ReadyWithin n) : KeepsHeader control outer column
    (indentFollowed style ((indenter style none).visitWithin n) .forInit x) fun _ => True := by
  intro frame y w hframe hrun
  have hsheltered := houter.sheltered_cons hframe
  have hinner : Sheltered [.followed .forInit x.element] (frame :: outer) :=
    hsheltered.cons (.inr nofun) nofun
  obtain ⟨v, hbody, rfl⟩ := Walk.exists_of_run_within hrun
  obtain ⟨_, u, htrail, hbody⟩ := Walk.exists_of_run_bind hbody
  cases htrail
  suffices hleaves : ∃ f : Frame IndentNote, v = ⟨f :: frame :: outer, ()⟩ by
    obtain ⟨f, rfl⟩ := hleaves
    exact ⟨⟨frame, rfl, hframe⟩, trivial⟩
  by_cases hbroken : x.after.hasNewline || x.element.leading.hasNewline
  · rw [if_pos hbroken] at hbody
    obtain ⟨e, u, hvisit, hbody⟩ := Walk.exists_of_run_bind hbody
    obtain ⟨f, rfl, hf, hcalm⟩ := exists_of_run_element hsheltered hx hvisit
    obtain ⟨a, u, hspace, hbody⟩ := Walk.exists_of_run_bind hbody
    cases hbody
    obtain ⟨_, inner, rfl, hvalues, -⟩ := mirrors_indentAt (p := fun _ => false) (k := 1) hinner
      (List.cons_ne_nil _ _) (.after .forInit) x.after [f] a _ (congrArg (· :: []) hf) hcalm hspace
    obtain ⟨g, rest, rfl⟩ := List.exists_cons_of_ne_nil
      (show inner ≠ [] by rintro rfl; cases hvalues)
    obtain rfl : rest = [] := List.map_eq_nil_iff.1 (List.cons.inj hvalues).2
    exact ⟨g, rfl⟩
  · rw [if_neg hbroken] at hbody
    obtain ⟨e, u, hvisit, hbody⟩ := Walk.exists_of_run_bind hbody
    obtain ⟨f, rfl, -⟩ := exists_of_run_element hsheltered hx hvisit
    cases hbody
    exact ⟨f, rfl⟩

/-- The condition or an update that starts a line is put under the first initializer, and the frame
of the header has the column of the loop again. -/
theorem keepsHeader_part {l : FollowedSlot} (hl : l = .forCondition ∨ l = .forUpdate)
    (hx : x.element.ReadyWithin n) (hkind : x.element.kind.isInline) :
    KeepsHeader control outer column
      (indentFollowed style ((indenter style none).visitWithin n) l x)
      (Followed.At style initColumn.toNat) := by
  intro frame y w hframe hrun
  obtain ⟨v, rfl, hcases⟩ := exists_of_run_part hl hrun
  rcases hcases with ⟨c, hc, hfrom⟩ | ⟨hstarts, -⟩ | ⟨hinline, hvisit⟩
  · obtain rfl : initColumn = c := Except.ok.inj ((houter.init frame hframe.value).symm.trans hc)
    obtain ⟨v, hvisit, rfl⟩ := exists_of_run_indentElementFrom hfrom
    have hstart := hframe.noteColumn (initColumn - style.continuation)
    have hleading := leading_of_run_part houter hstart hx hkind hvisit
    obtain ⟨f, rfl, -⟩ := exists_of_run_element (houter.sheltered_cons hstart) hx hvisit
    have hcolumn : Trail.column (frame :: outer) = column := hframe.column
    have hend := hstart.noteColumn (Trail.column (frame :: outer))
    refine ⟨⟨_, rfl, hcolumn ▸ hend⟩, fun hnewline => ?_⟩
    rw [hleading, Int.sub_add_cancel] at hnewline ⊢
    have hfile : SpaceSlot.leading x.element.kind ≠ .leading .compilationUnit := by
      intro h
      rw [SpaceSlot.leading.inj h] at hkind
      cases hkind
    cases hbroken : x.element.leading.hasNewline with
    | true => exact style.columnAfter_indentSpace hfile initColumn hx.uncommented hbroken
    | false =>
      rw [hbroken, if_neg Bool.false_ne_true, hbroken] at hnewline
      cases hnewline
  · rw [List.head?_cons, Option.any_some, hframe.value, houter.first] at hstarts
    cases hstarts
  · have hleading := leading_of_run_part houter hframe hx hkind hvisit
    obtain ⟨f, rfl, -⟩ := exists_of_run_element (houter.sheltered_cons hframe) hx hvisit
    refine ⟨⟨frame, rfl, hframe⟩, fun hnewline => ?_⟩
    rw [hleading, hinline, if_neg Bool.false_ne_true, hinline] at hnewline
    cases hnewline

/-- The layer of a header, one part after the other. -/
theorem keepsHeader_traverse (hparts : ∀ c ∈ control.children, c.ReadyWithin n)
    (hinline : control.shape.InlineHeader) :
    KeepsHeader control outer column
      (control.shape.traverse ((indenter style none).actions ((indenter style none).visitWithin n)))
      (Shape.PartsAt style initColumn.toNat) := by
  obtain ⟨init, condition, update, hshape⟩ := exists_forControl houter.kind
  rw [children, hshape] at hparts
  rw [hshape] at hinline ⊢
  have hpart {l : FollowedSlot} (hl : l = .forCondition ∨ l = .forUpdate) {y : Followed Tree}
      (hy : y ∈ condition :: update) : KeepsHeader control outer column
        (indentFollowed style ((indenter style none).visitWithin n) l y)
        (Followed.At style initColumn.toNat) :=
    keepsHeader_part houter hl
      (hparts _ (List.mem_append_right _ (List.mem_map_of_mem hy))) (hinline y hy)
  have hinits : KeepsHeader control outer column
      (init.mapM (indentFollowed style ((indenter style none).visitWithin n) .forInit))
      (List.Forall₂ (fun _ _ => True) init) :=
    (keepingHeader control outer column).mapM fun y hy =>
      keepsHeader_init houter (hparts _ (List.mem_append_left _ (List.mem_map_of_mem hy)))
  have hupdates : KeepsHeader control outer column
      (update.mapM (indentFollowed style ((indenter style none).visitWithin n) .forUpdate))
      (List.Forall₂ (fun _ => Followed.At style initColumn.toNat) update) :=
    (keepingHeader control outer column).mapM fun y hy =>
      hpart (.inr rfl) (List.mem_cons_of_mem _ hy)
  refine (keepingHeader control outer column).bind hinits fun init' _ => ?_
  refine (keepingHeader control outer column).bind (hpart (.inl rfl) List.mem_cons_self) ?_
  intro condition' hcondition'
  refine (keepingHeader control outer column).bind hupdates fun update' hupdate' => ?_
  refine (keepingHeader control outer column).pure (List.forall_mem_cons.2 ⟨hcondition', ?_⟩)
  intro y hy
  obtain ⟨_, -, hy⟩ := exists_mem_of_forall₂ hupdate' hy
  exact hy

/-- Where a header that starts no line is visited, its parts are put under the first initializer. -/
theorem partsAt_of_run (hregular : control.Regular) (hn : control.height ≤ n)
    (hinline : control.shape.InlineHeader) (hs : ∀ p ∈ control.spaces, p.2.comments = [])
    (hleading : control.leading.hasNewline = false)
    (h : ((indenter style none).visitWithin n control).run ⟨outer, ()⟩ = .ok (u, w)) :
    u.shape.PartsAt style initColumn.toNat := by
  obtain - | n := n
  · rw [Tree.height_eq] at hn
    omega
  obtain ⟨v, hnode, -⟩ := exists_of_run_visitWithin houter.running h
  obtain ⟨s, v, x, hspace, htraverse, rfl⟩ := exists_of_run_atNode hnode
  have hcomments {c : Tree} (hc : c ∈ control.preorder) : c.leading.comments = [] :=
    hs _ (spaces_subset hc c.leading_mem_spaces)
  have halign : align (control.entryFrame.noteSlot (.leading control.kind) :: outer) = (false, _) :=
    houter.sheltered.calm.align_eq houter.sheltered.head rfl
  rw [run_indentAt_eq houter.sheltered.outer_ne (hcomments control.self_mem_preorder), hleading,
    halign] at hspace
  cases hspace
  have hframe : (control.entryFrame.noteSlot (.leading control.kind)).IsHeader control outer
      (Trail.column outer) := by
    refine ⟨rfl, rfl, rfl, ?_, Trail.column_cons _ _⟩
    change some (IndentStep.ofKind control.kind) = _
    rw [houter.kind]
    rfl
  refine (keepsHeader_traverse houter (fun c hc => ?_) hinline _ _ _ hframe htraverse).2
  have hheight := height_lt_of_mem_children hc
  exact ⟨(regular_iff.1 hregular).2 c hc, by omega,
    hcomments (mem_preorder_of_mem_children hc c.self_mem_preorder)⟩

end Header

/-! ### Loops -/

namespace Tree

/-- A `for` loop without a label that starts its line, outside the parameters of methods, with no
comments in front of it or in its header, which opens in the line of the loop. -/
structure StartsHeader (before after : Text) (above : List FrameValue) (n control : Tree) :
    Prop where
  shape : ∃ body, n.shape = .forLoop control body
  starts : n.leading.hasNewline
  uncommented : n.leading.comments = []
  unlabeled : above.findSome? FrameValue.kind? ≠ some .labeled
  outsideParameters : ∀ d, .followed .methodParameter d ∉ above
  headerUncommented : ∀ p ∈ control.spaces, p.2.comments = []
  opens : control.OpensInLine before after

namespace StartsHeader

variable {before after : Text} {above : List FrameValue} {n control : Tree}
  (h : n.StartsHeader before after above control)

include h

theorem kind_eq : n.kind = .forLoop := by
  obtain ⟨body, hshape⟩ := h.shape
  rw [Tree.kind, hshape]
  rfl

theorem control_mem_children : control ∈ n.children := by
  obtain ⟨body, hshape⟩ := h.shape
  rw [children, hshape]
  exact List.mem_cons_self

theorem control_kind_eq (hn : n.Regular) : control.kind = .forControl := by
  obtain ⟨body, hshape⟩ := h.shape
  obtain ⟨_, _, heq, hkind⟩ := (regular_iff.1 hn).1.loop h.kind_eq
  cases hshape.symm.trans heq
  exact hkind

end StartsHeader

/-- The start of a header is looked up in its text. -/
theorem opensInLine_of_isPrefixOf {before after : Text} {c : Char} {control : Tree}
    (hblanks : ∀ d ∈ before ++ after, IsColumnBlank d) (hc : isWhiteSpace c = false)
    (h : (before ++ '(' :: (after ++ [c])).isPrefixOf control.toText) :
    control.OpensInLine before after := by
  rw [List.forall_mem_append] at hblanks
  obtain ⟨rest, hrest⟩ := List.isPrefixOf_iff_prefix.1 h
  exact ⟨hblanks.1, hblanks.2, c, rest, by rw [← hrest]; simp, hc⟩

/-- Whether a loop below these frames starts a header, with these blanks and this character after
them, can be computed. -/
def startsHeader (before after : Text) (c : Char) (above : List FrameValue) (n : Tree) : Bool :=
  match n.shape with
  | .forLoop control _ =>
    n.leading.hasNewline && n.leading.comments.isEmpty &&
      above.findSome? FrameValue.kind? != some .labeled &&
      (above.all fun
        | .followed .methodParameter _ => false
        | _ => true) &&
      (control.spaces.all fun p => p.2.comments.isEmpty) &&
      ((before ++ after).all (fun d => decide (IsColumnBlank d)) && !isWhiteSpace c &&
        (before ++ '(' :: (after ++ [c])).isPrefixOf control.toText)
  | _ => false

theorem exists_of_startsHeader {before after : Text} {c : Char} {above : List FrameValue} {n : Tree}
    (h : n.startsHeader before after c above) :
    ∃ control, n.StartsHeader before after above control := by
  unfold startsHeader at h
  split at h
  next control body hshape =>
    simp only [Bool.and_eq_true, bne_iff_ne, List.isEmpty_iff, List.all_eq_true, decide_eq_true_eq,
      Bool.not_eq_true'] at h
    obtain ⟨⟨⟨⟨⟨hstarts, hcomments⟩, hlabel⟩, hparameters⟩, hheader⟩, ⟨hblanks, hc⟩, htext⟩ := h
    exact ⟨control, ⟨body, hshape⟩, hstarts, hcomments, hlabel,
      fun d hd => Bool.noConfusion (hparameters _ hd), hheader,
      opensInLine_of_isPrefixOf hblanks hc htext⟩
  next => cases h

/-- The parts of the header that start a line are under the first initializer. -/
def AlignsHeader (style : IndentStyle) (before after : Text) (n : Tree) : Prop :=
  ∃ control body, n.shape = .forLoop control body ∧ control.kind = .forControl ∧
    control.OpensInLine before after ∧ control.shape.PartsAt style
      (style.width (Text.lastLine (n.leading.toText ++ headerStart before after)))

/-- What is known of a parsed tree, and of all nodes in it. -/
structure Sourced (t : Tree) : Prop where
  housed : t.Housed
  nested : t.Nested
  inlineHeaders : t.InlineHeaders
  blanks : ∀ p ∈ t.spaces, ∀ c ∈ p.2.whitespace, Lexeme.isBlankChar c

theorem sourced_of_parseFrom {kind : SourceKind} {source : Text} {firstId nextId : NodeId}
    {t : Tree} (h : parseFrom kind source firstId = .ok (t, nextId)) : t.Sourced where
  housed := (plain_of_parseFrom h).housed
  nested := nested_of_parseFrom h
  inlineHeaders := inlineHeaders_of_parseFrom h
  blanks := isBlankChar_of_parseFrom h

theorem Housed.of_mem_preorder {t n : Tree} (h : t.Housed) (hn : n ∈ t.preorder) : n.Housed := by
  induction t using Tree.induction with
  | node t ih =>
    rw [preorder_eq, List.mem_cons, List.mem_flatMap] at hn
    rcases hn with rfl | ⟨c, hc, hn⟩
    · exact h
    · exact ih c hc ((housed_iff.1 h).2 c hc) hn

theorem Sourced.of_mem_preorder {t n : Tree} (h : t.Sourced) (hn : n ∈ t.preorder) : n.Sourced where
  housed := h.housed.of_mem_preorder hn
  nested u hu := h.nested u (preorder_subset n hn hu)
  inlineHeaders u hu := h.inlineHeaders u (preorder_subset n hn hu)
  blanks p hp := h.blanks p (spaces_subset hn hp)

end Tree

section Loops

open IndentWalk

variable {style : IndentStyle} {values : List FrameValue} {before after : Text} {control n u : Tree}

/-- The trail at a loop whose line starts at this column. -/
structure Trail.AtLoop (values : List FrameValue) (loop : Tree) (lineStart : Int)
    (trail : Trail IndentNote) : Prop where
  frames : ∃ stopped note above, trail = ⟨.tree loop, stopped, note⟩ :: above ∧
    Trail.values above = values ++ [.root]
  column : trail.column = lineStart
  running : trail.isStopped = false
  sheltered : Sheltered [] trail
  allowed : Allowed values lineStart

/-- Where the loop is lined up, and its column noted. -/
theorem Trail.Sound.atLoop {trail : Trail IndentNote} {frame : Frame IndentNote} {lineStart : Int}
    (htrail : trail.Sound values) (hn : Visitable values n) (hkind : n.kind = .forLoop)
    (hframe : frame.value = .tree n) (hstopped : frame.stopped = false)
    (hmark : frame.note.afterAnnotation = false) (hallowed : Allowed values lineStart) :
    AtLoop values n lineStart ((align (frame :: trail)).2.noteColumn 0 lineStart) := by
  have hvalues : (align (frame :: trail)).2.values = .tree n :: (values ++ [.root]) := by
    rw [← htrail.values_eq, ← hframe]
    exact map_align (fun _ _ => rfl) (frame :: trail)
  have hcalm := calm_align htrail.calm htrail.ne_nil hmark
  have hrunning : (align (frame :: trail)).2.isStopped = false := by
    rw [← isStopped_bare, bare_align, isStopped_bare, isStopped, List.any_cons, hstopped]
    exact htrail.running
  generalize (align (frame :: trail)).2 = aligned at hvalues hcalm hrunning
  obtain ⟨⟨value, stopped, note⟩, above, rfl⟩ := List.exists_cons_of_ne_nil
    (show aligned ≠ [] by rintro rfl; cases hvalues)
  obtain ⟨rfl, habove⟩ := List.cons.inj hvalues
  refine ⟨⟨stopped, { note with column := some lineStart }, above, rfl, habove⟩,
    Trail.column_cons _ _, hrunning, ⟨List.cons_ne_nil _ _, ?_, ?_, by simp, ?_⟩, hallowed⟩
  · exact hcalm.of_marks_le rfl (Nat.le_of_eq (marks_mapNoteAt 0
      (f := fun note => { note with column := some lineStart }) (fun _ => rfl) _))
  · rintro _ ⟨⟩
    simp [FrameValue.kind?, FrameValue.tree?, hkind]
  · have hheaded := hn.inner.headed
    rwa [List.cons_append, show Trail.start.values = [.root] from rfl, ← habove] at hheaded

/-- A loop that starts its line is moved to a column, from which its header is visited. -/
theorem exists_of_run_loop {k : Nat} {above : List FrameValue} {w w' : Traversal IndentNote Unit}
    (hw : w.trail.Sound values) (hn : Visitable values n)
    (hstart : n.StartsHeader before after above control)
    (h : ((indenter style none).visitWithin (k + 1) n).run w = .ok (u, w')) :
    ∃ lineStart trail control' body v, Trail.AtLoop values n lineStart trail ∧
      u.shape = .forLoop control' body ∧ u.leading.comments = [] ∧
      style.columnAfter u.leading = lineStart.toNat ∧
      ((indenter style none).visitWithin k control).run ⟨trail, ()⟩ = .ok (control', v) := by
  obtain ⟨v, hnode, -⟩ := exists_of_run_visitWithin hw.running h
  obtain ⟨s, v, x, hspace, htraverse, rfl⟩ := exists_of_run_atNode hnode
  have hkind := hstart.kind_eq
  have hsets : n.entryFrame.value.setsColumn := by
    change (n.kind != .enumValueSet) = true
    rw [hkind]
    rfl
  have hcolumn : Allowed values (Trail.column (n.entryFrame :: w.trail)) := hw.level.column
  rw [run_indentAt_eq hw.ne_nil hstart.uncommented, hstart.starts] at hspace
  dsimp only at hspace
  rw [if_pos rfl, if_pos hsets] at hspace
  cases hspace
  have hframe : (n.entryFrame.noteSlot (.leading n.kind)).value = .tree n := rfl
  have hloop := hw.atLoop hn hkind hframe rfl rfl
    (hcolumn.add (style.columns (indentStepAt (.leading n.kind) n.leading
      (align (n.entryFrame.noteSlot (.leading n.kind) :: w.trail)).1
      (n.entryFrame.noteSlot (.leading n.kind)) w.trail)))
  obtain ⟨body, hshape⟩ := hstart.shape
  rw [hshape] at htraverse
  obtain ⟨control', v, hcontrol, htraverse⟩ := Walk.exists_of_run_bind htraverse
  obtain ⟨body', v', -, htraverse⟩ := Walk.exists_of_run_bind htraverse
  cases htraverse
  refine ⟨_, _, control', body', v, hloop, rfl, ?_, ?_, hcontrol⟩
  · rw [leading, IndentStyle.indentSpace, hstart.uncommented]
    rfl
  · have hfile : SpaceSlot.leading n.kind ≠ .leading .compilationUnit := by
      rw [hkind]
      exact fun h => NodeKind.noConfusion (SpaceSlot.leading.inj h)
    exact style.columnAfter_indentSpace hfile _ hstart.uncommented hstart.starts

theorem Trail.AtLoop.forInitColumn_eq {trail : Trail IndentNote} {lineStart : Int}
    {body : Followed Tree} (h : AtLoop values n lineStart trail)
    (hshape : n.shape = .forLoop control body) (hkind : control.kind = .forControl)
    (hopens : control.OpensInLine before after)
    (hlabel : (values ++ [FrameValue.root]).findSome? FrameValue.kind? ≠ some .labeled)
    (frame : Frame IndentNote) (hframe : frame.value = .tree control) :
    Trail.forInitColumn (frame :: trail) = .ok (lineStart + (headerStart before after).length) := by
  obtain ⟨⟨stopped, note, above, rfl, habove⟩, hcolumn, -⟩ := h
  rw [← hcolumn]
  refine forInitColumn_of_opensInLine ?_ hshape hopens (habove ▸ hlabel)
  rw [hframe]
  simp [FrameValue.kind?, FrameValue.tree?, hkind]

/-- A header is aligned where the column of its loop is not negative. -/
theorem alignsHeader_of_visited (h : Visited style values n u) (hn : Visitable values n)
    (hsourced : n.Sourced) (hstart : n.StartsHeader before after (values ++ [.root]) control)
    (hline : 0 < style.columnAfter u.leading ∨ ∀ v ∈ values, v.isForPart = false) :
    u.AlignsHeader style before after := by
  obtain ⟨k, w, w', hheight, hw, hrun⟩ := h
  obtain - | k := k
  · rw [Tree.height_eq] at hheight
    omega
  obtain ⟨lineStart, trail, control', body', v, hloop, hshape', hcomments, hcolumn, hcontrol'⟩ :=
    exists_of_run_loop hw hn hstart hrun
  obtain ⟨body, hshape⟩ := hstart.shape
  have hmem := hstart.control_mem_children
  have hcontrol := hstart.control_kind_eq hn.regular
  obtain ⟨init, condition, update, hheader⟩ := exists_forControl hcontrol
  have hcontrolSourced := hsourced.of_mem_preorder
    (mem_preorder_of_mem_children hmem control.self_mem_preorder)
  -- the parts are put under the first initializer
  have haround : trail.AroundHeader control (lineStart + (headerStart before after).length) :=
    { kind := hcontrol
      sheltered := hloop.sheltered
      running := hloop.running
      first := hstart.opens.initStartsLine_eq hheader hstart.headerUncommented hcontrolSourced.blanks
      init := hloop.forInitColumn_eq hshape hcontrol hstart.opens hstart.unlabeled }
  have hparts := partsAt_of_run haround ((regular_iff.1 hn.regular).2 _ hmem)
    (by have := height_lt_of_mem_children hmem; omega)
    (hcontrolSourced.inlineHeaders _ control.self_mem_preorder) hstart.headerUncommented
    (hstart.opens.hasNewline_leading hheader hstart.headerUncommented hcontrolSourced.blanks)
    hcontrol'
  -- and the header starts as it did
  have hshares : control.SharesFirstLine control' := by
    obtain ⟨stopped, note, above, rfl, -⟩ := hloop.frames
    refine sharesFirstLine_of_run ⟨hcontrolSourced.housed, fun _ => ?_⟩ hcontrol'
    refine ⟨n, Trail.values above, ?_, control, body, hshape, hcontrol⟩
    simp [Trail.values, FrameValue.kind?, FrameValue.tree?, hstart.kind_eq]
  have hopens : control'.OpensInLine before after := by
    refine hstart.opens.of_firstLine (hshares.firstLine fun p hp => ?_)
    · refine ⟨ne_file_of_mem_spaces hcontrolSourced.nested ?_ p hp, hstart.headerUncommented p hp⟩
      rw [hcontrol]
      exact NodeKind.noConfusion
  refine ⟨control', body', hshape', (kind_eq_of_bare hshares.differs.bare).symm.trans hcontrol,
    hopens, ?_⟩
  have hpositive : 0 ≤ lineStart := by
    rcases hline with hline | hnone
    · omega
    · exact hloop.allowed hnone
  rw [hstart.opens.width_headerStart style hcomments, hcolumn]
  rwa [Int.toNat_add hpositive (Int.natCast_nonneg _), Int.toNat_natCast] at hparts

end Loops

/-! ### Files -/

theorem visited_of_run {styles : Styles} {t u : Tree}
    (h : Pass.indents.run styles none [.root] t = .ok u) : Visited styles.indents [] t u := by
  change Except.bind (((indenter styles.indents none).visit t).run ⟨Trail.start, ()⟩ >>= fun r =>
    pure (r.1, r.2.state)) (fun r => pure r.1) = .ok u at h
  cases hvisit : ((indenter styles.indents none).visit t).run ⟨Trail.start, ()⟩ with
  | error e =>
    rw [hvisit] at h
    cases h
  | ok r =>
    rw [hvisit] at h
    cases h
    exact ⟨t.height, ⟨Trail.start, ()⟩, r.2, Nat.le_refl _, sound_start, hvisit⟩

/-- **Headers are aligned.**  In an indented file the condition and the updates of a `for` loop that
start a line are under its first initializer, if the loop is to the right of the first column or in
no condition and no update of another one. -/
theorem headers_align_of_parseFrom {source : Text} {firstId nextId : NodeId} {t : Tree}
    (h : parseFrom .unit source firstId = .ok (t, nextId)) (styles : Styles) :
    ∃ u, Pass.indents.run styles none [.root] t = .ok u ∧
      ∀ above n, t.Reaches above n → ∀ before after control,
        n.StartsHeader before after above control →
          ∃ n' ∈ u.preorder, n'.id = n.id ∧
            (0 < styles.indents.columnAfter n'.leading ∨ (∀ v ∈ above, v.isForPart = false) →
              n'.AlignsHeader styles.indents before after) := by
  obtain ⟨u, hrun, -⟩ := Pass.differs_indents h styles none [.root]
  refine ⟨u, hrun, fun above n hn before after control hstart => ?_⟩
  have hvisitable : Visitable [] t :=
    { regular := inherited_of_parseFrom inherited_regular h
      sheltered := sheltered_start
      kind := .inr (by rw [kind_of_parseFrom h]; exact NodeKind.noConfusion)
      distinct := (nodup_ids_of_parseFrom h).1 }
  obtain ⟨values, rfl, hvisitable', n', hmem, hid, hvisited'⟩ :=
    visited_of_reaches (visited_of_run hrun) hvisitable hn hstart.outsideParameters
  refine ⟨n', hmem, hid, fun hline => ?_⟩
  refine alignsHeader_of_visited hvisited' hvisitable'
    ((sourced_of_parseFrom h).of_mem_preorder hn.mem_preorder) hstart (hline.imp_right ?_)
  exact fun hnone v hv => hnone v (List.mem_append_left _ hv)

/-- A loop with a wrapped header in a method. -/
theorem headers_align_of_parseFrom_method :
    ∃ t k u above n control, parseFrom .unit
        ("class A \x7b\nvoid f() \x7b\nfor (int i = 0;\ni < 1;\n" ++
          "i++, g()) \x7b\x7d\n\x7d \x7d").toList 0 = .ok (t, k) ∧
      Pass.indents.run {} none [.root] t = .ok u ∧ t.Reaches above n ∧
      n.StartsHeader [' '] [] above control ∧
      ∃ n' ∈ u.preorder, n'.id = n.id ∧ n'.AlignsHeader {} [' '] [] := by
  obtain ⟨t, k, h, hcheck⟩ : ∃ t k, parseFrom .unit
      ("class A \x7b\nvoid f() \x7b\nfor (int i = 0;\ni < 1;\n" ++
        "i++, g()) \x7b\x7d\n\x7d \x7d").toList 0 = .ok (t, k) ∧
      ((t.framesAbove? 19).any fun above => (above.all fun v => !v.isForPart) &&
        t.preorder.all fun n => n.id != 19 || n.startsHeader [' '] [] 'i' above) :=
    exists_parseFrom (by decide +kernel)
  obtain ⟨above, habove, hcheck⟩ := (Option.any_eq_true _ _).1 hcheck
  simp only [Bool.and_eq_true, List.all_eq_true, Bool.not_eq_true', Bool.or_eq_true, bne_iff_ne]
    at hcheck
  obtain ⟨n, hid, hn⟩ := exists_reaches_of_framesAbove? habove
  obtain ⟨control, hstart⟩ :=
    exists_of_startsHeader ((hcheck.2 n hn.mem_preorder).resolve_left (not_not_intro hid))
  obtain ⟨u, hrun, haligns⟩ := headers_align_of_parseFrom h {}
  obtain ⟨n', hmem, hid', haligned⟩ := haligns above n hn _ _ control hstart
  exact ⟨t, k, u, above, n, control, h, hrun, hn, hstart, n', hmem, hid', haligned (.inr hcheck.1)⟩

/-- Not all headers are aligned: a loop in the condition of another one may start from a column to
the left of the first. -/
theorem not_headers_align : ¬ ∀ (styles : Styles) (source : Text) (firstId nextId : NodeId)
    (t u : Tree), parseFrom .unit source firstId = .ok (t, nextId) →
    Pass.indents.run styles none [.root] t = .ok u →
    ∀ above n before after control, t.Reaches above n → n.StartsHeader before after above control →
      ∀ n' ∈ u.preorder, n'.id = n.id → n'.AlignsHeader styles.indents before after := by
  intro hall
  obtain ⟨t, k, h, hcheck⟩ : ∃ t k, parseFrom .unit
      ("class A \x7b \x7b for (int i = 0; f(() -> \x7b do\nfor (int j = 0;\nj < 1; ) \x7b\x7d " ++
        "while (x); \x7d)\n; ) \x7b\x7d \x7d \x7d").toList 0 = .ok (t, k) ∧
      (((t.framesAbove? 19).any fun above =>
        t.preorder.all fun n => n.id != 19 || n.startsHeader [' '] [] 'i' above) &&
      (Pass.indents.run {} none [.root] t).toOption.any fun u => u.preorder.any fun n =>
        n.id == 19 && match n.shape with
          | .forLoop control _ => !decide (control.shape.PartsAt {} (IndentStyle.width {}
              (Text.lastLine (n.leading.toText ++ headerStart [' '] []))))
          | _ => false) :=
    exists_parseFrom (by decide +kernel)
  obtain ⟨hfound, hrun⟩ := Bool.and_eq_true_iff.1 hcheck
  obtain ⟨above, habove, hcheck⟩ := (Option.any_eq_true _ _).1 hfound
  obtain ⟨u, hrun, hmisaligned⟩ := exists_of_toOption_any hrun
  simp only [List.all_eq_true, Bool.or_eq_true, bne_iff_ne, List.any_eq_true, Bool.and_eq_true,
    beq_iff_eq] at hcheck hmisaligned
  obtain ⟨n, hid, hn⟩ := exists_reaches_of_framesAbove? habove
  obtain ⟨control, hstart⟩ :=
    exists_of_startsHeader ((hcheck n hn.mem_preorder).resolve_left (not_not_intro hid))
  obtain ⟨n', hmem, hid', hn'⟩ := hmisaligned
  obtain ⟨control', body, hshape, -, -, hparts⟩ :=
    hall {} _ _ _ t u h hrun above n _ _ control hn hstart n' hmem (hid'.trans hid.symm)
  rw [hshape] at hn'
  simp only [Bool.not_eq_true', decide_eq_false_iff_not] at hn'
  exact hn' hparts

end JavaSource
