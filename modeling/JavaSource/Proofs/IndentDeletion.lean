import JavaSource.Proofs.Coupling
import JavaSource.Proofs.Marks

/-!
# Indents beside deleted statements

The indenter does the same to a tree without some statements as to the tree with them
(`Visitor.runAt_indenter_without`).  The two runs are compared step by step (`IndentWalk.Mirrors`):
from the same notes on the frames of the two trees they come to the same notes, and while an element
of a block is indented, the notes of the frames around it stay as they are.
-/

namespace JavaSource

open Trail

/-! ### Frames that stay as they are -/

/-- What is done inside frames of these values leaves the frames `outer` around them as they are: no
mark can be taken off them, and no annotation ends just there. -/
structure Sheltered (values : List FrameValue) (outer : Trail IndentNote) : Prop where
  outer_ne : outer ≠ []
  calm : outer.Calm 0
  head : ∀ v ∈ outer.values.head?, v.kind? ≠ some .annotationUse
  last : ∀ v ∈ values.getLast?, v.kind? ≠ some .annotationUse
  headed : ∀ v ∈ values ++ outer.values, ∀ t ∈ v.tree?, t.Headed

theorem Trail.exists_cons_cons_of_values {trail : Trail IndentNote} {u v : FrameValue}
    {values : List FrameValue} (h : trail.values = u :: v :: values) :
    ∃ f g rest, trail = f :: g :: rest ∧ f.value = u ∧ g.value = v ∧ Trail.values rest = values := by
  match trail with
  | f :: g :: rest =>
    simp only [Trail.values, List.map_cons, List.cons.injEq] at h
    exact ⟨f, g, rest, rfl, h⟩

theorem Sheltered.cons {values : List FrameValue} {outer : Trail IndentNote} {v : FrameValue}
    (h : Sheltered values outer) (hv : values ≠ [] ∨ v.kind? ≠ some .annotationUse)
    (hheaded : ∀ t ∈ v.tree?, t.Headed) : Sheltered (v :: values) outer where
  outer_ne := h.outer_ne
  calm := h.calm
  head := h.head
  last := by
    obtain - | ⟨w, values⟩ := values
    · simpa using hv
    · simpa using h.last
  headed := by
    rw [List.cons_append, List.forall_mem_cons]
    exact ⟨hheaded, h.headed⟩

/-- Some of the inner frames may be counted as outer ones, where they carry no mark and no annotation
ends there. -/
theorem Sheltered.shift (vs : List FrameValue) {ws : List FrameValue} {inner outer : Trail IndentNote}
    (h : Sheltered (vs ++ ws) outer) (hinner : inner.values = ws) (hcalm : Calm 0 (inner ++ outer))
    (hhead : ∀ v ∈ ws.head?, v.kind? ≠ some .annotationUse)
    (hlast : ∀ v ∈ vs.getLast?, v.kind? ≠ some .annotationUse) :
    Sheltered vs (inner ++ outer) where
  outer_ne := List.append_ne_nil_of_right_ne_nil _ h.outer_ne
  calm := hcalm
  head := by
    rw [Trail.values, List.map_append, show inner.map Frame.value = ws from hinner]
    cases ws with
    | nil => exact h.head
    | cons w ws => exact hhead
  last := hlast
  headed := by
    rw [Trail.values, List.map_append, show inner.map Frame.value = ws from hinner,
      ← List.append_assoc]
    exact h.headed

/-! ### Two walks side by side -/

namespace IndentWalk

variable {α β γ δ : Type} {p : NodeId → Bool} {k : Nat} {values : List FrameValue}
  {outer : Trail IndentNote}

/-- Inside frames of these values, on a calm trail, `q'` does on the trail of the tree without the
statements that satisfy `p` what `q` does on the trail of the tree with them, and both leave the
frames `outer` as they are. -/
def Mirrors (p : NodeId → Bool) (k : Nat) (values : List FrameValue) (outer : Trail IndentNote)
    (q : IndentWalk α) (q' : IndentWalk β) (P : α → β → Prop) : Prop :=
  ∀ (inner : Trail IndentNote) a w, inner.values = values → Calm k (inner ++ outer) →
    q.run ⟨inner ++ outer, ()⟩ = .ok (a, w) → ∃ b inner',
      w = ⟨inner' ++ outer, ()⟩ ∧ inner'.values = values ∧ Calm k (inner' ++ outer) ∧
      q'.run ⟨without p (inner ++ outer), ()⟩ = .ok (b, ⟨without p (inner' ++ outer), ()⟩) ∧ P a b

theorem Mirrors.pure {P : α → β → Prop} {a : α} {b : β} (h : P a b) :
    Mirrors p k values outer (Pure.pure a) (Pure.pure b) P := by
  rintro inner _ _ hinner hcalm ⟨⟩
  exact ⟨b, inner, rfl, hinner, hcalm, rfl, h⟩

theorem Mirrors.bind {P : α → β → Prop} {Q : γ → δ → Prop} {q : IndentWalk α} {q' : IndentWalk β}
    {f : α → IndentWalk γ} {f' : β → IndentWalk δ} (hq : Mirrors p k values outer q q' P)
    (hf : ∀ a b, P a b → Mirrors p k values outer (f a) (f' b) Q) :
    Mirrors p k values outer (q >>= f) (q' >>= f') Q := by
  intro inner c w hinner hcalm hrun
  obtain ⟨a, v, hqa, hfa⟩ := Walk.exists_of_run_bind hrun
  obtain ⟨b, inner₁, rfl, hinner₁, hcalm₁, hqb, hP⟩ := hq inner a v hinner hcalm hqa
  obtain ⟨d, inner₂, rfl, hinner₂, hcalm₂, hfb, hQ⟩ := hf a b hP inner₁ c w hinner₁ hcalm₁ hfa
  refine ⟨d, inner₂, rfl, hinner₂, hcalm₂, ?_, hQ⟩
  rw [StateT.run_bind, hqb]
  exact hfb

theorem Mirrors.mono {P Q : α → β → Prop} {q : IndentWalk α} {q' : IndentWalk β}
    (hq : Mirrors p k values outer q q' P) (h : ∀ a b, P a b → Q a b) :
    Mirrors p k values outer q q' Q := by
  intro inner a w hinner hcalm hrun
  obtain ⟨b, inner', hw, hinner', hcalm', hb, hP⟩ := hq inner a w hinner hcalm hrun
  exact ⟨b, inner', hw, hinner', hcalm', hb, h a b hP⟩

theorem Mirrors.ite {c : Prop} [Decidable c] {P : α → β → Prop} {q r : IndentWalk α}
    {q' r' : IndentWalk β} (hq : c → Mirrors p k values outer q q' P)
    (hr : ¬ c → Mirrors p k values outer r r' P) :
    Mirrors p k values outer (if c then q else r) (if c then q' else r') P := by
  by_cases hc : c
  · rw [if_pos hc, if_pos hc]
    exact hq hc
  · rw [if_neg hc, if_neg hc]
    exact hr hc

/-- What is done inside no frame may be left out. -/
theorem Mirrors.skip {r : NodeId → Bool} {P : α → β → Prop} {Q : γ → δ → Prop} {q : IndentWalk α}
    {q' : IndentWalk β} {f : α → IndentWalk γ} {f' : IndentWalk δ} (hq : Mirrors r k [] outer q q' P)
    (hf : ∀ a b, P a b → Mirrors p k [] outer (f a) f' Q) :
    Mirrors p k [] outer (q >>= f) f' Q := by
  intro inner c w hinner hcalm hrun
  obtain ⟨a, v, hqa, hfa⟩ := Walk.exists_of_run_bind hrun
  obtain ⟨b, inner', rfl, hinner', hcalm', -, hP⟩ := hq inner a v hinner hcalm hqa
  obtain rfl : inner = [] := List.map_eq_nil_iff.1 hinner
  obtain rfl : inner' = [] := List.map_eq_nil_iff.1 hinner'
  exact hf a b hP [] c w rfl hcalm hfa

theorem Mirrors.throw {P : α → β → Prop} {e : VisitError} {q : IndentWalk β} :
    Mirrors p k values outer (throw e) q P := nofun

/-- Walks that mirror each other are coupled. -/
def mirroring (p : NodeId → Bool) (k : Nat) (values : List FrameValue) (outer : Trail IndentNote) :
    Couples IndentWalk IndentWalk where
  Hold q q' P := Mirrors p k values outer q q' P
  pure := .pure
  bind := .bind

theorem mirrors_liftM (e : Except VisitError α) :
    Mirrors p k values outer (liftM e : IndentWalk α) (liftM e : IndentWalk α) Eq := by
  intro inner a w hinner hcalm hrun
  cases e with
  | error e => cases hrun
  | ok b =>
    cases hrun
    exact ⟨_, inner, rfl, hinner, hcalm, rfl, rfl⟩

theorem mirrors_trail : Mirrors p k values outer Walk.trail Walk.trail fun trail trail' =>
    trail' = without p trail ∧ ∃ inner : Trail IndentNote, trail = inner ++ outer ∧
      inner.values = values := by
  rintro inner _ _ hinner hcalm ⟨⟩
  exact ⟨_, inner, rfl, hinner, hcalm, rfl, rfl, inner, rfl, hinner⟩

theorem mirrors_modifyNoteAt {distance : Nat} {f : IndentNote → IndentNote}
    (hdistance : distance < values.length)
    (hf : ∀ note, IndentNote.afterAnnotation (f note) = note.afterAnnotation) :
    Mirrors p k values outer (modifyNoteAt distance f) (modifyNoteAt distance f)
      fun _ _ => True := by
  rintro inner _ _ rfl hcalm ⟨⟩
  have hlength : distance < inner.length := by simpa [Trail.values] using hdistance
  have happend : mapNoteAt distance f (inner ++ outer) = _ := mapNoteAt_append hlength f
  refine ⟨(), inner.mapNoteAt distance f, congrArg (Traversal.mk · ()) happend,
    values_mapNoteAt .., ?_, ?_, trivial⟩
  · rw [← happend]
    exact hcalm.of_marks_le (values_mapNoteAt ..) (Nat.le_of_eq (marks_mapNoteAt distance hf _))
  · rw [← happend, ← mapNoteAt_without]
    rfl

theorem mirrors_setColumn {distance : Nat} (hdistance : distance < values.length) (column : Int) :
    Mirrors p k values outer (setColumn distance column) (setColumn distance column)
      fun _ _ => True :=
  mirrors_modifyNoteAt hdistance fun _ => rfl

theorem mirrors_setStep {distance : Nat} (hdistance : distance < values.length)
    (step : IndentStep) :
    Mirrors p k values outer (setStep distance step) (setStep distance step) fun _ _ => True :=
  mirrors_modifyNoteAt hdistance fun _ => rfl

/-- One frame further down, where an annotation's frame is inside that of another one. -/
theorem Mirrors.within {v : FrameValue} {P : α → β → Prop} {q : IndentWalk α} {q' : IndentWalk β}
    (hv : v.kind? = some .annotationUse → ∃ u ∈ values ++ outer.values,
      u.kind? = some .annotationUse)
    (h : Mirrors p k (v :: values) outer q q' P) :
    Mirrors p k values outer (Walk.within v q) (Walk.within (v.without p) q') P := by
  intro inner a w hinner hcalm hrun
  obtain ⟨u, hq, rfl⟩ := Walk.exists_of_run_within hrun
  obtain ⟨b, deeper, rfl, hdeeper, hcalm', hq', hP⟩ :=
    h (fresh v :: inner) a u (congrArg (v :: ·) hinner) (hcalm.cons v) hq
  obtain ⟨frame, inner', rfl⟩ := List.exists_cons_of_ne_nil
    (show deeper ≠ [] by rintro rfl; cases hdeeper)
  obtain ⟨hframe, hinner'⟩ := List.cons.inj hdeeper
  refine ⟨b, inner', rfl, hinner', ?_, ?_, hP⟩
  · by_cases hkind : v.kind? = some .annotationUse
    · refine .inl (hasAnnotationFrame_iff.2 ?_)
      rw [Trail.values, List.map_append, show inner'.map Frame.value = values from hinner']
      exact hv hkind
    · exact hcalm'.tail (hframe ▸ hkind)
  · have hq' : q'.run ⟨fresh (v.without p) :: without p (inner ++ outer), ()⟩ = _ := hq'
    rw [Walk.run_within, hq']
    rfl

theorem mirrors_aligns (h : Sheltered values outer) (hne : values ≠ []) :
    Mirrors p k values outer alignsWithAnnotation alignsWithAnnotation Eq := by
  rintro inner a w rfl hcalm hrun
  obtain ⟨inner', halign, hvalues, hcalm'⟩ := exists_align (fun hnil => hne (by rw [hnil]; rfl))
    h.outer_ne h.calm h.last h.head hcalm
  rw [run_aligns] at hrun
  obtain ⟨rfl, rfl⟩ := Prod.mk.inj (Except.ok.inj hrun)
  refine ⟨_, inner', congrArg (Traversal.mk · ()) halign, hvalues, hcalm', ?_, rfl⟩
  rw [run_aligns, align_without, halign]

end IndentWalk

/-! ### Spaces and elements -/

section Elements

open IndentWalk

variable {p : NodeId → Bool} {k : Nat} {values : List FrameValue} {outer : Trail IndentNote}
  {style : IndentStyle}

theorem mirrors_indentAt (h : Sheltered values outer) (hne : values ≠ []) (l : SpaceSlot)
    (s : Space) :
    Mirrors p k values outer (indentAt style l s) (indentAt style l s) Eq := by
  have hpos : 0 < values.length := List.length_pos_of_ne_nil hne
  refine .bind (mirrors_modifyNoteAt hpos ?_) fun _ _ _ => mirrors_trail.bind ?_
  · exact fun _ => rfl
  rintro _ _ ⟨rfl, inner, rfl, hinner⟩
  obtain ⟨frame, rest, rfl⟩ := List.exists_cons_of_ne_nil
    (show inner ≠ [] by rintro rfl; exact hne hinner.symm)
  obtain ⟨parent, above, habove⟩ := List.exists_cons_of_ne_nil
    (List.append_ne_nil_of_right_ne_nil rest h.outer_ne)
  rw [List.cons_append, habove]
  refine (mirrors_aligns h hne).bind ?_
  rintro aligned _ rfl
  refine .ite (fun _ => .pure rfl) fun _ => ?_
  have hcolumn : Trail.column (frame.without p :: parent.without p :: above.map (Frame.without p)) =
      Trail.column (frame :: parent :: above) := column_without (frame :: parent :: above)
  have hstep : indentStepAt l s aligned (frame.without p)
      (parent.without p :: above.map (Frame.without p)) =
        indentStepAt l s aligned frame (parent :: above) :=
    indentStepAt_without l s aligned frame (parent :: above)
  rw [hstep, hcolumn, Frame.value_without, setsColumn_without]
  refine .ite (fun _ => ?_) fun _ => .pure rfl
  exact (mirrors_setColumn hpos _).bind fun _ _ _ => .pure rfl

variable {visit visit' : Tree → IndentWalk Tree} {l : FollowedSlot} {x : Followed Tree}

/-- The second tree is the first one without the statements that satisfy `p`. -/
abbrev Tree.Loses (p : NodeId → Bool) (t u : Tree) : Prop := t.without p = u

/-- The answers to an element in the tree with and without some statements. -/
abbrev Followed.Loses (p : NodeId → Bool) (l : FollowedSlot) :
    Followed Tree → Followed Tree → Prop :=
  Followed.Rel (Tree.Loses p) (fun _ => Eq) l

section Visited

variable (hvisit : Mirrors p k values outer (visit x.element) (visit' (x.element.without p))
  (Tree.Loses p))

include hvisit

theorem mirrors_indentElement (h : Sheltered values outer) (hne : values ≠ []) :
    Mirrors p k values outer (indentElement style visit l x)
      (indentElement style visit' l (x.map (Tree.without p))) (Followed.Loses p l) :=
  hvisit.bind fun _ _ ht => (mirrors_indentAt h hne _ _).bind fun _ _ hs => .pure ⟨ht, hs⟩

theorem mirrors_indentElementTo (column : Int) :
    Mirrors p k values outer (indentElementTo style visit l column x)
      (indentElementTo style visit' l column (x.map (Tree.without p))) (Followed.Loses p l) :=
  hvisit.bind fun _ _ ht => .pure ⟨ht, rfl⟩

theorem mirrors_indentElementFrom (hvalues : 1 < values.length) (start column after : Int) :
    Mirrors p k values outer (indentElementFrom style visit l start column after x)
      (indentElementFrom style visit' l start column after (x.map (Tree.without p)))
      (Followed.Loses p l) :=
  (mirrors_setColumn hvalues _).bind fun _ _ _ => hvisit.bind fun _ _ ht =>
    (mirrors_setColumn hvalues _).bind fun _ _ _ => .pure ⟨ht, rfl⟩

theorem mirrors_indentForPart (h : Sheltered values outer) (hvalues : 1 < values.length)
    (column : Int) {around : Trail IndentNote}
    (haround : ∀ frame ∈ around, ∀ t ∈ frame.value.tree?, t.Headed) :
    Mirrors p k values outer (indentForPart style visit l column around x)
      (indentForPart style visit' l column (without p around) (x.map (Tree.without p)))
      (Followed.Loses p l) := by
  have hpart (visit : Tree → IndentWalk Tree) (around : Trail IndentNote) (x : Followed Tree) :
      indentForPart style visit l column around x =
        if around.head?.any fun frame => frame.value.initStartsLine then
          indentElement style visit l x
        else (do
          let initColumn ← around.forInitColumn
          indentElementFrom style visit l (initColumn - style.continuation) column initColumn x) :=
    rfl
  have hstarts : (without p around).head?.any (fun frame => frame.value.initStartsLine) =
      around.head?.any fun frame => frame.value.initStartsLine := by
    cases around with
    | nil => rfl
    | cons frame above => exact FrameValue.initStartsLine_without frame.value
  rw [hpart, hpart, hstarts, forInitColumn_without haround]
  have hne : values ≠ [] := List.ne_nil_of_length_pos (by omega)
  refine .ite (fun _ => mirrors_indentElement hvisit h hne) fun _ => ?_
  refine (mirrors_liftM _).bind ?_
  rintro initColumn _ rfl
  exact mirrors_indentElementFrom hvisit hvalues _ _ _

theorem mirrors_indentParameter (hvalues : 1 < values.length) (column : Int)
    (around : Trail IndentNote) :
    Mirrors p k values outer (indentParameter style visit l column around x)
      (indentParameter style visit' l column (without p around) (x.map (Tree.without p)))
      (Followed.Loses p l) := by
  unfold indentParameter
  rw [elements_without]
  cases around.elements with
  | nil => exact .throw
  | cons first rest =>
    have hleading : (first.map (Tree.without p)).element.leading = first.element.leading :=
      Tree.leading_without _
    rw [List.map_cons]
    dsimp only
    rw [hleading]
    refine .ite (fun _ => mirrors_indentElementTo hvisit column) fun _ => ?_
    refine .ite (fun _ => .pure ⟨rfl, rfl⟩) fun _ => ?_
    exact mirrors_indentElementFrom hvisit hvalues _ _ _

theorem mirrors_indentArgument (hvalues : 1 < values.length) (column : Int) :
    Mirrors p k values outer (indentArgument style visit l column x)
      (indentArgument style visit' l column (x.map (Tree.without p))) (Followed.Loses p l) := by
  have hto : Mirrors p k values outer (indentElementTo style visit l column x)
      (indentElementTo style visit' l column (x.map (Tree.without p))) (Followed.Loses p l) :=
    mirrors_indentElementTo hvisit column
  unfold indentArgument
  have hinline : (x.map (Tree.without p)).element.isInlineLambda = x.element.isInlineLambda :=
    Tree.isInlineLambda_without _
  have hleading : (x.map (Tree.without p)).element.leading = x.element.leading :=
    Tree.leading_without _
  rw [hinline, hleading]
  exact .ite (fun _ => (mirrors_setColumn hvalues _).bind fun _ _ _ => hto) fun _ => hto

theorem mirrors_indentReceiver (h : Sheltered values outer) (hvalues : 1 < values.length)
    (column : Int) :
    Mirrors p k values outer (indentReceiver style visit l column x)
      (indentReceiver style visit' l column (x.map (Tree.without p))) (Followed.Loses p l) := by
  refine mirrors_trail.bind ?_
  rintro trail _ ⟨rfl, -⟩
  rw [chainColumn_without]
  refine (mirrors_setColumn hvalues _).bind fun _ _ _ => ?_
  refine (mirrors_indentElement hvisit h (List.ne_nil_of_length_pos (by omega))).bind ?_
  intro y y' hy
  exact (mirrors_setColumn hvalues _).bind fun _ _ _ => .pure hy

theorem mirrors_indentAnnotationArgument (h : Sheltered values outer) (hvalues : 1 < values.length)
    (around : Trail IndentNote) :
    Mirrors p k values outer (indentAnnotationArgument style visit l around x)
      (indentAnnotationArgument style visit' l (without p around) (x.map (Tree.without p)))
      (Followed.Loses p l) := by
  have hne : values ≠ [] := List.ne_nil_of_length_pos (by omega)
  have hlast : ((without p around).elements.getLast?.any fun last =>
      last.element.id == (x.map (Tree.without p)).element.id) =
        around.elements.getLast?.any fun last => last.element.id == x.element.id := by
    rw [elements_without, List.getLast?_map, Option.any_map]
    simp [Followed.map]
  refine hvisit.bind fun t u ht => ?_
  rw [hlast]
  have hafter : Mirrors p k values outer
      (indentAt style (.after l) x.after >>= fun s => pure ⟨t, s⟩)
      (indentAt style (.after l) x.after >>= fun s => pure ⟨u, s⟩) (Followed.Loses p l) :=
    (mirrors_indentAt h hne _ _).bind fun _ _ hs => .pure ⟨ht, hs⟩
  exact .ite (fun _ => (mirrors_setStep hvalues _).bind fun _ _ _ => hafter) fun _ => hafter

theorem mirrors_indentInlineArgument (h : Sheltered values outer) (hne : values ≠ [])
    (column : Int) (around : Trail IndentNote) :
    Mirrors p k values outer (indentInlineArgument style visit l column around x)
      (indentInlineArgument style visit' l column (without p around) (x.map (Tree.without p)))
      (Followed.Loses p l) := by
  have hlater : ((((without p around).elements.dropWhile fun a =>
      a.element.id != (x.map (Tree.without p)).element.id).drop 1).any fun a =>
        a.element.leading.hasNewline) =
      ((around.elements.dropWhile fun a => a.element.id != x.element.id).drop 1).any fun a =>
        a.element.leading.hasNewline := by
    rw [elements_without, List.dropWhile_map, ← List.map_drop, List.any_map]
    simp [Function.comp_def, Followed.map]
  have hcontinues : (x.map (Tree.without p)).element.continuesCall = x.element.continuesCall :=
    Tree.continuesCall_without _
  have helement : Mirrors p k values outer (indentElement style visit l x)
      (indentElement style visit' l (x.map (Tree.without p))) (Followed.Loses p l) :=
    mirrors_indentElement hvisit h hne
  unfold indentInlineArgument
  dsimp only
  rw [hlater, hcontinues]
  refine .ite (fun _ => ?_) fun _ => mirrors_indentElementTo hvisit column
  refine .ite (fun _ => ?_) fun _ => helement
  exact (mirrors_setColumn (List.length_pos_of_ne_nil hne) _).bind fun _ _ _ => helement

end Visited

theorem mirrors_indentFollowed (h : Sheltered values outer) (hne : values ≠ [])
    (hvisit : Mirrors p k (.followed l x.element :: values) outer (visit x.element)
      (visit' (x.element.without p)) (Tree.Loses p)) :
    Mirrors p k values outer (indentFollowed style visit l x)
      (indentFollowed style visit' l (x.map (Tree.without p))) (Followed.Loses p l) := by
  have hinner : Sheltered (.followed l x.element :: values) outer := h.cons (.inl hne) nofun
  have hlength : 1 < (FrameValue.followed l x.element :: values).length :=
    Nat.succ_lt_succ (List.length_pos_of_ne_nil hne)
  have hleading : (x.map (Tree.without p)).element.leading = x.element.leading :=
    Tree.leading_without _
  refine .within nofun (mirrors_trail.bind ?_)
  rintro trail _ ⟨rfl, inner, htrail, hvalues⟩
  have haround : ∀ frame ∈ trail.tail, ∀ t ∈ frame.value.tree?, t.Headed := by
    intro frame hframe
    refine h.headed _ ?_
    have htail : Trail.values trail.tail = values ++ outer.values := by
      rw [Trail.values, List.map_tail, htrail, List.map_append]
      exact congrArg (List.tail <| · ++ _) hvalues
    rw [← htail]
    exact List.mem_map_of_mem hframe
  rw [column_without, tail_without, hleading]
  refine .ite (fun _ => ?_) fun _ => ?_
  · unfold indentBrokenElement
    split
    · exact mirrors_indentForPart hvisit hinner hlength _ haround
    · exact mirrors_indentForPart hvisit hinner hlength _ haround
    · exact mirrors_indentParameter hvisit hlength _ _
    · exact mirrors_indentArgument hvisit hlength _
    · exact mirrors_indentElementTo hvisit _
    · exact mirrors_indentElementTo hvisit _
    · exact mirrors_indentElementTo hvisit _
    · exact mirrors_indentElementTo hvisit _
    · exact mirrors_indentReceiver hvisit hinner hlength _
    · exact mirrors_indentAnnotationArgument hvisit hinner hlength _
    · exact mirrors_indentElement hvisit hinner (List.cons_ne_nil _ _)
  · unfold indentInlineElement
    split
    · exact mirrors_indentInlineArgument hvisit hinner (List.cons_ne_nil _ _) _ _
    · exact mirrors_indentInlineArgument hvisit hinner (List.cons_ne_nil _ _) _ _
    · exact hvisit.bind fun _ _ ht => .pure ⟨ht, rfl⟩

theorem mirrors_indentSeries (h : Sheltered values outer) (hne : values ≠ []) {l : SeriesSlot}
    {s : Series Tree}
    (hvisit : ∀ x ∈ s.elements,
      Mirrors p k (.followed l.element x.element :: .series l s :: values) outer (visit x.element)
        (visit' (x.element.without p)) (Tree.Loses p)) :
    Mirrors p k values outer (indentSeries style visit l s)
      (indentSeries style visit' l (s.mapElements (List.map (Followed.map (Tree.without p)))))
      (Series.Rel (Tree.Loses p) (fun _ => Eq) l) := by
  have hinner : Sheltered (.series l s :: values) outer := h.cons (.inl hne) nofun
  have hpos : 0 < (FrameValue.series l s :: values).length := Nat.succ_pos _
  have helements : Mirrors p k (.series l s :: values) outer
      (s.elements.mapM (indentFollowed style visit l.element))
      ((s.elements.map (Followed.map (Tree.without p))).mapM (indentFollowed style visit' l.element))
      (List.Forall₂ (Followed.Loses p l.element)) := by
    refine (mirroring p k _ outer).mapM (P := fun x y => x.map (Tree.without p) = y) ?_ ?_
    · rintro x hx _ rfl
      exact mirrors_indentFollowed hinner (List.cons_ne_nil _ _) (hvisit x hx)
    · exact List.forall₂_map_right_iff.2 (List.forall₂_same.2 fun _ _ => rfl)
  refine .within nofun (mirrors_trail.bind ?_)
  rintro trail _ ⟨rfl, -⟩
  rw [column_without]
  have hrest (before before' : Space) (hb : before = before') : Mirrors p k (.series l s :: values)
      outer (s.elements.mapM (indentFollowed style visit l.element) >>= fun xs => pure ⟨before, xs⟩)
      ((s.elements.map (Followed.map (Tree.without p))).mapM
        (indentFollowed style visit' l.element) >>= fun xs => pure ⟨before', xs⟩)
      (Series.Rel (Tree.Loses p) (fun _ => Eq) l) :=
    helements.bind fun _ _ hxs => .pure ⟨hb, hxs⟩
  have hopening : Mirrors p k (.series l s :: values) outer
      (indentAt style (.opening l) s.before) (indentAt style (.opening l) s.before) Eq :=
    mirrors_indentAt hinner (List.cons_ne_nil _ _) _ _
  have hbefore := hopening.bind hrest
  refine .ite (fun _ => ?_) fun _ => ?_
  · exact (mirrors_setStep hpos _).bind fun _ _ _ => (mirrors_setColumn hpos _).bind fun _ _ _ =>
      hrest _ _ rfl
  · exact .ite (fun _ => (mirrors_setStep hpos _).bind fun _ _ _ => hbefore) fun _ => hbefore

end Elements

/-! ### Layers -/

section Layers

open IndentWalk

variable {p : NodeId → Bool} {k : Nat} {values : List FrameValue} {outer : Trail IndentNote}
  {style : IndentStyle} {visit visit' : Tree → IndentWalk Tree}

theorem Followed.Rel.map_eq {f : Tree → Tree} {l : FollowedSlot} {x y : Followed Tree}
    (h : Followed.Rel (fun a b => f a = b) (fun _ => Eq) l x y) : x.map f = y := by
  obtain ⟨helement, hafter⟩ := h
  exact congrArg₂ Followed.mk helement hafter

theorem Series.Rel.map_eq {f : Tree → Tree} {l : SeriesSlot} {s s' : Series Tree}
    (h : Series.Rel (fun a b => f a = b) (fun _ => Eq) l s s') :
    s.mapElements (List.map (Followed.map f)) = s' := by
  obtain ⟨hbefore, helements⟩ := h
  refine congrArg₂ Series.mk hbefore ?_
  rw [← List.forall₂_eq_eq_eq, List.forall₂_map_left_iff]
  exact helements.imp fun _ _ => Followed.Rel.map_eq

theorem kind_of_run_traverse {act : SlotActions IndentWalk Tree Tree} {x y : Shape Tree}
    {w v : Traversal IndentNote Unit} (h : (x.traverse act).run w = .ok (y, v)) :
    y.kind = x.kind := by
  cases x <;> simp only [Shape.traverse] at h
  case' unary => split at h
  all_goals
    repeat obtain ⟨_, _, -, h⟩ := Walk.exists_of_run_bind h
    cases h
    rfl

/-- A layer that is no block is traversed alike in the tree with and without some statements. -/
theorem mirrors_traverse (h : Sheltered values outer) (hne : values ≠ []) {t : Tree}
    (ht : t.kind ≠ .block)
    (hvisit : ∀ c ∈ t.children, ∀ values, Sheltered values outer → values ≠ [] →
      Mirrors p k values outer (visit c) (visit' (c.without p)) (Tree.Loses p)) :
    Mirrors p k values outer
      (t.shape.traverse ((indenter style none).actions visit))
      ((t.without p).shape.traverse ((indenter style none).actions visit'))
      fun x y => x.kind = t.kind ∧ Shape.Rel (Tree.Loses p) (fun _ => Eq) x y := by
  have below (v : FrameValue) (hv : v.tree? = none) : Sheltered (v :: values) outer :=
    h.cons (.inl hne) (by rw [hv]; nofun)
  have hslots : (mirroring p k values outer).Relate (Tree.Loses p) (fun _ => Eq) (Tree.Loses p)
      (fun _ => Eq) ((indenter style none).actions visit)
      ((indenter style none).actions visit') t.shape := {
    part := by
      rintro c hc _ rfl
      exact hvisit c hc _ h hne
    space := by
      rintro l s _ rfl
      exact mirrors_indentAt h hne l s
    followed := by
      intro l hl y hy y' hrel
      rw [← hrel.map_eq]
      exact mirrors_indentFollowed h hne (hvisit _ hy _ (below _ rfl) (List.cons_ne_nil _ _))
    preceded := by
      rintro l ⟨before, element⟩ hy ⟨_, _⟩ ⟨hbefore, helement⟩
      obtain rfl : before = _ := hbefore
      obtain rfl : element.without p = _ := helement
      have hinner := below (.preceded l) rfl
      refine .within (v := .preceded l) nofun ?_
      refine (mirrors_indentAt hinner (List.cons_ne_nil _ _) _ _).bind fun _ _ hs => ?_
      refine (hvisit _ hy _ hinner (List.cons_ne_nil _ _)).bind fun _ _ ht => ?_
      exact .pure ⟨hs, ht⟩
    word := by
      rintro l s _ rfl
      exact .within (v := .preceded l) nofun
        (mirrors_indentAt (below _ rfl) (List.cons_ne_nil _ _) _ s)
    series := by
      intro l s hs s' hrel
      rw [← hrel.map_eq]
      refine mirrors_indentSeries h hne fun x hx => ?_
      have hinner : Sheltered (.followed l.element x.element :: .series l s :: values) outer :=
        (below (.series l s) rfl).cons (.inl (List.cons_ne_nil _ _)) nofun
      exact hvisit _ (hs (List.mem_map_of_mem hx)) _ hinner (List.cons_ne_nil _ _) }
  have hrel := Couples.traverse hslots (Tree.rel_without (p := p) ht)
  intro inner x w hinner hcalm hrun
  obtain ⟨y, inner', hw, hinner', hcalm', hy, hxy⟩ := hrel inner x w hinner hcalm hrun
  exact ⟨y, inner', hw, hinner', hcalm', hy, kind_of_run_traverse hrun, hxy⟩

/-- A statement of a block is indented without the frames around it. -/
theorem mirrors_statement (h : Sheltered [] outer) {x : Followed Tree}
    (hvisit : Mirrors p k [.followed .blockStatement x.element] outer (visit x.element)
      (visit' (x.element.without p)) fun a b => a.id = x.element.id ∧ a.without p = b) :
    Mirrors p k [] outer (indentFollowed style visit .blockStatement x)
      (indentFollowed style visit' .blockStatement (x.map (Tree.without p)))
      fun y z => y.element.id = x.element.id ∧ y.map (Tree.without p) = z := by
  have hinner : Sheltered [.followed .blockStatement x.element] outer := h.cons (.inr nofun) nofun
  have hleading : (x.map (Tree.without p)).element.leading = x.element.leading :=
    Tree.leading_without _
  refine .within (v := .followed .blockStatement x.element) nofun (mirrors_trail.bind ?_)
  rintro trail _ ⟨rfl, -⟩
  rw [hleading]
  refine .ite (fun _ => ?_) fun _ => ?_
  · refine hvisit.bind fun a b hab => ?_
    refine (mirrors_indentAt hinner (List.cons_ne_nil _ _) _ _).bind fun s s' hs => .pure ?_
    exact ⟨hab.1, congrArg₂ Followed.mk hab.2 hs⟩
  · exact hvisit.bind fun a b hab => .pure ⟨hab.1, congrArg (Followed.mk · _) hab.2⟩

/-- The statements of a block are indented alike with and without those that satisfy `p`, since what
is done at a statement is gone when the next one is indented. -/
theorem mirrors_statements (h : Sheltered [] outer) {xs : List (Followed Tree)}
    (hvisit : ∀ x ∈ xs, p x.element.id = false →
      Mirrors p k [.followed .blockStatement x.element] outer (visit x.element)
        (visit' (x.element.without p)) fun a b => a.id = x.element.id ∧ a.without p = b)
    (hdeleted : ∀ x ∈ xs, Mirrors (fun _ => false) k [.followed .blockStatement x.element] outer
      (visit x.element) (visit (x.element.without fun _ => false))
      fun a b => a.id = x.element.id ∧ a.without (fun _ => false) = b) :
    Mirrors p k [] outer (xs.mapM (indentFollowed style visit .blockStatement))
      ((Tree.keep p xs).mapM (indentFollowed style visit' .blockStatement))
      fun ys zs => Tree.keep p ys = zs := by
  induction xs with
  | nil => exact .pure rfl
  | cons x xs ih =>
    have hrest := ih (fun y hy => hvisit y (List.mem_cons_of_mem x hy))
      fun y hy => hdeleted y (List.mem_cons_of_mem x hy)
    by_cases hx : p x.element.id
    · rw [Tree.keep_cons_of_deleted hx, List.mapM_cons]
      refine .skip (mirrors_statement h (hdeleted x List.mem_cons_self)) ?_
      rintro y _ ⟨hy, -⟩
      rw [← bind_pure (List.mapM _ (Tree.keep p xs))]
      refine hrest.bind ?_
      rintro ys _ rfl
      exact .pure (Tree.keep_cons_of_deleted (by rwa [hy]) ys)
    · rw [Bool.not_eq_true] at hx
      rw [Tree.keep_cons hx, List.mapM_cons, List.mapM_cons]
      refine (mirrors_statement h (hvisit x List.mem_cons_self hx)).bind ?_
      rintro y _ ⟨hy, rfl⟩
      refine hrest.bind ?_
      rintro ys _ rfl
      exact .pure (Tree.keep_cons (by rwa [hy]) ys)

theorem marks_of_run_setColumn {distance : Nat} {column : Int} {w w' : Traversal IndentNote Unit}
    {u : Unit} (h : (setColumn distance column).run w = .ok (u, w')) :
    w'.trail.marks = w.trail.marks := by
  cases h
  refine marks_mapNoteAt distance (f := fun note => { note with column := some column }) ?_ w.trail
  exact fun _ => rfl

/-- Outside annotations a space takes a mark off. -/
theorem marks_of_run_indentAt {frame : Frame IndentNote} {trail : Trail IndentNote}
    (htrail : trail.hasAnnotationFrame = false) (hne : trail ≠ []) {l : SpaceSlot} {s s' : Space}
    {w : Traversal IndentNote Unit}
    (hrun : (indentAt style l s).run ⟨frame :: trail, ()⟩ = .ok (s', w)) :
    w.trail.marks = marks (frame :: trail) - 1 := by
  obtain ⟨parent, above, rfl⟩ := List.exists_cons_of_ne_nil hne
  obtain ⟨_, u, hnote, hrun⟩ := Walk.exists_of_run_bind hrun
  cases hnote
  obtain ⟨_, u, htrail', hrun⟩ := Walk.exists_of_run_bind hrun
  cases htrail'
  obtain ⟨aligned, u, halign, hrun⟩ := Walk.exists_of_run_bind hrun
  rw [run_aligns] at halign
  cases halign
  have hmarks : (align ({ frame with note := { frame.note with lastSlot := some l } } ::
      parent :: above)).2.marks = marks (frame :: parent :: above) - 1 :=
    (marks_align htrail hne).trans rfl
  by_cases hinline : s.comments.isEmpty && !s.hasNewline
  · rw [if_pos hinline] at hrun
    cases hrun
    exact hmarks
  · rw [if_neg hinline] at hrun
    dsimp only at hrun
    by_cases hsets : frame.value.setsColumn
    · rw [if_pos hsets] at hrun
      obtain ⟨_, u, hset, hrun⟩ := Walk.exists_of_run_bind hrun
      cases hrun
      exact (marks_of_run_setColumn hset).trans hmarks
    · rw [if_neg hsets] at hrun
      cases hrun
      exact hmarks

/-- What is done without an inner frame leaves all frames as they are. -/
theorem IndentWalk.Mirrors.of_nil {α β : Type} {P : α → β → Prop} {q : IndentWalk α}
    {q' : IndentWalk β}
    (h : ∀ inner : Trail IndentNote, inner.values = values → Calm 0 (inner ++ outer) →
      Mirrors p k [] (inner ++ outer) q q' P) :
    Mirrors p 0 values outer q q' P := by
  intro inner a w hinner hcalm hrun
  obtain ⟨b, inner', rfl, hinner', -, hq', hP⟩ :=
    h inner hinner hcalm [] a w rfl (hcalm.mono (Nat.zero_le k)) hrun
  obtain rfl : inner' = [] := List.map_eq_nil_iff.1 hinner'
  exact ⟨b, inner, rfl, hinner, hcalm, hq', hP⟩

/-- The space before a node that is no annotation takes off the mark that is left. -/
theorem mirrors_indentAt_bind {γ δ : Type} {Q : γ → δ → Prop} {v : FrameValue}
    (h : Sheltered (v :: values) outer) (hv : v.kind? ≠ some .annotationUse) {l : SpaceSlot}
    {s : Space} {f : Space → IndentWalk γ} {f' : Space → IndentWalk δ}
    (hf : ∀ s, Mirrors p 0 (v :: values) outer (f s) (f' s) Q) :
    Mirrors p 1 (v :: values) outer (indentAt style l s >>= f) (indentAt style l s >>= f') Q := by
  intro inner c w hinner hcalm hrun
  obtain ⟨s₁, u, hspace, hfs⟩ := Walk.exists_of_run_bind hrun
  obtain ⟨_, inner₁, rfl, hinner₁, hcalm₁, hspace', rfl⟩ :=
    mirrors_indentAt h (List.cons_ne_nil _ _) l s inner s₁ u hinner hcalm hspace
  have hquiet : Calm 0 (inner₁ ++ outer) := by
    obtain ⟨frame, rest, rfl⟩ := List.exists_cons_of_ne_nil
      (show inner ≠ [] by rintro rfl; cases hinner)
    have hvalues : Trail.values (inner₁ ++ outer) = Trail.values (frame :: rest ++ outer) := by
      rw [Trail.values, Trail.values, List.map_append, List.map_append]
      exact congrArg (· ++ _) (hinner₁.trans hinner.symm)
    cases hrest : Trail.hasAnnotationFrame (rest ++ outer) with
    | true =>
      refine .inl ?_
      rw [hasAnnotationFrame_congr hvalues, List.cons_append, hasAnnotationFrame, List.any_cons]
      exact Bool.or_eq_true_iff.2 (.inr hrest)
    | false =>
      have hmarks := marks_of_run_indentAt hrest (List.append_ne_nil_of_right_ne_nil _ h.outer_ne)
        hspace
      have hle : marks (frame :: (rest ++ outer)) ≤ 1 := by
        refine hcalm.resolve_left fun hann => ?_
        rw [List.cons_append, hasAnnotationFrame, List.any_cons, Bool.or_eq_true_iff,
          beq_iff_eq] at hann
        refine hann.elim (fun hframe => hv ?_) fun hann => ?_
        · rw [← (List.cons.inj hinner).1]
          exact hframe
        · exact Bool.noConfusion (hrest.symm.trans hann)
      exact .inr (by simp only [hmarks]; omega)
  obtain ⟨d, inner₂, rfl, hinner₂, hcalm₂, hfs', hQ⟩ := hf s₁ inner₁ c w hinner₁ hquiet hfs
  refine ⟨d, inner₂, rfl, hinner₂, hcalm₂.mono (Nat.zero_le 1), ?_, hQ⟩
  rw [StateT.run_bind, hspace']
  exact hfs'

end Layers

/-! ### Trees -/

section Trees

open IndentWalk

variable {p : NodeId → Bool} {values : List FrameValue} {outer : Trail IndentNote}
  {style : IndentStyle} {visit visit' : Tree → IndentWalk Tree} {t : Tree}

/-- Wherever the tree stands, but for an annotation inside a frame, it is visited alike in the tree
with and without the statements that satisfy `p`. -/
def IndentWalk.VisitsAlike (p : NodeId → Bool) (visit visit' : Tree → IndentWalk Tree) (t : Tree) :
    Prop :=
  ∀ values outer, Sheltered values outer → values ≠ [] ∨ t.kind ≠ .annotationUse →
    Mirrors p 1 values outer (visit t) (visit' (t.without p)) fun a b =>
      a.id = t.id ∧ a.without p = b

theorem without_node {i : NodeId} {s : Space} {x y : Shape Tree} (hx : x.kind ≠ .block)
    (hxy : Shape.Rel (Tree.Loses p) (fun _ => Eq) x y) :
    (Tree.node i s x).without p = .node i s y := by
  have hy : y = x.map (Tree.without p) := hxy.eq_respaced
  rw [Tree.without_eq, hy]
  refine congrArg (Tree.node i s) ?_
  rw [Tree.shape, Shape.without_of_kind hx]

theorem without_node_block {i : NodeId} {s : Space} {afterStatic : Option Space}
    {xs : List (Followed Tree)} {beforeClose : Space} :
    (Tree.node i s (.block afterStatic xs beforeClose)).without p =
      .node i s (.block afterStatic (Tree.keep p xs) beforeClose) := by
  rw [Tree.without_eq]
  exact congrArg (Tree.node i s) ((Tree.shape_without _).symm.trans (Tree.shape_without_block rfl))

theorem mirrors_walk (h : Sheltered values outer) (hne : values ≠ [])
    (ht : t.kind ≠ .block) (hvisit : ∀ c ∈ t.children, VisitsAlike p visit visit' c) :
    Mirrors p 1 values outer ((indenter style none).walk visit t)
      ((indenter style none).walk visit' (t.without p)) fun a b =>
        a.id = t.id ∧ a.without p = b := by
  unfold Visitor.walk
  rw [Tree.kind_without, Tree.leading_without, Tree.id_without]
  refine (mirrors_indentAt h hne _ _).bind ?_
  rintro leading _ rfl
  refine (mirrors_traverse h hne ht fun c hc values hS hne => ?_).bind ?_
  · exact (hvisit c hc values outer hS (.inl hne)).mono fun _ _ hab => hab.2
  · rintro x y ⟨hkind, hxy⟩
    exact .pure ⟨rfl, without_node (hkind ▸ ht) hxy⟩

theorem mirrors_walk_block (h : Sheltered (.tree t :: values) outer) (ht : t.kind = .block)
    (hvisit : ∀ c ∈ (t.shape.without p).children, VisitsAlike p visit visit' c)
    (hdeleted : ∀ c ∈ t.children, VisitsAlike (fun _ => false) visit visit c) :
    Mirrors p 1 (.tree t :: values) outer ((indenter style none).walk visit t)
      ((indenter style none).walk visit' (t.without p)) fun a b =>
        a.id = t.id ∧ a.without p = b := by
  obtain ⟨afterStatic, xs, beforeClose, hx⟩ := Tree.exists_block ht
  have hstatement (x : Followed Tree) (hmem : x ∈ xs) : x.element ∈ t.children := by
    rw [Tree.children, hx]
    exact List.mem_map_of_mem hmem
  unfold Visitor.walk
  rw [Tree.kind_without, Tree.leading_without, Tree.id_without, hx, Tree.shape_without_block hx,
    Shape.traverse, Shape.traverse]
  have hkind : (FrameValue.tree t).kind? ≠ some .annotationUse := by
    simp [FrameValue.kind?, FrameValue.tree?, ht]
  refine mirrors_indentAt_bind h hkind fun leading => ?_
  have hspace (l : SpaceSlot) (s : Space) : Mirrors p 0 (.tree t :: values) outer
      (((indenter style none).actions visit).space l s)
      (((indenter style none).actions visit').space l s) Eq :=
    mirrors_indentAt h (List.cons_ne_nil _ _) l s
  have hstatic : Mirrors p 0 (.tree t :: values) outer
      (afterStatic.mapM (((indenter style none).actions visit).space .afterStatic))
      (afterStatic.mapM (((indenter style none).actions visit').space .afterStatic))
      (Option.Rel Eq) := by
    refine (mirroring p 0 _ outer).option_mapM (P := Eq) ?_ (by rw [option_rel_eq])
    rintro s _ _ rfl
    exact hspace .afterStatic s
  have hstatements : Mirrors p 0 (.tree t :: values) outer
      (xs.mapM (indentFollowed style visit .blockStatement))
      ((Tree.keep p xs).mapM (indentFollowed style visit' .blockStatement))
      fun ys zs => Tree.keep p ys = zs := by
    refine Mirrors.of_nil (k := 1) fun inner hinner hcalm => ?_
    have hinside : Sheltered [] (inner ++ outer) :=
      Sheltered.shift [] h hinner hcalm (by simpa using hkind) (by rintro _ ⟨⟩)
    refine mirrors_statements hinside (fun x hmem hkept => ?_) fun x hmem => ?_
    · refine hvisit _ ?_ _ _ (hinside.cons (.inr (by rintro ⟨⟩)) (by rintro _ ⟨⟩)) (.inl (List.cons_ne_nil _ _))
      rw [hx]
      exact List.mem_map_of_mem (List.mem_filter.2 ⟨hmem, by rw [hkept]; rfl⟩)
    · exact hdeleted _ (hstatement x hmem) _ _ (hinside.cons (.inr (by rintro ⟨⟩)) (by rintro _ ⟨⟩))
        (.inl (List.cons_ne_nil _ _))
  refine .bind (P := fun x y => (Tree.node t.id leading x).without p = .node t.id leading y) ?_ ?_
  · refine hstatic.bind fun a b hab => hstatements.bind fun ys zs hyz => ?_
    refine (hspace .blockEnd beforeClose).bind ?_
    rintro e _ rfl
    rw [option_rel_eq] at hab
    rw [← hab, ← hyz]
    exact .pure without_node_block
  · intro x y hxy
    exact .pure ⟨rfl, hxy⟩

/-- What is done at a node. -/
def atNode (style : IndentStyle) (visit : Tree → IndentWalk Tree) (t : Tree) : IndentWalk Tree := do
  setStep 0 (.ofKind t.kind)
  (indenter style none).walk visit t

/-- An annotation inside no other one leaves its mark on the frame around it. -/
theorem mirrors_annotation {v : FrameValue} (h : Sheltered (v :: values) outer) (ht : t.Headed)
    (hkind : t.kind = .annotationUse)
    (hnone : ∀ u ∈ v :: values ++ outer.values, u.kind? ≠ some .annotationUse)
    (hvisit : ∀ c ∈ t.children, VisitsAlike p visit visit' c) :
    Mirrors p 1 (v :: values) outer (Walk.within (.tree t) (atNode style visit t))
      (Walk.within (.tree (t.without p)) (atNode style visit' (t.without p))) fun a b =>
        a.id = t.id ∧ a.without p = b := by
  intro inner a w hinner hcalm hrun
  have hinside : Sheltered (.tree t :: v :: values) outer :=
    h.cons (.inl (List.cons_ne_nil _ _)) (by rintro _ ⟨⟩; exact ht)
  have houtside : Trail.hasAnnotationFrame (inner ++ outer) = false := by
    rw [← Bool.not_eq_true, hasAnnotationFrame_iff, Trail.values, List.map_append,
      show inner.map Frame.value = v :: values from hinner]
    rintro ⟨u, hu, hv⟩
    exact hnone u hu hv
  have hne : inner ++ outer ≠ [] := List.append_ne_nil_of_right_ne_nil _ h.outer_ne
  have hmarks : marks (inner ++ outer) ≤ 1 := hcalm.resolve_left (by simp [houtside])
  obtain ⟨u, hbody, rfl⟩ := Walk.exists_of_run_within hrun
  obtain ⟨_, u₁, hstep, hwalk⟩ := Walk.exists_of_run_bind hbody
  cases hstep
  obtain ⟨leading, u₁, hspace, hwalk⟩ := Walk.exists_of_run_bind hwalk
  let first : Frame IndentNote :=
    ⟨.tree t, false, { (default : IndentNote) with step := some (.ofKind t.kind) }⟩
  have hspace : (indentAt style (.leading t.kind) t.leading).run
      ⟨(first :: inner) ++ outer, ()⟩ = .ok (leading, u₁) := hspace
  -- the mark that is left is taken off before the name of the annotation
  have hmarks₁ : marks u₁.trail = 0 := by
    have h₁ := marks_of_run_indentAt houtside hne hspace
    have hfirst : marks (first :: (inner ++ outer)) = marks (inner ++ outer) := rfl
    omega
  have hcalms {frames : Trail IndentNote} (hframes : frames.values.head? = some (.tree t)) :
      Calm 1 frames := by
    obtain - | ⟨frame, frames⟩ := frames
    · cases hframes
    · refine .inl (hasAnnotationFrame_iff.2 ⟨_, List.mem_of_mem_head? hframes, ?_⟩)
      simp [FrameValue.kind?, FrameValue.tree?, hkind]
  obtain ⟨_, inner₁, rfl, hinner₁, -, hspace', rfl⟩ := mirrors_indentAt (p := p) hinside
    (List.cons_ne_nil _ _) (.leading t.kind) t.leading (first :: inner) leading u₁
    (congrArg (FrameValue.tree t :: ·) hinner) (hcalms rfl) hspace
  obtain ⟨f, g, rest, rfl, hf, hg, hrest⟩ := exists_cons_cons_of_values hinner₁
  -- the frames around the frame with the mark stay as they are
  have hquiet : marks (rest ++ outer) = 0 := by
    have hcons : marks (f :: g :: (rest ++ outer)) = 0 := hmarks₁
    rw [marks, List.countP_cons, List.countP_cons] at hcons
    rw [marks]
    omega
  have hpair : Sheltered [.tree t, v] (rest ++ outer) := by
    refine Sheltered.shift [.tree t, v] hinside hrest (.inr (Nat.le_of_eq hquiet)) ?_ ?_
    · exact fun u hu => hnone u (List.mem_append_left _ (List.mem_cons_of_mem v (List.mem_of_mem_head? hu)))
    · rintro u ⟨⟩
      exact hnone v List.mem_cons_self
  obtain ⟨x, _, htraverse, hwalk⟩ := Walk.exists_of_run_bind hwalk
  cases hwalk
  obtain ⟨y, inner₂, rfl, hinner₂, -, htraverse', hx, hxy⟩ :=
    mirrors_traverse hpair (List.cons_ne_nil _ _) (by rw [hkind]; decide)
      (fun c hc values hS hne => (hvisit c hc values _ hS (.inl hne)).mono fun _ _ hab => hab.2)
      [f, g] x u (by simp [Trail.values, hf, hg]) (hcalms (congrArg some hf)) htraverse
  obtain ⟨f₂, g₂, rest₂, rfl, -, hg₂, hnil⟩ := exists_cons_cons_of_values hinner₂
  obtain rfl : rest₂ = [] := List.map_eq_nil_iff.1 hnil
  refine ⟨.node t.id leading y, g₂ :: rest, rfl, ?_, .inr ?_, ?_, rfl, without_node ?_ hxy⟩
  · rw [Trail.values, List.map_cons, hg₂]
    exact congrArg (v :: ·) hrest
  · rw [marks] at hquiet
    rw [List.cons_append, marks, List.countP_cons, hquiet]
    split <;> omega
  · have hbody' : (atNode style visit' (t.without p)).run
        ⟨fresh (.tree (t.without p)) :: without p (inner ++ outer), ()⟩ =
          .ok (.node t.id leading y, ⟨without p (f₂ :: g₂ :: (rest ++ outer)), ()⟩) := by
      have hlast : ((t.without p).shape.traverse ((indenter style none).actions visit') >>= fun y =>
          pure (Tree.node t.id leading y) : IndentWalk Tree).run
            ⟨without p ([f, g] ++ (rest ++ outer)), ()⟩ =
          .ok (.node t.id leading y, ⟨without p ([f₂, g₂] ++ (rest ++ outer)), ()⟩) := by
        rw [StateT.run_bind, htraverse']
        rfl
      have hwalk' : ((indenter style none).walk visit' (t.without p)).run
          ⟨without p (first :: inner ++ outer), ()⟩ =
            .ok (.node t.id leading y, ⟨without p (f₂ :: g₂ :: (rest ++ outer)), ()⟩) := by
        have hspace' : ((indenter style none).space (.leading t.kind) t.leading).run
          ⟨without p (first :: inner ++ outer), ()⟩ = _ := hspace'
        unfold Visitor.walk
        rw [Tree.kind_without, Tree.leading_without, Tree.id_without, StateT.run_bind, hspace']
        exact hlast
      rw [atNode, Tree.kind_without, StateT.run_bind]
      exact hwalk'
    rw [Walk.run_within, hbody']
    rfl
  · rw [hx, hkind]
    decide

theorem visitWithin_indenter (n : Nat) (t : Tree) :
    (indenter style none).visitWithin (n + 1) t = (do
      if (← Walk.trail).isStopped then return t
      Walk.within (.tree t) (atNode style ((indenter style none).visitWithin n) t)) := by
  rw [Visitor.visitWithin]
  simp [indenter, atNode]

/-- Trees are indented alike with and without the statements that satisfy `p`. -/
theorem visitsAlike_indenter {n n' : Nat} (ht : t.Regular) (hn : t.height ≤ n)
    (hn' : (t.without p).height ≤ n') :
    VisitsAlike p ((indenter style none).visitWithin n) ((indenter style none).visitWithin n') t := by
  have hpos (t : Tree) : 0 < t.height := by rw [Tree.height_eq]; omega
  induction n generalizing n' p t with
  | zero => exact absurd (hpos t) (by omega)
  | succ n ih =>
    obtain - | n' := n'
    · exact absurd (hpos (t.without p)) (by omega)
    obtain ⟨hheaded, hparts⟩ := Tree.regular_iff.1 ht
    have hchild (c : Tree) (hc : c ∈ t.children) : c.height ≤ n := by
      have := Tree.height_lt_of_mem_children hc
      omega
    have hvisit (c : Tree) (hc : c ∈ (t.shape.without p).children) :
        VisitsAlike p ((indenter style none).visitWithin n)
          ((indenter style none).visitWithin n') c := by
      have hc' := Shape.children_without hc
      refine ih (hparts c hc') (hchild c hc') ?_
      have hmem : c.without p ∈ (t.without p).children := by
        rw [Tree.children, Tree.shape_without, Shape.children_map]
        exact List.mem_map_of_mem hc
      have := Tree.height_lt_of_mem_children hmem
      omega
    have hdeleted (c : Tree) (hc : c ∈ t.children) : VisitsAlike (fun _ => false)
        ((indenter style none).visitWithin n) ((indenter style none).visitWithin n) c :=
      ih (hparts c hc) (hchild c hc) (Nat.le_trans (Tree.height_without_le c) (hchild c hc))
    intro values outer hS hkind
    rw [visitWithin_indenter, visitWithin_indenter]
    refine mirrors_trail.bind ?_
    rintro trail _ ⟨rfl, -⟩
    rw [isStopped_without]
    refine .ite (fun _ => .pure ⟨rfl, rfl⟩) fun _ => ?_
    have hinside : Sheltered (.tree t :: values) outer := by
      refine hS.cons (hkind.imp_right fun h hv => h (Option.some.inj hv)) ?_
      rintro _ ⟨⟩
      exact hheaded
    have hstep : Mirrors p 1 (.tree t :: values) outer (setStep 0 (.ofKind t.kind))
        (setStep 0 (.ofKind (t.without p).kind)) fun _ _ => True := by
      rw [Tree.kind_without]
      exact mirrors_setStep (Nat.succ_pos _) _
    by_cases hblock : t.kind = .block
    · refine .within (v := .tree t) (fun hv => ?_) (hstep.bind fun _ _ _ => ?_)
      · exact absurd (hblock.symm.trans (Option.some.inj hv)) (by decide)
      · exact mirrors_walk_block hinside hblock hvisit hdeleted
    · have hvisit (c : Tree) (hc : c ∈ t.children) := hvisit c (by rwa [Shape.without_of_kind hblock])
      by_cases haround : t.kind = .annotationUse →
          ∃ u ∈ values ++ outer.values, u.kind? = some .annotationUse
      · refine .within (v := .tree t) (fun hv => haround (Option.some.inj hv))
          (hstep.bind fun _ _ _ => ?_)
        exact mirrors_walk hinside (List.cons_ne_nil _ _) hblock hvisit
      · rw [Classical.not_imp] at haround
        obtain ⟨hthis, hnone⟩ := haround
        obtain ⟨v, vs, rfl⟩ := List.exists_cons_of_ne_nil (hkind.resolve_right (absurd hthis))
        exact mirrors_annotation hS hheaded hthis (fun u hu hv => hnone ⟨u, hu, hv⟩) hvisit

/-- **Indents do not depend on deleted statements**: indenting a tree and then deleting statements
gives what indenting the tree without them gives. -/
theorem runAt_indenter_without {trail : Trail IndentNote} {u : Tree} (ht : t.Regular)
    (hkind : t.kind ≠ .annotationUse) (htrail : Sheltered [] trail)
    (h : (indenter style none).runAt trail () t = .ok (u, ())) :
    (indenter style none).runAt (trail.without p) () (t.without p) = .ok (u.without p, ()) := by
  rw [Visitor.runAt] at h ⊢
  cases hvisit : ((indenter style none).visit t).run ⟨trail, ()⟩ with
  | error e =>
    rw [hvisit] at h
    cases h
  | ok r =>
    rw [hvisit] at h
    cases h
    have halike : VisitsAlike p ((indenter style none).visitWithin t.height)
        ((indenter style none).visitWithin (t.without p).height) t :=
      visitsAlike_indenter ht (Nat.le_refl _) (Nat.le_refl _)
    obtain ⟨b, inner, -, -, -, hb, -, rfl⟩ := halike [] trail htrail (.inr hkind) [] r.1 r.2 rfl
      (htrail.calm.mono (Nat.zero_le 1)) hvisit
    have hb : ((indenter style none).visit (t.without p)).run ⟨trail.without p, ()⟩ = _ := hb
    rw [hb]
    rfl

end Trees

end JavaSource
