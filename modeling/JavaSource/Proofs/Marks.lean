import JavaSource.Proofs.DeletedTrail
import JavaSource.Proofs.Indenting

/-!
# The marks of annotations

An annotation that ends leaves a mark on the frame around it, and the next space outside annotations
takes the nearest mark off.  `Trail.align` is what such a space does to the trail.  On a calm trail
(`Trail.Calm`) it leaves no second mark behind, so that below a frame without marks nothing is taken
off the frames above.
-/

namespace JavaSource

/-- The note with the mark that an annotation has ended. -/
def IndentNote.mark (note : IndentNote) : IndentNote := { note with afterAnnotation := true }

namespace Trail

variable {trail trail' inner outer : Trail IndentNote} {k : Nat}

/-! ### Notes -/

/-- Changes the note of the frame at this distance from the innermost. -/
def mapNoteAt (distance : Nat) (f : IndentNote → IndentNote) (trail : Trail IndentNote) :
    Trail IndentNote :=
  trail.modify distance fun frame => { frame with note := f frame.note }

@[simp] theorem values_mapNoteAt (distance : Nat) (f : IndentNote → IndentNote)
    (trail : Trail IndentNote) : (trail.mapNoteAt distance f).values = trail.values :=
  values_modify distance f trail

theorem mapNoteAt_without (p : NodeId → Bool) (distance : Nat) (f : IndentNote → IndentNote)
    (trail : Trail IndentNote) :
    (trail.without p).mapNoteAt distance f = without p (trail.mapNoteAt distance f) :=
  modify_without distance f trail

theorem mapNoteAt_append {distance : Nat} (h : distance < inner.length)
    (f : IndentNote → IndentNote) :
    mapNoteAt distance f (inner ++ outer) = inner.mapNoteAt distance f ++ outer := by
  induction inner generalizing distance with
  | nil => cases h
  | cons frame inner ih =>
    cases distance with
    | zero => rfl
    | succ n => exact congrArg (frame :: ·) (ih (Nat.lt_of_succ_lt_succ h))

/-! ### Marks -/

/-- The number of frames that carry the mark that an annotation has ended. -/
def marks (trail : Trail IndentNote) : Nat := trail.countP fun frame => frame.note.afterAnnotation

theorem marks_mapNoteAt (distance : Nat) {f : IndentNote → IndentNote}
    (hf : ∀ note, IndentNote.afterAnnotation (f note) = note.afterAnnotation) (trail : Trail IndentNote) :
    (trail.mapNoteAt distance f).marks = trail.marks := by
  induction trail generalizing distance with
  | nil => cases distance <;> rfl
  | cons frame rest ih =>
    cases distance with
    | zero =>
      rw [marks, marks, mapNoteAt, List.modify_zero_cons, List.countP_cons, List.countP_cons, hf]
    | succ n =>
      rw [marks, mapNoteAt, List.modify_succ_cons, List.countP_cons, marks, List.countP_cons]
      exact congrArg (· + _) (ih n)

theorem marks_takeAfterAnnotation (trail : Trail IndentNote) :
    trail.takeAfterAnnotation.2.marks = trail.marks - 1 := by
  fun_induction takeAfterAnnotation trail with
  | case1 => rfl
  | case2 frame rest h => simp [marks, h]
  | case3 frame rest h found rest' heq ih =>
    rw [heq] at ih
    simpa [marks, h] using ih

theorem takeAfterAnnotation_of_marks (h : trail.marks = 0) :
    trail.takeAfterAnnotation = (false, trail) := by
  induction trail with
  | nil => rfl
  | cons frame rest ih =>
    obtain ⟨hrest, hframe⟩ : marks rest = 0 ∧ ¬ frame.note.afterAnnotation := by
      simpa [marks, List.countP_cons] using h
    rw [ takeAfterAnnotation, if_neg hframe, ih hrest]

/-- A mark is taken off the frames further in, if those further out have none. -/
theorem takeAfterAnnotation_append (h : outer.marks = 0) (inner : Trail IndentNote) :
    takeAfterAnnotation (inner ++ outer) =
      (inner.takeAfterAnnotation.1, inner.takeAfterAnnotation.2 ++ outer) := by
  induction inner with
  | nil => exact takeAfterAnnotation_of_marks h
  | cons frame inner ih =>
    rw [List.cons_append, takeAfterAnnotation, takeAfterAnnotation, ih]
    split <;> rfl

/-! ### Frames of annotations -/

theorem hasAnnotationFrame_iff :
    trail.hasAnnotationFrame ↔ ∃ v ∈ trail.values, v.kind? = some .annotationUse := by
  simp [hasAnnotationFrame, values]

theorem hasAnnotationFrame_congr (h : trail.values = trail'.values) :
    trail.hasAnnotationFrame = trail'.hasAnnotationFrame := by
  rw [Bool.eq_iff_iff, hasAnnotationFrame_iff, hasAnnotationFrame_iff, h]

theorem hasAnnotationFrame_append (inner outer : Trail IndentNote) :
    hasAnnotationFrame (inner ++ outer) = (inner.hasAnnotationFrame || outer.hasAnnotationFrame) :=
  List.any_append

/-- The trail is inside an annotation, or carries no more than `k` marks. -/
def Calm (k : Nat) (trail : Trail IndentNote) : Prop := trail.hasAnnotationFrame ∨ trail.marks ≤ k

theorem Calm.of_marks_le (h : trail.Calm k) (hvalues : trail'.values = trail.values)
    (hmarks : trail'.marks ≤ trail.marks) : trail'.Calm k :=
  h.imp (hasAnnotationFrame_congr hvalues ▸ ·) (Nat.le_trans hmarks)

theorem Calm.mono {l : Nat} (h : trail.Calm k) (hkl : k ≤ l) : trail.Calm l :=
  h.imp_right (Nat.le_trans · hkl)

theorem Calm.cons (h : trail.Calm k) (value : FrameValue) : Calm k (fresh value :: trail) := by
  rcases h with h | h
  · exact .inl (by simp only [hasAnnotationFrame, List.any_cons, Bool.or_eq_true]; exact .inr h)
  · exact .inr (by rwa [marks, List.countP_cons_of_neg (by exact Bool.false_ne_true)])

theorem Calm.cons_of_unmarked {frame : Frame IndentNote} (h : trail.Calm k)
    (hmark : frame.note.afterAnnotation = false) : Calm k (frame :: trail) := by
  refine (h.cons frame.value).of_marks_le rfl ?_
  rw [marks, List.countP_cons_of_neg (by simp [hmark])]
  exact Nat.le_refl _

/-- A frame that is no annotation's may be left. -/
theorem Calm.tail {frame : Frame IndentNote} (h : Calm k (frame :: trail))
    (hframe : frame.value.kind? ≠ some .annotationUse) : trail.Calm k := by
  rcases h with h | h
  · simp only [hasAnnotationFrame, List.any_cons, Bool.or_eq_true, beq_iff_eq] at h
    exact .inl (h.resolve_left hframe)
  · rw [marks, List.countP_cons] at h
    exact .inr (Nat.le_trans (Nat.le_add_right _ _) h)

/-! ### Alignment -/

/-- What a space does to the marks: directly in an annotation it leaves a mark on the frame around
the annotation, and outside annotations it takes the nearest mark off. -/
def align : Trail IndentNote → Bool × Trail IndentNote
  | frame :: parent :: above =>
    if parent.value.kind? = some .annotationUse then
      (false, mapNoteAt 2 IndentNote.mark
        (frame :: parent :: above))
    else if hasAnnotationFrame (parent :: above) then (false, frame :: parent :: above)
    else takeAfterAnnotation (frame :: parent :: above)
  | trail => (false, trail)

theorem run_aligns (w : Traversal IndentNote Unit) :
    IndentWalk.alignsWithAnnotation.run w = .ok (w.trail.align.1, ⟨w.trail.align.2, w.state⟩) := by
  obtain ⟨trail, ⟨⟩⟩ := w
  match trail with
  | [] => rfl
  | [_] => rfl
  | frame :: parent :: above =>
    have hrun : IndentWalk.alignsWithAnnotation.run ⟨frame :: parent :: above, ()⟩ =
        (if parent.value.kind? = some .annotationUse then
          IndentWalk.modifyNoteAt 2 IndentNote.mark >>= fun _ => pure false
        else if Trail.hasAnnotationFrame (parent :: above) then pure false
        else Walk.modifyTrail (fun _ => ( takeAfterAnnotation (frame :: parent :: above)).2) >>=
          fun _ => pure ( takeAfterAnnotation (frame :: parent :: above)).1 : IndentWalk Bool).run
          ⟨frame :: parent :: above, ()⟩ := rfl
    rw [hrun, align]
    by_cases hparent : parent.value.kind? = some .annotationUse
    · rw [if_pos hparent, if_pos hparent]
      rfl
    · rw [if_neg hparent, if_neg hparent]
      by_cases hinside : hasAnnotationFrame (parent :: above)
      · rw [if_pos hinside, if_pos hinside]
        rfl
      · rw [if_neg hinside, if_neg hinside]
        rfl

theorem align_without (p : NodeId → Bool) (trail : Trail IndentNote) :
    (trail.without p).align = (trail.align.1, without p trail.align.2) := by
  match trail with
  | [] => rfl
  | [_] => rfl
  | frame :: parent :: above =>
    have htake := takeAfterAnnotation_without (p := p) (frame :: parent :: above)
    have hmark := mapNoteAt_without p 2 IndentNote.mark
      (frame :: parent :: above)
    simp only [without_cons] at htake hmark
    rw [without_cons, without_cons, align, align, ← without_cons, hasAnnotationFrame_without,
      Frame.value_without, FrameValue.kind?_without, without_cons, htake, hmark]
    by_cases hparent : parent.value.kind? = some .annotationUse
    · rw [if_pos hparent, if_pos hparent]
    · rw [if_neg hparent, if_neg hparent]
      split <;> rfl

/-- Outside annotations a space takes a mark off. -/
theorem marks_align {frame : Frame IndentNote} (h : trail.hasAnnotationFrame = false)
    (hne : trail ≠ []) : (align (frame :: trail)).2.marks = marks (frame :: trail) - 1 := by
  obtain - | ⟨parent, above⟩ := trail
  · contradiction
  · have hparent : ¬ parent.value.kind? = some .annotationUse := by
      intro hparent
      simp [hasAnnotationFrame, hparent] at h
    rw [align, if_neg hparent, if_neg (by simp [h])]
    exact marks_takeAfterAnnotation _

/-- Nothing lines up with an annotation where none has just ended. -/
theorem Calm.align_eq {frame : Frame IndentNote} (h : trail.Calm 0)
    (hhead : ∀ v ∈ trail.values.head?, v.kind? ≠ some .annotationUse)
    (hmark : frame.note.afterAnnotation = false) :
    align (frame :: trail) = (false, frame :: trail) := by
  obtain - | ⟨parent, above⟩ := trail
  · rfl
  rw [align, if_neg (hhead _ rfl)]
  split
  · rfl
  next hann =>
    refine takeAfterAnnotation_of_marks ?_
    rw [marks, List.countP_cons_of_neg (by simp [hmark])]
    exact Nat.le_zero.1 (h.resolve_left hann)

/-- A space below the frames `outer` leaves them as they are, where none of them carries a mark that
could be taken off and no annotation ends just there. -/
theorem exists_align (hinner : inner ≠ []) (houter : outer ≠ []) (hcalm : outer.Calm 0)
    (hlast : ∀ v ∈ inner.values.getLast?, v.kind? ≠ some .annotationUse)
    (hhead : ∀ v ∈ outer.values.head?, v.kind? ≠ some .annotationUse) (h : Calm k (inner ++ outer)) :
    ∃ inner', (align (inner ++ outer)).2 = inner' ++ outer ∧ inner'.values = inner.values ∧
      Calm k (inner' ++ outer) := by
  obtain ⟨frame, rest, rfl⟩ := List.exists_cons_of_ne_nil hinner
  obtain ⟨parent, above, habove⟩ := List.exists_cons_of_ne_nil
    (List.append_ne_nil_of_right_ne_nil rest houter)
  rw [List.cons_append, habove] at h ⊢
  rw [align]
  by_cases hparent : parent.value.kind? = some .annotationUse
  · -- the frame of the annotation is neither the last of `inner` nor the first of `outer`
    have hlength : 2 < (frame :: rest).length := by
      match rest with
      | [] =>
        rw [List.nil_append] at habove
        exact absurd hparent (hhead _ (by rw [habove]; rfl))
      | [x] =>
        obtain rfl : x = parent := (List.cons.inj habove).1
        exact absurd hparent (hlast _ rfl)
      | x :: y :: zs => simp
    refine ⟨mapNoteAt 2 IndentNote.mark (frame :: rest), ?_,
      values_mapNoteAt .., ?_⟩
    · rw [if_pos hparent, ← habove]
      dsimp only
      exact mapNoteAt_append hlength _
    · rw [← mapNoteAt_append hlength, List.cons_append, habove]
      refine .inl ?_
      rw [hasAnnotationFrame_congr (values_mapNoteAt ..)]
      simp [hasAnnotationFrame, hparent]
  · rw [if_neg hparent]
    by_cases hinside : hasAnnotationFrame (parent :: above)
    · rw [if_pos hinside, ← habove]
      rw [← habove] at h
      exact ⟨frame :: rest, rfl, rfl, h⟩
    · rw [if_neg hinside]
      rw [← habove] at hinside h ⊢
      have hmarks : outer.marks = 0 := by
        refine Nat.le_zero.1 (hcalm.resolve_left fun houter => hinside ?_)
        rw [hasAnnotationFrame_append, houter, Bool.or_true]
      have htake := takeAfterAnnotation_append hmarks (frame :: rest)
      have hvalues := values_takeAfterAnnotation (frame :: rest)
      have hall := values_takeAfterAnnotation (frame :: rest ++ outer)
      have hle := marks_takeAfterAnnotation (frame :: rest ++ outer)
      generalize Trail.takeAfterAnnotation (frame :: rest) = taken at htake hvalues
      rw [htake] at hall hle
      exact ⟨taken.2, congrArg Prod.snd htake, hvalues, h.of_marks_le hall (hle ▸ Nat.sub_le ..)⟩

end Trail

end JavaSource
