import JavaSource.Proofs.Frames
import JavaSource.Proofs.IndentDeletion
import JavaSource.Proofs.Sweep

/-!
# The trails of the indenter

The indenter comes to each node of a tree along the frames above the node, on a trail that is not
stopped, on which at most one mark of an annotation is left, and that notes no negative column
outside the conditions and the updates of `for` loops (`Trail.Sound`, `visited_of_reaches`).  It is so
because every step keeps such trails, and because a visit of a part leaves the columns of the frames
around the part as they are (`IndentWalk.Keeps`, `keeps_visitWithin`).
-/

namespace JavaSource

open Trail

/-- A frame of the condition or of an update of a `for` loop. -/
def FrameValue.isForPart : FrameValue → Bool
  | followed .forCondition _ | followed .forUpdate _ => true
  | _ => false

/-- A column that may be noted below these frames: a negative one only in the condition or an update
of a `for` loop. -/
def Allowed (values : List FrameValue) (column : Int) : Prop :=
  (∀ v ∈ values, v.isForPart = false) → 0 ≤ column

theorem Allowed.cons {values : List FrameValue} {column : Int} (h : Allowed values column)
    (v : FrameValue) : Allowed (v :: values) column :=
  fun hv => h (List.forall_mem_cons.1 hv).2

theorem Allowed.of_cons {values : List FrameValue} {column : Int} {v : FrameValue}
    (h : Allowed (v :: values) column) (hv : v.isForPart = false) : Allowed values column :=
  fun hvalues => h (List.forall_mem_cons.2 ⟨hv, hvalues⟩)

theorem Allowed.add {values : List FrameValue} {column : Int} (h : Allowed values column) (n : Nat) :
    Allowed values (column + n) := by
  intro hvalues
  have := h hvalues
  omega

theorem allowed_natCast (values : List FrameValue) (n : Nat) : Allowed values n :=
  fun _ => Int.natCast_nonneg n

/-! ### Sound trails -/

namespace Trail

variable {γ : Type} {values : List FrameValue} {trail : Trail IndentNote}

/-- The columns that the frames note. -/
def columns (trail : Trail IndentNote) : List (Option Int) := trail.map fun frame => frame.note.column

theorem map_mapNoteAt {g : Frame IndentNote → γ} {f : IndentNote → IndentNote}
    (hg : ∀ frame : Frame IndentNote, g { frame with note := f frame.note } = g frame)
    (distance : Nat) (trail : Trail IndentNote) :
    (trail.mapNoteAt distance f).map g = trail.map g := by
  induction trail generalizing distance with
  | nil => cases distance <;> rfl
  | cons frame rest ih =>
    cases distance with
    | zero => exact congrArg (· :: _) (hg frame)
    | succ n => exact congrArg (g frame :: ·) (ih n)

/-- Marks are all that a space changes on a trail to line up with an annotation. -/
theorem map_align {g : Frame IndentNote → γ}
    (hg : ∀ (frame : Frame IndentNote) (b : Bool),
      g { frame with note := { frame.note with afterAnnotation := b } } = g frame)
    (trail : Trail IndentNote) : trail.align.2.map g = trail.map g := by
  have htake (trail : Trail IndentNote) : trail.takeAfterAnnotation.2.map g = trail.map g := by
    fun_induction takeAfterAnnotation trail with
    | case1 => rfl
    | case2 frame rest h => exact congrArg (· :: _) (hg frame false)
    | case3 frame rest h found rest' heq ih =>
      rw [heq] at ih
      exact congrArg (g frame :: ·) ih
  obtain - | ⟨frame, - | ⟨parent, above⟩⟩ := trail
  · rfl
  · rfl
  · rw [align]
    split
    · exact map_mapNoteAt (fun frame => hg frame true) 2 _
    · split
      · rfl
      · exact htake _

@[simp] theorem columns_align (trail : Trail IndentNote) : trail.align.2.columns = trail.columns :=
  map_align (fun _ _ => rfl) trail

@[simp] theorem bare_align (trail : Trail IndentNote) : trail.align.2.bare = trail.bare :=
  map_align (fun _ _ => rfl) trail

/-- A space that is lined up takes the mark off that an annotation has left. -/
theorem calm_align {frame : Frame IndentNote} (h : trail.Calm 1) (hne : trail ≠ [])
    (hmark : frame.note.afterAnnotation = false) : Calm 0 (align (frame :: trail)).2 := by
  have hvalues : (align (frame :: trail)).2.values = values (frame :: trail) :=
    map_align (fun _ _ => rfl) _
  cases hann : trail.hasAnnotationFrame with
  | true =>
    refine .inl ?_
    rw [hasAnnotationFrame_congr hvalues, hasAnnotationFrame, List.any_cons]
    exact Bool.or_eq_true_iff.2 (.inr hann)
  | false =>
    refine .inr ?_
    have hle := h.resolve_left (by simp [hann])
    rw [marks_align hann hne, marks, List.countP_cons_of_neg (by simp [hmark]), ← marks]
    omega

theorem bare_mapNoteAt (distance : Nat) (f : IndentNote → IndentNote) (trail : Trail IndentNote) :
    (trail.mapNoteAt distance f).bare = trail.bare :=
  map_mapNoteAt (fun _ => rfl) distance trail

/-- The frames note columns that are allowed below these. -/
def Level (values : List FrameValue) (trail : Trail IndentNote) : Prop :=
  ∀ c ∈ trail.columns, ∀ column ∈ c, Allowed values column

theorem Level.tail {frame : Frame IndentNote} (h : Level values (frame :: trail)) :
    trail.Level values :=
  (List.forall_mem_cons.1 h).2

theorem Level.of_columns {trail' : Trail IndentNote} (h : trail.Level values)
    (hcolumns : trail'.columns = trail.columns) : trail'.Level values := by
  rw [Level, hcolumns]
  exact h

theorem Level.column (h : trail.Level values) : Allowed values trail.column := by
  rw [Trail.column]
  cases hc : trail.column? with
  | none => exact allowed_natCast values 0
  | some c =>
    obtain ⟨frame, hframe, hnote⟩ := List.exists_of_findSome?_eq_some hc
    exact h _ (List.mem_map_of_mem hframe) c hnote

theorem Level.chainColumn (h : trail.Level values) {column : Int} (hcolumn : Allowed values column) :
    Allowed values (trail.chainColumn column) := by
  induction trail generalizing column with
  | nil => exact hcolumn
  | cons frame rest ih =>
    unfold Trail.chainColumn
    split
    · exact ih h.tail hcolumn
    · split
      · refine ih h.tail ?_
        cases hc : Trail.column? (frame :: rest) with
        | none => exact hcolumn
        | some c =>
          have hcolumn := h.column
          rwa [Trail.column, hc] at hcolumn
      · exact hcolumn
    · exact hcolumn

/-- The trail along these frames down from the root, on which the indenter may be. -/
structure Sound (values : List FrameValue) (trail : Trail IndentNote) : Prop where
  rooted : ∃ inner : Trail IndentNote, trail = inner ++ Trail.start ∧ inner.values = values
  running : trail.isStopped = false
  calm : trail.Calm 1
  level : trail.Level values

theorem Sound.ne_nil (h : trail.Sound values) : trail ≠ [] := by
  obtain ⟨inner, rfl, -⟩ := h.rooted
  exact List.append_ne_nil_of_right_ne_nil _ (List.cons_ne_nil _ _)

theorem Sound.values_eq (h : trail.Sound values) : trail.values = values ++ [.root] := by
  obtain ⟨inner, rfl, rfl⟩ := h.rooted
  exact List.map_append

theorem Sound.cons (h : trail.Sound values) (v : FrameValue) :
    Sound (v :: values) (fresh v :: trail) where
  rooted := by
    obtain ⟨inner, rfl, rfl⟩ := h.rooted
    exact ⟨fresh v :: inner, rfl, rfl⟩
  running := by
    have := h.running
    rwa [isStopped, List.any_cons]
  calm := h.calm.cons v
  level := List.forall_mem_cons.2 ⟨nofun, fun c hc x hx => (h.level c hc x hx).cons v⟩

theorem sound_start : Sound [] Trail.start where
  rooted := ⟨[], rfl, rfl⟩
  running := rfl
  calm := .inr (Nat.zero_le 1)
  level := by simp [Level, columns, Trail.start, fresh, default]

theorem sheltered_start : Sheltered [] Trail.start where
  outer_ne := List.cons_ne_nil _ _
  calm := .inr (Nat.le_refl 0)
  head := by
    rintro _ ⟨⟩
    nofun
  last := nofun
  headed := by simp [Trail.start, Trail.values, fresh, FrameValue.tree?]

/-- Marks that come and go leave a trail sound if it stays calm. -/
theorem Sound.of_bare {trail' inner : Trail IndentNote} (h : trail.Sound values)
    (hinner : trail' = inner ++ Trail.start) (hvalues : inner.values = values)
    (hcalm : trail'.Calm 1) (hbare : trail'.bare = trail.bare)
    (hlevel : trail'.Level values) : trail'.Sound values where
  rooted := ⟨inner, hinner, hvalues⟩
  running := by rw [← isStopped_bare, hbare, isStopped_bare, h.running]
  calm := hcalm
  level := hlevel

theorem Sound.mapNoteAt {distance : Nat} {f : IndentNote → IndentNote} (h : trail.Sound values)
    (hdistance : distance < values.length)
    (hmark : ∀ note, IndentNote.afterAnnotation (f note) = note.afterAnnotation)
    (hlevel : (trail.mapNoteAt distance f).Level values) :
    (trail.mapNoteAt distance f).Sound values := by
  obtain ⟨inner, hinner, hvalues⟩ := h.rooted
  have hlength : distance < inner.length := by
    rwa [← hvalues, Trail.values, List.length_map] at hdistance
  have hrooted : trail.mapNoteAt distance f = inner.mapNoteAt distance f ++ Trail.start := by
    rw [hinner]
    exact mapNoteAt_append hlength f
  refine h.of_bare hrooted ((values_mapNoteAt ..).trans hvalues) ?_ (bare_mapNoteAt distance f _)
    hlevel
  exact h.calm.of_marks_le (values_mapNoteAt ..) (Nat.le_of_eq (marks_mapNoteAt distance hmark _))

theorem Sound.tail {v : FrameValue} (h : trail.Sound (v :: values))
    (hcalm : Calm 1 (List.tail trail))
    (hlevel : Level values (List.tail trail)) : Sound values (List.tail trail) where
  rooted := by
    obtain ⟨inner, rfl, hvalues⟩ := h.rooted
    obtain ⟨frame, inner, rfl⟩ := List.exists_cons_of_ne_nil
      (show inner ≠ [] by rintro rfl; cases hvalues)
    exact ⟨inner, rfl, (List.cons.inj hvalues).2⟩
  running := by
    refine List.any_eq_false.2 fun frame hframe => ?_
    exact List.any_eq_false.1 h.running frame (List.mem_of_mem_tail hframe)
  calm := hcalm
  level := hlevel

theorem Sound.calm_tail {v : FrameValue} (h : trail.Sound (v :: values))
    (hkind : v.kind? ≠ some .annotationUse) : Calm 1 (List.tail trail) := by
  have hvalues := h.values_eq
  have hcalm := h.calm
  obtain ⟨frame, rest, rfl⟩ := List.exists_cons_of_ne_nil
    (show trail ≠ [] by rintro rfl; cases hvalues)
  exact hcalm.tail ((List.cons.inj hvalues).1 ▸ hkind)

theorem columns_tail (trail : Trail IndentNote) : Trail.columns trail.tail = trail.columns.tail :=
  List.map_tail

/-- The column of the frame at this distance from the innermost is noted. -/
def noteColumn (distance : Nat) (column : Int) (trail : Trail IndentNote) : Trail IndentNote :=
  trail.mapNoteAt distance fun note => { note with column := some column }

theorem columns_noteColumn (distance : Nat) (column : Int) (trail : Trail IndentNote) :
    (trail.noteColumn distance column).columns = trail.columns.set distance (some column) := by
  induction trail generalizing distance with
  | nil => cases distance <;> rfl
  | cons frame rest ih =>
    cases distance with
    | zero => rfl
    | succ n => exact congrArg (frame.note.column :: ·) (ih n)

theorem Level.noteColumn (h : trail.Level values) (distance : Nat) {column : Int}
    (hcolumn : Allowed values column) : (trail.noteColumn distance column).Level values := by
  intro c hc x hx
  rw [columns_noteColumn] at hc
  rcases List.mem_or_eq_of_mem_set hc with hc | rfl
  · exact h c hc x hx
  · exact Option.some.inj hx ▸ hcolumn

theorem Sound.noteColumn {distance : Nat} (h : trail.Sound values)
    (hdistance : distance < values.length) {column : Int} (hcolumn : Allowed values column) :
    (trail.noteColumn distance column).Sound values :=
  h.mapNoteAt hdistance (fun _ => rfl) (h.level.noteColumn distance hcolumn)

end Trail

/-! ### Steps that keep trails sound -/

namespace IndentWalk

variable {α β : Type} {values : List FrameValue} {k : Nat} {P : α → Prop}

/-- From a sound trail along these frames the walk comes to a sound one, with the same columns but
for the innermost `k` frames, and its answer is as `P` says. -/
def Keeps (values : List FrameValue) (k : Nat) (q : IndentWalk α) (P : α → Prop) : Prop :=
  ∀ w a w', Sound values w.trail → q.run w = .ok (a, w') →
    Sound values w'.trail ∧ w'.trail.columns.drop k = w.trail.columns.drop k ∧ P a

theorem Keeps.pure {a : α} (h : P a) : Keeps values k (Pure.pure a) P := by
  rintro w _ _ hw ⟨⟩
  exact ⟨hw, rfl, h⟩

theorem Keeps.bind {Q : β → Prop} {q : IndentWalk α} {f : α → IndentWalk β}
    (hq : Keeps values k q P) (hf : ∀ a, P a → Keeps values k (f a) Q) :
    Keeps values k (q >>= f) Q := by
  intro w b w' hw hrun
  obtain ⟨a, v, hqa, hfa⟩ := Walk.exists_of_run_bind hrun
  obtain ⟨hv, hcolumns, ha⟩ := hq w a v hw hqa
  obtain ⟨hw', hcolumns', hb⟩ := hf a ha v b w' hv hfa
  exact ⟨hw', hcolumns'.trans hcolumns, hb⟩

theorem Keeps.mono {Q : α → Prop} {l : Nat} {q : IndentWalk α} (hq : Keeps values k q P)
    (hkl : k ≤ l) (h : ∀ a, P a → Q a) : Keeps values l q Q := by
  intro w a w' hw hrun
  obtain ⟨hw', hcolumns, ha⟩ := hq w a w' hw hrun
  refine ⟨hw', ?_, h a ha⟩
  have hdrop := congrArg (List.drop (l - k)) hcolumns
  simpa only [List.drop_drop, Nat.add_sub_cancel' hkl] using hdrop

theorem Keeps.ite {c : Prop} [Decidable c] {q r : IndentWalk α} (hq : c → Keeps values k q P)
    (hr : ¬ c → Keeps values k r P) : Keeps values k (if c then q else r) P := by
  by_cases hc : c
  · rw [if_pos hc]
    exact hq hc
  · rw [if_neg hc]
    exact hr hc

/-- What is kept may be said of answers. -/
def keeping (values : List FrameValue) (k : Nat) : Answers IndentWalk where
  Hold q P := Keeps values k q P
  pure := .pure
  bind := .bind

theorem keeps_throw {e : VisitError} : Keeps values k (throw e : IndentWalk α) P := nofun

theorem keeps_trail : Keeps values k Walk.trail fun trail => Sound values trail := by
  rintro w _ _ hw ⟨⟩
  exact ⟨hw, rfl, hw⟩

/-- A change of a note that leaves its column. -/
theorem keeps_modifyNoteAt {distance : Nat} {f : IndentNote → IndentNote}
    (hdistance : distance < values.length)
    (hmark : ∀ note, IndentNote.afterAnnotation (f note) = note.afterAnnotation)
    (hcolumn : ∀ note, IndentNote.column (f note) = note.column) :
    Keeps values k (modifyNoteAt distance f) fun _ => True := by
  rintro w _ w' hw hrun
  obtain rfl : ⟨w.trail.mapNoteAt distance f, ()⟩ = w' := congrArg Prod.snd (Except.ok.inj hrun)
  have hcolumns : (w.trail.mapNoteAt distance f).columns = w.trail.columns :=
    map_mapNoteAt (fun frame => hcolumn frame.note) distance w.trail
  exact ⟨hw.mapNoteAt hdistance hmark (hw.level.of_columns hcolumns),
    congrArg (List.drop k) hcolumns, trivial⟩

theorem keeps_setStep {distance : Nat} (hdistance : distance < values.length) (step : IndentStep) :
    Keeps values k (setStep distance step) fun _ => True :=
  keeps_modifyNoteAt hdistance (fun _ => rfl) fun _ => rfl

theorem keeps_setColumn {distance : Nat} (hdistance : distance < values.length) (hk : distance < k)
    {column : Int} (hcolumn : Allowed values column) :
    Keeps values k (setColumn distance column) fun _ => True := by
  rintro w _ w' hw hrun
  obtain rfl : ⟨w.trail.noteColumn distance column, ()⟩ = w' := congrArg Prod.snd (Except.ok.inj hrun)
  refine ⟨hw.noteColumn hdistance hcolumn, ?_, trivial⟩
  rw [columns_noteColumn, List.drop_set_of_lt hk]

theorem keeps_aligns (h : Sheltered values Trail.start) (hne : values ≠ []) :
    Keeps values k alignsWithAnnotation fun _ => True := by
  intro w a w' hw hrun
  obtain ⟨inner, hinner, hvalues⟩ := hw.rooted
  have hlast : ∀ v ∈ inner.values.getLast?, v.kind? ≠ some .annotationUse := hvalues ▸ h.last
  obtain ⟨inner', halign, hvalues', hcalm⟩ := exists_align (fun hnil => hne (by rw [← hvalues, hnil]; rfl))
    h.outer_ne h.calm hlast h.head (hinner ▸ hw.calm)
  rw [run_aligns] at hrun
  cases hrun
  rw [← hinner] at halign
  exact ⟨hw.of_bare halign (hvalues'.trans hvalues) (halign ▸ hcalm) (bare_align _)
    (hw.level.of_columns (columns_align _)), congrArg (List.drop k) (columns_align _), trivial⟩

/-- One frame further down, where the frame is neither an annotation's nor that of a part of a `for`
header. -/
theorem Keeps.within {v : FrameValue} {q : IndentWalk α} (hkind : v.kind? ≠ some .annotationUse)
    (hpart : v.isForPart = false) (h : Keeps (v :: values) (k + 1) q P) :
    Keeps values k (Walk.within v q) P := by
  intro w a w' hw hrun
  obtain ⟨u, hq, rfl⟩ := Walk.exists_of_run_within hrun
  obtain ⟨hu, hcolumns, ha⟩ := h _ a u (hw.cons v) hq
  refine ⟨hu.tail (hu.calm_tail hkind) ?_, ?_, ha⟩
  · intro c hc x hx
    rw [columns_tail] at hc
    exact (hu.level c (List.mem_of_mem_tail hc) x hx).of_cons hpart
  · rw [columns_tail, List.drop_tail]
    exact hcolumns

end IndentWalk

/-! ### Spaces and elements -/

section Elements

open IndentWalk

variable {style : IndentStyle} {values : List FrameValue} {k : Nat}

theorem keeps_indentAt (h : Sheltered values Trail.start) (hne : values ≠ []) (hk : 0 < k)
    (l : SpaceSlot) (s : Space) : Keeps values k (indentAt style l s) fun _ => True := by
  have hpos : 0 < values.length := List.length_pos_of_ne_nil hne
  refine .bind (keeps_modifyNoteAt hpos (fun _ => rfl) fun _ => rfl) fun _ _ => ?_
  refine keeps_trail.bind fun trail htrail => ?_
  split
  · refine (keeps_aligns h hne).bind fun aligned _ => .ite (fun _ => .pure trivial) fun _ => ?_
    refine .ite (fun _ => ?_) fun _ => .pure trivial
    exact (keeps_setColumn hpos hk (htrail.level.column.add _)).bind fun _ _ => .pure trivial
  · exact .pure trivial

variable {R : Tree → Tree → Prop} {visit : Tree → IndentWalk Tree} {l : FollowedSlot}
  {x : Followed Tree}

section Visited

variable (hvisit : Keeps values 0 (visit x.element) (R x.element))

include hvisit

theorem keeps_indentElement (h : Sheltered values Trail.start) (hne : values ≠ []) (hk : 0 < k) :
    Keeps values k (indentElement style visit l x) fun y => R x.element y.element :=
  (hvisit.mono (Nat.zero_le k) fun _ => id).bind fun _ ht =>
    (keeps_indentAt h hne hk _ _).bind fun _ _ => .pure ht

theorem keeps_indentElementTo (column : Int) :
    Keeps values k (indentElementTo style visit l column x) fun y => R x.element y.element :=
  (hvisit.mono (Nat.zero_le k) fun _ => id).bind fun _ ht => .pure ht

theorem keeps_indentElementFrom (hvalues : 1 < values.length) (hk : 1 < k) {start column : Int}
    (hstart : Allowed values start) (hcolumn : Allowed values column) (after : Int) :
    Keeps values k (indentElementFrom style visit l start column after x)
      fun y => R x.element y.element :=
  (keeps_setColumn hvalues hk hstart).bind fun _ _ =>
    (hvisit.mono (Nat.zero_le k) fun _ => id).bind fun _ ht =>
      (keeps_setColumn hvalues hk hcolumn).bind fun _ _ => .pure ht

theorem keeps_indentParameter (hvalues : 1 < values.length) (hk : 1 < k) {column : Int}
    (hcolumn : Allowed values column) (hrefl : R x.element x.element) (around : Trail IndentNote) :
    Keeps values k (indentParameter style visit l column around x)
      fun y => R x.element y.element := by
  unfold indentParameter
  split
  · exact keeps_throw
  · refine .ite (fun _ => keeps_indentElementTo hvisit column) fun _ => ?_
    refine .ite (fun _ => .pure hrefl) fun _ => ?_
    exact keeps_indentElementFrom hvisit hvalues hk (allowed_natCast values _) hcolumn _

theorem keeps_indentArgument (hvalues : 1 < values.length) (hk : 1 < k) {column : Int}
    (hcolumn : Allowed values column) :
    Keeps values k (indentArgument style visit l column x) fun y => R x.element y.element := by
  have hto : Keeps values k (indentElementTo style visit l column x)
      fun y => R x.element y.element := keeps_indentElementTo hvisit column
  unfold indentArgument
  exact .ite (fun _ => (keeps_setColumn hvalues hk (hcolumn.add _)).bind fun _ _ => hto) fun _ => hto

theorem keeps_indentReceiver (h : Sheltered values Trail.start) (hvalues : 1 < values.length)
    (hk : 1 < k) {column : Int} (hcolumn : Allowed values column) :
    Keeps values k (indentReceiver style visit l column x) fun y => R x.element y.element := by
  refine keeps_trail.bind fun trail htrail => ?_
  have hchain : Allowed values (trail.chainColumn column) := htrail.level.chainColumn hcolumn
  refine (keeps_setColumn hvalues hk hchain).bind fun _ _ => ?_
  refine (keeps_indentElement hvisit h (List.ne_nil_of_length_pos (by omega)) (by omega)).bind ?_
  exact fun _ hy => (keeps_setColumn hvalues hk (hchain.add _)).bind fun _ _ => .pure hy

theorem keeps_indentAnnotationArgument (h : Sheltered values Trail.start)
    (hvalues : 1 < values.length) (hk : 0 < k) (around : Trail IndentNote) :
    Keeps values k (indentAnnotationArgument style visit l around x)
      fun y => R x.element y.element := by
  refine (hvisit.mono (Nat.zero_le k) fun _ => id).bind fun t ht => ?_
  have hafter : Keeps values k (indentAt style (.after l) x.after >>= fun s => pure ⟨t, s⟩)
      fun y : Followed Tree => R x.element y.element :=
    (keeps_indentAt h (List.ne_nil_of_length_pos (by omega)) hk _ _).bind fun _ _ => .pure ht
  exact .ite (fun _ => (keeps_setStep hvalues _).bind fun _ _ => hafter) fun _ => hafter

theorem keeps_indentInlineArgument (h : Sheltered values Trail.start) (hne : values ≠ [])
    (hk : 0 < k) {column : Int} (hcolumn : Allowed values column) (around : Trail IndentNote) :
    Keeps values k (indentInlineArgument style visit l column around x)
      fun y => R x.element y.element := by
  have helement : Keeps values k (indentElement style visit l x)
      fun y => R x.element y.element := keeps_indentElement hvisit h hne hk
  have hpos : 0 < values.length := List.length_pos_of_ne_nil hne
  refine .ite (fun _ => ?_) fun _ => keeps_indentElementTo hvisit column
  refine .ite (fun _ => ?_) fun _ => helement
  exact (keeps_setColumn hpos hk (hcolumn.add _)).bind fun _ _ => helement

end Visited

/-! ### Parts of `for` headers -/

section Parts

variable {w w' : Traversal IndentNote Unit} {y : Followed Tree}

theorem exists_of_run_indentElementFrom {start column after : Int}
    (h : (indentElementFrom style visit l start column after x).run w = .ok (y, w')) :
    ∃ v, (visit x.element).run ⟨w.trail.noteColumn 1 start, w.state⟩ = .ok (y.element, v) ∧
      w' = ⟨v.trail.noteColumn 1 column, v.state⟩ := by
  obtain ⟨_, v, hset, h⟩ := Walk.exists_of_run_bind h
  cases hset
  obtain ⟨e, v, hvisit, h⟩ := Walk.exists_of_run_bind h
  cases h
  exact ⟨v, hvisit, rfl⟩

/-- What is done at the condition or an update of a `for` loop: it is indented from the column of the
first initializer, or, where that starts a line or the part does not, as the usual rule says. -/
theorem exists_of_run_part (hl : l = .forCondition ∨ l = .forUpdate)
    (h : (indentFollowed style visit l x).run w = .ok (y, w')) :
    ∃ v, w' = ⟨v.trail.tail, v.state⟩ ∧
      ((∃ initColumn, w.trail.forInitColumn = .ok initColumn ∧
        (indentElementFrom style visit l (initColumn - style.continuation) w.trail.column initColumn
          x).run ⟨fresh (.followed l x.element) :: w.trail, w.state⟩ = .ok (y, v)) ∨
      ((w.trail.head?.any fun frame => frame.value.initStartsLine) ∧
        (indentElement style visit l x).run ⟨fresh (.followed l x.element) :: w.trail, w.state⟩ =
          .ok (y, v)) ∨
      (x.element.leading.hasNewline = false ∧
        (visit x.element).run ⟨fresh (.followed l x.element) :: w.trail, w.state⟩ =
          .ok (y.element, v))) := by
  obtain ⟨v, hbody, rfl⟩ := Walk.exists_of_run_within h
  refine ⟨v, rfl, ?_⟩
  obtain ⟨_, u, htrail, hbody⟩ := Walk.exists_of_run_bind hbody
  cases htrail
  have hcolumn : Trail.column (fresh (.followed l x.element) :: w.trail) = w.trail.column := rfl
  by_cases hbroken : x.after.hasNewline || x.element.leading.hasNewline
  · have hpart (column : Int) (around : Trail IndentNote) :
        indentBrokenElement style visit l column around x =
          if around.head?.any fun frame => frame.value.initStartsLine then
            indentElement style visit l x
          else (do
            let initColumn ← around.forInitColumn
            indentElementFrom style visit l (initColumn - style.continuation) column initColumn x) := by
      rcases hl with rfl | rfl <;> rfl
    rw [if_pos hbroken, hpart, List.tail_cons, hcolumn] at hbody
    by_cases hstarts : w.trail.head?.any fun frame => frame.value.initStartsLine
    · rw [if_pos hstarts] at hbody
      exact .inr (.inl ⟨hstarts, hbody⟩)
    · rw [if_neg hstarts] at hbody
      cases hinit : w.trail.forInitColumn with
      | error e =>
        rw [hinit] at hbody
        cases hbody
      | ok initColumn =>
        rw [hinit] at hbody
        exact .inl ⟨initColumn, rfl, hbody⟩
  · have hinline (column : Int) (around : Trail IndentNote) :
        indentInlineElement style visit l column around x =
          (do return ⟨← visit x.element, x.after⟩) := by
      rcases hl with rfl | rfl <;> rfl
    rw [if_neg hbroken, hinline] at hbody
    obtain ⟨e, u, hvisit, hbody⟩ := Walk.exists_of_run_bind hbody
    cases hbody
    simp only [Bool.or_eq_true, not_or, Bool.not_eq_true] at hbroken
    exact .inr (.inr ⟨hbroken.2, hvisit⟩)

end Parts

/-- The condition or an update of a `for` loop leaves no column on the frame around it but that of
its line. -/
theorem keeps_indentPart (h : Sheltered values Trail.start) (hne : values ≠ [])
    (hl : l = .forCondition ∨ l = .forUpdate)
    (hvisit : Keeps (.followed l x.element :: values) 0 (visit x.element) (R x.element)) :
    Keeps values 1 (indentFollowed style visit l x) fun y => R x.element y.element := by
  have hinner : Sheltered (.followed l x.element :: values) Trail.start := h.cons (.inl hne) nofun
  have hlength : 1 < (FrameValue.followed l x.element :: values).length :=
    Nat.succ_lt_succ (List.length_pos_of_ne_nil hne)
  -- inside the part any column is allowed
  have hany (column : Int) : Allowed (.followed l x.element :: values) column := fun hnone => by
    have := hnone _ List.mem_cons_self
    rcases hl with rfl | rfl <;> cases this
  intro w y w' hw hrun
  have hframe := hw.cons (.followed l x.element)
  obtain ⟨v, rfl, hcases⟩ := exists_of_run_part hl hrun
  -- so what counts is the column that the frame around it has at the end
  obtain ⟨hv, hcolumns, hy⟩ : Sound (.followed l x.element :: values) v.trail ∧
      (v.trail.columns.tail = w.trail.columns ∨
        v.trail.columns.tail = (w.trail.noteColumn 0 w.trail.column).columns) ∧
      R x.element y.element := by
    rcases hcases with ⟨initColumn, -, hfrom⟩ | ⟨-, helement⟩ | ⟨-, hinline⟩
    · obtain ⟨u, hpart, rfl⟩ := exists_of_run_indentElementFrom hfrom
      obtain ⟨hu, hcolumns, hy⟩ := hvisit _ _ _ (hframe.noteColumn hlength (hany _)) hpart
      refine ⟨hu.noteColumn hlength (hany _), .inr ?_, hy⟩
      have hcolumns : u.trail.columns = (none :: w.trail.columns).set 1
          (some (initColumn - style.continuation)) :=
        hcolumns.trans (columns_noteColumn ..)
      rw [columns_noteColumn, columns_noteColumn, hcolumns, List.set_set]
      rfl
    · obtain ⟨hv, hcolumns, hy⟩ := keeps_indentElement (k := 1) hvisit hinner (List.cons_ne_nil _ _)
        Nat.zero_lt_one _ _ _ hframe helement
      exact ⟨hv, .inl (List.drop_one.symm.trans hcolumns), hy⟩
    · obtain ⟨hv, hcolumns, hy⟩ := hvisit _ _ _ hframe hinline
      exact ⟨hv, .inl (congrArg List.tail hcolumns), hy⟩
  rw [← columns_tail] at hcolumns
  refine ⟨hv.tail (hv.calm_tail nofun) ?_, ?_, hy⟩
  · exact hcolumns.elim hw.level.of_columns (hw.level.noteColumn 0 hw.level.column).of_columns
  · rcases hcolumns with hsame | hset
    · rw [hsame]
    · rw [hset, columns_noteColumn, List.drop_set_of_lt Nat.zero_lt_one]

theorem keeps_indentFollowed (h : Sheltered values Trail.start) (hne : values ≠ [])
    (hvisit : Keeps (.followed l x.element :: values) 0 (visit x.element) (R x.element))
    (hrefl : l = .methodParameter → R x.element x.element) :
    Keeps values 1 (indentFollowed style visit l x) fun y => R x.element y.element := by
  by_cases hpart : (FrameValue.followed l x.element).isForPart
  · refine keeps_indentPart h hne ?_ hvisit
    cases l <;> first | exact .inl rfl | exact .inr rfl | cases hpart
  have hinner : Sheltered (.followed l x.element :: values) Trail.start := h.cons (.inl hne) nofun
  have hlength : 1 < (FrameValue.followed l x.element :: values).length :=
    Nat.succ_lt_succ (List.length_pos_of_ne_nil hne)
  refine .within nofun (Bool.eq_false_iff.2 hpart) (keeps_trail.bind fun trail htrail => ?_)
  have hcolumn := htrail.level.column
  refine .ite (fun _ => ?_) fun _ => ?_
  · unfold indentBrokenElement
    split
    · exact absurd rfl hpart
    · exact absurd rfl hpart
    · exact keeps_indentParameter hvisit hlength Nat.one_lt_two hcolumn (hrefl rfl) _
    · exact keeps_indentArgument hvisit hlength Nat.one_lt_two hcolumn
    · exact keeps_indentElementTo hvisit _
    · exact keeps_indentElementTo hvisit _
    · exact keeps_indentElementTo hvisit _
    · exact keeps_indentElementTo hvisit _
    · exact keeps_indentReceiver hvisit hinner hlength Nat.one_lt_two hcolumn
    · exact keeps_indentAnnotationArgument hvisit hinner hlength Nat.two_pos _
    · exact keeps_indentElement hvisit hinner (List.cons_ne_nil _ _) Nat.two_pos
  · unfold indentInlineElement
    split
    · exact keeps_indentInlineArgument hvisit hinner (List.cons_ne_nil _ _) Nat.two_pos hcolumn _
    · exact keeps_indentInlineArgument hvisit hinner (List.cons_ne_nil _ _) Nat.two_pos hcolumn _
    · exact (hvisit.mono (Nat.zero_le 2) fun _ => id).bind fun _ ht => .pure ht

theorem keeps_indentSeries (h : Sheltered values Trail.start) (hne : values ≠ []) {l : SeriesSlot}
    {s : Series Tree}
    (hvisit : ∀ x ∈ s.elements, Keeps (.followed l.element x.element :: .series l s :: values) 0
      (visit x.element) (R x.element))
    (hrefl : ∀ x ∈ s.elements, l.element = .methodParameter → R x.element x.element) :
    Keeps values 1 (indentSeries style visit l s)
      fun u => List.Forall₂ (fun x y => R x.element y.element) s.elements u.elements := by
  have hinner : Sheltered (.series l s :: values) Trail.start := h.cons (.inl hne) nofun
  have hpos : 0 < (FrameValue.series l s :: values).length := Nat.succ_pos _
  have helements : Keeps (.series l s :: values) 2
      (s.elements.mapM (indentFollowed style visit l.element))
      (List.Forall₂ (fun x y => R x.element y.element) s.elements) :=
    (keeping _ 2).mapM fun x hx =>
      (keeps_indentFollowed hinner (List.cons_ne_nil _ _) (hvisit x hx) (hrefl x hx)).mono
        (Nat.le_succ 1) fun _ => id
  refine .within nofun rfl (keeps_trail.bind fun trail htrail => ?_)
  have hrest (before : Space) : Keeps (.series l s :: values) 2
      (s.elements.mapM (indentFollowed style visit l.element) >>= fun xs => pure ⟨before, xs⟩)
      fun u : Series Tree => List.Forall₂ (fun x y => R x.element y.element) s.elements u.elements :=
    helements.bind fun _ hxs => .pure hxs
  have hbefore : Keeps (.series l s :: values) 2 (indentAt style (.opening l) s.before)
      fun _ => True := keeps_indentAt hinner (List.cons_ne_nil _ _) Nat.two_pos _ _
  have hopening := hbefore.bind fun before _ => hrest before
  refine .ite (fun _ => ?_) fun _ => ?_
  · refine (keeps_setStep hpos _).bind fun _ _ => ?_
    refine (keeps_setColumn hpos Nat.two_pos (htrail.level.column.add _)).bind fun _ _ => ?_
    exact hrest _
  · exact .ite (fun _ => (keeps_setStep hpos _).bind fun _ _ => hopening) fun _ => hopening

end Elements

/-! ### Trees -/

section Trees

open IndentWalk

variable {style : IndentStyle} {values : List FrameValue} {visit : Tree → IndentWalk Tree} {t : Tree}
  {R : Tree → Tree → Prop}

theorem Sheltered.way {way : List FrameValue} {outer : Trail IndentNote}
    (h : Sheltered values outer) (hne : values ≠ []) (hway : ∀ v ∈ way, v.tree? = none) :
    Sheltered (way ++ values) outer := by
  induction way with
  | nil => exact h
  | cons v way ih =>
    rw [List.forall_mem_cons] at hway
    refine (ih hway.2).cons (.inl (List.append_ne_nil_of_right_ne_nil _ hne)) ?_
    rw [hway.1]
    nofun

/-- At each slot of a node the trail stays sound, if it does where the parts are visited.  Parameters
of methods may be left as they are. -/
theorem keeps_slot (h : Sheltered values Trail.start) (hne : values ≠ []) {p : Slot Tree}
    (hvisit : ∀ way c, (way, c) ∈ p.ways → Keeps (way ++ values) 0 (visit c) (R c))
    (hrefl : ∀ way c, (way, c) ∈ p.ways → (∃ d, .followed .methodParameter d ∈ way) → R c c) :
    (keeping values 1).AtSlot R (fun _ _ _ => True) ((indenter style none).actions visit) p := by
  have below (v : FrameValue) (hv : v.tree? = none) : Sheltered (v :: values) Trail.start :=
    h.cons (.inl hne) (by rw [hv]; nofun)
  have hspace {v : FrameValue} (hv : v.tree? = none) (l : SpaceSlot) (s : Space) :
      Keeps (v :: values) 2 (indentAt style l s) fun _ => True :=
    keeps_indentAt (below v hv) (List.cons_ne_nil _ _) Nat.two_pos l s
  cases p with
  | part c => exact (hvisit [] c List.mem_cons_self).mono (Nat.zero_le 1) fun _ => id
  | space l s => exact keeps_indentAt h hne Nat.one_pos l s
  | followed l x =>
    have hx : ([FrameValue.followed l x.element], x.element) ∈ (Slot.followed l x).ways :=
      List.mem_cons_self
    refine (keeps_indentFollowed h hne (hvisit _ _ hx) ?_).mono (Nat.le_refl 1) fun _ hy => ⟨hy, trivial⟩
    rintro rfl
    exact hrefl _ _ hx ⟨_, List.mem_cons_self⟩
  | preceded l x =>
    refine .within nofun rfl ((hspace rfl _ _).bind fun _ _ => ?_)
    refine ((hvisit [.preceded l] _ List.mem_cons_self).mono (Nat.zero_le 2) fun _ => id).bind ?_
    exact fun _ ht => .pure ⟨trivial, ht⟩
  | word l s => exact .within nofun rfl (hspace rfl _ _)
  | series l s =>
    have hx (x : Followed Tree) (hx : x ∈ s.elements) :
        ([FrameValue.followed l.element x.element, .series l s], x.element) ∈
          (Slot.series l s).ways :=
      List.mem_map_of_mem hx
    refine (keeps_indentSeries h hne (fun x hmem => hvisit _ _ (hx x hmem)) fun x hmem hl => ?_).mono
      (Nat.le_refl 1) fun _ hu => ⟨trivial, hu.imp fun _ _ hy => ⟨hy, trivial⟩⟩
    refine hrefl _ _ (hx x hmem) ⟨x.element, ?_⟩
    rw [hl]
    exact List.mem_cons_self

/-- At a node the trail stays sound, and so it is where the parts are visited. -/
theorem keeps_atNode (h : Sheltered (.tree t :: values) Trail.start)
    (hvisit : ∀ p ∈ t.shape.slots, ∀ way c, (way, c) ∈ p.ways →
      Keeps (way ++ .tree t :: values) 0 (visit c) (R c))
    (hrefl : ∀ p ∈ t.shape.slots, ∀ way c, (way, c) ∈ p.ways →
      (∃ d, .followed .methodParameter d ∈ way) → R c c) :
    Keeps (.tree t :: values) 1 (atNode style visit t) fun u =>
      u.id = t.id ∧ Shape.Rel R (fun _ _ _ => True) t.shape u.shape := by
  refine (keeps_setStep (Nat.succ_pos _) _).bind fun _ _ => ?_
  have hleading : Keeps (.tree t :: values) 1 (indentAt style (.leading t.kind) t.leading)
      fun _ => True :=
    keeps_indentAt h (List.cons_ne_nil _ _) Nat.one_pos _ _
  have htraverse : Keeps (.tree t :: values) 1
      (t.shape.traverse ((indenter style none).actions visit))
      (Shape.Rel R (fun _ _ _ => True) t.shape) :=
    Answers.traverse_of_slots fun p hp =>
      keeps_slot h (List.cons_ne_nil _ _) (hvisit p hp) (hrefl p hp)
  exact hleading.bind fun _ _ => htraverse.bind fun _ hx => .pure ⟨rfl, hx⟩

theorem exists_of_run_visitWithin {n : Nat} {u : Tree} {w w' : Traversal IndentNote Unit}
    (hw : w.trail.isStopped = false)
    (h : ((indenter style none).visitWithin (n + 1) t).run w = .ok (u, w')) :
    ∃ v, (atNode style ((indenter style none).visitWithin n) t).run
      ⟨fresh (.tree t) :: w.trail, w.state⟩ = .ok (u, v) ∧ w' = ⟨v.trail.tail, v.state⟩ := by
  rw [visitWithin_indenter] at h
  obtain ⟨trail, v, htrail, h⟩ := Walk.exists_of_run_bind h
  cases htrail
  rw [hw, if_neg Bool.false_ne_true] at h
  exact Walk.exists_of_run_within h

/-- **The indenter stays on sound trails**: a visit of a part leaves the columns of all frames around
it. -/
theorem keeps_visitWithin {n : Nat} (ht : t.Regular) (hn : t.height ≤ n)
    (h : Sheltered values Trail.start) (hkind : values ≠ [] ∨ t.kind ≠ .annotationUse) :
    Keeps values 0 ((indenter style none).visitWithin n t) fun u => u.id = t.id := by
  induction n generalizing t values with
  | zero =>
    rw [Tree.height_eq] at hn
    omega
  | succ n ih =>
    obtain ⟨hheaded, hparts⟩ := Tree.regular_iff.1 ht
    have hinner : Sheltered (.tree t :: values) Trail.start := by
      refine h.cons (hkind.imp_right fun hk hv => hk (Option.some.inj hv)) ?_
      rintro _ ⟨⟩
      exact hheaded
    have hbody : Keeps (.tree t :: values) 1
        (atNode style ((indenter style none).visitWithin n) t) _ :=
      keeps_atNode (R := fun c d => d.id = c.id) hinner (fun p hp way c hc => by
        have hmem : c ∈ t.children := Slot.mem_children_of_mem_ways hp hc
        have hlt := Tree.height_lt_of_mem_children hmem
        exact ih (hparts c hmem) (by omega)
          (hinner.way (List.cons_ne_nil _ _) (Slot.tree?_of_mem_ways hc)) (.inl (by simp)))
        fun _ _ _ _ _ _ => rfl
    intro w u w' hw hrun
    -- the visit may end an annotation, so that it leaves the trail calm is known from elsewhere
    obtain ⟨inner, hinner', hvalues⟩ := hw.rooted
    have halike : VisitsAlike (fun _ => false) ((indenter style none).visitWithin (n + 1))
        ((indenter style none).visitWithin (n + 1)) t :=
      visitsAlike_indenter ht hn (Nat.le_trans (Tree.height_without_le t) hn)
    obtain ⟨_, inner', hw', -, hcalm, -⟩ := halike values _ h hkind inner u w'
      hvalues (hinner' ▸ hw.calm) (hinner' ▸ hrun)
    obtain ⟨v, hnode, rfl⟩ := exists_of_run_visitWithin hw.running hrun
    obtain ⟨hv, hcolumns, hid, -⟩ := hbody _ _ _ (hw.cons _) hnode
    have hcolumns : Trail.columns v.trail.tail = w.trail.columns := by
      rw [columns_tail, ← List.drop_one, hcolumns]
      rfl
    refine ⟨hv.tail ?_ (hw.level.of_columns hcolumns), congrArg (List.drop 0) hcolumns, hid⟩
    rw [show v.trail.tail = inner' ++ Trail.start from congrArg Traversal.trail hw']
    exact hcalm

theorem Slot.map_ways (p : Slot Tree) : p.ways.map Prod.snd = p.parts := by
  cases p with
  | series l s =>
    rw [parts_series, ways, List.map_map]
    rfl
  | part | followed | preceded | space | word => rfl

namespace Tree

variable {c : Tree}

/-- No two nodes of the tree have one identity. -/
def Distinct (t : Tree) : Prop := (t.preorder.map id).Nodup

theorem distinct_iff : t.Distinct ↔ t.id ∉ (t.children.flatMap preorder).map id ∧
    (∀ c ∈ t.children, c.Distinct) ∧
    t.children.Pairwise fun c d => List.Disjoint (c.preorder.map id) (d.preorder.map id) := by
  rw [Distinct, preorder_eq, List.map_cons, List.nodup_cons, List.map_flatMap, List.nodup_flatMap]
  rfl

theorem Distinct.nodup_children (h : t.Distinct) : (t.children.map id).Nodup := by
  refine List.pairwise_map.2 ((distinct_iff.1 h).2.2.imp fun {c d} hdisjoint heq => ?_)
  exact hdisjoint (List.mem_map_of_mem c.self_mem_preorder)
    (heq ▸ List.mem_map_of_mem d.self_mem_preorder)

/-- There is one way to each part. -/
theorem Distinct.way_eq (h : t.Distinct) {p p' : Slot Tree} {way way' : List FrameValue}
    (hp : p ∈ t.shape.slots) (hc : (way, c) ∈ p.ways) (hp' : p' ∈ t.shape.slots)
    (hc' : (way', c) ∈ p'.ways) : way' = way := by
  have hnodup : ((t.shape.slots.flatMap Slot.ways).map fun x => x.2.id).Nodup := by
    have hparts : (t.shape.slots.flatMap Slot.ways).map (fun x => x.2.id) = t.children.map id := by
      rw [children, Shape.children_eq_slots, List.map_flatMap, List.map_flatMap]
      refine congrArg (List.flatMap · _) (funext fun p => ?_)
      rw [← Slot.map_ways, List.map_map]
      rfl
    rw [hparts]
    exact h.nodup_children
  have heq : (way', c) = (way, c) := List.inj_on_of_nodup_map hnodup
    (List.mem_flatMap.2 ⟨p', hp', hc'⟩) (List.mem_flatMap.2 ⟨p, hp, hc⟩) rfl
  exact (Prod.mk.inj heq).1

end Tree

/-- The tree is visited from a sound trail along these frames, and becomes the other one. -/
def Visited (style : IndentStyle) (values : List FrameValue) (t u : Tree) : Prop :=
  ∃ n w w', t.height ≤ n ∧ Sound values w.trail ∧
    ((indenter style none).visitWithin n t).run w = .ok (u, w')

/-- A tree that may be visited along these frames. -/
structure Visitable (values : List FrameValue) (t : Tree) : Prop where
  regular : t.Regular
  sheltered : Sheltered values Trail.start
  kind : values ≠ [] ∨ t.kind ≠ .annotationUse
  distinct : t.Distinct

namespace Visitable

variable {p : Slot Tree} {way : List FrameValue} {c : Tree}

theorem inner (h : Visitable values t) : Sheltered (.tree t :: values) Trail.start := by
  refine h.sheltered.cons (h.kind.imp_right fun hk hv => hk (Option.some.inj hv)) ?_
  rintro _ ⟨⟩
  exact (Tree.regular_iff.1 h.regular).1

theorem part (h : Visitable values t) (hp : p ∈ t.shape.slots) (hc : (way, c) ∈ p.ways) :
    Visitable (way ++ .tree t :: values) c where
  regular := (Tree.regular_iff.1 h.regular).2 c (Slot.mem_children_of_mem_ways hp hc)
  sheltered := h.inner.way (List.cons_ne_nil _ _) (Slot.tree?_of_mem_ways hc)
  kind := .inl (by simp)
  distinct := (Tree.distinct_iff.1 h.distinct).2.1 c (Slot.mem_children_of_mem_ways hp hc)

end Visitable

/-- **Where the parts of a node are visited**: along the frames above the node, the node, and those on
the way from it, unless that is the parameter of a method. -/
theorem Visited.part {u : Tree} (h : Visited style values t u) (ht : Visitable values t)
    {p : Slot Tree} {way : List FrameValue} {c : Tree} (hp : p ∈ t.shape.slots)
    (hc : (way, c) ∈ p.ways) (hway : ∀ d, .followed .methodParameter d ∉ way) :
    ∃ c' ∈ u.children, c'.id = c.id ∧ Visited style (way ++ .tree t :: values) c c' := by
  obtain ⟨n, w, w', hn, hw, hrun⟩ := h
  obtain - | n := n
  · rw [Tree.height_eq] at hn
    omega
  obtain ⟨v, hnode, -⟩ := exists_of_run_visitWithin hw.running hrun
  -- what becomes of a part, wherever it is visited
  let R (c c' : Tree) : Prop := c'.id = c.id ∧ ∀ p ∈ t.shape.slots, ∀ way, (way, c) ∈ p.ways →
    (∀ d, .followed .methodParameter d ∉ way) → Visited style (way ++ .tree t :: values) c c'
  have hbody : Keeps (.tree t :: values) 1
      (atNode style ((indenter style none).visitWithin n) t)
      fun u => u.id = t.id ∧ Shape.Rel R (fun _ _ _ => True) t.shape u.shape := by
    refine keeps_atNode ht.inner (fun p hp way c hc => ?_) fun p hp way c hc hparameter => ?_
    · have hmem : c ∈ t.children := Slot.mem_children_of_mem_ways hp hc
      have hheight : c.height ≤ n := by
        have := Tree.height_lt_of_mem_children hmem
        omega
      have hpart := ht.part hp hc
      intro w c' w' hw hrun
      obtain ⟨hw', hcolumns, hid⟩ :=
        keeps_visitWithin hpart.regular hheight hpart.sheltered hpart.kind w c' w' hw hrun
      refine ⟨hw', hcolumns, hid, fun p' hp' way' hc' _ => ?_⟩
      rw [ht.distinct.way_eq hp hc hp' hc']
      exact ⟨n, w, w', hheight, hw, hrun⟩
    · refine ⟨rfl, fun p' hp' way' hc' hnone => ?_⟩
      obtain ⟨d, hd⟩ := hparameter
      rw [ht.distinct.way_eq hp hc hp' hc'] at hnone
      exact absurd hd (hnone d)
  obtain ⟨-, -, -, hshape⟩ := hbody _ _ _ (hw.cons _) hnode
  obtain ⟨c', hc', hid, hvisited⟩ := exists_mem_of_forall₂ (P := fun c' c => R c c')
    hshape.children.flip (Slot.mem_children_of_mem_ways hp hc)
  exact ⟨c', hc', hid, hvisited p hp way hc hway⟩

/-- **Where nodes are visited**: where a visit from the root comes to a node, it comes along the
frames above it. -/
theorem visited_of_reaches {u n : Tree} {above : List FrameValue} (h : Visited style [] t u)
    (ht : Visitable [] t) (hn : t.Reaches above n)
    (hparameter : ∀ d, .followed .methodParameter d ∉ above) :
    ∃ values, above = values ++ [.root] ∧ Visitable values n ∧
      ∃ n' ∈ u.preorder, n'.id = n.id ∧ Visited style values n n' := by
  have hid (h : Visited style [] t u) : u.id = t.id := by
    obtain ⟨n, w, w', hheight, hw, hrun⟩ := h
    exact (keeps_visitWithin ht.regular hheight ht.sheltered ht.kind w u w' hw hrun).2.2
  induction hn with
  | root => exact ⟨[], rfl, ht, u, u.self_mem_preorder, hid h, h⟩
  | @part above way n c p hn hp hc ih =>
    have hparameter (d : Tree) := hparameter d
    simp only [List.mem_append, List.mem_cons, not_or] at hparameter
    obtain ⟨values, rfl, hvisitable, n', hn', -, hvisited⟩ := ih fun d => (hparameter d).2.2
    obtain ⟨c', hc', hid, hc''⟩ := hvisited.part hvisitable hp hc fun d => (hparameter d).1
    refine ⟨way ++ .tree n :: values, by simp, hvisitable.part hp hc, c', ?_, hid, hc''⟩
    exact Tree.preorder_subset _ hn' (Tree.mem_preorder_of_mem_children hc' c'.self_mem_preorder)

end Trees

end JavaSource
