import JavaSource.Format.Pass
import JavaSource.Proofs.Built
import JavaSource.Proofs.Gathering
import JavaSource.Proofs.Indenting
import JavaSource.Proofs.LocalPasses

/-!
# Formatting changes white space only

Each pass succeeds on a parsed tree and gives the tree with other white space, and so does the whole
of `Tree.format` (`respaced_of_parseFrom`).  The indenter is the one pass that can fail, on a header
of a `for` loop that stands outside one; a parser builds no such tree (`Tree.Plain`), and to change
white space makes none.
-/

namespace JavaSource

namespace Tree

/-! ### Trees that the indenter accepts -/

theorem hasForHeader_bare (t : Tree) : t.bare.HasForHeader ↔ t.HasForHeader := by
  have h := Shape.rel_bareWith bare t.shape
  constructor
  · rintro ⟨control, body, hshape, hk⟩
    rw [bare_eq, shape] at hshape
    rw [hshape] at h
    cases hx : t.shape with
    | forLoop c b =>
      rw [hx] at h
      cases h with
      | forLoop hc _ => exact ⟨c, b, hx, by rwa [hc, kind_bare] at hk⟩
    | _ => rw [hx] at h; cases h
  · rintro ⟨control, body, hshape, hk⟩
    rw [hshape] at h
    cases hx : (Shape.forLoop control body).bareWith bare with
    | forLoop c b =>
      rw [hx] at h
      cases h with
      | forLoop hc _ => exact ⟨c, b, by rw [bare_eq, shape, hshape, hx], by rwa [hc, kind_bare]⟩
    | _ => rw [hx] at h; cases h

theorem housed_iff {t : Tree} :
    t.Housed ↔ (∀ c ∈ t.children, c.kind = .forControl → t.HasForHeader) ∧
      ∀ c ∈ t.children, c.Housed :=
  ⟨fun ⟨here, parts⟩ => ⟨here, parts⟩, fun h => ⟨h.1, h.2⟩⟩

theorem housed_bare (t : Tree) : t.bare.Housed ↔ t.Housed := by
  induction t using Tree.induction with
  | node t ih =>
    rw [housed_iff, housed_iff, children_bare, hasForHeader_bare, List.forall_mem_map,
      List.forall_mem_map]
    refine and_congr ?_ (forall₂_congr ih)
    simp only [kind_bare]

/-- A tree whose headers of `for` loops are below loops, and that is no such header itself. -/
structure Plain (t : Tree) : Prop where
  housed : t.Housed
  kind : t.kind ≠ .forControl

theorem Plain.respaced {t u : Tree} (ht : t.Plain) (h : t.Respaced u) : u.Plain where
  housed := by
    rw [← housed_bare, ← h.bare, housed_bare]
    exact ht.housed
  kind := kind_eq_of_bare h.bare ▸ ht.kind

theorem inherited_plain : Inherited Plain where
  withLeading {t} s ht := by
    have hbare := bare_withLeading t s
    exact ⟨by rw [← housed_bare, ← hbare, housed_bare]; exact ht.housed,
      kind_eq_of_bare hbare ▸ ht.kind⟩
  node {i s x} hk hx := by
    refine ⟨housed_iff.2 ⟨fun c hc h => absurd h (hx c hc).kind, fun c hc => (hx c hc).housed⟩, ?_⟩
    intro hkind
    have hx : x.kind = .forControl := hkind
    rw [hx] at hk
    cases hk
  labeled {i j s s' name type after body} hbody := by
    have hlabel : Housed (.node j s' (.identifier name type)) := housed_iff.2 ⟨nofun, nofun⟩
    refine ⟨housed_iff.2 ⟨fun c hc hk => ?_, fun c hc => ?_⟩, NodeKind.noConfusion⟩
    · rcases List.mem_pair.1 hc with rfl | rfl
      · cases hk
      · exact absurd hk hbody.kind
    · rcases List.mem_pair.1 hc with rfl | rfl
      · exact hlabel
      · exact hbody.housed
  forLoop {i j s s' init condition update body} hinit hcondition hupdate hbody := by
    have hcontrol : Housed (.node j s' (.forControl init condition update)) := by
      have hparts : ∀ c ∈ (Shape.forControl init condition update).children, c.Plain := by
        have h : Every Plain (Shape.forControl init condition update).children := by
          simpa [Shape.children] using ⟨hinit, hcondition, hupdate⟩
        exact h
      exact housed_iff.2 ⟨fun c hc h => absurd h (hparts c hc).kind,
        fun c hc => (hparts c hc).housed⟩
    refine ⟨housed_iff.2 ⟨fun _ _ _ => ⟨_, _, rfl, rfl⟩, fun c hc => ?_⟩, NodeKind.noConfusion⟩
    rcases List.mem_pair.1 hc with rfl | rfl
    · exact hcontrol
    · exact hbody.housed

end Tree

/-! ### Passes -/

theorem Trail.values_noteStep (trail : Trail IndentNote) : trail.noteStep.values = trail.values := by
  fun_induction noteStep trail with
  | case1 => rfl
  | case2 => rfl
  | case3 frame rest _ ih => exact congrArg (frame.value :: ·) ih

@[simp] theorem IndentStyle.values_seeds (style : IndentStyle) (above : List FrameValue) :
    (style.seeds above).values = above := by
  rw [seeds, Trail.values_noteStep, Trail.values, List.map_map]
  exact List.map_id above

namespace Pass

theorem exists_runPlain {v : Visitor Unit Unit} {P : Tree → Prop} {above : List FrameValue}
    {t : Tree} (h : ∀ values, Walk.Yields values (v.visit t) P) :
    ∃ u, runPlain v above t = .ok u ∧ P u := by
  obtain ⟨u, _, hrun, hu⟩ := Visitor.exists_runAt (h (Trail.ofValues above).values) ()
  exact ⟨u, by rw [runPlain, hrun]; rfl, hu⟩

/-- What the pass does to a space, or to the first part of a declaration, is in these relations. -/
def Respects (styles : Styles) (R : Tree → Tree → Prop) (S : SpaceSlot → Space → Space → Prop) :
    Pass → Prop
  | leadingSpace => ∀ t, R t t.gatherLeading
  | wordGaps => ∀ l s, S l s s.orSingle
  | trailingBlanks => ∀ l s, S l s (s.stripLineEnds l)
  | blankLines =>
    (∀ limit l s, S l s (s.limitBlankLines limit)) ∧ ∀ least l s, S l s (s.requireBlankLines least)
  | spacing => ∀ wanted l s, S l s (s.padded wanted)
  | wrapping => ∀ l s, S l s s.wrapped
  | indentCharacters => ∀ l s, S l s (s.rewriteIndents styles.indents)
  | indents => ∀ l column s, IsIndented l s → S l s (styles.indents.indentSpace l column s)
  | lineEnds => ∀ l s, S l s (s.withLineEnds styles.useCrlf)

/-- What is so of each place is so of the tree.  The indenter is the only pass that needs to know
something of it. -/
theorem Respects.exists_run {styles : Styles} {R : Tree → Tree → Prop}
    {S : SpaceSlot → Space → Space → Prop} {pass : Pass} {t : Tree} (h : pass.Respects styles R S)
    (C : Tree.Congruence R S) (ht : pass = .indents → t.Plain) (stopAfter : Option NodeId)
    (above : List FrameValue) : ∃ u, pass.run styles stopAfter above t = .ok u ∧ R t u := by
  have hspaces {f : SpaceSlot → Space → Space} (hf : ∀ l s, S l s (f l s)) :
      ∃ u, runPlain (.ofSpaces stopAfter f) above t = .ok u ∧ R t u :=
    exists_runPlain fun values => Visitor.yields_ofSpaces C hf values t
  have hnodes {f : Option NodeKind → Tree → Tree} (hf : ∀ k t, R t (f k t)) :
      ∃ u, runPlain (.ofNodes stopAfter f) above t = .ok u ∧ R t u :=
    exists_runPlain fun values => Visitor.yields_ofNodes C hf values t
  cases pass with
  | leadingSpace => exact hnodes fun _ => h
  | wordGaps => exact hnodes fun _ t => C.withShape (Shape.rel_separateWords C h t.shape)
  | trailingBlanks => exact hspaces h
  | blankLines =>
    exact hnodes fun parent t => C.withShape (BlankLineStyle.rel_bound C h.1 h.2 _ parent t.shape)
  | spacing => exact hnodes (Tree.rel_pad C h styles)
  | wrapping => exact hnodes fun _ t => C.withShape (Shape.rel_wrapParts C h t.shape)
  | indentCharacters => exact hspaces h
  | indents =>
    have ht := ht rfl
    have hfits : FitsBelow (styles.indents.seeds above).values t :=
      ⟨ht.housed, fun h => absurd h ht.kind⟩
    have hyields : Walk.Yields _ ((indenter styles.indents stopAfter).visit t) (R t) :=
      yields_indenter C h hfits
    obtain ⟨u, _, hrun, hu⟩ := Visitor.exists_runAt hyields ()
    exact ⟨u, by rw [run, runIndents, hrun]; rfl, hu⟩
  | lineEnds => exact hspaces h

theorem respects_respaced (styles : Styles) (pass : Pass) :
    pass.Respects styles Tree.Respaced fun _ s s' => s.ink = s'.ink := by
  cases pass with
  | leadingSpace => exact Tree.respaced_gatherLeading
  | wordGaps => exact fun _ s => s.ink_orSingle.symm
  | trailingBlanks => exact fun l s => (s.ink_stripLineEnds l).symm
  | blankLines =>
    exact ⟨fun limit _ s => (s.ink_limitBlankLines limit).symm,
      fun least _ s => (s.ink_requireBlankLines least).symm⟩
  | spacing => exact fun wanted _ s => (s.ink_padded wanted).symm
  | wrapping => exact fun _ s => s.ink_wrapped.symm
  | indentCharacters => exact fun _ s => (s.ink_rewriteIndents _).symm
  | indents => exact fun l column s _ => (styles.indents.ink_indentSpace l column s).symm
  | lineEnds => exact fun _ s => (s.ink_withLineEnds _).symm

/-- Each pass gives the tree with other white space. -/
theorem exists_run (styles : Styles) (stopAfter : Option NodeId) (above : List FrameValue)
    (pass : Pass) {t : Tree} (ht : t.Plain) :
    ∃ u, pass.run styles stopAfter above t = .ok u ∧ t.Respaced u :=
  (respects_respaced styles pass).exists_run Tree.Respaced.congruence (fun _ => ht) stopAfter above

theorem respaced_run {styles : Styles} {stopAfter : Option NodeId} {above : List FrameValue}
    {pass : Pass} {t u : Tree} (ht : t.Plain)
    (h : pass.run styles stopAfter above t = .ok u) : t.Respaced u := by
  obtain ⟨u', hu', htu⟩ := exists_run styles stopAfter above pass ht
  obtain rfl := Except.ok.inj (h.symm.trans hu')
  exact htu

/-- What each of them does is in the relation, and so is what they do together. -/
theorem exists_foldlM_of_respects {styles : Styles} {R : Tree → Tree → Prop}
    {S : SpaceSlot → Space → Space → Prop} (C : Tree.Congruence R S) {passes : List Pass}
    (h : ∀ pass ∈ passes, pass.Respects styles R S) (stopAfter : Option NodeId)
    (above : List FrameValue) {t : Tree} (ht : t.Plain) :
    ∃ u, passes.foldlM (fun t pass => pass.run styles stopAfter above t) t = .ok u ∧ R t u := by
  induction passes generalizing t with
  | nil => exact ⟨t, rfl, C.refl t⟩
  | cons pass passes ih =>
    rw [List.forall_mem_cons] at h
    obtain ⟨u, hu, htu⟩ := h.1.exists_run C (fun _ => ht) stopAfter above
    obtain ⟨w, hw, huw⟩ := ih h.2 (ht.respaced (respaced_run ht hu))
    exact ⟨w, by rw [List.foldlM_cons, hu]; exact hw, C.trans htu huw⟩

/-- And so does one pass after another. -/
theorem exists_foldlM (styles : Styles) (stopAfter : Option NodeId) (above : List FrameValue)
    (passes : List Pass) {t : Tree} (ht : t.Plain) :
    ∃ u, passes.foldlM (fun t pass => pass.run styles stopAfter above t) t = .ok u ∧
      t.Respaced u :=
  exists_foldlM_of_respects Tree.Respaced.congruence (fun pass _ => respects_respaced styles pass)
    stopAfter above ht

theorem respaced_foldlM {styles : Styles} {stopAfter : Option NodeId} {above : List FrameValue}
    {passes : List Pass} {t u : Tree} (ht : t.Plain)
    (h : passes.foldlM (fun t pass => pass.run styles stopAfter above t) t = .ok u) :
    t.Respaced u := by
  obtain ⟨u', hu', htu⟩ := exists_foldlM styles stopAfter above passes ht
  obtain rfl := Except.ok.inj (h.symm.trans hu')
  exact htu

end Pass

/-- Formatting is what is left to do when the first passes and the one after them have been run. -/
theorem Tree.format_of_runs {styles : Styles} {stopAfter : Option NodeId} {t v w : Tree}
    {before later : List Pass} {pass : Pass} (hall : Pass.all = before ++ pass :: later)
    (hv : before.foldlM (fun t pass => pass.run styles stopAfter [.root] t) t = .ok v)
    (hw : pass.run styles stopAfter [.root] v = .ok w) :
    t.format styles stopAfter =
      later.foldlM (fun t pass => pass.run styles stopAfter [.root] t) w := by
  have hlater : (pass :: later).foldlM (fun t pass => pass.run styles stopAfter [.root] t) v =
      later.foldlM (fun t pass => pass.run styles stopAfter [.root] t) w := by
    rw [List.foldlM_cons, hw]
    rfl
  rw [format, formatBelow, hall, List.foldlM_append, hv]
  exact hlater

/-! ### The main result -/

/-- The headers of `for` loops in a parsed tree are in `for` loops. -/
theorem plain_of_parseFrom {kind : SourceKind} {source : Text} {firstId nextId : NodeId} {t : Tree}
    (h : parseFrom kind source firstId = .ok (t, nextId)) : t.Plain :=
  inherited_of_parseFrom Tree.inherited_plain h

/-- **Formatting changes white space only**: on a parsed tree each pass, and the whole of them,
gives the same tree with other white space. -/
theorem respaced_of_parseFrom {kind : SourceKind} {source : Text} {firstId nextId : NodeId}
    {t : Tree} (h : parseFrom kind source firstId = .ok (t, nextId)) (styles : Styles)
    (stopAfter : Option NodeId) (above : List FrameValue) :
    (∀ pass : Pass, ∃ u, pass.run styles stopAfter above t = .ok u ∧ t.Respaced u) ∧
      ∃ u, t.formatBelow styles stopAfter above = .ok u ∧ t.Respaced u :=
  have ht := plain_of_parseFrom h
  ⟨fun pass => pass.exists_run styles stopAfter above ht,
    Pass.exists_foldlM styles stopAfter above Pass.all ht⟩

theorem respaced_of_parseFrom_loop :
    ∃ t n, parseFrom .statement "for (;;) {}".toList 0 = .ok (t, n) ∧
      (∀ pass : Pass, ∃ u, pass.run .standard none [.root] t = .ok u ∧ t.Respaced u) ∧
        ∃ u, t.formatBelow .standard none [.root] = .ok u ∧ t.Respaced u := by
  cases h : parseFrom .statement "for (;;) {}".toList 0 with
  | error e =>
    have hok : (parseFrom .statement "for (;;) {}".toList 0).toOption.isSome := by
      decide +kernel
    rw [h] at hok
    cases hok
  | ok r => exact ⟨r.1, r.2, rfl, respaced_of_parseFrom h .standard none [.root]⟩

end JavaSource
