import JavaSource.Proofs.IndentDeletion
import JavaSource.Proofs.Insertion
import JavaSource.Proofs.Weighed

/-!
# Formatting inserted statements

What each pass does to a tree and to the tree without some of its statements differs in these
statements only (`Pass.run_without`), and so does what formatting does (`Pass.foldlM_without`).  A
parsed file with a parsed statement put into one of its blocks is such a tree, since no two of their
nodes have one identity; so formatting the statement into its place changes nothing else
(`format_insertStatement`).
-/

namespace JavaSource

namespace Tree

/-! ### Trees that the formatter treats alike -/

theorem headed_bare (t : Tree) : t.bare.Headed ↔ t.Headed := by
  have hrel := Shape.rel_bareWith bare t.shape
  have hshape : t.bare.shape = t.shape.bareWith bare := by rw [bare_eq]; rfl
  rw [← hshape] at hrel
  constructor
  · rintro ⟨hloop, hlabel⟩
    refine ⟨fun h => (hasForHeader_bare t).1 (hloop ((kind_bare t).trans h)), fun name body h => ?_⟩
    rw [h] at hrel
    cases hx : t.bare.shape <;> rw [hx] at hrel <;> cases hrel
    rename_i hname _
    have := hlabel _ _ hx
    rw [hname.element, children_bare] at this
    exact List.map_eq_nil_iff.1 this
  · rintro ⟨hloop, hlabel⟩
    refine ⟨fun h => (hasForHeader_bare t).2 (hloop ((kind_bare t).symm.trans h)),
      fun name body h => ?_⟩
    rw [h] at hrel
    cases hx : t.shape <;> rw [hx] at hrel <;> cases hrel
    rename_i hname _
    rw [hname.element, children_bare, hlabel _ _ hx, List.map_nil]

theorem regular_bare (t : Tree) : t.bare.Regular ↔ t.Regular := by
  induction t using Tree.induction with
  | node t ih =>
    rw [regular_iff, regular_iff, children_bare, headed_bare, List.forall_mem_map]
    exact and_congr_right fun _ => forall₂_congr ih

theorem Regular.respaced {t u : Tree} (ht : t.Regular) (h : t.Respaced u) : u.Regular := by
  rw [← regular_bare, ← h.bare, regular_bare]
  exact ht

theorem inherited_regular : Inherited Regular where
  withLeading {t} s ht := by
    rw [← regular_bare, ← bare_withLeading, regular_bare]
    exact ht
  node {i s x} hk hx := by
    refine regular_iff.2 ⟨⟨fun h => ?_, fun name body h => ?_⟩, hx⟩
    · have h : x.kind = .forLoop := h
      rw [h] at hk
      cases hk
    · have h : x = .labeled name body := h
      rw [h] at hk
      cases hk
  labeled {i j s s' name type after body} hbody := by
    have hlabel : Regular (.node j s' (.identifier name type)) :=
      regular_iff.2 ⟨⟨by rintro ⟨⟩, by rintro _ _ ⟨⟩⟩, List.forall_mem_nil _⟩
    refine regular_iff.2 ⟨⟨by rintro ⟨⟩, fun _ _ h => ?_⟩, fun c hc => ?_⟩
    · cases h
      rfl
    · rcases List.mem_pair.1 hc with rfl | rfl
      · exact hlabel
      · exact hbody
  forLoop {i j s s' init condition update body} hinit hcondition hupdate hbody := by
    have hcontrol : Regular (.node j s' (.forControl init condition update)) := by
      have hparts : Every Regular (Shape.forControl init condition update).children := by
        simpa [Shape.children] using ⟨hinit, hcondition, hupdate⟩
      exact regular_iff.2 ⟨⟨by rintro ⟨⟩, by rintro _ _ ⟨⟩⟩, hparts⟩
    refine regular_iff.2 ⟨⟨fun _ => ⟨_, _, rfl, rfl⟩, by rintro _ _ ⟨⟩⟩, fun c hc => ?_⟩
    rcases List.mem_pair.1 hc with rfl | rfl
    · exact hcontrol
    · exact hbody

/-- The passes do the same to the tree with and without the statements that satisfy `p`. -/
structure Separable (p : NodeId → Bool) (t : Tree) : Prop where
  plain : t.Plain
  regular : t.Regular
  spares : t.Spares p none
  kind : t.kind ≠ .annotationUse

theorem Separable.respaced {p : NodeId → Bool} {t u : Tree} (ht : t.Separable p)
    (h : t.Respaced u) : u.Separable p where
  plain := ht.plain.respaced h
  regular := ht.regular.respaced h
  spares := ht.spares.respaced h
  kind := kind_eq_of_bare h.bare ▸ ht.kind

end Tree

/-! ### Passes -/

namespace Pass

variable {p : NodeId → Bool} {t u : Tree}

section Local

variable {v : Visitor Unit Unit} {f : Option NodeKind → Tree → Tree} {h : SpaceSlot → Space → Space}

theorem runPlain_without (hv : v.IsLocal f h) (hf : Tree.Rule p f) (ht : t.Separable p)
    (hu : runPlain v [.root] t = .ok u) : runPlain v [.root] (t.without p) = .ok (u.without p) := by
  rw [runPlain_eq hv] at hu
  obtain rfl := Except.ok.inj hu
  rw [runPlain_eq hv, hf.rewrite ht.spares]

end Local

theorem rule_stay : Tree.Rule p fun _ t => t where
  respaced _ := Tree.Respaced.congruence.refl
  without _ _ _ := rfl

theorem sheltered_seeds (style : IndentStyle) : Sheltered [] (style.seeds [.root]) where
  outer_ne := nofun
  calm := .inr (Nat.le_of_eq rfl)
  head := by
    rw [IndentStyle.values_seeds]
    nofun
  last := nofun
  headed := by
    rw [IndentStyle.values_seeds]
    nofun

/-- What a pass does to a tree and what it does to the tree without some statements differ in these
statements only. -/
theorem run_without (styles : Styles) (pass : Pass) (ht : t.Separable p)
    (hu : pass.run styles none [.root] t = .ok u) :
    pass.run styles none [.root] (t.without p) = .ok (u.without p) := by
  have C := Tree.Respaced.congruence
  have hspaces (h : SpaceSlot → Space → Space) (hu : runPlain (.ofSpaces none h) [.root] t = .ok u) :
      runPlain (.ofSpaces none h) [.root] (t.without p) = .ok (u.without p) :=
    runPlain_without (Visitor.isLocal_ofSpaces h) rule_stay ht hu
  have hnodes {f : Option NodeKind → Tree → Tree} (hf : Tree.Rule p f)
      (hu : runPlain (.ofNodes none f) [.root] t = .ok u) :
      runPlain (.ofNodes none f) [.root] (t.without p) = .ok (u.without p) :=
    runPlain_without (Visitor.isLocal_ofNodes f) hf ht hu
  cases pass with
  | leadingSpace =>
    exact hnodes ⟨fun _ => Tree.respaced_gatherLeading, fun _ t _ => t.without_gatherLeading⟩ hu
  | wordGaps =>
    refine hnodes ⟨fun _ t => C.withShape ?_, fun _ t _ => t.without_separateWords⟩ hu
    exact Shape.rel_separateWords C (fun _ s => s.ink_orSingle.symm) _
  | trailingBlanks => exact hspaces _ hu
  | blankLines =>
    refine hnodes ⟨fun parent t => C.withShape ?_, fun _ t => Tree.without_bound _⟩ hu
    exact BlankLineStyle.rel_bound C (fun limit _ s => (s.ink_limitBlankLines limit).symm)
      (fun least _ s => (s.ink_requireBlankLines least).symm) _ parent _
  | spacing =>
    refine hnodes ⟨?_, fun _ t => Tree.without_pad styles⟩ hu
    exact Tree.rel_pad C (fun w _ s => (s.ink_padded w).symm) styles
  | wrapping =>
    refine hnodes ⟨fun _ t => C.withShape ?_, fun _ t => Tree.without_wrapParts⟩ hu
    exact Shape.rel_wrapParts C (fun _ s => s.ink_wrapped.symm) _
  | indentCharacters => exact hspaces _ hu
  | indents =>
    rw [run, runIndents] at hu ⊢
    cases hrun : (indenter styles.indents none).runAt (styles.indents.seeds [.root]) () t with
    | error e =>
      rw [hrun] at hu
      cases hu
    | ok r =>
      rw [hrun] at hu
      cases hu
      have hseeds : (styles.indents.seeds [.root]).without p = styles.indents.seeds [.root] := rfl
      have hwithout := runAt_indenter_without (p := p) ht.regular ht.kind (sheltered_seeds _) hrun
      rw [hseeds] at hwithout
      rw [hwithout]
      rfl
  | lineEnds => exact hspaces _ hu

/-- And so it is with one pass after another. -/
theorem foldlM_without (styles : Styles) (passes : List Pass) (ht : t.Separable p) :
    ∃ u, passes.foldlM (fun t pass => pass.run styles none [.root] t) t = .ok u ∧
      passes.foldlM (fun t pass => pass.run styles none [.root] t) (t.without p) =
        .ok (u.without p) := by
  induction passes generalizing t with
  | nil => exact ⟨t, rfl, rfl⟩
  | cons pass passes ih =>
    obtain ⟨u, hu, htu⟩ := exists_run styles none [.root] pass ht.plain
    obtain ⟨w, hw, hwithout⟩ := ih (ht.respaced htu)
    refine ⟨w, ?_, ?_⟩
    · rw [List.foldlM_cons, hu]
      exact hw
    · rw [List.foldlM_cons, run_without styles pass ht hu]
      exact hwithout

end Pass

/-! ### The main result -/

theorem kind_of_parseFrom {source : Text} {firstId nextId : NodeId} {t : Tree}
    (h : parseFrom .unit source firstId = .ok (t, nextId)) : t.kind = .compilationUnit := by
  obtain ⟨ts, j, -, -, hrun⟩ := exists_run_of_parseFrom h
  have hbuilds (g : Productions) :
      (Grammar.compilationUnit g).Builds fun t => t.kind = .compilationUnit :=
    .after fun _ => .after fun _ => .after fun _ => .after fun _ => .after fun _ =>
      Parser.builds_made fun _ => rfl
  exact hbuilds _ _ _ _ hrun

/-- **Formatting an inserted statement changes nothing else.** A statement is put into a block of a
parsed file, behind the first statement of the block.  The block may be anything but the body of a
class.  Then the file is formatted; and to delete the statement again gives what formatting makes of
the file without it. -/
theorem format_insertStatement {source snippet : Text} {i j k l : NodeId} {t s b : Tree}
    (ht : parseFrom .unit source i = .ok (t, j)) (hs : parseFrom .statement snippet k = .ok (s, l))
    (hapart : j ≤ k ∨ l ≤ i) (hb : b ∈ t.preorder) (hblock : b.kind = .block)
    (hcode : ∀ a ∈ t.preorder, b ∈ a.children → a.kind.hasMembers = false) {place : Nat}
    (hfirst : 1 ≤ place) (hlast : place ≤ b.children.length) (styles : Styles) :
    ∃ u, (t.replace b.id (b.insertStatement place s)).format styles none = .ok u ∧
      t.format styles none = .ok (u.without (· == s.id)) := by
  obtain ⟨hnodup, hids⟩ := nodup_ids_of_parseFrom ht
  have hfresh (c : Tree) (hc : c ∈ t.preorder) : c.id ≠ s.id := by
    have hlow := hids c hc
    have hhigh := (nodup_ids_of_parseFrom hs).2 s s.self_mem_preorder
    intro heq
    rw [heq] at hlow
    have habsurd (i j k l x : Nat) (h : i ≤ x ∧ x < j) (h' : k ≤ x ∧ x < l) :
        ¬(j ≤ k ∨ l ≤ i) := by omega
    exact habsurd i j k l s.id hlow hhigh hapart
  have hgains : Tree.Gains s none t (t.replace b.id (b.insertStatement place s)) :=
    Tree.gains_replace hnodup hb hblock hcode hfirst hlast
  have hseparable : (t.replace b.id (b.insertStatement place s)).Separable (· == s.id) := {
    plain := hgains.plain (plain_of_parseFrom ht) (plain_of_parseFrom hs)
    regular := hgains.regular (inherited_of_parseFrom Tree.inherited_regular ht)
      (inherited_of_parseFrom Tree.inherited_regular hs)
    spares := hgains.spares hfresh
    kind := by
      rw [hgains.kind, kind_of_parseFrom ht]
      nofun }
  obtain ⟨u, hu, hwithout⟩ := Pass.foldlM_without styles Pass.all hseparable
  rw [hgains.without_eq hfresh] at hwithout
  exact ⟨u, hu, hwithout⟩

/-- A call behind another one in the body of a method. -/
theorem format_insertStatement_call :
    ∃ t j s l b, parseFrom .unit "class A { void f() { a(); } }".toList 0 = .ok (t, j) ∧
      parseFrom .statement "b();".toList 100 = .ok (s, l) ∧ b ∈ t.preorder ∧ b.kind = .block ∧
      b.children.length = 1 ∧
      ∃ u, (t.replace b.id (b.insertStatement 1 s)).format .standard none = .ok u ∧
        t.format .standard none = .ok (u.without (· == s.id)) := by
  have hunit : (parseFrom .unit "class A { void f() { a(); } }".toList 0).toOption.any (fun r =>
      decide (r.2 ≤ 100) && r.1.preorder.any fun b =>
        decide (b.kind = .block) && decide (b.children.length = 1) && r.1.preorder.all fun a =>
          !((a.children.map Tree.id).contains b.id) || !a.kind.hasMembers) := by
    decide +kernel
  have hsnippet : (parseFrom .statement "b();".toList 100).toOption.isSome := by decide +kernel
  cases ht : parseFrom .unit "class A { void f() { a(); } }".toList 0 with
  | error e =>
    rw [ht] at hunit
    cases hunit
  | ok r =>
    cases hs : parseFrom .statement "b();".toList 100 with
    | error e =>
      rw [hs] at hsnippet
      cases hsnippet
    | ok q =>
      rw [ht] at hunit
      obtain ⟨hnext, hany⟩ := Bool.and_eq_true_iff.1 hunit
      obtain ⟨b, hb, hblock⟩ := List.any_eq_true.1 hany
      obtain ⟨⟨hkind, hlength⟩, hall⟩ : (b.kind = .block ∧ b.children.length = 1) ∧
          ∀ a ∈ r.1.preorder, b.id ∉ a.children.map Tree.id ∨ a.kind.hasMembers = false := by
        simpa using hblock
      have hcode (a : Tree) (ha : a ∈ r.1.preorder) (hmem : b ∈ a.children) :
          a.kind.hasMembers = false :=
        (hall a ha).resolve_left fun hnot => hnot (List.mem_map_of_mem hmem)
      exact ⟨r.1, r.2, q.1, q.2, b, rfl, rfl, hb, hkind, hlength,
        format_insertStatement ht hs (.inl (of_decide_eq_true hnext)) hb hkind hcode (Nat.le_refl 1)
          (Nat.le_of_eq hlength.symm) .standard⟩

end JavaSource
