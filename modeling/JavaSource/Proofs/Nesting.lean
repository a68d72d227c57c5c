import JavaSource.Proofs.Built
import JavaSource.Proofs.Respaced
import JavaSource.Proofs.VisitOrder

/-!
# Where statements stand

In a parsed tree a node that holds no statements has no parts that hold any, but for the body of a
lambda expression or of an anonymous class, and no file stands inside another tree
(`nested_of_parseFrom`).
-/

namespace JavaSource

/-- A node of this kind may be a part of one of the other kind: it is no whole file, the clauses of a
statement stand in such statements, and a part of an expression holds no statements unless it is the
block that an expression may have for its body. -/
structure NodeKind.NestsIn (k holder : NodeKind) : Prop where
  file : k ≠ .compilationUnit
  clause : ∀ s ∈ k.clauseOf?, holder = s
  inline : holder.isInline → k.isInline ∨ holder.mayHaveBody ∧ k = .block

/-- The parts of the layer may stand in it. -/
def Shape.Nested (x : Shape Tree) : Prop := ∀ c ∈ x.children, c.kind.NestsIn x.kind

namespace Tree

/-- Expressions and statements are nested in each other as the grammar says. -/
def Nested (t : Tree) : Prop := ∀ u ∈ t.preorder, u.shape.Nested

theorem nested_iff {t : Tree} : t.Nested ↔ t.shape.Nested ∧ ∀ c ∈ t.children, c.Nested :=
  forall_mem_preorder

theorem nested_node {i : NodeId} {s : Space} {x : Shape Tree} :
    (Tree.node i s x).Nested ↔ x.Nested ∧ Every Nested x.children :=
  nested_iff

theorem nested_bare (t : Tree) : t.bare.Nested ↔ t.Nested := by
  induction t using Tree.induction with
  | node t ih =>
    have hkind : t.bare.shape.kind = t.shape.kind := kind_bare t
    have hchildren : t.bare.shape.children = t.shape.children.map bare := children_bare t
    rw [nested_iff, nested_iff, children_bare, List.forall_mem_map]
    refine and_congr ?_ (forall₂_congr ih)
    simp only [Shape.Nested, hkind, hchildren, List.forall_mem_map, kind_bare]

theorem Nested.respaced {t u : Tree} (ht : t.Nested) (h : t.Respaced u) : u.Nested := by
  rw [← nested_bare, ← h.bare, nested_bare]
  exact ht

/-- A nested tree that may stand among statements. -/
structure NestedStatement (t : Tree) : Prop where
  nested : t.Nested
  file : t.kind ≠ .compilationUnit
  clause : t.kind.clauseOf? = none

/-- A nested tree that holds no statements. -/
structure NestedInline (t : Tree) : Prop where
  nested : t.Nested
  inline : t.kind.isInline

theorem NestedInline.statement {t : Tree} (h : t.NestedInline) : t.NestedStatement := by
  obtain ⟨hn, hk⟩ := h
  refine ⟨hn, fun hkind => ?_, ?_⟩
  · rw [hkind] at hk
    cases hk
  · generalize t.kind = k at hk
    cases k <;> first | rfl | cases hk

/-- What may stand in an expression. -/
def NestedWithin (holder : NodeKind) (t : Tree) : Prop :=
  t.NestedInline ∨ holder.mayHaveBody ∧ t.NestedStatement ∧ t.kind = .block

theorem NestedStatement.nestsIn {t : Tree} (h : t.NestedStatement) {holder : NodeKind}
    (hk : holder.isInline → t.kind.isInline ∨ holder.mayHaveBody ∧ t.kind = .block) :
    t.kind.NestsIn holder :=
  ⟨h.file, fun s hs => absurd (h.clause ▸ hs) (Option.not_mem_none s), hk⟩

theorem nestedInline_node {i : NodeId} {s : Space} {x : Shape Tree} (hk : x.kind.isInline)
    (hx : Every (NestedWithin x.kind) x.children) : NestedInline (.node i s x) := by
  refine ⟨nested_node.2 ⟨fun c hc => ?_, fun c hc => ?_⟩, hk⟩
  · obtain h | ⟨hbody, h, hblock⟩ := hx c hc
    · exact h.statement.nestsIn fun _ => .inl h.inline
    · exact h.nestsIn fun _ => .inr ⟨hbody, hblock⟩
  · obtain h | ⟨-, h, -⟩ := hx c hc
    · exact h.nested
    · exact h.nested

theorem nestedInline_of_parts {i : NodeId} {s : Space} {x : Shape Tree} (hk : x.kind.isInline)
    (hx : Every NestedInline x.children) : NestedInline (.node i s x) :=
  nestedInline_node hk fun c hc => .inl (hx c hc)

/-- A node that holds statements may hold clauses too. -/
theorem nested_of_clauses {i : NodeId} {s : Space} {x : Shape Tree} (hk : x.kind.isInline = false)
    (hx : ∀ c ∈ x.children, c.NestedStatement ∨ c.Nested ∧ c.kind.NestsIn x.kind) :
    Nested (.node i s x) := by
  refine nested_node.2 ⟨fun c hc => ?_, fun c hc => (hx c hc).elim (·.nested) (·.1)⟩
  refine (hx c hc).elim (fun h => h.nestsIn fun hinline => ?_) (·.2)
  rw [hk] at hinline
  cases hinline

theorem nested_of_parts {i : NodeId} {s : Space} {x : Shape Tree} (hk : x.kind.isInline = false)
    (hx : Every NestedStatement x.children) : Nested (.node i s x) :=
  nested_of_clauses hk fun c hc => .inl (hx c hc)

/-- The clauses of a statement may stand in it. -/
theorem nested_clause {t : Tree} {holder : NodeKind} (hholder : holder.isInline = false)
    (hk : t.kind.clauseOf? = some holder) (ht : Every NestedStatement t.children) :
    t.Nested ∧ t.kind.NestsIn holder := by
  obtain ⟨i, s, x⟩ := t
  have hkind : Tree.kind (.node i s x) = x.kind := rfl
  rw [hkind] at hk ⊢
  refine ⟨nested_of_parts ?_ ht, ?_, fun s hs => ?_, fun h => ?_⟩
  · cases x <;> first | rfl | cases hk
  · intro h
    rw [h] at hk
    cases hk
  · rw [hk] at hs
    exact Option.some.inj hs
  · rw [hholder] at h
    cases h

end Tree

open Tree

theorem descends_nested : Descends NestedInline NestedStatement where
  weaken _ h := h.statement
  withLeading {t} s h := by
    obtain ⟨i, s', x⟩ := t
    exact ⟨nested_node.2 (nested_node.1 h.nested), h.inline⟩
  inline hk hx := by
    rw [NodeKind.isPlainInline, Bool.and_eq_true, Bool.and_eq_true] at hk
    exact nestedInline_of_parts hk.1.1 hx
  -- of the parts of an expression only the bodies may hold statements
  lambda {i s l} hparameters hQ hbody := by
    have hbody : NestedWithin .lambda l.body := hbody.imp_right fun h => ⟨rfl, hQ, h⟩
    refine nestedInline_node rfl (every_append.2 ⟨?_, every_cons.2 ⟨hbody, every_nil⟩⟩)
    exact every_items.2 (mono (fun _ => .inl) _ hparameters)
  newClass {i s name arguments body type} hname harguments hbody := by
    refine nestedInline_node rfl (every_cons.2 ⟨.inl hname, every_append.2 ⟨?_, ?_⟩⟩)
    · exact every_items.2 (mono (fun _ => .inl) _ (every_series.1 harguments))
    · intro b hb
      exact .inr ⟨rfl, hbody b (Option.mem_toList.1 hb)⟩
  node {i s x} hk hx := by
    obtain ⟨hinline, hfile, hclause⟩ :
        x.kind.isInline = false ∧ x.kind ≠ .compilationUnit ∧ x.kind.clauseOf? = none := by
      cases x <;> first | exact ⟨rfl, NodeKind.noConfusion, rfl⟩ | cases hk
    exact ⟨nested_of_parts hinline hx, hfile, hclause⟩
  -- `else` and `catch` are the clauses
  ifStatement {i s condition thenPart alternative} hcondition hthen halternative := by
    refine ⟨nested_of_clauses rfl fun c hc => ?_, by rintro ⟨⟩, rfl⟩
    rcases List.mem_cons.1 hc with rfl | hc
    · exact .inl hcondition
    · rcases List.mem_cons.1 hc with rfl | hc
      · exact .inl hthen
      · obtain ⟨hk, hx⟩ := halternative c (Option.mem_toList.1 hc)
        exact .inr (nested_clause rfl (by rw [hk]; rfl) hx)
  tryStatement {i s body catches finallyBlock} hbody hcatches hfinally := by
    refine ⟨nested_of_clauses rfl fun c hc => ?_, by rintro ⟨⟩, rfl⟩
    rcases List.mem_append.1 hc with hc | hc
    · rcases List.mem_cons.1 hc with rfl | hc
      · exact .inl hbody
      · obtain ⟨hk, hx⟩ := hcatches c hc
        exact .inr (nested_clause rfl (by rw [hk]; rfl) hx)
    · exact .inl (every_toList.2 (every_map_preceded.2 hfinally) c hc)
  labeled hbody := by
    have hlabel {j s name type} : NestedStatement (.node j s (.identifier name type)) :=
      (nestedInline_of_parts rfl every_nil).statement
    exact ⟨nested_of_parts rfl (every_cons.2 ⟨hlabel, every_cons.2 ⟨hbody, every_nil⟩⟩), by rintro ⟨⟩, rfl⟩
  forLoop {i j s s' init condition update body} hinit hcondition hupdate hbody := by
    have hcontrol : NestedStatement (.node j s' (.forControl init condition update)) := by
      refine ⟨nested_of_parts rfl ?_, by rintro ⟨⟩, rfl⟩
      simpa [Shape.children] using ⟨hinit, mono (fun _ h => h.statement) _ hcondition,
        mono (fun _ h => h.statement) _ hupdate⟩
    exact ⟨nested_of_parts rfl (every_cons.2 ⟨hcontrol, every_cons.2 ⟨hbody, every_nil⟩⟩), by rintro ⟨⟩, rfl⟩

/-- **Statements stand in statements**, in the body of a lambda expression or in that of an anonymous
class: no other expression of a parsed tree has a statement for a part.  A file is no part of anything,
and each clause of a statement stands in such a statement. -/
theorem nested_of_parseFrom {kind : SourceKind} {source : Text} {firstId nextId : NodeId} {t : Tree}
    (h : parseFrom kind source firstId = .ok (t, nextId)) : t.Nested := by
  refine descends_nested.of_parseFrom (fun _ h => h.nested) (fun hu => nested_of_parts rfl hu)
    (build_grammar descends_nested fun {_ _ x} hk hx => ?_) h
  exact nestedInline_of_parts (by cases x <;> first | rfl | cases hk) hx

end JavaSource
