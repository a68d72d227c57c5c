import JavaSource.Proofs.Built
import JavaSource.Proofs.ReadingExpressions
import JavaSource.Proofs.VisitOrder

/-!
# Operands bind tighter

In a parsed tree no operand of an operator binds looser than the operator, and operators of one
precedence group to the left (`grouped_of_parseFrom`).

What a production gives is told by the kind of the tree: a primary with what follows it
(`Tree.IsPrimary`) is less than an operand with operators before it (`Tree.IsOperand`), and that is
less than what a binary expression gives.  The loop over binary operators ends where the next operator
binds looser than the least that is asked for; so what comes back as the right operand of an operator
leaves only operators behind that bind no tighter than this one.
-/

namespace JavaSource

/-! ### Kinds of operands -/

/-- The node assigns. -/
def NodeKind.isAssignment : NodeKind → Bool
  | .assignment | .assignmentOperation => true
  | _ => false

/-- The node binds looser than a binary operator. -/
def NodeKind.isLoose : NodeKind → Bool
  | .assignment | .assignmentOperation | .ternary | .lambda => true
  | _ => false

theorem NodeKind.isAssignment_of_not_isLoose {k : NodeKind} (h : k.isLoose = false) :
    k.isAssignment = false := by
  cases k <;> first | rfl | cases h

namespace Tree

/-- The operator between two operands. -/
def binaryOperator? (t : Tree) : Option BinaryOperator :=
  match t.shape with
  | .binary _ _ operator _ _ => some operator
  | _ => none

/-- The node has an operator or a type in front of its operand. -/
def isPrefixed (t : Tree) : Bool :=
  match t.shape with
  | .unary _ operator _ => !operator.isPostfix
  | .typeCast .. => true
  | _ => false

/-- What an operator in front applies to. -/
structure IsOperand (t : Tree) : Prop where
  tight : t.kind.isLoose = false
  single : t.kind ≠ .binary

/-- What an operator behind applies to. -/
structure IsPrimary (t : Tree) : Prop extends t.IsOperand where
  bare : t.isPrefixed = false

variable {t : Tree}

@[simp] theorem kind_withLeading (t : Tree) (s : Space) : (t.withLeading s).kind = t.kind := by
  cases t; rfl

@[simp] theorem binaryOperator?_withLeading (t : Tree) (s : Space) :
    (t.withLeading s).binaryOperator? = t.binaryOperator? := by
  cases t; rfl

@[simp] theorem isPrefixed_withLeading (t : Tree) (s : Space) :
    (t.withLeading s).isPrefixed = t.isPrefixed := by
  cases t; rfl

theorem IsOperand.binaryOperator? (h : t.IsOperand) : t.binaryOperator? = none := by
  obtain ⟨i, s, x⟩ := t
  cases x <;> first | rfl | exact absurd rfl h.single

end Tree

/-! ### The grouping of operators -/

/-- The operands of the node are none that bind looser, and of binary operators with one precedence
the one on the left is applied first. -/
def Shape.Grouped : Shape Tree → Prop
  | .binary left _ operator right _ =>
    left.kind.isLoose = false ∧ right.kind.isLoose = false ∧
      (∀ o ∈ left.binaryOperator?, operator.precedence ≤ o.precedence) ∧
      ∀ o ∈ right.binaryOperator?, operator.precedence < o.precedence
  | .unary _ operator operand => operand.IsOperand ∧ (operator.isPostfix → operand.IsPrimary)
  | .typeCast _ operand => operand.IsOperand
  | .ternary condition _ whenFalse =>
    condition.kind.isLoose = false ∧ whenFalse.element.kind.isAssignment = false
  | .assignment target _ | .assignmentOperation target _ _ _ =>
    target.kind.isAssignment = false ∧ target.kind ≠ .lambda
  | _ => True

theorem Shape.grouped_of_not_isOperation {x : Shape Tree} (h : x.kind.isOperation = false) :
    x.Grouped := by
  cases x <;> trivial

/-- The operators of the tree are grouped by precedence. -/
def Tree.Grouped (t : Tree) : Prop := ∀ u ∈ t.preorder, u.shape.Grouped

theorem Tree.grouped_node {i : NodeId} {s : Space} {x : Shape Tree} :
    (Tree.node i s x).Grouped ↔ x.Grouped ∧ Every Tree.Grouped x.children :=
  Tree.forall_mem_preorder

theorem handedDown_grouped : HandedDown Tree.Grouped where
  withLeading {t} s h := by
    obtain ⟨i, s', x⟩ := t
    exact Tree.grouped_node.2 (Tree.grouped_node.1 h)
  node {i s x} hk hx := by
    rw [Bool.and_eq_true, Bool.not_eq_true'] at hk
    exact Tree.grouped_node.2 ⟨Shape.grouped_of_not_isOperation hk.2, hx⟩
  labeled hbody := by
    refine Tree.grouped_node.2 ⟨trivial, every_cons.2 ⟨?_, every_cons.2 ⟨hbody, every_nil⟩⟩⟩
    exact Tree.grouped_node.2 ⟨trivial, every_nil⟩
  forLoop hinit hcondition hupdate hbody := by
    refine Tree.grouped_node.2 ⟨trivial, every_cons.2 ⟨?_, every_cons.2 ⟨hbody, every_nil⟩⟩⟩
    exact Tree.grouped_node.2 ⟨trivial, by simpa [Shape.children] using ⟨hinit, hcondition, hupdate⟩⟩

/-- What each production gives, for the operator that reads it as an operand. -/
structure Productions.Group (g : Productions) : Prop where
  build : g.Build Tree.Grouped Tree.Grouped
  ternary : g.ternary.Builds fun t => t.kind.isAssignment = false
  unary : g.unary.Builds Tree.IsOperand
  binary : ∀ n i, (g.binary n).Ensures i fun t j => t.kind.isLoose = false ∧
    (∀ o ∈ t.binaryOperator?, n ≤ o.precedence) ∧
    ∀ o width, Grammar.binaryAhead j.tokens = some (o, width) → o.precedence < n

namespace Parser

variable {α : Type} [Bears α]

theorem Builds.and {P Q : Tree → Prop} {p : Parser Tree} (hP : p.Builds P) (hQ : p.Builds Q) :
    p.Builds fun t => P t ∧ Q t :=
  fun i => (hP i).and (hQ i)

end Parser

namespace Grammar

open JavaSource.Parser Lookahead

variable {g : Productions}

/-! ### Primaries -/

theorem builds_primary_node {s : Space} {x : Shape Tree} (hk : x.kind.isOperation = false)
    (hlambda : x.kind ≠ .lambda) : (node s x).Builds Tree.IsPrimary := by
  refine builds_made fun i => ?_
  cases x with
  | lambda => exact absurd rfl hlambda
  | assignment | assignmentOperation | binary | ternary | typeCast | unary => cases hk
  | _ => exact ⟨⟨rfl, by nofun⟩, rfl⟩

theorem isPrimary_anyName : anyName.Builds Tree.IsPrimary :=
  .after fun _ => .after fun _ => .after fun _ => builds_primary_node rfl (by nofun)

theorem isPrimary_identifier : identifier.Builds Tree.IsPrimary :=
  .after fun _ => .ite isPrimary_anyName builds_fail

theorem isPrimary_withTypeArguments {name : Tree} (hn : name.IsPrimary) :
    (withTypeArguments g name).Builds Tree.IsPrimary :=
  .after fun _ => .ite (.after fun _ => builds_primary_node rfl (by nofun)) (.pure hn)

theorem isPrimary_wildcard : (wildcard g).Builds Tree.IsPrimary := by
  refine .after fun _ => .after fun kind => ?_
  split
  · exact .after fun _ => .after fun _ => builds_primary_node rfl (by nofun)
  · exact .after fun _ => .after fun _ => builds_primary_node rfl (by nofun)
  · exact builds_primary_node rfl (by nofun)

theorem isPrimary_typeWithoutDimensions : (typeWithoutDimensions g).Builds Tree.IsPrimary := by
  refine .after fun kind => ?_
  split
  · exact .after fun _ => builds_primary_node rfl (by nofun)
  · refine .ite isPrimary_wildcard (isPrimary_identifier.bind fun name hn =>
      (isPrimary_withTypeArguments hn).bind fun name hn => builds_repeating (fun t ht => ?_) hn)
    refine .after fun _ => .after fun _ => .ite (.after fun _ => .after fun _ => ?_) (.pure every_none)
    exact (builds_primary_node rfl (by nofun)).bind fun u hu =>
      (isPrimary_withTypeArguments hu).bind fun v hv => .pure (every_some.2 hv)

theorem isPrimary_type : (type g).Builds Tree.IsPrimary := by
  refine isPrimary_typeWithoutDimensions.bind fun t ht => builds_repeating (fun t ht => ?_) ht
  refine .after fun _ => .after fun _ => .ite ?_ (.pure every_none)
  exact .after fun _ => .after fun _ => (builds_primary_node rfl (by nofun)).bind fun u hu =>
    .pure (every_some.2 hu)

theorem isPrimary_nameOrCall : (nameOrCall g).Builds Tree.IsPrimary :=
  isPrimary_anyName.bind fun _ hn => .after fun _ =>
    .ite (.after fun _ => builds_primary_node rfl (by nofun)) (.pure hn)

theorem isPrimary_creation : (creation g).Builds Tree.IsPrimary :=
  .after fun _ => .after fun _ => .after fun _ => .ite
    (.after fun _ => .after fun _ => builds_primary_node rfl (by nofun))
    (.after fun _ => .after fun _ => builds_primary_node rfl (by nofun))

theorem isPrimary_primary : (primary g).Builds Tree.IsPrimary := by
  refine .after fun kind => .after fun _ => ?_
  split
  · exact .after fun _ => .after fun _ => .after fun _ => builds_primary_node rfl (by nofun)
  · split
    · exact isPrimary_nameOrCall
    · exact isPrimary_nameOrCall
    · exact isPrimary_nameOrCall
    · exact .after fun _ => .after fun _ => .after fun _ => builds_primary_node rfl (by nofun)
    · exact isPrimary_creation
    · exact .after fun _ => .after fun _ => builds_primary_node rfl (by nofun)
    · exact .ite isPrimary_type builds_fail

theorem isPrimary_selection {target : Tree} : (selection g target).Builds Tree.IsPrimary := by
  refine .after fun before => .after fun o => .after fun _ => ?_
  dsimp only [Tree.lift]
  have hrest (name : Tree) : Parser.Builds Tree.IsPrimary (at? .openParen >>= fun b =>
      if o.isSome || b then arguments g >>= fun arguments => node target.leading (.methodInvocation
        ⟨some ⟨target.withLeading .empty, before⟩, o, name, arguments, none⟩)
      else node target.leading (.fieldAccess (target.withLeading .empty) ⟨before, name⟩ none)) :=
    .after fun _ => .ite (.after fun _ => builds_primary_node rfl (by nofun))
      (builds_primary_node rfl (by nofun))
  split <;> exact .after hrest

/-! ### Operations -/

theorem groups_postfixOperation {operator : UnaryOperator} {t : Tree} (ho : operator.isPostfix)
    (ht : t.Grouped ∧ t.IsPrimary) :
    (postfixOperation operator t).Builds fun u => u.Grouped ∧ u.IsPrimary := by
  refine .after fun before => builds_made fun i => ⟨Tree.grouped_node.2 ⟨?_, ?_⟩, ?_⟩
  · have hprimary : (t.withLeading .empty).IsPrimary :=
      ⟨⟨by simpa using ht.2.tight, by simpa using ht.2.single⟩, by simpa using ht.2.bare⟩
    exact ⟨hprimary.toIsOperand, fun _ => hprimary⟩
  · exact every_cons.2 ⟨handedDown_grouped.withLeading .empty ht.1, every_nil⟩
  · exact ⟨⟨rfl, by nofun⟩, by simp [Tree.isPrefixed, Tree.shape, ho]⟩

section Group

variable (hg : g.Group)

include hg

theorem groups_postfixExpression :
    (postfixExpression g).Builds fun t => t.Grouped ∧ t.IsPrimary := by
  have hH := handedDown_grouped.descends
  have hfirst := (builds_primary hH hg.build).and (isPrimary_primary (g := g))
  have hsome {p : Parser Tree} (h : p.Builds fun t => t.Grouped ∧ t.IsPrimary) :
      Parser.Builds (fun t => t.Grouped ∧ t.IsPrimary) (p >>= fun t => pure (some t)) :=
    h.bind fun _ ht => .pure (every_some.2 ht)
  refine hfirst.bind fun t ht => builds_repeating (fun t ht => ?_) ht
  refine .after fun _ => ?_
  split
  · exact hsome ((builds_selection hH hg.build ht.1).and isPrimary_selection)
  · refine (builds_arrayDimension hH hg.build).into fun d hd => hsome (.and ?_ ?_)
    · refine builds_inline hH rfl ?_
      simpa [Shape.children] using ⟨hH.withLeading .empty ht.1, hd⟩
    · exact builds_primary_node rfl (by rintro ⟨⟩)
  · exact hsome (groups_postfixOperation rfl ht)
  · exact hsome (groups_postfixOperation rfl ht)
  · exact .pure every_none

theorem groups_cast : (cast g).Builds fun t => t.Grouped ∧ t.IsOperand := by
  have hH := handedDown_grouped.descends
  refine .after fun leading => (builds_followed (builds_type hH hg.build)).into fun x hx =>
    .after fun _ => (hg.build.unary.and hg.unary).into fun t ht => .into (builds_inline hH rfl ?_)
      fun c hc => builds_made fun i => ⟨Tree.grouped_node.2 ⟨ht.2, ?_⟩, ⟨rfl, by nofun⟩⟩
  · simpa [Shape.children] using hx
  · exact every_cons.2 ⟨hc, every_cons.2 ⟨ht.1, every_nil⟩⟩

theorem groups_unaryExpression :
    (unaryExpression g).Builds fun t => t.Grouped ∧ t.IsOperand := by
  refine .after fun kind => ?_
  split
  · next operator ho =>
    refine .after fun leading => (hg.build.unary.and hg.unary).into fun t ht =>
      builds_made fun i => ⟨Tree.grouped_node.2 ⟨⟨ht.2, fun hpostfix => ?_⟩, ?_⟩, ⟨rfl, by nofun⟩⟩
    · rw [(unaryAhead_keyword ho).2] at hpostfix
      cases hpostfix
    · exact every_cons.2 ⟨ht.1, every_nil⟩
  · exact .after fun _ => .ite (groups_cast hg)
      ((groups_postfixExpression hg).mono fun t ht => ⟨ht.1, ht.2.toIsOperand⟩)

/-- Round by round the operators to the left bind at least as tight as the next one. -/
theorem groups_binaryExpression (least : Nat) (i : Input) :
    (binaryExpression g least).Ensures i fun t j => t.Grouped ∧ t.kind.isLoose = false ∧
      (∀ o ∈ t.binaryOperator?, least ≤ o.precedence) ∧
      ∀ o width, binaryAhead j.tokens = some (o, width) → o.precedence < least := by
  rw [binaryExpression, ensures_bind]
  refine (groups_unaryExpression hg i).mono fun t j ht => ?_
  refine repeating_ensures (P := fun t j => t.Grouped ∧ t.kind.isLoose = false ∧
    ∀ o ∈ t.binaryOperator?, least ≤ o.precedence ∧
      ∀ o' width, binaryAhead j.tokens = some (o', width) → o'.precedence ≤ o.precedence)
    (fun left j hleft => ?_) ⟨ht.1, ht.2.tight, by simp [ht.2.binaryOperator?]⟩
  obtain ⟨hgrouped, htight, hbinary⟩ := hleft
  have hleast : ∀ o ∈ left.binaryOperator?, least ≤ o.precedence := fun o ho => (hbinary o ho).1
  rw [ensures_bind, ensures_tokens]
  split
  · next hnone =>
    refine ensures_pure.2 ⟨hgrouped, htight, hleast, fun o width ho => ?_⟩
    rw [hnone] at ho
    cases ho
  · next operator width hahead =>
    refine ensures_ite.2 ⟨fun hlt => ?_, fun hle => ?_⟩
    · refine ensures_pure.2 ⟨hgrouped, htight, hleast, fun o width' ho => ?_⟩
      obtain rfl : operator = o := by
        rw [hahead] at ho
        exact (Prod.mk.inj (Option.some.inj ho)).1
      exact hlt
    · refine ensures_bind.2 fun before k _ => ensures_bind.2 fun _ l _ => ensures_bind.2 ?_
      have hright := (hg.build.binary (operator.precedence + 1) l).and (hg.binary _ l)
      refine hright.mono fun right m hright => ?_
      obtain ⟨hright, hloose, hmore, hnext⟩ := hright
      simp only [Tree.lift, ensures_bind, ensures_node, ensures_pure, Option.elim_some]
      refine ⟨Tree.grouped_node.2 ⟨⟨by simpa using htight, hloose, ?_, hmore⟩, ?_⟩, rfl, ?_⟩
      · rw [Tree.binaryOperator?_withLeading]
        exact fun o ho => (hbinary o ho).2 operator width hahead
      · exact every_cons.2 ⟨handedDown_grouped.withLeading .empty hgrouped,
          every_cons.2 ⟨hright, every_nil⟩⟩
      · rintro _ ⟨⟩
        exact ⟨by omega, fun o width ho => Nat.le_of_lt_succ (hnext o width ho)⟩

omit hg in
theorem not_isAssignment_lambda : (lambda g).Builds fun t => t.kind.isAssignment = false := by
  have hrest (leading : Space) (x : Space × Bool × List (Followed Tree)) :
      Parser.Builds (fun t => t.kind.isAssignment = false) (do
        let beforeArrow ← expect .arrow
        let body ← if ← at? .openBrace then block g else g.expression
        node leading (.lambda ⟨x.1, x.2.1, x.2.2, beforeArrow, body⟩)) := by
    have hbody (beforeArrow : Space) (t : Tree) :
        (node leading (.lambda ⟨x.1, x.2.1, x.2.2, beforeArrow, t⟩)).Builds
          fun t => t.kind.isAssignment = false := builds_made fun _ => rfl
    exact .after fun _ => .after fun _ => .ite (.after (hbody _)) (.after (hbody _))
  exact .after fun leading => .after fun _ =>
    .ite (.after fun _ => .after (hrest leading)) (.after fun _ => .after (hrest leading))

theorem groups_ternaryExpression : (ternaryExpression g).Builds fun t =>
    t.Grouped ∧ t.kind.isAssignment = false ∧ t.kind ≠ .lambda := by
  have hH := handedDown_grouped.descends
  have hcondition : (binaryExpression g 1).Builds fun t => t.Grouped ∧ t.kind.isLoose = false :=
    fun i => (groups_binaryExpression hg 1 i).mono fun t _ ht => ⟨ht.1, ht.2.1⟩
  refine hcondition.into fun c hc => .after fun _ => .ite ?_ (.pure ⟨hc.1, ?_, ?_⟩)
  · refine .after fun beforeQuestion => hg.build.expression.into fun t ht =>
      .after fun beforeColon => ?_
    have hnode (u : Tree) (hu : u.Grouped ∧ u.kind.isAssignment = false) :
        (node c.leading (.ternary (c.withLeading .empty) ⟨beforeQuestion, t⟩
          ⟨beforeColon, u⟩)).Builds fun t =>
            t.Grouped ∧ t.kind.isAssignment = false ∧ t.kind ≠ .lambda := by
      refine builds_made fun i => ⟨Tree.grouped_node.2 ⟨⟨by simpa using hc.2, hu.2⟩, ?_⟩, rfl,
        by nofun⟩
      simpa [Shape.children] using ⟨hH.withLeading .empty hc.1, ht, hu.1⟩
    exact .after fun _ => .ite (((builds_lambda hH hg.build).and not_isAssignment_lambda).into hnode)
      ((hg.build.ternary.and hg.ternary).into hnode)
  · exact NodeKind.isAssignment_of_not_isLoose hc.2
  · rintro hk
    have hloose := hc.2
    rw [hk] at hloose
    cases hloose

theorem groups_expression : (expression g).Builds Tree.Grouped := by
  have hH := handedDown_grouped.descends
  refine .after fun _ => .ite (builds_lambda hH hg.build) ?_
  refine (groups_ternaryExpression hg).into fun t ht => .after fun _ => ?_
  split
  · exact .pure ht.1
  · refine .after fun before => .after fun _ => hg.build.expression.into fun u hu => ?_
    have htarget : (t.withLeading .empty).kind.isAssignment = false ∧
        (t.withLeading .empty).kind ≠ .lambda := by simpa using ht.2
    dsimp only
    split
    all_goals
      refine builds_made fun i => Tree.grouped_node.2 ⟨htarget, ?_⟩
      simpa [Shape.children] using ⟨hH.withLeading .empty ht.1, hu⟩

end Group

end Grammar

theorem group_grammar (n : Nat) : (grammar n).Group := by
  induction n with
  | zero =>
    have hthrow {P : Tree → Prop} : Parser.Builds P (throw .outOfBudget : Parser Tree) :=
      Parser.builds_throw
    exact ⟨⟨hthrow, hthrow, hthrow, fun _ => hthrow, hthrow, hthrow, hthrow, hthrow⟩, hthrow, hthrow,
      fun _ _ => Parser.ensures_throw⟩
  | succ n ih =>
    have hH := handedDown_grouped.descends
    have hternary := Grammar.groups_ternaryExpression ih
    have hunary := Grammar.groups_unaryExpression ih
    have hbinary := Grammar.groups_binaryExpression ih
    exact {
      build := {
        type := Grammar.builds_type hH ih.build
        expression := Grammar.groups_expression ih
        ternary := hternary.mono fun _ ht => ht.1
        binary := fun n i => (hbinary n i).mono fun _ _ ht => ht.1
        unary := hunary.mono fun _ ht => ht.1
        arrayInitializer := Grammar.builds_arrayInitializer hH ih.build
        statement := Grammar.builds_statement hH ih.build
        member := Grammar.builds_member hH ih.build }
      ternary := hternary.mono fun _ ht => ht.2.1
      unary := hunary.mono fun _ ht => ht.2
      binary := fun n i => (hbinary n i).mono fun _ _ ht => ht.2 }

/-- **Operands bind tighter.** In a parsed tree, each operator has operands that do not bind looser,
and binary operators of one precedence are grouped to the left. -/
theorem grouped_of_parseFrom {kind : SourceKind} {source : Text} {firstId nextId : NodeId} {t : Tree}
    (h : parseFrom kind source firstId = .ok (t, nextId)) : ∀ u ∈ t.preorder, u.shape.Grouped :=
  handedDown_grouped.of_parseFrom (fun n => (group_grammar n).build) h

/-- An assignment of shifts, one of which is applied to a cast. -/
theorem grouped_of_parseFrom_shift :
    ∃ t n, parseFrom .expression "a = (int) -b++ >> c - d >>> 1".toList 0 = .ok (t, n) ∧
      ∀ u ∈ t.preorder, u.shape.Grouped := by
  cases h : parseFrom .expression "a = (int) -b++ >> c - d >>> 1".toList 0 with
  | error e =>
    have hok : (parseFrom .expression "a = (int) -b++ >> c - d >>> 1".toList 0).toOption.isSome := by
      decide +kernel
    rw [h] at hok
    cases hok
  | ok r => exact ⟨r.1, r.2, rfl, grouped_of_parseFrom h⟩

end JavaSource
