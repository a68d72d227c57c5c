import JavaSource.Proofs.OperationRuns
import JavaSource.Proofs.Precedence

/-!
# Operations that are read again

An operation whose operators are grouped as the parser groups them is read back from its text
(`exists_parse_of_operation`).  The induction is on the operation, and for each one it tells what
every production that can give it reads from its tokens (`Reread`): a primary and a binary
expression have rounds of their loops left behind it, so that the operation to the left of an
operator is read by the loop that reads the operator.  A production hands on what the ones below it
give, so for each operation only the lowest production that can give it is to be shown.
-/

namespace JavaSource

/-! ### What each production reads -/

/-- The levels are enough to read the tokens, and neither a lambda expression nor a cast is among
them. -/
structure Fits (n : Nat) (ts : List Token) : Prop where
  length_le : ts.length ≤ n
  sober : Sober ts

theorem Fits.behind {n : Nat} {us ts : List Token} (h : Fits n (us ++ ts)) : Fits n ts where
  length_le := Nat.le_trans (List.suffix_append us ts).length_le h.length_le
  sober := h.sober.suffix (List.suffix_append us ts)

/-- Behind a token, one level less is enough. -/
theorem Fits.later {n : Nat} (us : List Token) {os ts : List Token}
    (h : Fits n (us ++ (os ++ ts))) (hos : os ≠ []) : ∃ m, n = m + 1 ∧ Fits m ts := by
  have hpos := List.length_pos_iff.2 hos
  have hle := h.behind.length_le
  rw [List.length_append] at hle
  obtain ⟨m, rfl⟩ := Nat.exists_eq_succ_of_ne_zero (show n ≠ 0 by omega)
  exact ⟨m, rfl, by omega, h.behind.behind.sober⟩

open JavaSource.Parser Grammar

/-- No ternary expression goes on here. -/
structure EndsTernary (ts : List Token) : Prop where
  operand : (kindOf ts).continues = false
  binary : binaryAhead ts = none
  question : kindOf ts ≠ .question

/-- No expression goes on here. -/
structure EndsExpression (ts : List Token) : Prop extends EndsTernary ts where
  assignment : assignmentAhead ts = none

theorem EndsExpression.of_kind {ts : List Token} (h : kindOf ts ∈ [.closeParen, .colon, .eof]) :
    EndsExpression ts := by
  simp only [List.mem_cons, List.not_mem_nil, or_false] at h
  rcases h with h | h | h <;>
    exact ⟨⟨by rw [h]; rfl, by rw [binaryAhead, h], by rw [h]; decide⟩, by rw [assignmentAhead, h]⟩

section Levels

variable (gap : Text) (t : Tree) (us : List Token)

/-- It is read as a primary, with what is behind it. -/
def ReadAsPrimary : Prop := ∀ n rest, Fits n (us ++ rest) → kindOf rest ≠ .openParen →
  (postfixExpression (grammar n)).GoesOn (postfixStep (grammar n)) us rest
    (t.withLeading (.ofText gap))

/-- It is read as an operand. -/
def ReadAsOperand : Prop := ∀ n rest, Fits n (us ++ rest) → (kindOf rest).continues = false →
  (unaryExpression (grammar n)).ReadsAs us rest (t.withLeading (.ofText gap))

/-- It is read as operands of operators that bind at least as tight as `least`, if the operator
behind it does not bind tighter than its own one. -/
def ReadAsBinary : Prop := ∀ n rest least, Fits n (us ++ rest) → (kindOf rest).continues = false →
  (∀ o ∈ t.binaryOperator?, least ≤ o.precedence ∧
    ∀ o' width, binaryAhead rest = some (o', width) → o'.precedence ≤ o.precedence) →
  (binaryExpression (grammar n) least).GoesOn (binaryStep (grammar n) least) us rest
    (t.withLeading (.ofText gap))

/-- It is read as a ternary expression. -/
def ReadAsTernary : Prop := ∀ n rest, Fits n (us ++ rest) → EndsTernary rest →
  (ternaryExpression (grammar n)).ReadsAs us rest (t.withLeading (.ofText gap))

/-- It is read as an expression. -/
def ReadAsExpression : Prop := ∀ n rest, Fits n (us ++ rest) → EndsExpression rest →
  (Grammar.expression (grammar n)).ReadsAs us rest (t.withLeading (.ofText gap))

/-- Each production reads the tokens, if it gives trees of this kind. -/
structure Reread : Prop where
  first : t.IsPrimary → ∀ rest, unaryAhead (kindOf (us ++ rest)) = none
  primary : t.IsPrimary → ReadAsPrimary gap t us
  operand : t.IsOperand → ReadAsOperand gap t us
  binary : t.kind.isLoose = false → ReadAsBinary gap t us
  ternary : t.kind.isAssignment = false → ReadAsTernary gap t us
  expression : ReadAsExpression gap t us

end Levels

section Lift

variable {gap : Text} {t : Tree} {us : List Token}

theorem ReadAsPrimary.operand (h : ReadAsPrimary gap t us)
    (hfirst : ∀ rest, unaryAhead (kindOf (us ++ rest)) = none) : ReadAsOperand gap t us := by
  intro n rest hfits hrest
  have hreads : (postfixExpression (grammar n)).ReadsAs us rest (t.withLeading (.ofText gap)) := by
    refine (h n rest hfits ?_).readsAs fun u j => run_postfixStep_stop hrest
    intro hk
    rw [hk] at hrest
    cases hrest
  intro i
  obtain ⟨u, j, hrun, hu⟩ := hreads i
  exact ⟨u, j, (run_unaryExpression_none hfits.sober (hfirst rest)).trans hrun, hu⟩

theorem ReadAsOperand.binary (h : ReadAsOperand gap t us) : ReadAsBinary gap t us := by
  intro n rest least hfits hrest hop
  rw [binaryExpression_eq]
  exact (h n rest hfits hrest).goesOn

theorem ReadAsBinary.reads (h : ReadAsBinary gap t us) {n least : Nat} {rest : List Token}
    (hfits : Fits n (us ++ rest)) (hrest : (kindOf rest).continues = false)
    (hleast : ∀ o ∈ t.binaryOperator?, least ≤ o.precedence)
    (hstop : ∀ o width, binaryAhead rest = some (o, width) → o.precedence < least) :
    (binaryExpression (grammar n) least).ReadsAs us rest (t.withLeading (.ofText gap)) := by
  refine (h n rest least hfits hrest fun o ho => ⟨hleast o ho, fun o' width hahead => ?_⟩).readsAs
    fun u j => run_binaryStep_stop hstop
  exact Nat.le_of_lt (Nat.lt_of_lt_of_le (hstop o' width hahead) (hleast o ho))

theorem BinaryOperator.one_le_precedence (o : BinaryOperator) : 1 ≤ o.precedence := by
  cases o <;> decide

theorem ReadAsBinary.ternary (h : ReadAsBinary gap t us) : ReadAsTernary gap t us := by
  intro n rest hfits hrest i
  obtain ⟨u, j, hrun, hu⟩ := h.reads hfits hrest.operand (fun o _ => o.one_le_precedence)
    (by rw [hrest.binary]; nofun) i
  exact ⟨u, j, run_ternaryExpression_none hrun hrest.question, hu⟩

theorem ReadAsTernary.expression (h : ReadAsTernary gap t us) : ReadAsExpression gap t us := by
  intro n rest hfits hrest i
  obtain ⟨u, j, hrun, hu⟩ := h n rest hfits hrest.toEndsTernary i
  exact ⟨u, j, run_expression_none hfits.sober hrun hrest.assignment, hu⟩

end Lift

/-! ### One operation -/

theorem Space.ofText_single : Space.ofText [' '] = .single := by
  simp [Space.ofText, splitComment, opensComment, readComments, Space.single]

theorem Tree.unnumbered_node (i : NodeId) (s : Space) (x : Shape Tree) :
    (Tree.node i s x).unnumbered = .node 0 s (x.map Tree.unnumbered) :=
  Tree.renumber_eq _

theorem Tree.unnumbered_congr {i j : NodeId} {s s' : Space} {x y : Shape Tree}
    (h : x.map Tree.unnumbered = y.map Tree.unnumbered) :
    (Tree.node i s x).unnumbered = ((Tree.node j s' y).withLeading s).unnumbered := by
  rw [Tree.withLeading, Tree.unnumbered_node, Tree.unnumbered_node, h]

namespace Operation

variable {s : Space} {t u : Tree}

theorem withLeading_eq (h : Operation s t) : t.withLeading s = t := by
  cases h <;> rfl

theorem behind_blank (h : Operation .single t) : t.withLeading (.ofText [' ']) = t := by
  rw [Space.ofText_single, h.withLeading_eq]

/-- A first part takes the space in front of it back. -/
theorem lift_unnumbered (h : Operation .empty t)
    (hu : u.unnumbered = (t.withLeading s).unnumbered) :
    u.lift.1 = s ∧ u.lift.2.unnumbered = t.unnumbered := by
  obtain ⟨i, s', x⟩ := u
  obtain ⟨j, s'', y⟩ := t
  obtain rfl : s'' = .empty := h.leading
  have hnode : Tree.node 0 s' (x.map Tree.unnumbered) = .node 0 s (y.map Tree.unnumbered) :=
    (Tree.unnumbered_node i s' x).symm.trans (hu.trans (Tree.unnumbered_node j s y))
  injection hnode with _ hs hx
  refine ⟨hs, ?_⟩
  rw [Tree.lift, Tree.withLeading, Tree.unnumbered_node, Tree.unnumbered_node, hx]

end Operation

section Node

variable {gap : Text} {i : NodeId} {s : Space} {us os vs : List Token}

theorem readAsPrimary_identifier {u : Token} (hu : Joined gap [.identifier] [u]) :
    ReadAsPrimary gap (.node i s (.identifier u.text none)) [u] := by
  intro n rest hfits hrest
  obtain ⟨_, ⟨⟩, hk, hg⟩ := hu.one_inv
  rw [postfixExpression_eq]
  refine ReadsAs.goesOn fun j => ⟨_, _, run_primary_name hk hrest, ?_⟩
  rw [hg]
  exact Tree.unnumbered_congr rfl

theorem readAsPrimary_literal {u : Token} (hu : Joined gap [.intLiteral] [u])
    (hkind : literalKind .intLiteral u.text = some .int) :
    ReadAsPrimary gap (.node i s (.literal u.text .int)) [u] := by
  intro n rest hfits hrest
  obtain ⟨_, ⟨⟩, hk, hg⟩ := hu.one_inv
  rw [postfixExpression_eq]
  refine ReadsAs.goesOn fun j => ⟨_, _, run_primary_literal hk hkind, ?_⟩
  rw [hg]
  exact Tree.unnumbered_congr rfl

theorem readAsPrimary_parentheses {inner : Tree} {cs : List Token} (hop : Operation .single inner)
    (hos : Joined gap [.openParen] os) (hcs : Joined [' '] [.closeParen] cs)
    (hinner : Reread [' '] inner us) :
    ReadAsPrimary gap (.node i s (.parentheses ⟨inner, .single⟩)) (os ++ (us ++ cs)) := by
  intro n rest hfits hrest
  obtain ⟨v, rfl, hv, hg⟩ := hos.one_inv
  obtain ⟨c, rfl, hc, hg'⟩ := hcs.one_inv
  rw [List.append_assoc, List.append_assoc] at hfits
  obtain ⟨m, rfl, hlater⟩ := hfits.later [] (List.cons_ne_nil v [])
  have hends : EndsExpression ([c] ++ rest) := .of_kind (by simp [kindOf, hc])
  rw [postfixExpression_eq]
  refine ReadsAs.goesOn fun j => ?_
  obtain ⟨r, k, hrun, hr⟩ := hinner.expression m _ hlater hends j
  rw [List.append_assoc, List.append_assoc]
  refine ⟨_, _, run_primary_parentheses hv hc hrun, ?_⟩
  rw [hop.behind_blank] at hr
  rw [hg, hg', Space.ofText_single]
  exact Tree.unnumbered_congr (congrArg (fun r => Shape.parentheses ⟨r, .single⟩) hr)

theorem readAsPrimary_behind {operand : Tree} {o : UnaryOperator} (ho : o.isPostfix)
    (hop : Operation .empty operand) (hprimary : operand.IsPrimary)
    (hos : Joined [' '] [o.token] os) (hoperand : Reread gap operand us) :
    ReadAsPrimary gap (.node i s (.unary .single o operand)) (us ++ os) := by
  intro n rest hfits hrest
  obtain ⟨v, rfl, hv, hg⟩ := hos.one_inv
  rw [List.append_assoc] at hfits
  have hkind : kindOf ([v] ++ rest) ≠ .openParen := by
    rw [List.singleton_append, kindOf, hv]
    cases o <;> decide
  refine (hoperand.primary hprimary n _ hfits hkind).round (List.cons_ne_nil v []) fun u j hu => ?_
  obtain ⟨hspace, hlift⟩ := hop.lift_unnumbered hu
  refine ⟨_, _, run_postfixStep_round ho hv, ?_⟩
  rw [hspace, hg, Space.ofText_single]
  refine Tree.unnumbered_congr ?_
  rw [Shape.map_unary, Shape.map_unary, hlift]

theorem readAsOperand_before {operand : Tree} {o : UnaryOperator} (ho : o.isPostfix = false)
    (hop : Operation .single operand) (hoperand : operand.IsOperand)
    (hos : Joined gap [o.token] os) (hread : Reread [' '] operand us) :
    ReadAsOperand gap (.node i s (.unary .empty o operand)) (os ++ us) := by
  intro n rest hfits hrest j
  obtain ⟨v, rfl, hv, hg⟩ := hos.one_inv
  rw [List.append_assoc] at hfits
  obtain ⟨m, rfl, hlater⟩ := hfits.later [] (List.cons_ne_nil v [])
  obtain ⟨r, k, hrun, hr⟩ := hread.operand hoperand m rest hlater hrest j
  refine ⟨_, _, run_unaryExpression_before ho hv hrun, ?_⟩
  rw [hop.behind_blank] at hr
  rw [hg]
  refine Tree.unnumbered_congr ?_
  rw [Shape.map_unary, Shape.map_unary, hr]

theorem readAsBinary_binary {left right : Tree} {o : BinaryOperator} (hl : Operation .empty left)
    (hr : Operation .single right) (hgrouped : (Shape.binary left .single o right none).Grouped)
    (hos : Joined [' '] o.tokens os) (hvs : Tokens [' '] right vs) (hleft : Reread gap left us)
    (hright : Reread [' '] right vs) :
    ReadAsBinary gap (.node i s (.binary left .single o right none)) (us ++ (os ++ vs)) := by
  obtain ⟨hloose, hloose', htight, htight'⟩ := hgrouped
  obtain ⟨-, hne, hbetween⟩ := hos.between o.between
  intro n rest least hfits hrest hop
  obtain ⟨hleast, hbehind⟩ := hop o rfl
  rw [List.append_assoc, List.append_assoc] at hfits
  have hahead : binaryAhead (os ++ (vs ++ rest)) = some (o, os.length) := by
    refine binaryAhead_of_joined hos ?_
    rw [hvs.gapOf_append]
    nofun
  have hloop : (binaryExpression (grammar n) least).GoesOn (binaryStep (grammar n) least) us
      ((os ++ vs) ++ rest) (left.withLeading (.ofText gap)) := by
    rw [List.append_assoc]
    refine hleft.binary hloose n _ least hfits (hbetween _).2 fun lo hlo => ?_
    refine ⟨Nat.le_trans hleast (htight lo hlo), fun o' width h => ?_⟩
    rw [hahead] at h
    cases h
    exact htight lo hlo
  refine hloop.round (List.append_ne_nil_of_left_ne_nil hne vs) fun u j hu => ?_
  rw [List.append_assoc]
  obtain ⟨hspace, hlift⟩ := hl.lift_unnumbered hu
  obtain ⟨m, rfl, hlater⟩ := hfits.later _ hne
  obtain ⟨r, k, hrun, hr'⟩ := (hright.binary hloose').reads hlater hrest
    (fun ro hro => htight' ro hro) (fun o' width h => Nat.lt_succ_of_le (hbehind o' width h)) j
  refine ⟨_, _, run_binaryStep_round hos hahead hleast hrun, ?_⟩
  rw [hr.behind_blank] at hr'
  rw [hspace, Space.ofText_single]
  exact Tree.unnumbered_congr (congrArg₂ (Shape.binary · .single o · none) hlift hr')

theorem readAsTernary_ternary {condition whenTrue whenFalse : Tree} {qs cs ws : List Token}
    (hcondition : Operation .empty condition) (htrue : Operation .single whenTrue)
    (hfalse : Operation .single whenFalse)
    (hgrouped : (Shape.ternary condition ⟨.single, whenTrue⟩ ⟨.single, whenFalse⟩).Grouped)
    (hqs : Joined [' '] [.question] qs) (hcs : Joined [' '] [.colon] cs)
    (hus : Reread gap condition us) (hvs : Reread [' '] whenTrue vs)
    (hws : Reread [' '] whenFalse ws) :
    ReadAsTernary gap (.node i s (.ternary condition ⟨.single, whenTrue⟩ ⟨.single, whenFalse⟩))
      (us ++ (qs ++ (vs ++ (cs ++ ws)))) := by
  intro n rest hfits hrest i
  obtain ⟨q, rfl, hq, hgq⟩ := hqs.one_inv
  obtain ⟨c, rfl, hc, hgc⟩ := hcs.one_inv
  simp only [List.append_assoc] at hfits ⊢
  obtain ⟨m, rfl, hlater⟩ := hfits.later _ (List.cons_ne_nil q [])
  obtain ⟨hloose, hassign⟩ := hgrouped
  have hquestion : kindOf ([q] ++ (vs ++ ([c] ++ (ws ++ rest)))) = .question := hq
  have hbinary : binaryAhead ([q] ++ (vs ++ ([c] ++ (ws ++ rest)))) = none := by
    rw [binaryAhead, hquestion]
  have hcolon : EndsExpression ([c] ++ (ws ++ rest)) := .of_kind (by simp [kindOf, hc])
  have hend : Fits m (ws ++ rest) := hlater.behind.behind
  -- the condition ends at the question mark, and what is chosen at the colon and at the end
  obtain ⟨u, j, hrun, hu⟩ := (hus.binary hloose).reads hfits (by rw [hquestion]; rfl)
    (fun o _ => o.one_le_precedence) (by rw [hbinary]; rintro _ _ ⟨⟩) i
  obtain ⟨r, k, hrun', hr⟩ := hvs.expression m _ hlater hcolon j
  obtain ⟨r', l, hrun'', hr'⟩ := hws.ternary hassign m rest hend hrest k
  refine ⟨_, _, run_ternaryExpression_question hrun hq hrun' hc hend.sober.isLambda hrun'', ?_⟩
  obtain ⟨hspace, hlift⟩ := hcondition.lift_unnumbered hu
  rw [htrue.behind_blank] at hr
  rw [hfalse.behind_blank] at hr'
  rw [hspace, hgq, hgc, Space.ofText_single]
  refine Tree.unnumbered_congr ?_
  change Shape.ternary u.lift.2.unnumbered ⟨_, r.unnumbered⟩ ⟨_, r'.unnumbered⟩ =
    Shape.ternary condition.unnumbered ⟨_, whenTrue.unnumbered⟩ ⟨_, whenFalse.unnumbered⟩
  rw [hlift, hr, hr']

theorem readAsExpression_assigning {target value : Tree} {ks : List TokenKind}
    {o : Option AssignmentOperator} (htarget : Operation .empty target)
    (hvalue : Operation .single value) (hassign : target.kind.isAssignment = false)
    (hos : Joined [' '] ks os) (hks : ks ≠ [] ∧ ks.all TokenKind.isBetween)
    (hahead : ∀ ts, binaryAhead (os ++ ts) = none ∧
      assignmentAhead (os ++ ts) = some (o, os.length))
    (hus : Reread gap target us) (hvs : Reread [' '] value vs) :
    ReadAsExpression gap (.node i s (.assigning target .single o value)) (us ++ (os ++ vs)) := by
  intro n rest hfits hrest i
  obtain ⟨-, hne, hbetween⟩ := hos.between hks
  obtain ⟨hbinary, hassigns⟩ := hahead (vs ++ rest)
  have hends : EndsTernary (os ++ (vs ++ rest)) := by
    refine ⟨(hbetween _).2, hbinary, fun hk => ?_⟩
    rw [assignmentAhead, hk] at hassigns
    cases hassigns
  rw [List.append_assoc, List.append_assoc] at hfits ⊢
  obtain ⟨m, rfl, hlater⟩ := hfits.later _ hne
  obtain ⟨u, j, hrun, hu⟩ := hus.ternary hassign _ _ hfits hends i
  obtain ⟨r, k, hrun', hr⟩ := hvs.expression m rest hlater hrest j
  refine ⟨_, _, run_expression_assigning hfits.sober hrun hos hks hassigns hrun', ?_⟩
  obtain ⟨hspace, hlift⟩ := htarget.lift_unnumbered hu
  rw [hvalue.behind_blank] at hr
  rw [hspace, Space.ofText_single]
  refine Tree.unnumbered_congr ?_
  cases o with
  | none => exact congrArg₂ (fun t v => Shape.assignment t ⟨.single, v⟩) hlift hr
  | some o => exact congrArg₂ (Shape.assignmentOperation · .single o ·) hlift hr

end Node

/-! ### Every operation -/

namespace Reread

variable {gap : Text} {t : Tree} {us : List Token}

theorem of_primary (hfirst : ∀ rest, unaryAhead (kindOf (us ++ rest)) = none)
    (h : ReadAsPrimary gap t us) : Reread gap t us where
  first _ := hfirst
  primary _ := h
  operand _ := h.operand hfirst
  binary _ := (h.operand hfirst).binary
  ternary _ := (h.operand hfirst).binary.ternary
  expression := (h.operand hfirst).binary.ternary.expression

theorem of_operand (hk : t.isPrefixed) (h : ReadAsOperand gap t us) : Reread gap t us where
  first hp := absurd (hk.symm.trans hp.bare) nofun
  primary hp := absurd (hk.symm.trans hp.bare) nofun
  operand _ := h
  binary _ := h.binary
  ternary _ := h.binary.ternary
  expression := h.binary.ternary.expression

theorem of_binary (hk : t.kind = .binary) (h : ReadAsBinary gap t us) : Reread gap t us where
  first hp := absurd hk hp.single
  primary hp := absurd hk hp.single
  operand ho := absurd hk ho.single
  binary _ := h
  ternary _ := h.ternary
  expression := h.ternary.expression

theorem of_ternary (hk : t.kind.isLoose) (h : ReadAsTernary gap t us) : Reread gap t us where
  first hp := absurd (hk.symm.trans hp.tight) nofun
  primary hp := absurd (hk.symm.trans hp.tight) nofun
  operand ho := absurd (hk.symm.trans ho.tight) nofun
  binary ht := absurd (hk.symm.trans ht) nofun
  ternary _ := h
  expression := h.expression

theorem of_assigning (hk : t.kind.isAssignment) (h : ReadAsExpression gap t us) :
    Reread gap t us where
  first hp := absurd (hk.symm.trans (NodeKind.isAssignment_of_not_isLoose hp.tight)) nofun
  primary hp := absurd (hk.symm.trans (NodeKind.isAssignment_of_not_isLoose hp.tight)) nofun
  operand ho := absurd (hk.symm.trans (NodeKind.isAssignment_of_not_isLoose ho.tight)) nofun
  binary ht := absurd (hk.symm.trans (NodeKind.isAssignment_of_not_isLoose ht)) nofun
  ternary ht := absurd (hk.symm.trans ht) nofun
  expression := h

end Reread

theorem Tree.Grouped.part {i : NodeId} {s : Space} {x : Shape Tree} (h : (Tree.node i s x).Grouped)
    {c : Tree} (hc : c ∈ x.children) : c.Grouped :=
  (Tree.grouped_node.1 h).2 c hc

theorem literalKind_decimal {w : Text} (h : w.isDecimal) :
    literalKind .intLiteral w = some .int := by
  have hpart : ∀ d ∈ w, Lexeme.isDigitPart d := by
    cases w with
    | nil => cases h
    | cons c r =>
      obtain ⟨hdigit, hrest⟩ := Bool.and_eq_true_iff.1 h
      have hc : Lexeme.isDigitPart c := by rw [Lexeme.isDigitPart, hdigit, Bool.true_or]
      exact List.forall_mem_cons.2 ⟨hc, List.all_eq_true.1 hrest⟩
  have hlast : (w.getLast?.any ['l', 'L'].contains) = false := by
    rw [← Bool.not_eq_true, Option.any_eq_true]
    rintro ⟨d, hd, hcontains⟩
    have hd := hpart d (List.mem_of_getLast? hd)
    simp only [List.contains_iff_mem, List.mem_cons, List.not_mem_nil, or_false] at hcontains
    rcases hcontains with rfl | rfl <;> exact absurd hd (by decide)
  simp only [literalKind, hlast]
  rfl

/-- **Every production reads an operation** that it can give from the tokens of the operation. -/
theorem Operation.reread {s : Space} {t : Tree} (hop : Operation s t) (hg : t.Grouped) {gap : Text}
    {us : List Token} (h : Tokens gap t us) : Reread gap t us := by
  induction hop generalizing gap us with
  | identifier _ =>
    cases h with
    | identifier hu =>
      obtain ⟨_, ⟨⟩, hk, -⟩ := hu.one_inv
      refine .of_primary (fun rest => ?_) (readAsPrimary_identifier hu)
      rw [List.singleton_append, kindOf, hk]
      rfl
  | literal hdecimal =>
    cases h with
    | literal hu =>
      obtain ⟨_, ⟨⟩, hk, -⟩ := hu.one_inv
      refine .of_primary (fun rest => ?_) (readAsPrimary_literal hu (literalKind_decimal hdecimal))
      rw [List.singleton_append, kindOf, hk]
      rfl
  | parentheses hinner ih =>
    cases h with
    | parentheses hos hus hcs =>
      refine .of_primary (fun rest => ?_)
        (readAsPrimary_parentheses hinner hos hcs (ih (hg.part List.mem_cons_self) hus))
      obtain ⟨v, rfl, hk, -⟩ := hos.one_inv
      rw [List.append_assoc, List.singleton_append, kindOf, hk]
      rfl
  | binary hleft hright ihleft ihright =>
    cases h with
    | binary hus hos hvs =>
      refine .of_binary rfl
        (readAsBinary_binary hleft hright (Tree.grouped_node.1 hg).1 hos hvs ?_ ?_)
      · exact ihleft (hg.part (by simp [Shape.children])) hus
      · exact ihright (hg.part (by simp [Shape.children])) hvs
  | before ho hoperand ih =>
    cases h with
    | before _ hos hus =>
      have hgrouped := (Tree.grouped_node.1 hg).1
      refine .of_operand (by simp [Tree.isPrefixed, Tree.shape, ho]) ?_
      exact readAsOperand_before ho hoperand hgrouped.1 hos (ih (hg.part List.mem_cons_self) hus)
  | behind ho hoperand ih =>
    cases h with
    | behind _ hus hos =>
      have hgrouped := (Tree.grouped_node.1 hg).1
      have hread := ih (hg.part List.mem_cons_self) hus
      refine .of_primary (fun rest => ?_)
        (readAsPrimary_behind ho hoperand (hgrouped.2 ho) hos hread)
      rw [List.append_assoc]
      exact hread.first (hgrouped.2 ho) _
  | ternary hcondition htrue hfalse ihcondition ihtrue ihfalse =>
    cases h with
    | ternary hus hqs hvs hcs hws =>
      refine .of_ternary rfl (readAsTernary_ternary hcondition htrue hfalse
        (Tree.grouped_node.1 hg).1 hqs hcs ?_ ?_ ?_)
      · exact ihcondition (hg.part (by simp [Shape.children])) hus
      · exact ihtrue (hg.part (by simp [Shape.children])) hvs
      · exact ihfalse (hg.part (by simp [Shape.children])) hws
  | assignment htarget hvalue ihtarget ihvalue =>
    cases h with
    | assignment hus hos hvs =>
      refine .of_assigning rfl (readAsExpression_assigning htarget hvalue
        (Tree.grouped_node.1 hg).1.1 hos (o := none) (by decide) (fun ts => ?_) ?_ ?_)
      · obtain ⟨v, rfl, hk, -⟩ := hos.one_inv
        simp [binaryAhead, assignmentAhead, kindOf, hk]
      · exact ihtarget (hg.part (by simp [Shape.children])) hus
      · exact ihvalue (hg.part (by simp [Shape.children])) hvs
  | @assignmentOperation _ _ _ _ o htarget hvalue ihtarget ihvalue =>
    cases h with
    | assignmentOperation hus hos hvs =>
      refine .of_assigning rfl (readAsExpression_assigning htarget hvalue
        (Tree.grouped_node.1 hg).1.1 hos (o := some o) o.between
        (assignmentAhead_of_joined hos) ?_ ?_)
      · exact ihtarget (hg.part (by simp [Shape.children])) hus
      · exact ihvalue (hg.part (by simp [Shape.children])) hvs

/-! ### The text of an operation -/

/-- **An operation is read back from its text**, up to the identities of nodes, if its operators are
grouped as they are read. -/
theorem exists_parse_of_operation {t : Tree} (h : Operation .empty t) (hg : t.Grouped) :
    ∃ u, parse .expression t.toText = .ok u ∧ u.unnumbered = t.unnumbered := by
  obtain ⟨us, e, hus, he, hlex⟩ := h.lex_body
  have hkind : kindOf [e] = .eof := he
  have hend : Sober [e] := .cons (he ▸ nofun) (he ▸ rfl) (fun _ => rfl) .nil
  have hfits : Fits ((us ++ [e]).length + 1) (us ++ [e]) :=
    ⟨Nat.le_succ _, hus.sober hend (by rw [hkind]; rfl)⟩
  obtain ⟨u, j, hrun, hu⟩ :=
    (h.reread hg hus).expression _ _ hfits (.of_kind (by simp [hkind])) 0
  have hparser : (SourceKind.expression.parser (grammar ((us ++ [e]).length + 1))).run
      ⟨us ++ [e], false, 0⟩ = .ok (u, ⟨[e], false, j⟩) := by
    have hended : endOfInput.run ⟨[e], false, j⟩ = .ok ((), ⟨[e], false, j⟩) := by
      rw [endOfInput, run_bind_ok (run_at? .eof), hkind]
      rfl
    change (Grammar.expression _ >>= _).run _ = _
    rw [run_bind_ok hrun, run_bind_ok hended]
    rfl
  rw [Space.ofText_nil, h.withLeading_eq] at hu
  refine ⟨u, ?_, hu⟩
  have htext : t.toText = t.body := h.toText_eq
  have htokens : parseTokens .expression (us ++ [e]) 0 = .ok (u, j) := by
    rw [parseTokens, hparser]
    rfl
  rw [parse, parseFrom, htext, hlex]
  change (parseTokens .expression (us ++ [e]) 0 >>= _) = _
  rw [htokens]
  rfl

/-- The operation `x >>>= ( a + 1 ) >> - b ++ ? c : d`. -/
def shifted : Tree :=
  let name (s : Space) (c : Char) : Tree := .node 0 s (.identifier [c] none)
  let sum : Tree := .node 0 .single
    (.binary (name .empty 'a') .single .addition (.node 0 .single (.literal ['1'] .int)) none)
  let negated : Tree := .node 0 .single
    (.unary .empty .negative (.node 0 .single (.unary .single .postIncrement (name .empty 'b'))))
  let shift : Tree := .node 0 .empty
    (.binary (.node 0 .empty (.parentheses ⟨sum, .single⟩)) .single .rightShift negated none)
  let choice : Tree := .node 0 .single
    (.ternary shift ⟨.single, name .single 'c'⟩ ⟨.single, name .single 'd'⟩)
  .node 0 .empty (.assignmentOperation (name .empty 'x') .single .unsignedRightShift choice)

/-- The operation `shifted`, whose operands are written as they are grouped. -/
theorem exists_parse_of_operation_shifted :
    Operation .empty shifted ∧ shifted.Grouped ∧
      shifted.toText = "x >>>= ( a + 1 ) >> - b ++ ? c : d".toList ∧
      ∃ u, parse .expression shifted.toText = .ok u ∧ u.unnumbered = shifted.unnumbered := by
  have hname (s : Space) (c : Char) (hc : Text.isName [c]) :
      Operation s (.node 0 s (.identifier [c] none)) := .identifier hc
  have hop : Operation .empty shifted := by
    refine .assignmentOperation (hname _ _ (by decide)) (.ternary (.binary ?_ ?_) ?_ ?_)
    · exact .parentheses (.binary (hname _ _ (by decide)) (.literal (by decide)))
    · exact .before rfl (.behind rfl (hname _ _ (by decide)))
    · exact hname _ _ (by decide)
    · exact hname _ _ (by decide)
  have hg : shifted.Grouped := by
    have hprimary {s : Space} {name : Text} :
        (Tree.node 0 s (.identifier name none)).IsPrimary := ⟨⟨rfl, nofun⟩, rfl⟩
    have hoperand {s s' : Space} {o : UnaryOperator} {operand : Tree} :
        (Tree.node 0 s (.unary s' o operand)).IsOperand := ⟨rfl, nofun⟩
    simp [shifted, Tree.grouped_node, Shape.children, Shape.Grouped, Tree.kind, Tree.shape,
      Shape.kind, NodeKind.isLoose, NodeKind.isAssignment, Tree.binaryOperator?,
      UnaryOperator.isPostfix, hprimary, hprimary.toIsOperand, hoperand]
  exact ⟨hop, hg, by decide +kernel, exists_parse_of_operation hop hg⟩

end JavaSource
