import JavaSource.Proofs.Header
import JavaSource.Proofs.Weighing
import Mathlib.Data.List.Nodup

/-!
# Every production takes what it gives from the input

`spend_grammar`: the trees that a production gives and the tokens that are left weigh no more than the
tokens that were there, on every scale.
-/

namespace JavaSource

/-- Every production takes what it gives from the input. -/
structure Productions.Spend (w : Scale) (g : Productions) : Prop where
  type : g.type.Spends w 0 (weight w)
  expression : g.expression.Spends w 0 (weight w)
  ternary : g.ternary.Spends w 0 (weight w)
  binary : ∀ n, (g.binary n).Spends w 0 (weight w)
  unary : g.unary.Spends w 0 (weight w)
  arrayInitializer : g.arrayInitializer.Spends w 0 (weight w)
  statement : g.statement.Spends w 0 (weight w)
  member : g.member.Spends w 0 (weight w)

instance : Weighs Grammar.MemberHead :=
  ⟨fun w h => weight w h.annotations + weight w h.modifiers + weight w h.typeParameters⟩

instance : Weighs Grammar.ClassHeader :=
  ⟨fun w h => weight w h.name + weight w h.typeParameters + weight w h.superclass +
    weight w h.extended⟩

namespace Grammar

open JavaSource.Parser Lookahead

variable {w : Scale} {g : Productions} (hg : g.Spend w)

include hg

/-! ### Types, names and annotations -/

theorem spends_wildcard : (wildcard g).Spends w 0 (weight w) := by
  have bounded (leading : Space) (bound : WildcardBound) {i : Input}
      (hi : kindOf i.tokens ≠ .openParen) : Parser.SpendsAt w 0 (weight w) i (do
        let before ← bump
        let type ← g.type
        node leading (.wildcard (some (before, bound)) (some type))) := by
    refine (spendsAt_bump hi).bind fun before => hg.type.bind fun t => spends_node ?_
    simp [Shape.children]
  refine .after (spends_expect (by decide)) fun leading i => spendsAt_peek ?_
  split
  · next hk => exact bounded leading .upper (by rw [hk]; decide)
  · next hk => exact bounded leading .lower (by rw [hk]; decide)
  · exact spends_node (Int.le_refl _) i

theorem spends_typeArguments : (typeArguments g).Spends w 0 (weight w) := by
  have hclose (before : Space) (xs : List (Followed Tree)) : Parser.Spends w (weight w xs) (weight w)
      (expect .greater >>= fun _ => pure (Series.mk before xs)) :=
    .after (spends_expect (by nofun)) fun _ => spends_pure (Int.le_refl _)
  have hfollowed := spends_followed hg.type
  refine .after (spends_expect (by nofun)) fun before => .after spends_at? fun close => .ite ?_ ?_
  · exact spends_placeholder.bind fun x => (hclose before [x]).mono (by simp)
  · refine hfollowed.bind fun x => .bind (spends_whileAt fun i hk => ?_)
      fun xs => (hclose before (x :: xs)).mono (by simp)
    exact (spendsAt_bump (by rw [hk]; nofun)).bind fun _ => hfollowed

theorem spends_withTypeArguments (name : Tree) :
    (withTypeArguments g name).Spends w (weight w name) (weight w) := by
  refine .after spends_at? fun _ => .ite ?_ (spends_pure (Int.le_refl _))
  refine (spends_typeArguments hg).bind fun s => spends_node ?_
  simp [Shape.children]

omit hg in
theorem kindOf_ne_openParen_of_primitive? {k : TokenKind} {p : Primitive}
    (h : k.primitive? = some p) : k ≠ .openParen := by
  rintro rfl
  cases h

theorem spends_typeWithoutDimensions : (typeWithoutDimensions g).Spends w 0 (weight w) := by
  refine fun i => spendsAt_peek ?_
  split
  · next primitive hk =>
    refine (spendsAt_bump (kindOf_ne_openParen_of_primitive? hk)).bind fun _ => ?_
    exact spends_node (Int.le_refl _)
  · refine Spends.ite (spends_wildcard hg) (spends_identifier.bind fun name => ?_) i
    refine .into (spends_withTypeArguments hg name) fun name =>
      (spends_repeating (fun target => ?_) (Int.le_refl _)).mono (by omega)
    refine fun i => ensures_bind.2 (ensures_at?.2 (ensures_bind.2 (ensures_peekNext.2 ?_)))
    split
    · next h =>
      have hk : kindOf i.tokens = .dot := by simpa using (Bool.and_eq_true_iff.1 h).1
      refine (spendsAt_bump (by rw [hk]; decide)).bind fun before => spends_identifier.bind fun name =>
        ?_
      refine .into (spends_node (Int.le_refl _)) fun u =>
        .into (spends_withTypeArguments hg u) fun v => spends_pure ?_
      simp [Shape.children]
    · exact spends_pure (Int.le_refl _) i

theorem spends_type : (type g).Spends w 0 (weight w) := by
  refine (spends_typeWithoutDimensions hg).bind fun t => (spends_repeating (fun element => ?_)
    (Int.le_refl _)).mono (by omega)
  refine fun i => ensures_bind.2 (ensures_at?.2 (ensures_bind.2 (ensures_peekNext.2 ?_)))
  split
  · next h =>
    have hboth : kindOf i.tokens = .openBracket ∧ kindOf (i.tokens.drop 1) = .closeBracket := by
      simpa using h
    refine spendsAt_bump_bind hboth.1 (by nofun) fun beforeOpen j hj => ?_
    refine spendsAt_bump_bind (hj ▸ hboth.2) (by nofun) fun beforeClose l _ => ?_
    have hopen := w.light .openBracket (by nofun)
    have hclose := w.light .closeBracket (by nofun)
    refine (spends_node (Int.le_refl _) l).bind fun u => spends_pure ?_
    simp [Shape.children]
    omega
  · exact spends_pure (Int.le_refl _) i

theorem spends_typeList (before : Space) {k : TokenKind} (hk : k ≠ .openParen) :
    (typeList g before k).Spends w 0 (weight w) :=
  (spends_separatedBy hk (spends_type hg)).bind fun xs => spends_pure (by simp)

omit hg in
theorem spends_qualifiedName (allowStar : Bool) : (qualifiedName allowStar).Spends w 0 (weight w) := by
  refine spends_identifier.bind fun t => (spends_repeating (fun target => ?_)
    (Int.le_refl _)).mono (by omega)
  refine fun i => spendsAt_at? (fun hk => ?_) (spends_pure (Int.le_refl _) i)
  refine (spendsAt_bump (by rw [hk]; decide)).bind fun before => ?_
  have hname (name : Tree) : Parser.Spends w (weight w target + weight w name)
      (fun o => weight w (o.getD target))
      (node target.leading (.fieldAccess (target.withLeading .empty) ⟨before, name⟩ none) >>=
        fun u => pure (some u)) := by
    refine .into (spends_node (Int.le_refl _)) fun u => spends_pure ?_
    simp [Shape.children]
  refine fun i => ensures_bind.2 (ensures_at?.2 ?_)
  dsimp only
  split
  · next h =>
    have hk : kindOf i.tokens = .star := by simpa using (Bool.and_eq_true_iff.1 h).2
    refine (spendsAt_anyName (by rw [hk]; decide)).bind fun name => (hname name).mono (by omega)
  · exact (spends_identifier i).bind fun name => (hname name).mono (by omega)

theorem spends_arguments : (arguments g).Spends w 0 (weight w) :=
  spends_delimited (by nofun) (by nofun) w.paired hg.expression

theorem spends_annotationUse : (annotationUse g).Spends w 0 (weight w) := by
  refine .after (spends_expect (by nofun)) fun leading => (spends_qualifiedName false).bind fun name =>
    .bind (spends_ifAt fun i _ => spends_arguments hg i) fun o => spends_node ?_
  simp [Shape.children]

theorem spends_annotations : (annotations g).Spends w 0 (weight w) :=
  spends_whileAt fun i _ => spends_annotationUse hg i

omit hg in
theorem spendsAt_modifier {word : Modifier} {i : Input} (h : kindOf i.tokens ≠ .openParen) :
    (modifier word).SpendsAt w 0 (weight w) i :=
  (spendsAt_bump h).bind fun _ => spends_node (Int.le_refl _)

theorem spends_typeParameter : (typeParameter g).Spends w 0 (weight w) := by
  refine .after spends_takeSpace fun leading => (spends_annotations hg).bind fun as =>
    spends_identifier.bind fun name => .bind (spends_ifAt fun i hk => ?_) fun o => spends_node ?_
  · refine (spendsAt_bump (by rw [hk]; nofun)).bind fun before => ?_
    exact spends_typeList hg before (by nofun)
  · simp [Shape.children]
    omega

theorem spends_typeParameters : (typeParameters g).Spends w 0 (weight w) :=
  spends_delimited (by nofun) (by nofun)
    (Int.add_nonneg (w.light _ (by nofun)) (w.light _ (by nofun))) (spends_typeParameter hg)

/-! ### Blocks, variables and class bodies -/

omit hg in
theorem spends_terminate {t : Tree} {c : Int} {v : Followed Tree → Int} (h : ∀ s, v ⟨t, s⟩ ≤ c) :
    (terminate t).Spends w c v :=
  .ite (.after (spends_expect (by nofun)) fun s => spends_pure (h s)) (spends_pure (h .empty))

omit hg in
theorem spends_itemsUntilBrace {item : Parser Tree} (h : item.Spends w 0 (weight w)) :
    (itemsUntilBrace item).Spends w 0 (weight w) := by
  refine spends_collecting (.after spends_at? fun _ => .after spends_at? fun _ =>
    .ite (spends_pure (Int.le_refl _)) ?_)
  exact h.bind fun t => .into (spends_terminate (v := weight w) fun _ => Int.le_refl (weight w t)) fun x =>
    spends_pure (by simp)

theorem spends_blockBody (leading : Space) (afterStatic : Option Space) :
    (blockBody g leading afterStatic).Spends w 0 (weight w) := by
  refine .after (spends_expect (by nofun)) fun _ => (spends_itemsUntilBrace hg.statement).bind fun xs =>
    .after (spends_expect (by nofun)) fun _ => spends_node ?_
  simp [Shape.children]

theorem spends_block : (block g).Spends w 0 (weight w) :=
  .after spends_takeSpace fun _ => spends_blockBody hg _ _

theorem spends_classBody : (classBody g).Spends w 0 (weight w) := by
  refine .after (spends_expect (by nofun)) fun _ => (spends_itemsUntilBrace hg.member).bind fun xs =>
    .after (spends_expect (by nofun)) fun _ => spends_node ?_
  simp [Shape.children]

theorem spends_arrayValues : (arrayValues g).Spends w 0 (weight w) :=
  spends_delimited (by nofun) (by nofun)
    (Int.add_nonneg (w.light _ (by nofun)) (w.light _ (by nofun)))
    (.after spends_at? fun _ => .ite hg.arrayInitializer hg.expression)

theorem spends_arrayInitializer : (arrayInitializer g).Spends w 0 (weight w) := by
  refine .after spends_takeSpace fun leading => (spends_arrayValues hg).bind fun s => spends_node ?_
  simp [Shape.children]

theorem spends_namedVariable (initialized : Bool) :
    (namedVariable g initialized).Spends w 0 (weight w) := by
  have hnode (leading : Space) (name : Tree) (o : Option (Preceded Tree)) :
      (node leading (.namedVariable name o none)).Spends w (weight w name + weight w o) (weight w) :=
    spends_node (by simp [Shape.children])
  refine .after spends_at? fun _ => .ite ?_ spends_fail
  refine .after spends_takeSpace fun leading => spends_identifier.bind fun name => ?_
  refine fun i => ensures_bind.2 (ensures_at?.2 ?_)
  dsimp only
  split
  · next h =>
    have hk : kindOf i.tokens = .assign := by simpa using (Bool.and_eq_true_iff.1 h).2
    refine (spendsAt_bump (by rw [hk]; decide)).bind fun before => .after spends_at? fun _ => .ite ?_ ?_
    · exact (spends_arrayInitializer hg).bind fun t => (hnode _ _ _).mono (by simp)
    · exact hg.expression.bind fun t => (hnode _ _ _).mono (by simp)
  · exact (hnode _ _ _).mono (by simp) i

theorem spends_parameter : (parameter g).Spends w 0 (weight w) := by
  refine .after spends_takeSpace fun leading => (spends_annotations hg).bind fun as =>
    .bind (spends_whileAt fun i hk => spendsAt_modifier (by rw [hk]; nofun)) fun ms =>
    (spends_type hg).bind fun t =>
    .bind (spends_ifAt fun i hk => spendsAt_bump (by rw [hk]; nofun)) fun o =>
    (spends_namedVariable hg _).bind fun v => spends_node ?_
  simp [Shape.children, Followed.bare]
  omega

/-! ### Operators of several tokens -/

section Operators

omit hg

variable {ts : List Token} {n : Nat}

/-- The tokens of an operator are none of them an opening parenthesis. -/
def Unopened (ts : List Token) (n : Nat) : Prop := ∀ m < n, kindOf (ts.drop m) ≠ .openParen

theorem unopened_one (h : kindOf ts ≠ .openParen) : Unopened ts 1 := by
  intro m hm
  obtain rfl : m = 0 := by omega
  exact h

theorem Unopened.joined {k : TokenKind} (h : Unopened ts n) (hn : isJoined ts n k)
    (hk : k ≠ .openParen) : Unopened ts (n + 1) := by
  intro m hm
  by_cases hlt : m < n
  · exact h m hlt
  · obtain rfl : m = n := by omega
    have hkind : kindOf (ts.drop m) = k := by
      rw [isJoined] at hn
      split at hn
      · next t ht =>
        obtain ⟨hlt, rfl⟩ := List.getElem?_eq_some_iff.1 ht
        have hboth : ts[m].kind = k ∧ ts[m].gap = [] := by simpa using hn
        rw [List.drop_eq_getElem_cons hlt]
        exact hboth.1
      · cases hn
    rw [hkind]
    exact hk

theorem unopened_of_binaryAhead {o : BinaryOperator} (h : binaryAhead ts = some (o, n)) :
    Unopened ts n := by
  have hone : n = 1 → kindOf ts ≠ .openParen → Unopened ts n := by
    rintro rfl hk
    exact unopened_one hk
  unfold binaryAhead at h
  split at h
  case h_16 hk =>
    have hfirst : Unopened ts 1 := unopened_one (by rw [hk]; nofun)
    unfold greaterAhead at h
    split at h
    · next h₁ =>
      split at h
      · next h₂ =>
        split at h <;> cases h
        exact (hfirst.joined h₁ (by nofun)).joined h₂ (by nofun)
      · split at h <;> cases h
        exact hfirst.joined h₁ (by nofun)
    · split at h <;> cases h
      · next h₁ => exact hfirst.joined h₁ (by nofun)
      · exact hfirst
  case h_17 => cases h
  all_goals
    next hk =>
    cases h
    exact hone rfl (by rw [hk]; nofun)

theorem unopened_of_assignmentAhead {o : Option AssignmentOperator}
    (h : assignmentAhead ts = some (o, n)) : Unopened ts n := by
  unfold assignmentAhead at h
  split at h
  case h_11 hk =>
    have hfirst : Unopened ts 1 := unopened_one (by rw [hk]; nofun)
    split at h
    · cases h
    · next h₁ =>
      have hsecond := hfirst.joined (k := .greater) (by simpa using h₁) (by nofun)
      split at h
      · next h₂ =>
        cases h
        exact hsecond.joined h₂ (by nofun)
      · split at h <;> cases h
        next h₂ =>
          rw [Bool.and_eq_true] at h₂
          exact (hsecond.joined h₂.1 (by nofun)).joined h₂.2 (by nofun)
  case h_12 => cases h
  all_goals
    next hk =>
    cases h
    exact unopened_one (by rw [hk]; nofun)

theorem spendsAt_skip {i : Input} (h : Unopened i.tokens n) :
    (skip n).SpendsAt w 0 (fun _ => 0) i := by
  induction n generalizing i with
  | zero => exact ensures_pure.2 ⟨List.suffix_rfl, Int.le_refl _⟩
  | succ n ih =>
    have hbump := spendsAt_bump (w := w) (h 0 (Nat.succ_pos n))
    refine ensures_bind.2 ((Ensures.and hbump (Q := fun _ j => Unopened j.tokens n) ?_).mono ?_)
    · refine ensures_bump (fun t ts s ht _ m hm => ?_) fun _ s j htokens _ m hm => ?_
      · have hdrop : ts = i.tokens.drop 1 := by rw [ht]; rfl
        rw [hdrop, List.drop_drop, Nat.add_comm]
        exact h (m + 1) (Nat.succ_lt_succ hm)
      · rw [htokens]
        exact h m (Nat.lt_succ_of_lt hm)
    · rintro s j ⟨⟨htokens, hweight⟩, hj⟩
      exact Ensures.mono (ih hj) fun _ l ⟨htokens', hweight'⟩ =>
        ⟨htokens'.trans htokens, by dsimp only at *; omega⟩

end Operators

/-! ### Expressions -/

theorem spends_arrayDimension : (arrayDimension g).Spends w 0 (weight w) := by
  have hnode (leading : Space) (x : Followed Tree) : Parser.Spends w (weight w x) (weight w)
      (expect .closeBracket >>= fun _ => node leading (.arrayDimension x)) :=
    .after (spends_expect (by decide)) fun _ => spends_node (by simp [Shape.children])
  refine .after (spends_expect (by decide)) fun leading => .after spends_at? fun _ => .ite ?_ ?_
  · exact spends_placeholder.bind fun x => (hnode leading x).mono (by omega)
  · exact (spends_followed hg.expression).bind fun x => (hnode leading x).mono (by omega)

theorem spends_creation : (creation g).Spends w 0 (weight w) := by
  refine .after (spends_expect (by nofun)) fun leading => (spends_typeWithoutDimensions hg).bind
    fun name => .after spends_at? fun _ => .ite ?_ ?_
  · refine .bind (spends_whileAt fun i _ => spends_arrayDimension hg i) fun ds =>
      .bind (spends_ifAt fun i _ => spends_arrayValues hg i) fun o => spends_node ?_
    simp [Shape.children]
    omega
  · refine (spends_arguments hg).bind fun s =>
      .bind (spends_ifAt fun i _ => spends_classBody hg i) fun o => spends_node ?_
    simp [Shape.children]
    omega

theorem spendsAt_nameOrCall {i : Input} (h : kindOf i.tokens ≠ .openParen) :
    (nameOrCall g).SpendsAt w 0 (weight w) i := by
  refine (spendsAt_anyName h).bind fun name => .after spends_at? fun _ => .ite ?_
    (spends_pure (by omega))
  refine (spends_arguments hg).bind fun s => spends_node ?_
  simp [Shape.children]

omit hg in
theorem ne_openParen_of_literalKind {k : TokenKind} {source : Text} {p : Primitive}
    (h : literalKind k source = some p) : k ≠ .openParen := by
  rintro rfl
  cases h

theorem spends_primary : (primary g).Spends w 0 (weight w) := by
  refine fun i => spendsAt_peek (ensures_bind.2 (ensures_text.2 ?_))
  split
  · next p hp =>
    refine spendsAt_takeSpace fun leading j htokens => ensures_bind.2 (ensures_text.2 ?_)
    have hlight : kindOf j.tokens ≠ .openParen := by
      rw [htokens]
      exact ne_openParen_of_literalKind hp
    exact (spendsAt_bump hlight).bind fun _ => spends_node (Int.le_refl _)
  · split
    · next hk => exact spendsAt_nameOrCall hg (by rw [hk]; nofun)
    · next hk => exact spendsAt_nameOrCall hg (by rw [hk]; nofun)
    · next hk => exact spendsAt_nameOrCall hg (by rw [hk]; nofun)
    · next hk =>
      have hpaired := w.paired
      refine spendsAt_bump_bind hk (by nofun) fun leading j _ => ?_
      refine Spends.bind (spends_followed hg.expression) (fun x => ?_) j
      refine .expect (by nofun) fun _ => spends_node ?_
      simp [Shape.children]
      omega
    · exact spends_creation hg i
    · exact spends_arrayInitializer hg i
    · exact Spends.ite (spends_type hg) spends_fail i

theorem spends_selection (target : Tree) :
    (selection g target).Spends w (weight w target) (weight w) := by
  refine .after (spends_expect (by decide)) fun before =>
    .bind (spends_ifAt fun i _ => spends_typeArguments hg i) fun o i => spendsAt_peek ?_
  dsimp only [Tree.lift]
  have hrest (name : Tree) : Parser.Spends w (weight w target + weight w o + weight w name)
      (weight w) (at? .openParen >>= fun b =>
      if o.isSome || b then arguments g >>= fun arguments => node target.leading (.methodInvocation
        ⟨some ⟨target.withLeading .empty, before⟩, o, name, arguments, none⟩)
      else node target.leading (.fieldAccess (target.withLeading .empty) ⟨before, name⟩ none)) := by
    refine .after spends_at? fun b => ?_
    split
    · refine (spends_arguments hg).bind fun s => spends_node ?_
      simp [Shape.children]
      omega
    · next hnone =>
      have ho : o = none := by
        cases o with
        | none => rfl
        | some s => exact absurd rfl hnone
      subst ho
      exact spends_node (by simp [Shape.children])
  split
  · next hk => exact (spendsAt_anyName (by rw [hk]; decide)).bind fun name => (hrest name).mono (by omega)
  · next hk => exact (spendsAt_anyName (by rw [hk]; decide)).bind fun name => (hrest name).mono (by omega)
  · next hk => exact (spendsAt_anyName (by rw [hk]; decide)).bind fun name => (hrest name).mono (by omega)
  · next hk => exact (spendsAt_anyName (by rw [hk]; decide)).bind fun name => (hrest name).mono (by omega)
  · exact SpendsAt.bind (v := weight w) (spends_fail (c := 0) i) fun name => (hrest name).mono (by omega)

omit hg in
theorem spendsAt_postfixOperation {operator : UnaryOperator} {t : Tree} {i : Input}
    (h : kindOf i.tokens ≠ .openParen) :
    (postfixOperation operator t).SpendsAt w (weight w t) (weight w) i := by
  refine (spendsAt_bump h).bind fun before => spends_node ?_
  simp [Shape.children]

theorem spends_postfixExpression : (postfixExpression g).Spends w 0 (weight w) := by
  refine (spends_primary hg).bind fun t => (spends_repeating (fun t i => spendsAt_peek ?_)
    (Int.le_refl _)).mono (by omega)
  have hsome {p : Parser Tree} (h : p.SpendsAt w (weight w t) (weight w) i) :
      Parser.SpendsAt w (weight w t) (fun o => weight w (o.getD t)) i
        (p >>= fun t => pure (some t)) :=
    ensures_bind.2 (Ensures.mono h fun _ _ h => ensures_pure.2 h)
  split
  · exact hsome (spends_selection hg t i)
  · refine (spends_arrayDimension hg i).bind fun d =>
      .into (spends_node (Int.le_refl _)) fun u => spends_pure ?_
    simp [Shape.children]
  · next hk => exact hsome (spendsAt_postfixOperation (by rw [hk]; decide))
  · next hk => exact hsome (spendsAt_postfixOperation (by rw [hk]; decide))
  · exact spends_pure (Int.le_refl _) i

/-! ### Operations -/

theorem spends_cast : (cast g).Spends w 0 (weight w) := by
  have hpaired := w.paired
  refine .expect (by nofun) fun leading => (spends_followed (spends_type hg)).bind fun x =>
    .expect (by nofun) fun _ => hg.unary.bind fun t =>
    .into (spends_node (Int.le_refl _)) fun c => spends_node ?_
  simp [Shape.children]
  omega

theorem spends_unaryExpression : (unaryExpression g).Spends w 0 (weight w) := by
  refine fun i => spendsAt_peek ?_
  split
  · next operator ho =>
    have hlight : kindOf i.tokens ≠ .openParen := by
      intro hk
      rw [hk] at ho
      cases ho
    refine (spendsAt_bump hlight).bind fun leading => hg.unary.bind fun t => spends_node ?_
    simp [Shape.children]
  · exact Spends.after spends_tokens
      (fun _ => .ite (spends_cast hg) (spends_postfixExpression hg)) i

theorem spends_binaryExpression (least : Nat) :
    (binaryExpression g least).Spends w 0 (weight w) := by
  refine (spends_unaryExpression hg).bind fun t => (spends_repeating (fun left i => ?_)
    (Int.le_refl _)).mono (by omega)
  refine ensures_bind.2 (ensures_tokens.2 ?_)
  split
  · exact spends_pure (Int.le_refl _) i
  · next operator width hahead =>
    refine ensures_ite.2 ⟨fun _ => spends_pure (Int.le_refl _) i, fun _ => ?_⟩
    refine spendsAt_takeSpace fun before j htokens => ?_
    refine (spendsAt_skip (htokens ▸ unopened_of_binaryAhead hahead)).bind fun _ =>
      (hg.binary _).bind fun right => .into (spends_node (Int.le_refl _)) fun u => spends_pure ?_
    simp [Shape.children]

theorem spends_lambdaParameter : (lambdaParameter g).Spends w 0 (weight w) :=
  .after spends_tokens fun _ => .after spends_at? fun _ =>
    .ite (spends_parameter hg) spends_identifier

theorem spends_lambda : (lambda g).Spends w 0 (weight w) := by
  refine .after spends_takeSpace fun leading => .after spends_at? fun _ => ?_
  extract_lets rest
  have hrest (x : Space × Bool × List (Followed Tree)) :
      (rest x).Spends w (weight w x) (weight w) := by
    have hbody (beforeArrow : Space) (t : Tree) :
        (node leading (.lambda ⟨x.1, x.2.1, x.2.2, beforeArrow, t⟩)).Spends w
          (weight w x + weight w t) (weight w) := by
      refine spends_node ?_
      obtain ⟨before, parenthesized, xs⟩ := x
      simp [Shape.children]
    exact .after (spends_expect (by decide)) fun _ => .after spends_at? fun _ =>
      .ite ((spends_block hg).bind (hbody _)) (hg.expression.bind (hbody _))
  have hpure (x : Space × Bool × List (Followed Tree)) :
      Parser.Spends w (weight w x) (weight w) (pure x >>= rest) :=
    .into (spends_pure (v := weight w) (Int.le_refl _)) fun y => (hrest y).mono (by omega)
  refine .ite ?_ ?_
  · exact spends_identifier.bind fun t => (hpure _).mono (by simp [Followed.bare])
  · exact (spends_delimited (by decide) (by decide) w.paired (spends_lambdaParameter hg)).bind
      fun s => (hpure _).mono (by simp)

theorem spends_ternaryExpression : (ternaryExpression g).Spends w 0 (weight w) := by
  refine (spends_binaryExpression hg 1).bind fun c i => spendsAt_at? (fun hk => ?_)
    (spends_pure (by omega) i)
  refine (spendsAt_bump (by rw [hk]; nofun)).bind fun beforeQuestion => hg.expression.bind fun t =>
    .after (spends_expect (by nofun)) fun beforeColon => .after spends_tokens fun _ => ?_
  have hnode (u : Tree) : (node c.leading (.ternary (c.withLeading .empty) ⟨beforeQuestion, t⟩
      ⟨beforeColon, u⟩)).Spends w (weight w c + weight w t + weight w u) (weight w) := by
    refine spends_node ?_
    simp [Shape.children]
    omega
  exact .ite ((spends_lambda hg).bind fun u => (hnode u).mono (by omega))
    (hg.ternary.bind fun u => (hnode u).mono (by omega))

theorem spends_expression : (expression g).Spends w 0 (weight w) := by
  refine .after spends_tokens fun _ => .ite (spends_lambda hg) ?_
  refine (spends_ternaryExpression hg).bind fun t i => ensures_bind.2 (ensures_tokens.2 ?_)
  split
  · exact spends_pure (by omega) i
  · next operator width hahead =>
    refine spendsAt_takeSpace fun before j htokens => ?_
    refine (spendsAt_skip (htokens ▸ unopened_of_assignmentAhead hahead)).bind fun _ =>
      hg.expression.bind fun u => ?_
    dsimp only
    split
    all_goals
      refine spends_node ?_
      simp [Shape.children, Tree.lift]

/-! ### Declarations -/

theorem spends_enumValues : (enumValues g).Spends w 0 (weight w) := by
  refine .after spends_takeSpace fun leading =>
    .bind (spends_repeating (c := 0) (v := weight w) (fun a => ?_) (by simp)) fun a => ?_
  · obtain ⟨values, more⟩ := a
    refine .after spends_at? fun _ => .ite ?_ (spends_pure (Int.le_refl _))
    refine .after spends_takeSpace fun before => spends_identifier.bind fun name =>
      .bind (spends_ifAt fun i _ => spends_arguments hg i) fun o =>
      .into (spends_node (Int.le_refl _)) fun v i => spendsAt_peek ?_
    have hsome {after : Space} {b : Bool} : Parser.Spends w (weight w v + weight w values)
        (fun o => weight w (o.getD (values, more)))
        (pure (some ((⟨v, after⟩ : Followed Tree) :: values, b))) := spends_pure (by simp)
    split
    · next hk =>
      refine (spendsAt_bump (by rw [hk]; decide)).bind fun after => hsome.mono ?_
      simp [Shape.children]
      omega
    · refine Spends.after spends_takeSpace (fun after => hsome.mono ?_) i
      simp [Shape.children]
      omega
    · refine hsome.mono ?_ i
      simp [Shape.children]
      omega
  obtain ⟨values, dangling⟩ := a
  have hnode (xs : List (Followed Tree)) : Parser.Spends w (weight w xs) (weight w)
      (ifAt .semicolon bump >>= fun semicolon =>
        node leading (.enumValueSet xs.reverse semicolon.isSome)) := by
    refine .into (spends_ifAt fun i hk => spendsAt_bump (by rw [hk]; decide)) fun o => spends_node ?_
    simp [Shape.children]
  have hempty (after : Space) : Parser.Spends w (weight w values) (weight w)
      (node .empty .empty >>= fun t =>
        pure ((⟨t, after⟩ : Followed Tree) :: values) >>= fun xs => ifAt .semicolon bump >>=
          fun semicolon => node leading (.enumValueSet xs.reverse semicolon.isSome)) := by
    refine .bind (spends_node (c := 0) (Int.le_refl _)) fun t =>
      .into (spends_pure (v := weight w) (Int.le_refl _)) fun xs => (hnode xs).mono ?_
    simp only [weight_cons, weight_followed]
    omega
  refine .ite (.after spends_at? fun _ => .ite ?_ ?_) ?_
  · exact .after spends_takeSpace fun after => (hempty after).mono (by simp)
  · exact .into (spends_pure (v := weight w) (Int.le_refl _)) fun after => (hempty after).mono (by simp)
  · exact .into (spends_pure (v := weight w) (Int.le_refl _)) fun xs => (hnode xs).mono (by simp)

theorem spends_enumBody : (enumBody g).Spends w 0 (weight w) := by
  refine .after (spends_expect (by nofun)) fun leading => ?_
  have hrest (values : List (Followed Tree)) : Parser.Spends w (weight w values) (weight w)
      (itemsUntilBrace g.member >>= fun members => expect .closeBrace >>= fun beforeClose =>
        node leading (.block none (values ++ members) beforeClose)) := by
    refine (spends_itemsUntilBrace hg.member).bind fun xs =>
      .after (spends_expect (by nofun)) fun _ => spends_node ?_
    simp [Shape.children]
  refine .after spends_at? fun _ => .after spends_at? fun _ => .ite ?_ ?_
  · refine (spends_enumValues hg).bind fun t =>
      .into (spends_pure (v := weight w) (Int.le_refl _)) fun xs => (hrest xs).mono ?_
    simp [Followed.bare]
  · exact .into (spends_pure (v := weight w) (Int.le_refl _)) fun xs => (hrest xs).mono (by simp)

theorem spendsAt_classHeader (kind : ClassKind) {i : Input} (h : kindOf i.tokens ≠ .openParen) :
    (classHeader g kind).SpendsAt w 0 (weight w) i := by
  have hpure {beforeKind : Space} {name : Tree} {ps : Option (Series Tree)}
      {superclass : Option (Preceded Tree)} {extended : Option (Series Tree)} :
      Parser.Spends w (weight w name + weight w ps + weight w superclass + weight w extended)
        (weight w) (pure (ClassHeader.mk beforeKind name ps superclass extended)) :=
    spends_pure (Int.le_refl _)
  refine (spendsAt_bump h).bind fun beforeKind => spends_identifier.bind fun name =>
    .bind (spends_ifAt fun i _ => spends_typeParameters hg i) fun ps i => spendsAt_at? (fun hk => ?_) ?_
  · refine (spendsAt_bump (by rw [hk]; nofun)).bind fun before => .ite ?_ ?_
    · exact (spends_typeList hg before (by nofun)).bind fun s => hpure.mono (by simp)
    · exact (spends_type hg).bind fun t => hpure.mono (by simp)
  · exact hpure.mono (by simp) i

theorem spendsAt_classDeclaration (kind : ClassKind) (leading : Space) (annotations modifiers : List Tree)
    {i : Input} (h : kindOf i.tokens ≠ .openParen) :
    (classDeclaration g kind leading annotations modifiers).SpendsAt w
      (weight w annotations + weight w modifiers) (weight w) i := by
  rw [classDeclaration_eq]
  refine (spendsAt_classHeader hg kind h).bind fun h => ?_
  have hbody (interfaces : Option (Series Tree)) (body : Tree) :
      (node leading (.classDeclaration ⟨annotations, modifiers, h.beforeKind, kind, h.name,
        h.typeParameters, h.superclass, interfaces, body, none⟩)).Spends w
        (weight w annotations + weight w modifiers + weight w h.name + weight w h.typeParameters +
          weight w h.superclass + weight w interfaces + weight w body) (weight w) := by
    refine spends_node ?_
    simp [Shape.children]
    omega
  have hrest (interfaces : Option (Series Tree)) : Parser.Spends w
      (weight w annotations + weight w modifiers + weight w h.name + weight w h.typeParameters +
        weight w h.superclass + weight w interfaces) (weight w)
      (if kind = .enumeration then enumBody g >>= fun body => node leading (.classDeclaration
        ⟨annotations, modifiers, h.beforeKind, kind, h.name, h.typeParameters, h.superclass,
          interfaces, body, none⟩)
      else classBody g >>= fun body => node leading (.classDeclaration
        ⟨annotations, modifiers, h.beforeKind, kind, h.name, h.typeParameters, h.superclass,
          interfaces, body, none⟩)) :=
    .ite ((spends_enumBody hg).bind (hbody _)) ((spends_classBody hg).bind (hbody _))
  have hh : weight w h = weight w h.name + weight w h.typeParameters + weight w h.superclass +
    weight w h.extended := rfl
  refine fun i => spendsAt_at? (fun hk => ?_) ?_
  · refine (spendsAt_bump (by rw [hk]; decide)).bind fun before =>
      (spends_typeList hg before (by decide)).bind fun s => ?_
    -- what an interface extends is left out where it implements something
    have hextended := weight_nonneg (w := w) h.extended
    exact .into (spends_pure (v := weight w) (Int.le_refl _)) fun o => (hrest o).mono (by simp; omega)
  · exact Spends.into (spends_pure (v := weight w) (Int.le_refl _))
      (fun o => (hrest o).mono (by omega)) i

theorem spends_method (head : MemberHead) (returnType : Option Tree) :
    (method g head returnType).Spends w (weight w head + weight w returnType) (weight w) := by
  have hh : weight w head = weight w head.annotations + weight w head.modifiers +
    weight w head.typeParameters := rfl
  refine spends_identifier.bind fun name =>
    (spends_delimited (by nofun) (by nofun) w.paired (spends_parameter hg)).bind fun s =>
    .bind (spends_ifAt fun i hk => ?_) fun thrown =>
    .bind (spends_ifAt fun i _ => spends_block hg i) fun body => spends_node ?_
  · refine (spendsAt_bump (by rw [hk]; nofun)).bind fun before => ?_
    exact spends_typeList hg before (by nofun)
  · simp [Shape.children]
    omega

theorem spends_declarators (head : MemberHead) (type : Tree) :
    (declarators g head type).Spends w (weight w head + weight w type) (weight w) := by
  have hh : weight w head = weight w head.annotations + weight w head.modifiers +
    weight w head.typeParameters := rfl
  have htypeParameters := weight_nonneg (w := w) head.typeParameters
  refine (spends_separatedBy (by nofun) (spends_namedVariable hg _)).bind fun xs => spends_node ?_
  simp [Shape.children]
  omega

theorem spends_methodOrVariables (head : MemberHead) :
    (methodOrVariables g head).Spends w (weight w head) (weight w) := by
  have hname {f : Bool → Parser Tree} {c : Int} (h : ∀ b, (f b).Spends w c (weight w)) :
      Parser.Spends w c (weight w)
        ((do return (← at? .identifier) && (← peekNext) == .openParen : Parser Bool) >>= f) := by
    have hlook : (do return (← at? .identifier) && (← peekNext) == .openParen : Parser Bool).Spends w 0
        fun _ => 0 := .after spends_at? fun _ => .after spends_peekNext fun _ => spends_pure (Int.le_refl _)
    exact .after hlook h
  refine hname fun _ => .ite ((spends_method hg head none).mono (by simp)) ?_
  refine (spends_type hg).bind fun t => hname fun _ => .ite ?_ (.ite spends_fail ?_)
  · exact (spends_method hg head (some t)).mono (by simp)
  · exact spends_declarators hg head t

omit hg in
theorem spends_modifier? : modifier?.Spends w 0 (weight w) := by
  refine fun i => spendsAt_peek ?_
  split
  · next word hk =>
    have hlight : kindOf i.tokens ≠ .openParen := by
      intro h
      rw [h] at hk
      cases hk
    exact (spendsAt_modifier hlight).some
  · exact spends_pure (Int.le_refl _) i

theorem spends_declaration : (declaration g).Spends w 0 (weight w) := by
  refine .after spends_takeSpace fun leading => (spends_annotations hg).bind fun as =>
    (spends_collecting spends_modifier?).bind fun ms i => spendsAt_peek ?_
  split
  · next kind hk =>
    have hlight : kindOf i.tokens ≠ .openParen := by
      intro h
      rw [h] at hk
      cases hk
    exact (spendsAt_classDeclaration hg kind leading as ms hlight).mono (by omega)
  · refine Spends.bind (spends_ifAt fun i _ => spends_typeParameters hg i) (fun ps => ?_) i
    exact (spends_methodOrVariables hg ⟨leading, as, ms, ps⟩).mono (by simp [weight])

theorem spends_member : (member g).Spends w 0 (weight w) := by
  have hdeclaration := spends_declaration hg
  refine fun i => spendsAt_peek ?_
  split
  · exact Spends.after spends_takeSpace (fun _ => spends_node (Int.le_refl _)) i
  · exact spends_block hg i
  · next hk =>
    refine ensures_bind.2 (ensures_peekNext.2 ?_)
    split
    · refine (spendsAt_bump (by rw [hk]; nofun)).bind fun _ => ?_
      exact .after spends_takeSpace fun _ => spends_blockBody hg _ _
    · exact hdeclaration i
  · exact hdeclaration i

omit hg in
theorem spendsAt_packageDeclaration {i : Input} (h : kindOf i.tokens ≠ .openParen) :
    packageDeclaration.SpendsAt w 0 (weight w) i := by
  refine (spendsAt_bump h).bind fun leading => (spends_qualifiedName false).bind fun name =>
    .after (spends_expect (by nofun)) fun after => .into (spends_node (Int.le_refl _)) fun t =>
    spends_pure ?_
  simp [Shape.children]

omit hg in
theorem spendsAt_importDeclaration {i : Input} (h : kindOf i.tokens ≠ .openParen) :
    importDeclaration.SpendsAt w 0 (weight w) i := by
  refine (spendsAt_bump h).bind fun leading =>
    .bind (spends_ifAt fun i hk => spendsAt_bump (by rw [hk]; nofun)) fun beforeStatic =>
    (spends_qualifiedName true).bind fun name => .after (spends_expect (by nofun)) fun after =>
    .into (spends_node (Int.le_refl _)) fun t => spends_pure ?_
  simp [Shape.children]

theorem spends_topLevelDeclaration : (topLevelDeclaration g).Spends w 0 (weight w) := by
  refine .after spends_tokens fun _ => (spends_member hg).bind fun t => ?_
  split
  · exact spends_pure (by omega)
  · exact spends_failAt

theorem spends_compilationUnit : (compilationUnit g).Spends w 0 (weight w) := by
  refine .after spends_takeSpace fun leading =>
    .bind (spends_ifAt fun i hk => spendsAt_packageDeclaration (by rw [hk]; nofun)) fun o =>
    .bind (spends_whileAt fun i hk => spendsAt_importDeclaration (by rw [hk]; nofun)) fun is =>
    .bind (spends_collecting (.after spends_at? fun _ => .ite (spends_pure (Int.le_refl _)) ?_))
      fun ds => .after spends_takeSpace fun _ => spends_node ?_
  · exact (spends_topLevelDeclaration hg).bind fun t => spends_pure (by simp)
  · simp [Shape.children]
    omega

/-! ### Statements -/

theorem spends_terminated : (terminated g).Spends w 0 (weight w) :=
  hg.statement.bind fun t => spends_terminate fun _ => by simp

theorem spends_controlParentheses : (controlParentheses g).Spends w 0 (weight w) := by
  have hpaired := w.paired
  refine .expect (by nofun) fun leading => (spends_followed hg.expression).bind fun x =>
    .expect (by nofun) fun _ => spends_node ?_
  simp [Shape.children]
  omega

omit hg in
theorem spends_jumpLabel : jumpLabel.Spends w 0 (weight w) := spends_ifAt fun i _ => spends_identifier i

theorem spends_labeled : (labeled g).Spends w 0 (weight w) := by
  refine spends_identifier.bind fun name => .after (spends_expect (by nofun)) fun after =>
    hg.statement.bind fun t => spends_node ?_
  simp [Shape.children]

theorem spends_ifStatement : (ifStatement g).Spends w 0 (weight w) := by
  refine .after (spends_expect (by nofun)) fun leading => (spends_controlParentheses hg).bind fun c =>
    (spends_terminated hg).bind fun x => .bind (spends_ifAt fun i hk => ?_) fun o => spends_node ?_
  · refine (spendsAt_bump (by rw [hk]; nofun)).bind fun _ => (spends_terminated hg).bind fun x =>
      spends_node ?_
    simp [Shape.children]
  · simp [Shape.children]
    omega

theorem spends_whileLoop : (whileLoop g).Spends w 0 (weight w) := by
  refine .after (spends_expect (by nofun)) fun leading => (spends_controlParentheses hg).bind fun c =>
    (spends_terminated hg).bind fun x => spends_node ?_
  simp [Shape.children]

theorem spends_doWhileLoop : (doWhileLoop g).Spends w 0 (weight w) := by
  refine .after (spends_expect (by nofun)) fun leading => (spends_terminated hg).bind fun x =>
    .after (spends_expect (by nofun)) fun before => (spends_controlParentheses hg).bind fun c =>
    spends_node ?_
  simp [Shape.children]

theorem spends_expressionList : (expressionList g).Spends w 0 (weight w) := by
  have hfollowed := spends_followed hg.expression
  refine hfollowed.bind fun x => .bind (spends_whileAt fun i hk => ?_) fun xs => spends_pure ?_
  · exact (spendsAt_bump (by rw [hk]; nofun)).bind fun _ => hfollowed
  · simp

theorem spends_forEachControl : (forEachControl g).Spends w 0 (weight w) := by
  have hpaired := w.paired
  refine .expect (by nofun) fun leading => (spends_followed (spends_member hg)).bind fun x =>
    .after (spends_expect (by nofun)) fun _ => (spends_followed hg.expression).bind fun y =>
    .expect (by nofun) fun _ => spends_node ?_
  simp [Shape.children]
  omega

theorem spends_forControl : (forControl g).Spends w 0 (weight w) := by
  have hpaired := w.paired
  have hempty := spends_placeholder (w := w)
  have hexpressions := spends_expressionList hg
  -- what the header holds is credit, and so is the parenthesis that is still open
  have hnode (leading : Space) (init : List (Followed Tree)) (condition : Followed Tree)
      (update : List (Followed Tree)) : Parser.Spends w
      (w.token .openParen + weight w init + weight w condition + weight w update) (weight w) (do
        let _ ← expect .closeParen
        node leading (.forControl init condition update)) := by
    refine .expect (by decide) fun _ => spends_node ?_
    simp [Shape.children]
    omega
  have hupdate (leading : Space) (init : List (Followed Tree)) (condition : Followed Tree) :
      Parser.Spends w (w.token .openParen + weight w init + weight w condition) (weight w) (do
        let _ ← expect .semicolon
        let update ← if ← at? .closeParen then pure [← placeholder] else expressionList g
        let _ ← expect .closeParen
        node leading (.forControl init condition update)) := by
    refine .after (spends_expect (by decide)) fun _ => .after spends_at? fun _ => .ite ?_ ?_
    · exact hempty.bind fun x => .into (spends_pure (v := weight w) (Int.le_refl _)) fun xs =>
        (hnode leading init condition xs).mono (by simp)
    · exact hexpressions.bind fun xs => (hnode leading init condition xs).mono (by omega)
  have hcondition (leading : Space) (init : List (Followed Tree)) :
      Parser.Spends w (w.token .openParen + weight w init) (weight w) (do
        let _ ← expect .semicolon
        let condition ← if ← at? .semicolon then placeholder else followed g.expression
        let _ ← expect .semicolon
        let update ← if ← at? .closeParen then pure [← placeholder] else expressionList g
        let _ ← expect .closeParen
        node leading (.forControl init condition update)) := by
    have hrest (condition : Followed Tree) := hupdate leading init condition
    exact .after (spends_expect (by decide)) fun _ => .after spends_at? fun _ =>
      .ite (hempty.bind hrest) ((spends_followed hg.expression).bind hrest)
  refine .expect (by decide) fun leading => .after spends_at? fun _ => .after spends_tokens fun _ =>
    .after spends_at? fun _ => .ite ?_ (.ite ?_ ?_)
  · exact hempty.bind fun x => .into (spends_pure (v := weight w) (Int.le_refl _)) fun xs =>
      (hcondition leading xs).mono (by simp)
  · exact (spends_followed (spends_member hg)).bind fun x =>
      .into (spends_pure (v := weight w) (Int.le_refl _)) fun xs =>
        (hcondition leading xs).mono (by simp)
  · exact hexpressions.bind fun xs => (hcondition leading xs).mono (by omega)

theorem spends_forLoop : (forLoop g).Spends w 0 (weight w) := by
  refine .after (spends_expect (by nofun)) fun leading => .after spends_tokens fun _ => .ite ?_ ?_
  · refine (spends_forEachControl hg).bind fun c => (spends_terminated hg).bind fun x => spends_node ?_
    simp [Shape.children]
  · refine (spends_forControl hg).bind fun c => (spends_terminated hg).bind fun x => spends_node ?_
    simp [Shape.children]

theorem spends_caughtType : (caughtType g).Spends w 0 (weight w) := by
  have htype := spends_type hg
  refine htype.bind fun t => .after spends_at? fun _ => .ite ?_ (spends_pure (by omega))
  refine .bind (spends_whileAt fun i hk => ?_) fun others => spends_node ?_
  · exact (spendsAt_bump (by rw [hk]; nofun)).bind fun after => htype.bind fun u =>
      spends_pure (by simp)
  · have hall := weight_zipWith_followed (w := w) (t.withLeading .empty :: others.map Prod.snd)
      (others.map Prod.fst ++ [Space.empty]) (by simp)
    simp [Shape.children] at hall ⊢
    omega

theorem spends_catchClause : (catchClause g).Spends w 0 (weight w) := by
  have hpaired := w.paired
  refine .after (spends_expect (by nofun)) fun leading => .expect (by nofun) fun beforeOpen =>
    .after spends_takeSpace fun beforeParameter =>
    .bind (spends_whileAt fun i hk => spendsAt_modifier (by rw [hk]; nofun)) fun ms =>
    (spends_caughtType hg).bind fun t => (spends_namedVariable hg _).bind fun v =>
    .into (spends_node (Int.le_refl _)) fun p => .after spends_takeSpace fun after =>
    .expect (by nofun) fun _ => (spends_block hg).bind fun b =>
    .into (spends_node (Int.le_refl _)) fun c => spends_node ?_
  simp [Shape.children, Followed.bare]
  omega

theorem spends_tryStatement : (tryStatement g).Spends w 0 (weight w) := by
  refine .after (spends_expect (by nofun)) fun leading => (spends_block hg).bind fun b =>
    .bind (spends_whileAt fun i _ => spends_catchClause hg i) fun cs =>
    .bind (spends_ifAt fun i hk => ?_) fun o => .ite spends_fail (spends_node ?_)
  · exact (spendsAt_bump (by rw [hk]; nofun)).bind fun before => (spends_block hg).bind fun t =>
      spends_pure (by simp)
  · simp [Shape.children]
    omega

theorem spends_caseClause : (caseClause g).Spends w 0 (weight w) := by
  have hvalue {rest : Option Tree → Parser Tree}
      (hrest : ∀ v, (rest v).Spends w (weight w v) (weight w)) :
      Parser.Spends w 0 (weight w) (at? .defaultWord >>= fun b =>
        if b then bump >>= fun _ => pure none >>= rest
        else expect .caseWord >>= fun _ => g.expression >>= fun t => pure (some t) >>= rest) := by
    refine fun i => spendsAt_at? (fun hk => ?_) ?_
    · refine (spendsAt_bump (by rw [hk]; decide)).bind fun _ => ?_
      exact .into (spends_pure (v := weight w) (Int.le_refl _)) fun v => (hrest v).mono (by simp)
    · refine Spends.after (spends_expect (by decide)) (fun _ => hg.expression.bind fun t => ?_) i
      exact .into (spends_pure (v := weight w) (Int.le_refl _)) fun v => (hrest v).mono (by simp)
  refine .after spends_takeSpace fun leading => hvalue fun value =>
    .after (spends_expect (by decide)) fun before =>
    .bind (spends_collecting (.after spends_peek fun _ => ?_)) fun xs => spends_node ?_
  · split
    · exact spends_pure (Int.le_refl _)
    · exact spends_pure (Int.le_refl _)
    · exact spends_pure (Int.le_refl _)
    · exact spends_pure (Int.le_refl _)
    · exact (spends_terminated hg).bind fun x => spends_pure (by simp)
  · simp [Shape.children]

theorem spends_switchStatement : (switchStatement g).Spends w 0 (weight w) := by
  refine .after (spends_expect (by nofun)) fun leading => (spends_controlParentheses hg).bind fun c =>
    .after (spends_expect (by nofun)) fun beforeOpen =>
    .bind (spends_collecting (.after spends_at? fun _ => .after spends_at? fun _ =>
      .ite ((spends_caseClause hg).bind fun t => spends_pure ?_) (spends_pure (Int.le_refl _))))
    fun xs => .after (spends_expect (by nofun)) fun beforeClose =>
    .into (spends_node (Int.le_refl _)) fun b => spends_node ?_
  · simp [Followed.bare]
  · simp [Shape.children]

theorem spends_expressionStatement : (expressionStatement g).Spends w 0 (weight w) :=
  .after spends_tokens fun _ => hg.expression.bind fun _ =>
    .ite (spends_pure (by omega)) spends_failAt

theorem spends_statement : (statement g).Spends w 0 (weight w) := by
  have hmember := spends_member hg
  refine fun i => spendsAt_peek ?_
  split
  · exact spends_block hg i
  · exact spends_ifStatement hg i
  · exact spends_whileLoop hg i
  · exact spends_doWhileLoop hg i
  · exact spends_forLoop hg i
  · exact spends_tryStatement hg i
  · exact spends_switchStatement hg i
  · next hk =>
    refine (spendsAt_bump (by rw [hk]; decide)).bind fun leading => .after spends_at? fun _ => ?_
    have hnode (o : Option Tree) :
        (node leading (.returnStatement o)).Spends w (weight w o) (weight w) :=
      spends_node (by simp [Shape.children])
    refine .ite ?_ (hg.expression.bind fun t => ?_)
    · exact .into (spends_pure (v := weight w) (Int.le_refl _)) fun o => (hnode o).mono (by simp)
    · exact .into (spends_pure (v := weight w) (Int.le_refl _)) fun o => (hnode o).mono (by simp)
  · next hk =>
    refine (spendsAt_bump (by rw [hk]; decide)).bind fun leading => hg.expression.bind fun t =>
      spends_node ?_
    simp [Shape.children]
  · next hk =>
    refine (spendsAt_bump (by rw [hk]; decide)).bind fun leading => spends_jumpLabel.bind fun o =>
      spends_node ?_
    simp [Shape.children]
  · next hk =>
    refine (spendsAt_bump (by rw [hk]; decide)).bind fun leading => spends_jumpLabel.bind fun o =>
      spends_node ?_
    simp [Shape.children]
  · exact Spends.after spends_takeSpace (fun _ => spends_node (Int.le_refl _)) i
  all_goals try exact hmember i
  exact Spends.after spends_peekNext (fun _ => .ite (spends_labeled hg)
    (.after spends_tokens fun _ => .ite hmember (spends_expressionStatement hg))) i

end Grammar

/-- The productions of every level take what they give from the input. -/
theorem spend_grammar (w : Scale) (n : Nat) : (grammar n).Spend w := by
  induction n with
  | zero =>
    have hthrow : (throw .outOfBudget : Parser Tree).Spends w 0 (weight w) := Parser.spends_throw
    exact ⟨hthrow, hthrow, hthrow, fun _ => hthrow, hthrow, hthrow, hthrow, hthrow⟩
  | succ n ih =>
    exact ⟨Grammar.spends_type ih, Grammar.spends_expression ih, Grammar.spends_ternaryExpression ih,
      Grammar.spends_binaryExpression ih, Grammar.spends_unaryExpression ih,
      Grammar.spends_arrayInitializer ih, Grammar.spends_statement ih, Grammar.spends_member ih⟩

theorem SourceKind.spends_parser {w : Scale} {g : Productions} (hg : g.Spend w) (kind : SourceKind) :
    (kind.parser g).Spends w 0 (weight w) := by
  have hend : endOfInput.Spends w 0 fun _ => 0 :=
    .after Parser.spends_at? fun _ => .ite Parser.spends_fail (Parser.spends_pure (Int.le_refl _))
  cases kind with
  | unit => exact Grammar.spends_compilationUnit hg
  | expression =>
    exact (Grammar.spends_expression hg).bind fun t => .after hend fun _ =>
      Parser.spends_pure (by omega)
  | statement =>
    exact (Grammar.spends_statement hg).bind fun t =>
      .after (Grammar.spends_terminate fun _ => Int.le_refl 0) fun _ => .after hend fun _ =>
      Parser.spends_pure (by omega)

/-! ### Identities -/

section Identity

variable (i j x : Nat)

/-- One, if the identity is among those from this one on. -/
def ahead (x i : Nat) : Int := if i ≤ x then 1 else 0

theorem ahead_sub_ahead_succ : ahead x i - ahead x (i + 1) = if i = x then 1 else 0 := by
  unfold ahead
  split_ifs <;> omega

theorem ahead_succ_le : ahead x (i + 1) ≤ ahead x i := by
  unfold ahead
  split_ifs <;> omega

variable {i j x}

theorem count_le_of_ahead {n : Nat} (h : n + ahead x j ≤ ahead x i) :
    n ≤ 1 ∧ (0 < n → i ≤ x ∧ x < j) := by
  unfold ahead at h
  split_ifs at h <;> omega

end Identity

/-- The scale on which the nodes of one identity weigh, and nothing else does. -/
def Scale.identity (x : NodeId) : Scale where
  token _ := 0
  rest := ahead x
  light _ _ := Int.le_refl 0
  paired := Int.le_refl 0
  falls i := ahead_succ_le i x

theorem weight_identity (x : NodeId) (t : Tree) :
    weight (.identity x) t = (t.preorder.map Tree.id).count x := by
  have hsum (us : List Tree) : (us.map fun u => (Scale.identity x).node u.id).sum =
      (us.map Tree.id).count x := by
    induction us with
    | nil => rfl
    | cons u us ih =>
      have hnode : (Scale.identity x).node u.id = if u.id = x then 1 else 0 :=
        ahead_sub_ahead_succ u.id x
      rw [List.map_cons, List.sum_cons, ih, hnode, List.map_cons, List.count_cons]
      by_cases h : u.id = x <;> simp [h, Int.add_comm]
  exact hsum t.preorder

/-- **Identities are given out once**: no two nodes of a parsed tree have one identity, and all of them
are from those that the parse used up. -/
theorem nodup_ids_of_parseFrom {kind : SourceKind} {source : Text} {firstId nextId : NodeId} {t : Tree}
    (h : parseFrom kind source firstId = .ok (t, nextId)) :
    (t.preorder.map Tree.id).Nodup ∧ ∀ u ∈ t.preorder, firstId ≤ u.id ∧ u.id < nextId := by
  obtain ⟨ts, j, -, rfl, hrun⟩ := exists_run_of_parseFrom h
  have hcount (x : NodeId) :
      ((t.preorder.map Tree.id).count x : Int) + ahead x j.nextId ≤ ahead x firstId := by
    have hspends := kind.spends_parser (spend_grammar (.identity x) (ts.length + 1))
    obtain ⟨-, hweight⟩ := hspends _ _ _ hrun
    have htokens (ts : List Token) : (ts.map fun t => (Scale.identity x).token t.kind).sum = 0 := by
      induction ts with
      | nil => rfl
      | cons t ts ih => rw [List.map_cons, List.sum_cons, ih]; rfl
    have hrest (i : NodeId) : (Scale.identity x).rest i = ahead x i := rfl
    simpa [Input.weight, htokens, hrest, weight_identity] using hweight
  refine ⟨List.nodup_iff_count_le_one.2 fun x => (count_le_of_ahead (hcount x)).1, fun u hu => ?_⟩
  exact (count_le_of_ahead (hcount u.id)).2 (List.count_pos_iff.2 (List.mem_map_of_mem hu))

end JavaSource
