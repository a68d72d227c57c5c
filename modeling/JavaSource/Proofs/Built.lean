import JavaSource.Proofs.Building
import JavaSource.Proofs.Header

/-!
# Every production builds trees of inherited properties

A property that nodes inherit from their parts holds of every parsed tree (`inherited_of_parseFrom`).
Expressions and what else stands inside statements may have another property than statements; then
whole files are asked for a third one (`Descends.of_parseFrom`).
-/

namespace JavaSource

/-- Every tree that a production gives has the property: `P` inside statements, `Q` for
statements. -/
structure Productions.Build (P Q : Tree → Prop) (g : Productions) : Prop where
  type : g.type.Builds P
  expression : g.expression.Builds P
  ternary : g.ternary.Builds P
  binary : ∀ n, (g.binary n).Builds P
  unary : g.unary.Builds P
  arrayInitializer : g.arrayInitializer.Builds P
  statement : g.statement.Builds Q
  member : g.member.Builds Q

instance : Bears Grammar.MemberHead :=
  ⟨fun P h => Every P h.annotations ∧ Every P h.modifiers ∧ Every P h.typeParameters⟩

instance : Bears Grammar.ClassHeader :=
  ⟨fun P h => Every P h.name ∧ Every P h.typeParameters ∧ Every P h.superclass ∧
    Every P h.extended⟩

namespace Grammar

open JavaSource.Parser Lookahead

variable {P Q : Tree → Prop} (hP : Descends P Q) {g : Productions} (hg : g.Build P Q)

include hP

/-! ### Types, names and annotations -/

include hg in
theorem builds_wildcard : (wildcard g).Builds P := by
  have bounded (leading : Space) (bound : WildcardBound) : Parser.Builds P (bump >>= fun before =>
      g.type >>= fun type => node leading (.wildcard (some (before, bound)) (some type))) :=
    .after fun _ => hg.type.bind fun t ht =>
      builds_inline hP rfl (by simpa [Shape.children])
  refine .after fun leading => .after fun kind => ?_
  split
  · exact bounded leading .upper
  · exact bounded leading .lower
  · exact builds_inline hP rfl every_nil

include hg in
theorem builds_typeArguments : (typeArguments g).Builds P := by
  have hclose {before : Space} {xs : List (Followed Tree)} (hxs : Every P xs) :
      Parser.Builds P (expect .greater >>= fun _ => pure (Series.mk before xs)) :=
    .after fun _ => .pure hxs
  have hfollowed := builds_followed hg.type
  refine .after fun before => .after fun close => .ite ?_ ?_
  · exact (builds_placeholder hP).bind fun x hx => hclose (every_cons.2 ⟨hx, every_nil⟩)
  · refine hfollowed.bind fun x hx => .bind (builds_whileAt (.after fun _ => hfollowed))
      fun xs hxs => hclose (every_cons.2 ⟨hx, hxs⟩)

include hg in
theorem builds_withTypeArguments {name : Tree} (hn : P name) :
    (withTypeArguments g name).Builds P := by
  refine .after fun _ => .ite ?_ (.pure hn)
  refine (builds_typeArguments hP hg).bind fun s hs => builds_inline hP rfl ?_
  simpa [Shape.children, Tree.lift] using ⟨hP.withLeading .empty hn, hs⟩

include hg in
theorem builds_typeWithoutDimensions : (typeWithoutDimensions g).Builds P := by
  refine .after fun kind => ?_
  split
  · exact .after fun _ => builds_inline hP rfl every_nil
  · refine .ite (builds_wildcard hP hg) ?_
    refine (builds_identifier hP).bind fun name hn =>
      (builds_withTypeArguments hP hg hn).bind fun name hn => builds_repeating (fun t ht => ?_) hn
    refine .after fun _ => .after fun _ => .ite (.after fun before => ?_) (.pure every_none)
    refine (builds_identifier hP).bind fun name hn => .bind (builds_inline hP rfl ?_)
      fun u hu => (builds_withTypeArguments hP hg hu).bind fun v hv => .pure (every_some.2 hv)
    simpa [Shape.children] using ⟨hP.withLeading .empty ht, hn⟩

include hg in
theorem builds_type : (type g).Builds P := by
  refine (builds_typeWithoutDimensions hP hg).bind fun t ht => builds_repeating (fun t ht => ?_) ht
  refine .after fun _ => .after fun _ => .ite ?_ (.pure every_none)
  refine .after fun _ => .after fun _ => .bind (builds_inline hP rfl ?_)
    fun u hu => .pure (every_some.2 hu)
  simpa [Shape.children] using hP.withLeading .empty ht

include hg in
theorem builds_typeList (before : Space) (k : TokenKind) : (typeList g before k).Builds P :=
  (builds_separatedBy (builds_type hP hg)).bind fun _ hxs => .pure hxs

theorem builds_qualifiedName (allowStar : Bool) : (qualifiedName allowStar).Builds P := by
  refine (builds_identifier hP).bind fun t ht => builds_repeating (fun t ht => ?_) ht
  have hname {before : Space} {name : Tree} (hn : P name) : Parser.Builds P
      (node t.leading (.fieldAccess (t.withLeading .empty) ⟨before, name⟩ none) >>=
        fun u => pure (some u)) := by
    refine .bind (builds_inline hP rfl ?_) fun u hu => .pure (every_some.2 hu)
    simpa [Shape.children] using ⟨hP.withLeading .empty ht, hn⟩
  refine .after fun _ => .ite (.after fun before => ?_) (.pure every_none)
  refine .after fun _ => .ite ?_ ?_
  · exact (builds_anyName hP).bind fun _ => hname
  · exact (builds_identifier hP).bind fun _ => hname

include hg in
theorem builds_arguments : (arguments g).Builds P := builds_delimited hP hg.expression

include hg in
theorem builds_annotationUse : (annotationUse g).Builds P := by
  refine .after fun leading => (builds_qualifiedName hP false).bind fun name hn =>
    (builds_ifAt (builds_arguments hP hg)).bind fun o ho => builds_inline hP rfl ?_
  simpa [Shape.children] using ⟨hn, ho⟩

include hg in
theorem builds_annotations : (annotations g).Builds P := builds_whileAt (builds_annotationUse hP hg)

theorem builds_modifier (word : Modifier) : (modifier word).Builds P :=
  .after fun _ => builds_inline hP rfl every_nil

include hg in
theorem builds_typeParameter : (typeParameter g).Builds P := by
  refine .after fun leading => (builds_annotations hP hg).bind fun as has =>
    (builds_identifier hP).bind fun name hn => .bind (builds_ifAt ?_) fun o ho =>
      builds_inline hP rfl ?_
  · exact .after fun before => builds_typeList hP hg before _
  · simpa [Shape.children] using ⟨has, hn, ho⟩

include hg in
theorem builds_typeParameters : (typeParameters g).Builds P :=
  builds_delimited hP (builds_typeParameter hP hg)

/-! ### Blocks, variables and class bodies -/

omit hP in
theorem builds_terminate {t : Tree} (ht : P t) : (terminate t).Builds P :=
  .ite (.after fun _ => .pure ht) (.pure ht)

omit hP in
theorem builds_itemsUntilBrace {item : Parser Tree} (h : item.Builds P) :
    (itemsUntilBrace item).Builds P := by
  refine builds_collecting (.after fun _ => .after fun _ => .ite (.pure every_none) ?_)
  exact h.bind fun t ht => (builds_terminate ht).bind fun x hx => .pure (every_some.2 hx)

include hP in
/-- What stands in braces is a block. -/
theorem builds_braces {leading before : Space} {afterStatic : Option Space}
    {xs : List (Followed Tree)} (hxs : Every Q xs) :
    (node leading (.block afterStatic xs before)).Builds fun t => Q t ∧ t.kind = .block :=
  builds_made fun _ => ⟨hP.node rfl (by simpa [Shape.children] using hxs), rfl⟩

include hg in
theorem builds_blockBody (leading : Space) (afterStatic : Option Space) :
    (blockBody g leading afterStatic).Builds fun t => Q t ∧ t.kind = .block :=
  .after fun _ => (builds_itemsUntilBrace hg.statement).into fun _ hxs =>
    .after fun _ => builds_braces hP hxs

include hg in
theorem builds_block : (block g).Builds fun t => Q t ∧ t.kind = .block :=
  .after fun _ => builds_blockBody hP hg _ _

include hg in
theorem builds_blockStatement : (block g).Builds Q := (builds_block hP hg).mono fun _ h => h.1

include hg in
theorem builds_classBody : (classBody g).Builds fun t => Q t ∧ t.kind = .block :=
  .after fun _ => (builds_itemsUntilBrace hg.member).into fun _ hxs =>
    .after fun _ => builds_braces hP hxs

include hg in
theorem builds_arrayValues : (arrayValues g).Builds P :=
  builds_delimited hP (.after fun _ => .ite hg.arrayInitializer hg.expression)

include hg in
theorem builds_arrayInitializer : (arrayInitializer g).Builds P := by
  refine .after fun leading => (builds_arrayValues hP hg).bind fun s hs =>
    builds_inline hP rfl ?_
  simpa [Shape.children] using hs

include hg in
theorem builds_namedVariable (initialized : Bool) : (namedVariable g initialized).Builds P := by
  have hnode {leading : Space} {name : Tree} (hn : P name) {o : Option (Preceded Tree)}
      (ho : Every P o) : (node leading (.namedVariable name o none)).Builds P :=
    builds_inline hP rfl (by simpa [Shape.children] using ⟨hn, ho⟩)
  refine .after fun _ => .ite ?_ builds_fail
  refine .after fun leading => (builds_identifier hP).bind fun name hn => .after fun _ => ?_
  refine .ite (.after fun before => .after fun _ => .ite ?_ ?_) (hnode hn every_none)
  · exact (builds_arrayInitializer hP hg).bind fun t ht => hnode hn (every_some.2 ht)
  · exact hg.expression.bind fun t ht => hnode hn (every_some.2 ht)

include hg in
theorem builds_parameter : (parameter g).Builds P := by
  refine .after fun leading => (builds_annotations hP hg).bind fun as has =>
    (builds_whileAt (builds_modifier hP _)).bind fun ms hms =>
    (builds_type hP hg).bind fun t ht => .after fun o =>
    (builds_namedVariable hP hg _).bind fun v hv => builds_inline hP rfl ?_
  simpa [Shape.children, Followed.bare] using ⟨has, hms, ht, hv⟩

/-! ### Expressions -/

include hg in
theorem builds_arrayDimension : (arrayDimension g).Builds P := by
  have hnode {leading : Space} {x : Followed Tree} (hx : Every P x) :
      Parser.Builds P (expect .closeBracket >>= fun _ => node leading (.arrayDimension x)) :=
    .after fun _ => builds_inline hP rfl (by simpa [Shape.children] using hx)
  refine .after fun leading => .after fun _ => .ite ?_ ?_
  · exact (builds_placeholder hP).bind fun x hx => hnode hx
  · exact (builds_followed hg.expression).bind fun x hx => hnode hx

include hg in
theorem builds_creation : (creation g).Builds P := by
  refine .after fun leading => (builds_typeWithoutDimensions hP hg).bind fun name hn =>
    .after fun _ => .ite ?_ ?_
  · refine (builds_whileAt (builds_arrayDimension hP hg)).bind fun ds hds =>
      (builds_ifAt (builds_arrayValues hP hg)).bind fun o ho =>
        builds_inline hP rfl ?_
    simpa [Shape.children] using ⟨hn, hds, ho⟩
  · exact (builds_arguments hP hg).bind fun s hs => (builds_ifAt (builds_classBody hP hg)).into
      fun o ho => builds_made fun _ => hP.newClass hn hs ho

include hg in
theorem builds_nameOrCall : (nameOrCall g).Builds P := by
  refine (builds_anyName hP).bind fun name hn => .after fun _ => .ite ?_ (.pure hn)
  refine (builds_arguments hP hg).bind fun s hs => builds_inline hP rfl ?_
  simpa [Shape.children, Tree.lift] using ⟨hP.withLeading .empty hn, hs⟩

include hg in
theorem builds_primary : (primary g).Builds P := by
  refine .after fun kind => .after fun _ => ?_
  split
  · exact .after fun _ => .after fun _ => .after fun _ => builds_inline hP rfl every_nil
  · split
    · exact builds_nameOrCall hP hg
    · exact builds_nameOrCall hP hg
    · exact builds_nameOrCall hP hg
    · refine .after fun leading => (builds_followed hg.expression).bind fun x hx =>
        .after fun _ => builds_inline hP rfl ?_
      simpa [Shape.children] using hx
    · exact builds_creation hP hg
    · exact builds_arrayInitializer hP hg
    · exact .ite (builds_type hP hg) builds_fail

include hg in
theorem builds_selection {target : Tree} (ht : P target) : (selection g target).Builds P := by
  have ht' := hP.withLeading .empty ht
  refine .after fun before => (builds_ifAt (builds_typeArguments hP hg)).bind fun o ho =>
    .after fun _ => ?_
  dsimp only [Tree.lift]
  have hrest (name : Tree) (hn : P name) : Parser.Builds P (at? .openParen >>= fun b =>
      if o.isSome || b then arguments g >>= fun arguments => node target.leading (.methodInvocation
        ⟨some ⟨target.withLeading .empty, before⟩, o, name, arguments, none⟩)
      else node target.leading (.fieldAccess (target.withLeading .empty) ⟨before, name⟩ none)) := by
    refine .after fun _ => .ite ?_ ?_
    · refine (builds_arguments hP hg).bind fun s hs => builds_inline hP rfl ?_
      simpa [Shape.children] using ⟨ht', ho, hn, hs⟩
    · exact builds_inline hP rfl (by simpa [Shape.children] using ⟨ht', hn⟩)
  split
  · exact (builds_anyName hP).bind hrest
  · exact (builds_anyName hP).bind hrest
  · exact (builds_anyName hP).bind hrest
  · exact (builds_anyName hP).bind hrest
  · exact .bind builds_fail hrest

include hg in
theorem builds_lambdaParameter : (lambdaParameter g).Builds P :=
  .after fun _ => .after fun _ => .ite (builds_parameter hP hg) (builds_identifier hP)

include hg in
theorem builds_lambda : (lambda g).Builds P := by
  refine .after fun leading => .after fun _ => ?_
  extract_lets rest
  have hrest (x : Space × Bool × List (Followed Tree)) (hx : Every P x) : (rest x).Builds P := by
    have hbody (beforeArrow : Space) (t : Tree) (hQ : Q t) (ht : P t ∨ t.kind = .block) :
        (node leading (.lambda ⟨x.1, x.2.1, x.2.2, beforeArrow, t⟩)).Builds P :=
      builds_made fun _ => hP.lambda hx.2.2 hQ ht
    exact .after fun _ => .after fun _ =>
      .ite ((builds_block hP hg).into fun t ht => hbody _ t ht.1 (.inr ht.2))
        (hg.expression.bind fun t ht => hbody _ t (hP.weaken t ht) (.inl ht))
  refine .ite ?_ ?_
  · refine (builds_identifier hP).bind fun t ht => .bind (.pure ?_) hrest
    simpa [Followed.bare] using ht
  · refine (builds_delimited hP (builds_lambdaParameter hP hg)).bind fun s hs =>
      .bind (.pure ?_) hrest
    simpa using hs

/-! ### Operations -/

section Operations

variable (hI : ∀ {i s x}, x.kind.isOperation → Every P x.children → P (.node i s x))

include hI

theorem builds_postfixOperation (operator : UnaryOperator) {t : Tree} (ht : P t) :
    (postfixOperation operator t).Builds P :=
  .after fun _ => builds_operation hI rfl
    (by simpa [Shape.children, Tree.lift] using hP.withLeading .empty ht)

include hg in
theorem builds_postfixExpression : (postfixExpression g).Builds P := by
  refine (builds_primary hP hg).bind fun t ht => builds_repeating (fun t ht => ?_) ht
  have hsome {p : Parser Tree} (h : p.Builds P) : Parser.Builds P (p >>= fun t => pure (some t)) :=
    h.bind fun _ ht => .pure (every_some.2 ht)
  refine .after fun _ => ?_
  split
  · exact hsome (builds_selection hP hg ht)
  · refine (builds_arrayDimension hP hg).bind fun d hd => hsome (builds_inline hP rfl ?_)
    simpa [Shape.children] using ⟨hP.withLeading .empty ht, hd⟩
  · exact hsome (builds_postfixOperation hP hI _ ht)
  · exact hsome (builds_postfixOperation hP hI _ ht)
  · exact .pure every_none

include hg in
theorem builds_cast : (cast g).Builds P := by
  refine .after fun leading => (builds_followed (builds_type hP hg)).bind fun x hx =>
    .after fun _ => hg.unary.bind fun t ht => .bind (builds_inline hP rfl ?_) fun c hc =>
      builds_operation hI rfl ?_
  · simpa [Shape.children] using hx
  · simpa [Shape.children] using ⟨hc, ht⟩

include hg in
theorem builds_unaryExpression : (unaryExpression g).Builds P := by
  refine .after fun _ => ?_
  split
  · refine .after fun leading => hg.unary.bind fun t ht => builds_operation hI rfl ?_
    simpa [Shape.children] using ht
  · exact .after fun _ => .ite (builds_cast hP hg hI) (builds_postfixExpression hP hg hI)

include hg in
theorem builds_binaryExpression (least : Nat) : (binaryExpression g least).Builds P := by
  refine (builds_unaryExpression hP hg hI).bind fun t ht => builds_repeating (fun t ht => ?_) ht
  refine .after fun _ => ?_
  split
  · exact .pure every_none
  · refine .ite (.pure every_none) (.after fun _ => .after fun _ => (hg.binary _).bind fun u hu =>
      .bind (builds_operation hI rfl ?_) fun v hv => .pure (every_some.2 hv))
    simpa [Shape.children] using ⟨hP.withLeading .empty ht, hu⟩

include hg in
theorem builds_ternaryExpression : (ternaryExpression g).Builds P := by
  refine (builds_binaryExpression hP hg hI 1).bind fun c hc => .after fun _ => .ite ?_ (.pure hc)
  refine .after fun beforeQuestion => hg.expression.bind fun t ht => .after fun beforeColon => ?_
  have hnode (u : Tree) (hu : P u) : (node c.leading (.ternary (c.withLeading .empty)
      ⟨beforeQuestion, t⟩ ⟨beforeColon, u⟩)).Builds P :=
    builds_operation hI rfl
      (by simpa [Shape.children] using ⟨hP.withLeading .empty hc, ht, hu⟩)
  exact .after fun _ => .ite ((builds_lambda hP hg).bind hnode) (hg.ternary.bind hnode)

include hg in
theorem builds_expression : (expression g).Builds P := by
  refine .after fun _ => .ite (builds_lambda hP hg) ?_
  refine (builds_ternaryExpression hP hg hI).bind fun t ht => .after fun _ => ?_
  split
  · exact .pure ht
  · refine .after fun before => .after fun _ => hg.expression.bind fun u hu => ?_
    have ht' := hP.withLeading .empty ht
    dsimp only
    split <;> exact builds_operation hI rfl (by simpa [Shape.children] using ⟨ht', hu⟩)

end Operations

/-! ### Declarations -/

include hg in
theorem builds_enumValues : (enumValues g).Builds P := by
  refine .after fun leading => .bind (builds_repeating (fun a ha => ?_)
    (every_pair.2 ⟨every_nil, every_bool⟩)) fun a ha => ?_
  · refine .after fun _ => .ite ?_ (.pure every_none)
    refine .after fun before => (builds_identifier hP).bind fun name hn =>
      (builds_ifAt (builds_arguments hP hg)).bind fun o ho =>
        .bind (builds_inline hP rfl (by simpa [Shape.children] using ⟨hn, ho⟩))
          fun v hv => .after fun _ => ?_
    have hsome {after : Space} {b : Bool} : Every P (some ((⟨v, after⟩ : Followed Tree) :: a.1, b)) := by
      simpa using ⟨hv, ha.1⟩
    split
    · exact .after fun _ => .pure hsome
    · exact .after fun _ => .pure hsome
    · exact .pure hsome
  · have hnode (xs : List (Followed Tree)) (hxs : Every P xs) : Parser.Builds P
        (ifAt .semicolon bump >>= fun semicolon =>
          node leading (.enumValueSet xs.reverse semicolon.isSome)) :=
      .after fun _ => builds_inline hP rfl (by simpa [Shape.children] using hxs)
    have hempty (after : Space) : Parser.Builds P (node .empty .empty >>= fun t =>
        pure ((⟨t, after⟩ : Followed Tree) :: a.1) >>= fun xs => ifAt .semicolon bump >>=
          fun semicolon => node leading (.enumValueSet xs.reverse semicolon.isSome)) :=
      (builds_inline hP rfl every_nil).bind fun t ht =>
        .bind (.pure (every_cons.2 ⟨ht, ha.1⟩)) hnode
    refine .ite (.after fun _ => .ite ?_ ?_) (.bind (.pure ha.1) hnode)
    · exact .after hempty
    · exact .after hempty

include hg in
theorem builds_enumBody : (enumBody g).Builds Q := by
  refine .after fun leading => ?_
  have hrest (values : List (Followed Tree)) (hvalues : Every P values) : Parser.Builds Q
      (itemsUntilBrace g.member >>= fun members => expect .closeBrace >>= fun beforeClose =>
        node leading (.block none (values ++ members) beforeClose)) := by
    refine (builds_itemsUntilBrace hg.member).bind fun xs hxs => .after fun _ =>
      builds_node hP rfl ?_
    simpa [Shape.children] using ⟨hP.every hvalues, hxs⟩
  refine .after fun _ => .after fun _ => .ite ?_ (.into (.pure every_nil) hrest)
  refine (builds_enumValues hP hg).into fun t ht => .into (.pure ?_) hrest
  simpa [Followed.bare] using ht

include hg in
theorem builds_classHeader (kind : ClassKind) : (classHeader g kind).Builds P := by
  refine .after fun beforeKind => (builds_identifier hP).bind fun name hn =>
    (builds_ifAt (builds_typeParameters hP hg)).bind fun ps hps => .after fun _ => .ite ?_ ?_
  · refine .after fun before => .ite ?_ ?_
    · exact (builds_typeList hP hg before _).bind fun s hs =>
        .pure ⟨hn, hps, every_none, every_some.2 hs⟩
    · exact (builds_type hP hg).bind fun t ht => .pure ⟨hn, hps, every_some.2 ht, every_none⟩
  · exact .pure ⟨hn, hps, every_none, every_none⟩

include hg in
theorem builds_classDeclaration (kind : ClassKind) (leading : Space) {annotations modifiers : List Tree}
    (has : Every P annotations) (hms : Every P modifiers) :
    (classDeclaration g kind leading annotations modifiers).Builds Q := by
  rw [classDeclaration_eq]
  refine (builds_classHeader hP hg kind).into fun h ⟨hn, hps, hsuper, hextended⟩ => ?_
  have hbody (interfaces : Option (Series Tree)) (hi : Every P interfaces) (body : Tree)
      (hb : Q body) : (node leading (.classDeclaration ⟨annotations, modifiers, h.beforeKind, kind,
        h.name, h.typeParameters, h.superclass, interfaces, body, none⟩)).Builds Q :=
    builds_node hP rfl (by simpa [Shape.children] using ⟨hP.every has, hP.every hms, hP.every hn,
      hP.every hps, hP.every hsuper, hP.every hi, hb⟩)
  have hrest (interfaces : Option (Series Tree)) (hi : Every P interfaces) : Parser.Builds Q
      (if kind = .enumeration then enumBody g >>= fun body => node leading (.classDeclaration
        ⟨annotations, modifiers, h.beforeKind, kind, h.name, h.typeParameters, h.superclass,
          interfaces, body, none⟩)
      else classBody g >>= fun body => node leading (.classDeclaration
        ⟨annotations, modifiers, h.beforeKind, kind, h.name, h.typeParameters, h.superclass,
          interfaces, body, none⟩)) :=
    .ite ((builds_enumBody hP hg).bind (hbody _ hi))
      ((builds_classBody hP hg).into fun b hb => hbody _ hi b hb.1)
  refine .after fun _ => .ite (.after fun before => ?_) (.into (.pure hextended) hrest)
  exact (builds_typeList hP hg before _).into fun s hs => .into (.pure (every_some.2 hs)) hrest

include hg in
theorem builds_method {head : MemberHead} (hh : Every P head) {returnType : Option Tree}
    (hr : Every P returnType) : (method g head returnType).Builds Q := by
  obtain ⟨has, hms, hps⟩ := hh
  refine (builds_identifier hP).into fun name hn =>
    (builds_delimited hP (builds_parameter hP hg)).into fun s hs =>
    .into (builds_ifAt (.after fun before => builds_typeList hP hg before _)) fun thrown ht =>
    (builds_ifAt (builds_blockStatement hP hg)).into fun body hb => builds_node hP rfl ?_
  simpa [Shape.children] using ⟨hP.every has, hP.every hms, hP.every hps, hP.every hr, hP.every hn,
    hP.every hs, hP.every ht, hb⟩

include hg in
theorem builds_declarators {head : MemberHead} (hh : Every P head) {type : Tree} (ht : P type) :
    (declarators g head type).Builds Q := by
  obtain ⟨has, hms, -⟩ := hh
  refine (builds_separatedBy (builds_namedVariable hP hg _)).into fun xs hxs =>
    builds_line hP rfl ?_
  simpa [Shape.children] using ⟨has, hms, ht, hxs⟩

include hg in
theorem builds_methodOrVariables {head : MemberHead} (hh : Every P head) :
    (methodOrVariables g head).Builds Q := by
  refine .after fun _ => .ite (builds_method hP hg hh every_none) ?_
  refine (builds_type hP hg).into fun t ht => .after fun _ => .ite ?_ (.ite builds_fail ?_)
  · exact builds_method hP hg hh (every_some.2 ht)
  · exact builds_declarators hP hg hh ht

theorem builds_modifier? : modifier?.Builds P := by
  refine .after fun _ => ?_
  split
  · exact (builds_modifier hP _).bind fun t ht => .pure (every_some.2 ht)
  · exact .pure every_none

include hg in
theorem builds_declaration : (declaration g).Builds Q := by
  refine .after fun leading => (builds_annotations hP hg).into fun as has =>
    (builds_collecting (builds_modifier? hP)).into fun ms hms => .after fun _ => ?_
  split
  · exact builds_classDeclaration hP hg _ leading has hms
  · exact (builds_ifAt (builds_typeParameters hP hg)).into fun ps hps =>
      builds_methodOrVariables hP hg ⟨has, hms, hps⟩

include hg in
theorem builds_member : (member g).Builds Q := by
  have hdeclaration := builds_declaration hP hg
  refine .after fun _ => ?_
  split
  · exact .after fun _ => builds_line hP rfl every_nil
  · exact builds_blockStatement hP hg
  · exact .after fun _ => .ite (.after fun _ => .after fun _ =>
      (builds_blockBody hP hg _ _).mono fun _ h => h.1) hdeclaration
  · exact hdeclaration

theorem builds_packageDeclaration : packageDeclaration.Builds P := by
  refine .after fun leading => (builds_qualifiedName hP false).bind fun name hn =>
    .after fun after => .bind (builds_inline hP rfl ?_) fun t ht => .pure ht
  simpa [Shape.children] using hn

theorem builds_importDeclaration : importDeclaration.Builds P := by
  refine .after fun leading => .after fun beforeStatic =>
    (builds_qualifiedName hP true).bind fun name hn => .after fun after =>
      .bind (builds_inline hP rfl ?_) fun t ht => .pure ht
  simpa [Shape.children] using hn

include hg in
theorem builds_topLevelDeclaration : (topLevelDeclaration g).Builds Q := by
  refine .after fun _ => (builds_member hP hg).bind fun t ht => ?_
  split
  · exact .pure ht
  · exact builds_failAt

include hg in
theorem builds_compilationUnit {U : Tree → Prop}
    (hU : ∀ {i s u}, Every Q (Shape.compilationUnit u).children → U (.node i s (.compilationUnit u))) :
    (compilationUnit g).Builds U := by
  refine .after fun leading => (builds_ifAt (builds_packageDeclaration hP)).into fun o ho =>
    (builds_whileAt (builds_importDeclaration hP)).into fun is his =>
    .into (builds_collecting (.after fun _ => .ite (.pure every_none)
      ((builds_topLevelDeclaration hP hg).bind fun t ht => .pure (every_some.2 ht)))) fun ds hds =>
    .after fun _ => builds_made fun _ => hU ?_
  simpa [Shape.children] using ⟨hP.every ho, hP.every his, hds⟩

/-! ### Statements -/

omit hP in
include hg in
theorem builds_terminated : (terminated g).Builds Q :=
  hg.statement.bind fun _ ht => builds_terminate ht

include hg in
theorem builds_controlParentheses : (controlParentheses g).Builds P := by
  refine .after fun leading => (builds_followed hg.expression).bind fun x hx =>
    .after fun _ => builds_inline hP rfl ?_
  simpa [Shape.children] using hx

theorem builds_jumpLabel : jumpLabel.Builds P := builds_ifAt (builds_identifier hP)

include hg in
theorem builds_labeled : (labeled g).Builds Q := by
  refine builds_identifier_node.into fun name hn => .after fun after =>
    hg.statement.bind fun t ht => .after fun _ => .after fun _ => .pure ?_
  obtain ⟨j, s, word, rfl⟩ := hn
  exact hP.labeled ht

include hg in
theorem builds_ifStatement : (ifStatement g).Builds Q := by
  refine .after fun leading => (builds_controlParentheses hP hg).into fun c hc =>
    (builds_terminated hg).into fun x hx =>
    .into (P := fun t => t.kind = .elsePart ∧ Every Q t.children) (builds_ifAt ?_) fun o ho =>
    builds_made fun _ => hP.ifStatement (hP.weaken c hc) hx ho
  refine .after fun _ => (builds_terminated hg).into fun x hx => builds_made fun _ => ⟨rfl, ?_⟩
  exact every_cons.2 ⟨hx, every_nil⟩

include hg in
theorem builds_whileLoop : (whileLoop g).Builds Q := by
  refine .after fun leading => (builds_controlParentheses hP hg).into fun c hc =>
    (builds_terminated hg).bind fun x hx => builds_node hP rfl ?_
  simpa [Shape.children] using ⟨hP.weaken c hc, hx⟩

include hg in
theorem builds_doWhileLoop : (doWhileLoop g).Builds Q := by
  refine .after fun leading => (builds_terminated hg).bind fun x hx => .after fun before =>
    (builds_controlParentheses hP hg).into fun c hc => builds_node hP rfl ?_
  simpa [Shape.children] using ⟨hx, hP.weaken c hc⟩

omit hP in
include hg in
theorem builds_expressionList : (expressionList g).Builds P := by
  have hfollowed := builds_followed hg.expression
  exact hfollowed.bind fun x hx => .bind (builds_whileAt (.after fun _ => hfollowed)) fun xs hxs =>
    .pure (every_cons.2 ⟨hx, hxs⟩)

include hg in
theorem builds_forEachControl : (forEachControl g).Builds Q := by
  refine .after fun leading => (builds_followed (builds_member hP hg)).bind fun x hx =>
    .after fun _ => (builds_followed hg.expression).into fun y hy =>
    .after fun _ => builds_node hP rfl ?_
  simpa [Shape.children] using ⟨hx, hP.weaken _ hy⟩

/-- A loop with this header has the property, if its body has. -/
def Heads (P : Tree → Prop) (control : Tree) : Prop :=
  ∀ i s, ∀ body : Followed Tree, P body.element → P (.node i s (.forLoop control body))

include hg in
theorem builds_forControl : (forControl g).Builds (Heads Q) := by
  have hempty := builds_placeholder hP
  have hexpressions := builds_expressionList hg
  -- the header is asked for nothing itself, but its parts are kept for the loop
  have hnode (leading : Space) (init : List (Followed Tree)) (hinit : Every Q init)
      (condition : Followed Tree) (hc : Every P condition) (update : List (Followed Tree))
      (hu : Every P update) : Parser.Builds (Heads Q) (do
        let _ ← expect .closeParen
        node leading (.forControl init condition update)) :=
    .after fun _ => .after fun _ => .after fun _ => .pure fun _ _ _ hb =>
      hP.forLoop hinit hc hu hb
  have hupdate (leading : Space) (init : List (Followed Tree)) (hinit : Every Q init)
      (condition : Followed Tree) (hc : Every P condition) : Parser.Builds (Heads Q) (do
        let _ ← expect .semicolon
        let update ← if ← at? .closeParen then pure [← placeholder] else expressionList g
        let _ ← expect .closeParen
        node leading (.forControl init condition update)) := by
    have hrest := hnode leading init hinit condition hc
    refine .after fun _ => .after fun _ => .ite ?_ (hexpressions.into hrest)
    exact hempty.into fun x hx => .into (.pure (every_cons.2 ⟨hx, every_nil⟩)) hrest
  have hcondition (leading : Space) (init : List (Followed Tree)) (hinit : Every Q init) :
      Parser.Builds (Heads Q) (do
        let _ ← expect .semicolon
        let condition ← if ← at? .semicolon then placeholder else followed g.expression
        let _ ← expect .semicolon
        let update ← if ← at? .closeParen then pure [← placeholder] else expressionList g
        let _ ← expect .closeParen
        node leading (.forControl init condition update)) := by
    have hrest := hupdate leading init hinit
    exact .after fun _ => .after fun _ => .ite (hempty.into hrest)
      ((builds_followed hg.expression).into hrest)
  refine .after fun leading => .after fun _ => .after fun _ => .after fun _ => ?_
  have hrest := hcondition leading
  have hone (x : Followed Tree) (hx : Every Q x) : Every Q [x] := every_cons.2 ⟨hx, every_nil⟩
  refine .ite (hempty.into fun x hx => .into (.pure (hone x (hP.every hx))) hrest) (.ite ?_ ?_)
  · exact (builds_followed (builds_member hP hg)).into fun x hx => .into (.pure (hone x hx)) hrest
  · exact hexpressions.into fun xs hxs => hrest xs (hP.every hxs)

include hg in
theorem builds_forLoop : (forLoop g).Builds Q := by
  refine .after fun leading => .after fun _ => .ite ?_ ?_
  · refine (builds_forEachControl hP hg).bind fun c hc => (builds_terminated hg).bind fun x hx =>
      builds_node hP rfl ?_
    simpa [Shape.children] using ⟨hc, hx⟩
  · exact (builds_forControl hP hg).into fun c hc => (builds_terminated hg).bind fun x hx =>
      .after fun _ => .after fun _ => .pure (hc _ _ x hx)

include hg in
theorem builds_caughtType : (caughtType g).Builds P := by
  have htype := builds_type hP hg
  refine htype.bind fun t ht => .after fun _ => .ite ?_ (.pure ht)
  refine .bind (builds_whileAt (.after fun after => htype.bind fun u hu =>
    .pure (every_pair.2 ⟨every_space, hu⟩))) fun others hothers => builds_inline hP rfl ?_
  have hall : Every P (t.withLeading .empty :: others.map Prod.snd) := by
    refine every_cons.2 ⟨hP.withLeading .empty ht, ?_⟩
    simp only [Every, List.mem_map]
    rintro _ ⟨c, hc, rfl⟩
    exact (hothers c hc).2
  simpa [Shape.children] using every_zipWith_followed hall _

include hg in
theorem builds_catchClause :
    (catchClause g).Builds fun t => t.kind = .catchClause ∧ Every Q t.children := by
  refine .after fun leading => .after fun beforeOpen => .after fun beforeParameter =>
    (builds_whileAt (builds_modifier hP _)).into fun ms hms =>
    (builds_caughtType hP hg).into fun t ht => (builds_namedVariable hP hg _).into fun v hv =>
    .into (builds_inline hP rfl ?_) fun p hp => .after fun after => .after fun _ =>
    (builds_blockStatement hP hg).into fun b hb => .into (builds_inline hP rfl ?_) fun c hc =>
    builds_made fun _ => ⟨rfl, ?_⟩
  · simpa [Shape.children, Followed.bare] using ⟨hms, ht, hv⟩
  · simpa [Shape.children] using hp
  · exact every_cons.2 ⟨hP.weaken c hc, every_cons.2 ⟨hb, every_nil⟩⟩

include hg in
theorem builds_tryStatement : (tryStatement g).Builds Q := by
  refine .after fun leading => (builds_blockStatement hP hg).into fun b hb =>
    (builds_whileAt (builds_catchClause hP hg)).into fun cs hcs => .bind (builds_ifAt
      (.after fun before => (builds_blockStatement hP hg).bind fun t ht =>
        .pure (every_preceded.2 ht)))
    fun o ho => .ite builds_fail (builds_made fun _ => hP.tryStatement hb hcs ho)

include hg in
theorem builds_caseClause : (caseClause g).Builds Q := by
  have hvalue {rest : Option Tree → Parser Tree} (hrest : ∀ v, Every P v → (rest v).Builds Q) :
      Parser.Builds Q (at? .defaultWord >>= fun b =>
        if b then bump >>= fun _ => pure none >>= rest
        else expect .caseWord >>= fun _ => g.expression >>= fun t => pure (some t) >>= rest) :=
    .after fun _ => .ite (.after fun _ => .into (.pure every_none) hrest)
      (.after fun _ => hg.expression.into fun t ht => .into (.pure (every_some.2 ht)) hrest)
  refine .after fun leading => hvalue fun value hv => .after fun before =>
    .bind (builds_collecting (.after fun _ => ?_)) fun xs hxs => builds_node hP rfl ?_
  · split
    · exact .pure every_none
    · exact .pure every_none
    · exact .pure every_none
    · exact .pure every_none
    · exact (builds_terminated hg).bind fun x hx => .pure (every_some.2 hx)
  · simpa [Shape.children] using ⟨hP.every hv, hxs⟩

include hg in
theorem builds_switchStatement : (switchStatement g).Builds Q := by
  refine .after fun leading => (builds_controlParentheses hP hg).into fun c hc =>
    .after fun beforeOpen => .bind (builds_collecting (.after fun _ => .after fun _ => .ite
      ((builds_caseClause hP hg).bind fun t ht => .pure ?_) (.pure every_none))) fun xs hxs =>
    .after fun beforeClose => .bind (builds_node hP rfl ?_) fun b hb =>
    builds_node hP rfl ?_
  · simpa [Followed.bare] using ht
  · simpa [Shape.children] using hxs
  · simpa [Shape.children] using ⟨hP.weaken c hc, hb⟩

include hg in
theorem builds_expressionStatement : (expressionStatement g).Builds Q :=
  .after fun _ => hg.expression.into fun t ht => .ite (.pure (hP.weaken t ht)) builds_failAt

include hg in
theorem builds_statement : (statement g).Builds Q := by
  have hmember := builds_member hP hg
  have hlabel := builds_jumpLabel hP
  refine .after fun kind => ?_
  split
  · exact builds_blockStatement hP hg
  · exact builds_ifStatement hP hg
  · exact builds_whileLoop hP hg
  · exact builds_doWhileLoop hP hg
  · exact builds_forLoop hP hg
  · exact builds_tryStatement hP hg
  · exact builds_switchStatement hP hg
  · refine .after fun leading => .after fun _ => ?_
    have hnode (o : Option Tree) (ho : Every P o) : (node leading (.returnStatement o)).Builds Q :=
      builds_line hP rfl (by simpa [Shape.children] using ho)
    exact .ite (.into (.pure every_none) hnode)
      (hg.expression.into fun t ht => .into (.pure (every_some.2 ht)) hnode)
  · exact .after fun _ => hg.expression.into fun t ht => builds_line hP rfl
      (by simpa [Shape.children] using ht)
  · exact .after fun _ => hlabel.into fun o ho => builds_line hP rfl
      (by simpa [Shape.children] using ho)
  · exact .after fun _ => hlabel.into fun o ho => builds_line hP rfl
      (by simpa [Shape.children] using ho)
  · exact .after fun _ => builds_line hP rfl every_nil
  all_goals try exact hmember
  exact .after fun _ => .ite (builds_labeled hP hg)
    (.after fun _ => .ite hmember (builds_expressionStatement hP hg))

end Grammar

section Levels

variable {P Q U : Tree → Prop}

/-- The productions of every level build trees with the properties. -/
theorem build_grammar (hP : Descends P Q)
    (hI : ∀ {i s x}, x.kind.isOperation → Every P x.children → P (.node i s x)) (n : Nat) :
    (grammar n).Build P Q := by
  induction n with
  | zero =>
    have hthrow {R : Tree → Prop} : Parser.Builds R (throw .outOfBudget : Parser Tree) :=
      Parser.builds_throw
    exact ⟨hthrow, hthrow, hthrow, fun _ => hthrow, hthrow, hthrow, hthrow, hthrow⟩
  | succ n ih =>
    exact ⟨Grammar.builds_type hP ih, Grammar.builds_expression hP ih hI,
      Grammar.builds_ternaryExpression hP ih hI, Grammar.builds_binaryExpression hP ih hI,
      Grammar.builds_unaryExpression hP ih hI, Grammar.builds_arrayInitializer hP ih,
      Grammar.builds_statement hP ih, Grammar.builds_member hP ih⟩

theorem SourceKind.builds_parser (hP : Descends P Q) (hQU : ∀ t, Q t → U t)
    (hU : ∀ {i s u}, Every Q (Shape.compilationUnit u).children → U (.node i s (.compilationUnit u)))
    {g : Productions} (hg : g.Build P Q) (hexpression : (Grammar.expression g).Builds P)
    (kind : SourceKind) : (kind.parser g).Builds U := by
  cases kind with
  | unit => exact Grammar.builds_compilationUnit hP hg hU
  | expression => exact hexpression.into fun t ht => .after fun _ => .pure (hQU t (hP.weaken t ht))
  | statement =>
    exact (Grammar.builds_statement hP hg).into fun t ht =>
      .after fun _ => .after fun _ => .pure (hQU t ht)

/-- Parsed trees have what statements have, and whole files what follows from that of their parts, if
the productions build trees with the properties. -/
theorem Descends.of_parseFrom (hP : Descends P Q) (hQU : ∀ t, Q t → U t)
    (hU : ∀ {i s u}, Every Q (Shape.compilationUnit u).children → U (.node i s (.compilationUnit u)))
    (hbuild : ∀ n, (grammar n).Build P Q) {kind : SourceKind} {source : Text}
    {firstId nextId : NodeId} {t : Tree} (h : parseFrom kind source firstId = .ok (t, nextId)) :
    U t := by
  obtain ⟨ts, j, -, -, hrun⟩ := exists_run_of_parseFrom h
  exact kind.builds_parser hP hQU hU (hbuild _) (hbuild (ts.length + 2)).expression _ _ _ hrun

/-- A property that is handed down holds of parsed trees, if the productions build trees that have
it. -/
theorem HandedDown.of_parseFrom (hP : HandedDown P) (hbuild : ∀ n, (grammar n).Build P P)
    {kind : SourceKind} {source : Text} {firstId nextId : NodeId} {t : Tree}
    (h : parseFrom kind source firstId = .ok (t, nextId)) : P t :=
  hP.descends.of_parseFrom (fun _ ht => ht) (fun hu => hP.node rfl hu) hbuild h

/-- **Parsed trees inherit**: a property that nodes have because their parts do holds of every
parsed tree. -/
theorem inherited_of_parseFrom (hP : Inherited P) {kind : SourceKind} {source : Text}
    {firstId nextId : NodeId} {t : Tree} (h : parseFrom kind source firstId = .ok (t, nextId)) :
    P t := by
  refine hP.handedDown.of_parseFrom (build_grammar hP.handedDown.descends fun {_ _ x} hk => ?_) h
  exact hP.node (by cases x <;> first | rfl | cases hk)

end Levels

end JavaSource
