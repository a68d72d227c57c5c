import JavaSource.Proofs.Run
import JavaSource.Tree.Children

/-!
# What parsed trees are built of

A property of trees that every new node inherits from its parts holds of all that a parser gives
(`Parser.Builds`).  Two parts are not asked to have it: the header of a `for` loop, and the label of
a statement.  The property is asked of the loop and of the labeled statement around them.

Most productions make no operations of expressions, and give trees with the property already when the
other nodes inherit it (`HandedDown`).  What stands inside statements may have another property than
statements (`Descends`): an expression holds a statement only in the body of a lambda expression or
of an anonymous class.
-/

namespace JavaSource

/-- Data that holds trees. -/
class Bears (α : Type) where
  /-- The property holds of every tree in the data. -/
  Every : (Tree → Prop) → α → Prop

export Bears (Every)

section Instances

variable {α β : Type} [Bears α] [Bears β]

instance : Bears Tree := ⟨fun P t => P t⟩

instance : Bears Unit := ⟨fun _ _ => True⟩

instance : Bears Space := ⟨fun _ _ => True⟩

instance : Bears Bool := ⟨fun _ _ => True⟩

instance : Bears (Followed α) := ⟨fun P x => Every P x.element⟩

instance : Bears (Preceded α) := ⟨fun P x => Every P x.element⟩

instance : Bears (List α) := ⟨fun P as => ∀ a ∈ as, Every P a⟩

instance : Bears (Option α) := ⟨fun P o => ∀ a ∈ o, Every P a⟩

instance : Bears (Series α) := ⟨fun P s => Every P s.elements⟩

instance : Bears (α × β) := ⟨fun P c => Every P c.1 ∧ Every P c.2⟩

end Instances

section Every

variable {α β : Type} [Bears α] [Bears β] {P : Tree → Prop}

@[simp] theorem every_tree {t : Tree} : Every P t ↔ P t := Iff.rfl

@[simp] theorem every_space {s : Space} : Every P s := trivial

@[simp] theorem every_bool {b : Bool} : Every P b := trivial

@[simp] theorem every_followed {x : Followed α} : Every P x ↔ Every P x.element := Iff.rfl

@[simp] theorem every_preceded {x : Preceded α} : Every P x ↔ Every P x.element := Iff.rfl

@[simp] theorem every_series {s : Series α} : Every P s ↔ Every P s.elements := Iff.rfl

@[simp] theorem every_pair {a : α} {b : β} : Every P (a, b) ↔ Every P a ∧ Every P b := Iff.rfl

@[simp] theorem every_nil : Every P ([] : List α) := fun _ h => absurd h List.not_mem_nil

@[simp] theorem every_cons {a : α} {as : List α} : Every P (a :: as) ↔ Every P a ∧ Every P as :=
  List.forall_mem_cons

@[simp] theorem every_append {as bs : List α} : Every P (as ++ bs) ↔ Every P as ∧ Every P bs :=
  List.forall_mem_append

@[simp] theorem every_reverse {as : List α} : Every P as.reverse ↔ Every P as := by
  simp [Every]

@[simp] theorem every_none : Every P (none : Option α) := fun _ h => absurd h (Option.not_mem_none _)

@[simp] theorem every_some {a : α} : Every P (some a) ↔ Every P a := by
  simp [Every]

/-- Data in which a property may be replaced by a weaker one. -/
class LawfulBears (α : Type) [Bears α] : Prop where
  mono : ∀ {P Q : Tree → Prop}, (∀ t, P t → Q t) → ∀ a : α, Every P a → Every Q a

export LawfulBears (mono)

section Lawful

variable [LawfulBears α] [LawfulBears β]

instance : LawfulBears Tree := ⟨fun h => h⟩

instance : LawfulBears (Followed α) := ⟨fun h x => mono h x.element⟩

instance : LawfulBears (Preceded α) := ⟨fun h x => mono h x.element⟩

instance : LawfulBears (List α) := ⟨fun h _ has a ha => mono h a (has a ha)⟩

instance : LawfulBears (Option α) := ⟨fun h _ ho a ha => mono h a (ho a ha)⟩

instance : LawfulBears (Series α) := ⟨fun h s => mono h s.elements⟩

end Lawful

theorem every_zipWith_followed {ts : List Tree} (h : Every P ts) (ss : List Space) :
    Every P (ts.zipWith Followed.mk ss) := by
  induction ts generalizing ss with
  | nil => exact every_nil
  | cons t ts ih =>
    cases ss with
    | nil => exact every_nil
    | cons s ss => exact every_cons.2 ⟨(every_cons.1 h).1, ih (every_cons.1 h).2 ss⟩

@[simp] theorem every_items {xs : List (Followed Tree)} : Every P (items xs) ↔ Every P xs := by
  simp [Every, items]

@[simp] theorem every_itemsOf {o : Option (Series Tree)} :
    Every P (Series.itemsOf o) ↔ Every P o := by
  cases o <;> simp [Series.itemsOf]

@[simp] theorem every_toList {o : Option Tree} : Every P o.toList ↔ Every P o := by
  cases o <;> simp

@[simp] theorem every_map_followed {o : Option (Followed Tree)} :
    Every P (o.map Followed.element) ↔ Every P o := by
  cases o <;> simp

@[simp] theorem every_map_preceded {o : Option (Preceded Tree)} :
    Every P (o.map Preceded.element) ↔ Every P o := by
  cases o <;> simp

end Every

/-- A node of this kind may have any parts, and stand anywhere. -/
def NodeKind.standsAlone : NodeKind → Bool
  | .forControl | .forLoop | .labeled => false
  | _ => true

/-- A property that nodes inherit from their parts, and that does not depend on a leading space. -/
structure Inherited (P : Tree → Prop) : Prop where
  withLeading : ∀ {t} (s : Space), P t → P (t.withLeading s)
  node : ∀ {i s x}, x.kind.standsAlone → Every P x.children → P (.node i s x)
  labeled : ∀ {i j s s' name type after body}, P body →
    P (.node i s (.labeled ⟨.node j s' (.identifier name type), after⟩ body))
  forLoop : ∀ {i j s s' init condition update body}, Every P init → Every P condition →
    Every P update → Every P body →
    P (.node i s (.forLoop (.node j s' (.forControl init condition update)) body))

/-- A node of this kind is an operation on its operands. -/
def NodeKind.isOperation : NodeKind → Bool
  | .assignment | .assignmentOperation | .binary | .ternary | .typeCast | .unary => true
  | _ => false

/-- A property that nodes other than operations inherit from their parts, and that does not depend on
a leading space. -/
structure HandedDown (P : Tree → Prop) : Prop where
  withLeading : ∀ {t} (s : Space), P t → P (t.withLeading s)
  node : ∀ {i s x}, (x.kind.standsAlone && !x.kind.isOperation) → Every P x.children →
    P (.node i s x)
  labeled : ∀ {i j s s' name type after body}, P body →
    P (.node i s (.labeled ⟨.node j s' (.identifier name type), after⟩ body))
  forLoop : ∀ {i j s s' init condition update body}, Every P init → Every P condition →
    Every P update → Every P body →
    P (.node i s (.forLoop (.node j s' (.forControl init condition update)) body))

theorem Inherited.handedDown {P : Tree → Prop} (hP : Inherited P) : HandedDown P where
  withLeading := hP.withLeading
  node hk := hP.node (Bool.and_eq_true_iff.1 hk).1
  labeled := hP.labeled
  forLoop := hP.forLoop

/-! ### Expressions and statements -/

namespace NodeKind

/-- A node of this kind holds no statements, but for the body that it may have. -/
def isInline : NodeKind → Bool
  | .block | .caseClause | .catchClause | .classDeclaration | .compilationUnit | .doWhileLoop
  | .elsePart | .forControl | .forEachControl | .forEachLoop | .forLoop | .ifStatement | .labeled
  | .methodDeclaration | .switchStatement | .tryStatement | .whileLoop => false
  | _ => true

/-- A node of this kind is part of an expression and may have statements for its body. -/
def mayHaveBody : NodeKind → Bool
  | .lambda | .newClass => true
  | _ => false

/-- A node of this kind holds no statements, whatever its parts are. -/
def isPlainInline (k : NodeKind) : Bool := k.isInline && !k.mayHaveBody && !k.isOperation

/-- The kind of the statements that a node of this kind is a clause of. -/
def clauseOf? : NodeKind → Option NodeKind
  | .elsePart => some .ifStatement
  | .catchClause => some .tryStatement
  | _ => none

/-- A node of this kind may hold any statements, and it is one itself. -/
def holdsStatements : NodeKind → Bool
  | .elsePart | .catchClause | .ifStatement | .tryStatement | .compilationUnit => false
  | k => !k.isInline && k.standsAlone

end NodeKind

/-- A property `P` that nodes inside statements inherit from their parts, and a property `Q` that
statements inherit, where nodes inside statements have it too.  The clauses of a statement are not
asked to have it, and nothing is said of operations and of whole files. -/
structure Descends (P Q : Tree → Prop) : Prop where
  weaken : ∀ t, P t → Q t
  withLeading : ∀ {t} (s : Space), P t → P (t.withLeading s)
  inline : ∀ {i s x}, x.kind.isPlainInline → Every P x.children → P (.node i s x)
  lambda : ∀ {i s} {l : Lambda Tree}, Every P l.parameters → Q l.body →
    (P l.body ∨ l.body.kind = .block) → P (.node i s (.lambda l))
  newClass : ∀ {i s name arguments} {body : Option Tree} {type}, P name → Every P arguments →
    (∀ b ∈ body, Q b ∧ b.kind = .block) → P (.node i s (.newClass name arguments body type))
  node : ∀ {i s x}, x.kind.holdsStatements → Every Q x.children → Q (.node i s x)
  ifStatement : ∀ {i s condition} {thenPart : Followed Tree} {alternative : Option Tree},
    Q condition → Every Q thenPart →
    (∀ e ∈ alternative, e.kind = .elsePart ∧ Every Q e.children) →
    Q (.node i s (.ifStatement condition thenPart alternative))
  tryStatement : ∀ {i s body} {catches : List Tree} {finallyBlock : Option (Preceded Tree)}, Q body →
    (∀ c ∈ catches, c.kind = .catchClause ∧ Every Q c.children) → Every Q finallyBlock →
    Q (.node i s (.tryStatement body catches finallyBlock))
  labeled : ∀ {i j s s' name type after body}, Q body →
    Q (.node i s (.labeled ⟨.node j s' (.identifier name type), after⟩ body))
  forLoop : ∀ {i j s s' init condition update body}, Every Q init → Every P condition →
    Every P update → Every Q body →
    Q (.node i s (.forLoop (.node j s' (.forControl init condition update)) body))

theorem HandedDown.descends {P : Tree → Prop} (hP : HandedDown P) : Descends P P where
  weaken _ h := h
  withLeading := hP.withLeading
  inline {i s x} hk hx := hP.node (by cases x <;> first | rfl | cases hk) hx
  lambda hparameters hbody _ := hP.node rfl (by simpa [Shape.children] using ⟨hparameters, hbody⟩)
  newClass {_ _ _ _ body _} hname harguments hbody := by
    have hbody : Every P body := fun b hb => (hbody b hb).1
    exact hP.node rfl (by simpa [Shape.children] using ⟨hname, harguments, hbody⟩)
  node {i s x} hk hx := hP.node (by cases x <;> first | rfl | cases hk) hx
  ifStatement {_ _ _ _ alternative} hcondition hthen halternative := by
    have helse : Every P alternative := fun e he => by
      obtain ⟨hk, hx⟩ := halternative e he
      obtain ⟨j, s, x⟩ := e
      exact hP.node (by cases x <;> first | rfl | cases hk) hx
    exact hP.node rfl (by simpa [Shape.children] using ⟨hcondition, hthen, helse⟩)
  tryStatement {_ _ _ catches _} hbody hcatches hfinally := by
    have hcatches : Every P catches := fun c hc => by
      obtain ⟨hk, hx⟩ := hcatches c hc
      obtain ⟨j, s, x⟩ := c
      exact hP.node (by cases x <;> first | rfl | cases hk) hx
    exact hP.node rfl (by simpa [Shape.children] using ⟨hbody, hcatches, hfinally⟩)
  labeled := hP.labeled
  forLoop := hP.forLoop

theorem Descends.every {P Q : Tree → Prop} (hP : Descends P Q) {α : Type} [Bears α] [LawfulBears α]
    {a : α} (h : Every P a) : Every Q a := mono hP.weaken a h

namespace Parser

variable {P : Tree → Prop} {α β : Type}

/-- Every tree in what the parser gives has the property. -/
def Builds (P : Tree → Prop) [Bears α] (p : Parser α) : Prop := ∀ i, p.Ensures i fun a _ => Every P a

section Steps

variable [Bears α] [Bears β]

theorem Builds.pure {a : α} (h : Every P a) : Builds P (Pure.pure a) := fun _ => ensures_pure.2 h

theorem Builds.into {Q : Tree → Prop} {p : Parser α} {f : α → Parser β} (hp : p.Builds P)
    (hf : ∀ a, Every P a → (f a).Builds Q) : (p >>= f).Builds Q :=
  fun i => ensures_bind.2 ((hp i).mono fun a j ha => hf a ha j)

theorem Builds.bind {p : Parser α} {f : α → Parser β} (hp : p.Builds P)
    (hf : ∀ a, Every P a → (f a).Builds P) : (p >>= f).Builds P := hp.into hf

theorem Builds.mono [LawfulBears α] {Q : Tree → Prop} {p : Parser α} (hp : p.Builds P)
    (h : ∀ t, P t → Q t) : p.Builds Q :=
  fun i => (hp i).mono fun a _ ha => LawfulBears.mono h a ha

/-- A step that gives no trees may come before. -/
theorem Builds.after {γ : Type} {p : Parser γ} {f : γ → Parser β} (hf : ∀ a, (f a).Builds P) :
    (p >>= f).Builds P :=
  fun _ => ensures_bind.2 fun a j _ => hf a j

theorem Builds.ite {c : Prop} [Decidable c] {p q : Parser α} (hp : p.Builds P) (hq : q.Builds P) :
    (if c then p else q).Builds P := by
  split
  · exact hp
  · exact hq

theorem builds_throw {e : SyntaxError} : Builds P (throw e : Parser α) := fun _ => ensures_throw

theorem builds_failAt {ts : List Token} {x : Expectation} : Builds P (failAt ts x : Parser α) :=
  fun _ => ensures_failAt

theorem builds_fail {x : Expectation} : Builds P (fail x : Parser α) := fun _ => ensures_fail

theorem builds_repeating {step : α → Parser (Option α)}
    (h : ∀ a, Every P a → (step a).Builds P) {a : α} (ha : Every P a) :
    (repeating a step).Builds P := by
  have within (n : Nat) : ∀ a, Every P a → (repeatWithin step n a).Builds P := by
    induction n with
    | zero => exact fun _ _ => builds_throw
    | succ n ih =>
      intro a ha
      refine (h a ha).bind fun o ho => ?_
      cases o with
      | none => exact .pure ha
      | some b => exact ih b (every_some.1 ho)
  exact .after fun _ => within _ a ha

theorem builds_collecting {item : Parser (Option α)} (h : item.Builds P) :
    (collecting item).Builds P := by
  have within (n : Nat) : (collectWithin item n).Builds P := by
    induction n with
    | zero => exact builds_throw
    | succ n ih =>
      refine h.bind fun o ho => ?_
      cases o with
      | none => exact .pure every_nil
      | some a => exact ih.bind fun as has => .pure (every_cons.2 ⟨every_some.1 ho, has⟩)
  exact .after fun _ => within _

theorem builds_ifAt {k : TokenKind} {item : Parser α} (h : item.Builds P) :
    (ifAt k item).Builds P :=
  .after fun _ => .ite (h.bind fun _ ha => .pure (every_some.2 ha)) (.pure every_none)

theorem builds_whileAt {k : TokenKind} {item : Parser α} (h : item.Builds P) :
    (whileAt k item).Builds P :=
  builds_collecting (builds_ifAt h)

end Steps

section Nodes

theorem builds_made {s : Space} {x : Shape Tree} (h : ∀ i, P (.node i s x)) :
    (node s x).Builds P :=
  .after fun i => .after fun _ => .pure (h i.nextId)

theorem builds_operation
    (hI : ∀ {i s x}, x.kind.isOperation → Every P x.children → P (.node i s x)) {s : Space}
    {x : Shape Tree} (hk : x.kind.isOperation) (hx : Every P x.children) : (node s x).Builds P :=
  builds_made fun _ => hI hk hx

variable {Q : Tree → Prop} (hP : Descends P Q)

include hP

theorem builds_inline {s : Space} {x : Shape Tree} (hk : x.kind.isPlainInline)
    (hx : Every P x.children) : (node s x).Builds P :=
  builds_made fun _ => hP.inline hk hx

/-- A simple statement holds expressions only. -/
theorem builds_line {s : Space} {x : Shape Tree} (hk : x.kind.isPlainInline)
    (hx : Every P x.children) : (node s x).Builds Q :=
  builds_made fun _ => hP.weaken _ (hP.inline hk hx)

theorem builds_node {s : Space} {x : Shape Tree} (hk : x.kind.holdsStatements)
    (hx : Every Q x.children) : (node s x).Builds Q :=
  builds_made fun _ => hP.node hk hx

theorem builds_placeholder : placeholder.Builds P :=
  .after fun _ => (builds_inline hP rfl every_nil).bind fun _ ht => .pure ht

theorem builds_anyName : anyName.Builds P :=
  .after fun _ => .after fun _ => .after fun _ => builds_inline hP rfl every_nil

omit hP in
/-- An identifier is a node by itself. -/
theorem builds_identifier_node :
    identifier.Builds fun t => ∃ i s name, t = .node i s (.identifier name none) :=
  .after fun _ => .ite
    (.after fun _ => .after fun _ => .after fun _ => .after fun _ => .after fun _ =>
      .pure ⟨_, _, _, rfl⟩) builds_fail

theorem builds_identifier : identifier.Builds P :=
  .after fun _ => .ite (builds_anyName hP) builds_fail

omit hP in
theorem builds_followed {p : Parser Tree} (h : p.Builds P) : (followed p).Builds P :=
  h.bind fun _ ht => .after fun _ => .pure ht

theorem builds_elementsUntil {k : TokenKind} {p : Parser Tree} (h : p.Builds P) :
    (elementsUntil k p).Builds P := by
  have hfirst := builds_followed h
  refine .after fun _ => .ite ?_ ?_
  · exact (builds_placeholder hP).bind fun x hx => .pure (every_cons.2 ⟨hx, every_nil⟩)
  · refine hfirst.bind fun x hx => .bind (builds_whileAt ?_) fun xs hxs =>
      .pure (every_cons.2 ⟨hx, hxs⟩)
    exact .after fun _ => .after fun _ => .ite (builds_placeholder hP) hfirst

theorem builds_delimited {k k' : TokenKind} {p : Parser Tree} (h : p.Builds P) :
    (delimited k k' p).Builds P :=
  .after fun _ => (builds_elementsUntil hP h).bind fun _ hxs => .after fun _ => .pure hxs

omit hP in
theorem builds_separatedBy {k : TokenKind} {p : Parser Tree} (h : p.Builds P) :
    (separatedBy k p).Builds P := by
  refine h.bind fun t ht => ?_
  refine .bind (builds_repeating (fun a ha => ?_) (every_pair.2 ⟨ht, every_nil⟩)) fun a ha => ?_
  · exact .after fun _ => .ite (.after fun after => h.bind fun u hu =>
      .pure (every_some.2 ⟨hu, every_cons.2 ha⟩)) (.pure every_none)
  · exact .pure (every_reverse.2 (every_cons.2 ha))

end Nodes

end Parser

end JavaSource
