import JavaSource.Tree.Printer
import Mathlib.Data.List.Forall2
import Mathlib.Data.Option.Basic

/-!
# Related layers

`Shape.Rel R S x y` says that two layers have the same words, with parts related by `R` and spaces
related slot by slot by `S`.  What a layer prints (`Shape.Rel.pieces`), its parts
(`Shape.Rel.children`) and its kind (`Shape.Rel.kind`) are related along with it.
-/

namespace JavaSource

variable {α β : Type}

/-! ### Padded elements -/

section Padded

variable (R : α → β → Prop) (S : SpaceSlot → Space → Space → Prop)

/-- Related elements with related spaces after them. -/
structure Followed.Rel (slot : FollowedSlot) (x : Followed α) (y : Followed β) : Prop where
  element : R x.element y.element
  after : S (.after slot) x.after y.after

/-- Related elements with related spaces before them. -/
structure Preceded.Rel (slot : PrecededSlot) (x : Preceded α) (y : Preceded β) : Prop where
  before : S (.before slot) x.before y.before
  element : R x.element y.element

/-- Related lists with related spaces before them. -/
structure Series.Rel (slot : SeriesSlot) (s : Series α) (t : Series β) : Prop where
  before : S (.opening slot) s.before t.before
  elements : List.Forall₂ (Followed.Rel R S slot.element) s.elements t.elements

end Padded

/-! ### Layers -/

/-- The same words, related parts and related spaces. -/
inductive Shape.Rel (R : α → β → Prop) (S : SpaceSlot → Space → Space → Prop) :
    Shape α → Shape β → Prop
  | annotationUse {a b xs ys} (name : R a b)
    (arguments : Option.Rel (Series.Rel R S .annotationArguments) xs ys) :
    Rel R S (.annotationUse a xs) (.annotationUse b ys)
  | arrayAccess {a b c d} (array : R a b) (dimension : R c d) :
    Rel R S (.arrayAccess a c) (.arrayAccess b d)
  | arrayDimension {x y} (index : Followed.Rel R S .arrayIndex x y) :
    Rel R S (.arrayDimension x) (.arrayDimension y)
  | arrayType {a b s t u v} (element : R a b)
    (beforeOpen : S (.leading .arrayDimension) s t) (beforeClose : S .dimensionEnd u v) :
    Rel R S (.arrayType a s u) (.arrayType b t v)
  | assignment {a b x y} (target : R a b) (value : Preceded.Rel R S .assignment x y) :
    Rel R S (.assignment a x) (.assignment b y)
  | assignmentOperation {a b s t o c d} (target : R a b)
    (beforeOperator : S (.before .assignmentOperator) s t) (value : R c d) :
    Rel R S (.assignmentOperation a s o c) (.assignmentOperation b t o d)
  | binary {a b s t o c d h} (left : R a b) (beforeOperator : S (.before .binaryOperator) s t)
    (right : R c d) : Rel R S (.binary a s o c h) (.binary b t o d h)
  | block {o p xs ys s t} (afterStatic : Option.Rel (S .afterStatic) o p)
    (statements : List.Forall₂ (Followed.Rel R S .blockStatement) xs ys)
    (beforeClose : S .blockEnd s t) : Rel R S (.block o xs s) (.block p ys t)
  | breakStatement {a b} (label : Option.Rel R a b) :
    Rel R S (.breakStatement a) (.breakStatement b)
  | caseClause {a b s t} (value : Option.Rel R a b)
    (statements : Series.Rel R S .caseStatements s t) :
    Rel R S (.caseClause a s) (.caseClause b t)
  | catchClause {a b c d} (parameter : R a b) (body : R c d) :
    Rel R S (.catchClause a c) (.catchClause b d)
  | classDeclaration {d e} (annotations : List.Forall₂ R d.annotations e.annotations)
    (modifiers : List.Forall₂ R d.modifiers e.modifiers)
    (beforeKind : S .classKind d.beforeKind e.beforeKind) (kind : d.kind = e.kind)
    (name : R d.name e.name)
    (typeParameters :
      Option.Rel (Series.Rel R S .typeParameters) d.typeParameters e.typeParameters)
    (superclass : Option.Rel (Preceded.Rel R S .superclass) d.superclass e.superclass)
    (interfaces : Option.Rel (Series.Rel R S .interfaces) d.interfaces e.interfaces)
    (body : R d.body e.body) (type : d.type = e.type) :
    Rel R S (.classDeclaration d) (.classDeclaration e)
  | compilationUnit {u v}
    (package : Option.Rel (Followed.Rel R S .packageDeclaration) u.package v.package)
    (imports : List.Forall₂ (Followed.Rel R S .importDeclaration) u.imports v.imports)
    (declarations : List.Forall₂ R u.declarations v.declarations)
    (beforeEnd : S .endOfUnit u.beforeEnd v.beforeEnd) :
    Rel R S (.compilationUnit u) (.compilationUnit v)
  | continueStatement {a b} (label : Option.Rel R a b) :
    Rel R S (.continueStatement a) (.continueStatement b)
  | controlParentheses {x y} (inner : Followed.Rel R S .parentheses x y) :
    Rel R S (.controlParentheses x) (.controlParentheses y)
  | doWhileLoop {x y z w} (body : Followed.Rel R S .loopBody x y)
    (condition : Preceded.Rel R S .whileCondition z w) :
    Rel R S (.doWhileLoop x z) (.doWhileLoop y w)
  | elsePart {x y} (body : Followed.Rel R S .elseBody x y) :
    Rel R S (.elsePart x) (.elsePart y)
  | empty : Rel R S .empty .empty
  | enumValue {a b xs ys} (name : R a b)
    (arguments : Option.Rel (Series.Rel R S .constructorArguments) xs ys) :
    Rel R S (.enumValue a xs) (.enumValue b ys)
  | enumValueSet {xs ys semicolon} (values : List.Forall₂ (Followed.Rel R S .enumValue) xs ys) :
    Rel R S (.enumValueSet xs semicolon) (.enumValueSet ys semicolon)
  | fieldAccess {a b x y h} (target : R a b) (name : Preceded.Rel R S .fieldName x y) :
    Rel R S (.fieldAccess a x h) (.fieldAccess b y h)
  | forControl {xs ys x y zs ws} (init : List.Forall₂ (Followed.Rel R S .forInit) xs ys)
    (condition : Followed.Rel R S .forCondition x y)
    (update : List.Forall₂ (Followed.Rel R S .forUpdate) zs ws) :
    Rel R S (.forControl xs x zs) (.forControl ys y ws)
  | forEachControl {x y z w} (declared : Followed.Rel R S .forEachVariable x y)
    (iterable : Followed.Rel R S .forEachIterable z w) :
    Rel R S (.forEachControl x z) (.forEachControl y w)
  | forEachLoop {a b x y} (control : R a b) (body : Followed.Rel R S .forBody x y) :
    Rel R S (.forEachLoop a x) (.forEachLoop b y)
  | forLoop {a b x y} (control : R a b) (body : Followed.Rel R S .forBody x y) :
    Rel R S (.forLoop a x) (.forLoop b y)
  | identifier {name h} : Rel R S (.identifier name h) (.identifier name h)
  | ifStatement {a b x y o p} (condition : R a b) (thenPart : Followed.Rel R S .thenBody x y)
    (elsePart : Option.Rel R o p) : Rel R S (.ifStatement a x o) (.ifStatement b y p)
  | importDeclaration {s t isStatic a b} (beforeStatic : S (.before .staticImport) s t)
    (name : R a b) : Rel R S (.importDeclaration s isStatic a) (.importDeclaration t isStatic b)
  | labeled {x y a b} (label : Followed.Rel R S .label x y) (statement : R a b) :
    Rel R S (.labeled x a) (.labeled y b)
  | lambda {l m} (beforeParameters : S .lambdaParameters l.beforeParameters m.beforeParameters)
    (parenthesized : l.parenthesized = m.parenthesized)
    (parameters : List.Forall₂ (Followed.Rel R S .lambdaParameter) l.parameters m.parameters)
    (beforeArrow : S .lambdaArrow l.beforeArrow m.beforeArrow) (body : R l.body m.body) :
    Rel R S (.lambda l) (.lambda m)
  | literal {source kind} : Rel R S (.literal source kind) (.literal source kind)
  | methodDeclaration {d e} (annotations : List.Forall₂ R d.annotations e.annotations)
    (modifiers : List.Forall₂ R d.modifiers e.modifiers)
    (typeParameters :
      Option.Rel (Series.Rel R S .typeParameters) d.typeParameters e.typeParameters)
    (returnType : Option.Rel R d.returnType e.returnType) (name : R d.name e.name)
    (parameters : Series.Rel R S .methodParameters d.parameters e.parameters)
    (thrown : Option.Rel (Series.Rel R S .thrownTypes) d.thrown e.thrown)
    (body : Option.Rel R d.body e.body) (type : d.type = e.type) :
    Rel R S (.methodDeclaration d) (.methodDeclaration e)
  | methodInvocation {i j}
    (receiver : Option.Rel (Followed.Rel R S .receiver) i.receiver j.receiver)
    (typeArguments :
      Option.Rel (Series.Rel R S .typeParameters) i.typeArguments j.typeArguments)
    (name : R i.name j.name)
    (arguments : Series.Rel R S .methodArguments i.arguments j.arguments)
    (type : i.type = j.type) : Rel R S (.methodInvocation i) (.methodInvocation j)
  | modifier {word} : Rel R S (.modifier word) (.modifier word)
  | multiCatch {xs ys}
    (alternatives : List.Forall₂ (Followed.Rel R S .catchAlternative) xs ys) :
    Rel R S (.multiCatch xs) (.multiCatch ys)
  | namedVariable {a b x y h} (name : R a b)
    (initializer : Option.Rel (Preceded.Rel R S .initializer) x y) :
    Rel R S (.namedVariable a x h) (.namedVariable b y h)
  | newArray {a b xs ys s t} (element : Option.Rel R a b) (dimensions : List.Forall₂ R xs ys)
    (values : Option.Rel (Series.Rel R S .arrayValues) s t) :
    Rel R S (.newArray a xs s) (.newArray b ys t)
  | newClass {a b s t o p h} (name : R a b)
    (arguments : Series.Rel R S .constructorArguments s t) (body : Option.Rel R o p) :
    Rel R S (.newClass a s o h) (.newClass b t p h)
  | packageDeclaration {xs ys a b} (annotations : List.Forall₂ R xs ys) (name : R a b) :
    Rel R S (.packageDeclaration xs a) (.packageDeclaration ys b)
  | parameterizedType {a b s t h} (name : R a b)
    (arguments : Option.Rel (Series.Rel R S .typeParameters) s t) :
    Rel R S (.parameterizedType a s h) (.parameterizedType b t h)
  | parentheses {x y} (inner : Followed.Rel R S .parentheses x y) :
    Rel R S (.parentheses x) (.parentheses y)
  | primitiveType {primitive} : Rel R S (.primitiveType primitive) (.primitiveType primitive)
  | returnStatement {a b} (value : Option.Rel R a b) :
    Rel R S (.returnStatement a) (.returnStatement b)
  | switchStatement {a b c d} (selector : R a b) (cases : R c d) :
    Rel R S (.switchStatement a c) (.switchStatement b d)
  | ternary {a b x y z w} (condition : R a b) (whenTrue : Preceded.Rel R S .ternaryTrue x y)
    (whenFalse : Preceded.Rel R S .ternaryFalse z w) :
    Rel R S (.ternary a x z) (.ternary b y w)
  | throwStatement {a b} (value : R a b) : Rel R S (.throwStatement a) (.throwStatement b)
  | tryStatement {a b xs ys x y} (body : R a b) (catches : List.Forall₂ R xs ys)
    (finallyBlock : Option.Rel (Preceded.Rel R S .finallyBlock) x y) :
    Rel R S (.tryStatement a xs x) (.tryStatement b ys y)
  | typeCast {a b c d} (type : R a b) (operand : R c d) :
    Rel R S (.typeCast a c) (.typeCast b d)
  | typeParameter {xs ys a b s t} (annotations : List.Forall₂ R xs ys) (name : R a b)
    (bounds : Option.Rel (Series.Rel R S .typeBounds) s t) :
    Rel R S (.typeParameter xs a s) (.typeParameter ys b t)
  | unary {s t o a b} (beforeOperator : S (.before .unaryOperator) s t) (operand : R a b) :
    Rel R S (.unary s o a) (.unary t o b)
  | variableDeclarations {d e} (annotations : List.Forall₂ R d.annotations e.annotations)
    (modifiers : List.Forall₂ R d.modifiers e.modifiers) (type : Option.Rel R d.type e.type)
    (beforeDots : Option.Rel (S .dots) d.beforeDots e.beforeDots)
    (declarators : List.Forall₂ (Followed.Rel R S .declarator) d.declarators e.declarators) :
    Rel R S (.variableDeclarations d) (.variableDeclarations e)
  | whileLoop {a b x y} (condition : R a b) (body : Followed.Rel R S .loopBody x y) :
    Rel R S (.whileLoop a x) (.whileLoop b y)
  | wildcard {o p a b}
    (bound : Option.Rel
      (fun c d => S (.before .wildcardBound) c.1 d.1 ∧ c.2 = d.2) o p)
    (type : Option.Rel R a b) : Rel R S (.wildcard o a) (.wildcard p b)

section Lists

variable {R : α → β → Prop} {S : SpaceSlot → Space → Space → Prop}

theorem Followed.rel_refl {slot : FollowedSlot} {R : α → α → Prop} {x : Followed α}
    (hR : R x.element x.element) (hS : ∀ l s, S l s s) : Followed.Rel R S slot x x :=
  ⟨hR, hS _ _⟩

theorem Preceded.rel_refl {slot : PrecededSlot} {R : α → α → Prop} {x : Preceded α}
    (hR : R x.element x.element) (hS : ∀ l s, S l s s) : Preceded.Rel R S slot x x :=
  ⟨hS _ _, hR⟩

theorem followed_rel_refl {slot : FollowedSlot} {R : α → α → Prop} {xs : List (Followed α)}
    (hR : ∀ a ∈ items xs, R a a) (hS : ∀ l s, S l s s) :
    List.Forall₂ (Followed.Rel R S slot) xs xs :=
  List.forall₂_same.2 fun _ hx => Followed.rel_refl (hR _ (List.mem_map_of_mem hx)) hS

theorem Series.rel_refl {slot : SeriesSlot} {R : α → α → Prop} {s : Series α}
    (hR : ∀ a ∈ items s.elements, R a a) (hS : ∀ l s, S l s s) : Series.Rel R S slot s s :=
  ⟨hS _ _, followed_rel_refl hR hS⟩

theorem option_rel_refl {γ : Type} {P : γ → γ → Prop} {o : Option γ} (h : ∀ a ∈ o, P a a) :
    Option.Rel P o o := by
  cases o with
  | none => exact .none
  | some a => exact .some (h a rfl)

theorem exists_mem_of_forall₂ {γ δ : Type} {P : γ → δ → Prop} {xs : List γ} {ys : List δ}
    (h : List.Forall₂ P xs ys) {b : δ} (hb : b ∈ ys) : ∃ a ∈ xs, P a b := by
  induction h with
  | nil => cases hb
  | cons h _ ih =>
    rcases List.mem_cons.1 hb with rfl | hb
    · exact ⟨_, List.mem_cons_self, h⟩
    · obtain ⟨a, ha, hab⟩ := ih hb
      exact ⟨a, List.mem_cons_of_mem _ ha, hab⟩

theorem rel_items {slot : FollowedSlot} {xs : List (Followed α)} {ys : List (Followed β)}
    (h : List.Forall₂ (Followed.Rel R S slot) xs ys) : List.Forall₂ R (items xs) (items ys) := by
  induction h with
  | nil => exact .nil
  | cons h _ ih => exact .cons h.element ih

theorem rel_toList {γ δ : Type} {P : γ → δ → Prop} {o : Option γ} {p : Option δ}
    (h : Option.Rel P o p) : List.Forall₂ P o.toList p.toList := by
  cases h with
  | none => exact .nil
  | some h => exact .cons h .nil

theorem rel_itemsOf {slot : SeriesSlot} {o : Option (Series α)} {p : Option (Series β)}
    (h : Option.Rel (Series.Rel R S slot) o p) :
    List.Forall₂ R (Series.itemsOf o) (Series.itemsOf p) := by
  cases h with
  | none => exact .nil
  | some h => exact rel_items h.elements

theorem rel_map_element {slot : FollowedSlot} {o : Option (Followed α)} {p : Option (Followed β)}
    (h : Option.Rel (Followed.Rel R S slot) o p) :
    List.Forall₂ R (o.map Followed.element).toList (p.map Followed.element).toList := by
  cases h with
  | none => exact .nil
  | some h => exact .cons h.element .nil

theorem rel_map_preceded {slot : PrecededSlot} {o : Option (Preceded α)} {p : Option (Preceded β)}
    (h : Option.Rel (Preceded.Rel R S slot) o p) :
    List.Forall₂ R (o.map Preceded.element).toList (p.map Preceded.element).toList := by
  cases h with
  | none => exact .nil
  | some h => exact .cons h.element .nil

end Lists

namespace Shape

variable {R : α → β → Prop} {S : SpaceSlot → Space → Space → Prop}

theorem Rel.kind {x : Shape α} {y : Shape β} (h : Rel R S x y) : x.kind = y.kind := by
  cases h <;> rfl

/-- A layer is related to itself if its parts are. -/
theorem rel_refl {R : α → α → Prop} {x : Shape α} (hR : ∀ a ∈ x.children, R a a)
    (hS : ∀ l s, S l s s) : Rel R S x x := by
  cases x <;> constructor
  -- each field is a part, a list of parts or a space
  all_goals first
    | rfl
    | exact hS _ _
    | exact hR _ (by simp [Shape.children])
    | exact List.forall₂_same.2 fun a ha => hR a (by simp [Shape.children, ha])
    | exact option_rel_refl fun a ha => hR a (by simp_all [Shape.children])
    | exact option_rel_refl fun s _ => hS _ s
    | exact Followed.rel_refl (hR _ (by simp [Shape.children])) hS
    | exact Preceded.rel_refl (hR _ (by simp [Shape.children])) hS
    | exact followed_rel_refl (fun a ha => hR a (by simp [Shape.children, ha])) hS
    | exact Series.rel_refl (fun a ha => hR a (by simp [Shape.children, ha])) hS
    | exact option_rel_refl fun s hs => Series.rel_refl
        (fun a ha => hR a (by simp_all [Shape.children, Series.itemsOf])) hS
    | exact option_rel_refl fun s hs => Followed.rel_refl (hR _ (by simp_all [Shape.children])) hS
    | exact option_rel_refl fun s hs => Preceded.rel_refl (hR _ (by simp_all [Shape.children])) hS
    | exact option_rel_refl fun b _ => ⟨hS _ b.1, rfl⟩

/-- Related layers have related parts. -/
theorem Rel.children {x : Shape α} {y : Shape β} (h : Rel R S x y) :
    List.Forall₂ R x.children y.children := by
  cases h <;> simp only [Shape.children]
  -- the lists of parts are put together in the same way on both sides
  all_goals
    repeat' first
      | assumption
      | exact List.Forall₂.nil
      | exact Followed.Rel.element ‹_›
      | exact Preceded.Rel.element ‹_›
      | exact Series.Rel.elements ‹_›
      | apply rel_map_element
      | apply rel_map_preceded
      | apply rel_items
      | apply rel_itemsOf
      | apply rel_toList
      | apply List.Forall₂.cons
      | apply List.rel_append

end Shape

/-! ### What related layers print -/

/-- The same word, related spaces in the same slot, or related parts. -/
inductive Piece.Rel (R : α → β → Prop) (S : SpaceSlot → Space → Space → Prop) :
    Piece α → Piece β → Prop
  | word {t} : Rel R S (.word t) (.word t)
  | space {l s t} (h : S l s t) : Rel R S (.space l s) (.space l t)
  | part {a b} (h : R a b) : Rel R S (.part a) (.part b)
  | terminator {a b} (h : R a b) : Rel R S (.terminator a) (.terminator b)

namespace Piece

variable {R : α → β → Prop} {S : SpaceSlot → Space → Space → Prop}

theorem rel_append {ps qs : List (Piece α)} {ps' qs' : List (Piece β)}
    (h : List.Forall₂ (Rel R S) ps ps') (h' : List.Forall₂ (Rel R S) qs qs') :
    List.Forall₂ (Rel R S) (ps ++ qs) (ps' ++ qs') :=
  List.rel_append h h'

theorem rel_followed {slot : FollowedSlot} {x : Followed α} {y : Followed β}
    (h : Followed.Rel R S slot x y) :
    List.Forall₂ (Rel R S) (followed slot x) (followed slot y) :=
  .cons (.part h.element) (.cons (.space h.after) .nil)

theorem rel_separated {slot : FollowedSlot} {w : Text} {xs : List (Followed α)}
    {ys : List (Followed β)} (h : List.Forall₂ (Followed.Rel R S slot) xs ys) :
    List.Forall₂ (Rel R S) (separated slot w xs) (separated slot w ys) := by
  induction h with
  | nil => exact .nil
  | @cons x y xs ys h hs ih =>
    cases hs with
    | nil => exact rel_followed h
    | cons h' hs => exact rel_append (rel_followed h) (.cons .word ih)

theorem rel_statement {slot : FollowedSlot} {x : Followed α} {y : Followed β}
    (h : Followed.Rel R S slot x y) :
    List.Forall₂ (Rel R S) (statement slot x) (statement slot y) :=
  rel_append (rel_followed h) (.cons (.terminator h.element) .nil)

theorem rel_flatMap {γ δ : Type} {P : γ → δ → Prop} {f : γ → List (Piece α)}
    {g : δ → List (Piece β)} (hf : ∀ a b, P a b → List.Forall₂ (Rel R S) (f a) (g b))
    {xs : List γ} {ys : List δ} (h : List.Forall₂ P xs ys) :
    List.Forall₂ (Rel R S) (xs.flatMap f) (ys.flatMap g) := by
  induction h with
  | nil => exact .nil
  | cons h _ ih => exact rel_append (hf _ _ h) ih

theorem rel_ifPresent {γ δ : Type} {P : γ → δ → Prop} {f : γ → List (Piece α)}
    {g : δ → List (Piece β)} (hf : ∀ a b, P a b → List.Forall₂ (Rel R S) (f a) (g b))
    {o : Option γ} {p : Option δ} (h : Option.Rel P o p) :
    List.Forall₂ (Rel R S) (ifPresent f o) (ifPresent g p) := by
  cases h with
  | none => exact .nil
  | some h => exact hf _ _ h

theorem rel_parts {xs : List α} {ys : List β} (h : List.Forall₂ R xs ys) :
    List.Forall₂ (Rel R S) (xs.map part) (ys.map part) := by
  induction h with
  | nil => exact .nil
  | cons h _ ih => exact .cons (.part h) ih

theorem rel_listed {slot : SeriesSlot} {o w : Text} {s : Series α} {t : Series β}
    (h : Series.Rel R S slot s t) :
    List.Forall₂ (Rel R S) (listed slot o w s) (listed slot o w t) :=
  .cons (.space h.before) (.cons .word (rel_separated h.elements))

theorem rel_enclosed {slot : SeriesSlot} {o w c : Text} {s : Series α} {t : Series β}
    (h : Series.Rel R S slot s t) :
    List.Forall₂ (Rel R S) (enclosed slot o w c s) (enclosed slot o w c t) :=
  rel_append (rel_listed h) (.cons .word .nil)

theorem rel_arguments {slot : SeriesSlot} {s : Series α} {t : Series β}
    (h : Series.Rel R S slot s t) :
    List.Forall₂ (Rel R S) (arguments slot s) (arguments slot t) :=
  rel_enclosed h

theorem rel_typeArguments {s : Series α} {t : Series β}
    (h : Series.Rel R S .typeParameters s t) :
    List.Forall₂ (Rel R S) (typeArguments s) (typeArguments t) :=
  rel_enclosed h

theorem rel_introduced {slot : PrecededSlot} {w : Text} {x : Preceded α} {y : Preceded β}
    (h : Preceded.Rel R S slot x y) :
    List.Forall₂ (Rel R S) (introduced slot w x) (introduced slot w y) :=
  .cons (.space h.before) (.cons .word (.cons (.part h.element) .nil))

theorem rel_ite {c : Prop} [Decidable c] {ps qs : List (Piece α)} {ps' qs' : List (Piece β)}
    (h : List.Forall₂ (Rel R S) ps ps') (h' : List.Forall₂ (Rel R S) qs qs') :
    List.Forall₂ (Rel R S) (if c then ps else qs) (if c then ps' else qs') := by
  split
  · exact h
  · exact h'

end Piece

open Piece in
/-- Related layers print the same words in the same places. -/
theorem Shape.Rel.pieces {R : α → β → Prop} {S : SpaceSlot → Space → Space → Prop} {x : Shape α}
    {y : Shape β} (h : Rel R S x y) : List.Forall₂ (Piece.Rel R S) x.pieces y.pieces := by
  cases h
  case caseClause value statements =>
    refine rel_append (rel_append ?_ ?_)
      (.cons (.space statements.before) (.cons .word (rel_flatMap (fun _ _ => rel_statement)
        statements.elements)))
    · exact rel_ifPresent (fun _ _ h => .cons .word (.cons (.part h) .nil)) value
    · cases value with
      | none => exact .cons .word .nil
      | some _ => exact .nil
  case wildcard bound type =>
    refine .cons .word (rel_append (rel_ifPresent (fun _ _ h => ?_) bound)
      (rel_parts (rel_toList type)))
    rw [h.2]
    exact .cons (.space h.1) (.cons .word .nil)
  case' classDeclaration kind _ _ _ _ _ _ => simp only [Shape.pieces, kind]
  case' lambda parenthesized _ _ _ => simp only [Shape.pieces, parenthesized]
  all_goals try simp only [Shape.pieces]
  -- both sides are put together from the same pieces
  all_goals
    repeat' with_reducible first
      | apply List.Forall₂.nil
      | apply List.Forall₂.cons
      | apply rel_append
      | apply rel_ite
      | exact .word
      | exact .part ‹_›
      | exact .space ‹_›
      | exact rel_followed ‹_›
      | exact rel_statement ‹_›
      | exact rel_separated ‹_›
      | exact rel_introduced ‹_›
      | exact rel_enclosed ‹_›
      | exact rel_arguments ‹_›
      | exact rel_typeArguments ‹_›
      | exact rel_parts ‹_›
      | exact rel_parts (rel_toList ‹_›)
      | refine rel_flatMap (fun _ _ h => ?_) ‹_›
      | refine rel_ifPresent (fun _ _ h => ?_) ‹_›
      | exact rel_listed ‹_›

/-! ### Related trees -/

/-- Nodes of one identity are related if their spaces and layers are, and relations follow one
another. -/
structure Tree.Congruence (R : Tree → Tree → Prop) (S : SpaceSlot → Space → Space → Prop) : Prop
    where
  space : ∀ l s, S l s s
  node : ∀ {i s s' x y}, S (.leading x.kind) s s' → Shape.Rel R S x y →
    R (.node i s x) (.node i s' y)
  trans : ∀ {t u v}, R t u → R u v → R t v

namespace Tree.Congruence

variable {R : Tree → Tree → Prop} {S : SpaceSlot → Space → Space → Prop} (C : Congruence R S)

include C

theorem refl (t : Tree) : R t t := by
  induction t using Tree.induction with
  | node t ih =>
    cases t with
    | node i s x => exact C.node (C.space _ s) (Shape.rel_refl ih C.space)

theorem shape (x : Shape Tree) : Shape.Rel R S x x := Shape.rel_refl (fun t _ => C.refl t) C.space

theorem withShape {t : Tree} {x : Shape Tree} (h : Shape.Rel R S t.shape x) :
    R t (t.withShape x) := by
  cases t with
  | node i s y => exact C.node (C.space _ s) h

theorem mapLeading {f : Space → Space} (hf : ∀ l s, S l s (f s)) (t : Tree) :
    R t (t.mapLeading f) := by
  cases t with
  | node i s x => exact C.node (hf _ s) (C.shape x)

theorem followed {l : FollowedSlot} (x : Followed Tree) : Followed.Rel R S l x x :=
  Followed.rel_refl (C.refl _) C.space

theorem preceded {l : PrecededSlot} (x : Preceded Tree) : Preceded.Rel R S l x x :=
  Preceded.rel_refl (C.refl _) C.space

theorem series {l : SeriesSlot} (s : Series Tree) : Series.Rel R S l s s :=
  Series.rel_refl (fun t _ => C.refl t) C.space

theorem list (ts : List Tree) : List.Forall₂ R ts ts := List.forall₂_same.2 fun t _ => C.refl t

theorem elements {l : FollowedSlot} (xs : List (Followed Tree)) :
    List.Forall₂ (Followed.Rel R S l) xs xs :=
  List.forall₂_same.2 fun x _ => C.followed x

theorem option (o : Option Tree) : Option.Rel R o o := option_rel_refl fun t _ => C.refl t

theorem option_space {l : SpaceSlot} (o : Option Space) : Option.Rel (S l) o o :=
  option_rel_refl fun s _ => C.space l s

theorem option_preceded {l : PrecededSlot} (o : Option (Preceded Tree)) :
    Option.Rel (Preceded.Rel R S l) o o :=
  option_rel_refl fun x _ => C.preceded x

theorem option_followed {l : FollowedSlot} (o : Option (Followed Tree)) :
    Option.Rel (Followed.Rel R S l) o o :=
  option_rel_refl fun x _ => C.followed x

theorem option_series {l : SeriesSlot} (o : Option (Series Tree)) :
    Option.Rel (Series.Rel R S l) o o :=
  option_rel_refl fun s _ => C.series s

end Tree.Congruence

/-! ### Layers of one kind -/

namespace Tree

variable {t : Tree}

theorem exists_block (h : t.kind = .block) :
    ∃ afterStatic xs beforeClose, t.shape = .block afterStatic xs beforeClose := by
  obtain ⟨i, s, x⟩ := t
  cases x <;> first | exact ⟨_, _, _, rfl⟩ | cases h

theorem exists_arrayDimension (h : t.kind = .arrayDimension) :
    ∃ index, t.shape = .arrayDimension index := by
  obtain ⟨i, s, x⟩ := t
  cases x <;> first | exact ⟨_, rfl⟩ | cases h

theorem exists_controlParentheses (h : t.kind = .controlParentheses) :
    ∃ inner, t.shape = .controlParentheses inner := by
  obtain ⟨i, s, x⟩ := t
  cases x <;> first | exact ⟨_, rfl⟩ | cases h

theorem exists_forControl (h : t.kind = .forControl) :
    ∃ init condition update, t.shape = .forControl init condition update := by
  obtain ⟨i, s, x⟩ := t
  cases x <;> first | exact ⟨_, _, _, rfl⟩ | cases h

theorem exists_forEachControl (h : t.kind = .forEachControl) :
    ∃ declared iterable, t.shape = .forEachControl declared iterable := by
  obtain ⟨i, s, x⟩ := t
  cases x <;> first | exact ⟨_, _, rfl⟩ | cases h

theorem exists_labeled (h : t.kind = .labeled) :
    ∃ label statement, t.shape = .labeled label statement := by
  obtain ⟨i, s, x⟩ := t
  cases x <;> first | exact ⟨_, _, rfl⟩ | cases h

end Tree

end JavaSource
