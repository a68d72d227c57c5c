import JavaSource.Proofs.Traversal
import JavaSource.Tree.Printer

/-!
# The slots of a layer

`Shape.slots` lists the places at which `Shape.traverse` runs an action.  A traversal runs the
actions in this order and nothing else (`Shape.slots_traverse`), meets the parts of the layer in the
order of `Shape.children` (`Shape.parts_met`) and its spaces in the order in which they are printed
(`Shape.met_eq`).  A layer is related to its traversal if each of its slots is
(`Answers.traverse_of_slots`).
-/

namespace JavaSource

variable {α β : Type}

/-- A place in a layer with what it holds. -/
inductive Slot (α : Type) where
  | part (a : α)
  | space (l : SpaceSlot) (s : Space)
  | followed (l : FollowedSlot) (x : Followed α)
  | preceded (l : PrecededSlot) (x : Preceded α)
  | word (l : PrecededSlot) (s : Space)
  | series (l : SeriesSlot) (s : Series α)

open Slot in
/-- The slots of a layer, in the order of the source. -/
def Shape.slots : Shape α → List (Slot α)
  | annotationUse name args => part name :: args.toList.map (series .annotationArguments)
  | arrayAccess array dimension => [part array, part dimension]
  | arrayDimension index => [followed .arrayIndex index]
  | arrayType element beforeOpen beforeClose =>
    [part element, space (.leading .arrayDimension) beforeOpen, space .dimensionEnd beforeClose]
  | assignment target value => [part target, preceded .assignment value]
  | assignmentOperation target beforeOperator _ value =>
    [part target, word .assignmentOperator beforeOperator, part value]
  | binary left beforeOperator _ right _ =>
    [part left, word .binaryOperator beforeOperator, part right]
  | block afterStatic statements beforeClose =>
    afterStatic.toList.map (space .afterStatic) ++
      (statements.map (followed .blockStatement) ++ [space .blockEnd beforeClose])
  | breakStatement label => label.toList.map part
  | caseClause value statements => value.toList.map part ++ [series .caseStatements statements]
  | catchClause parameter body => [part parameter, part body]
  | classDeclaration d =>
    d.annotations.map part ++ (d.modifiers.map part ++ space .classKind d.beforeKind ::
      part d.name :: (d.typeParameters.toList.map (series .typeParameters) ++
      (d.superclass.toList.map (preceded .superclass) ++
      (d.interfaces.toList.map (series .interfaces) ++ [part d.body]))))
  | compilationUnit u =>
    u.package.toList.map (followed .packageDeclaration) ++
      (u.imports.map (followed .importDeclaration) ++
      (u.declarations.map part ++ [space .endOfUnit u.beforeEnd]))
  | continueStatement label => label.toList.map part
  | controlParentheses inner => [followed .parentheses inner]
  | doWhileLoop body condition => [followed .loopBody body, preceded .whileCondition condition]
  | elsePart body => [followed .elseBody body]
  | empty => []
  | enumValue name args => part name :: args.toList.map (series .constructorArguments)
  | enumValueSet values _ => values.map (followed .enumValue)
  | fieldAccess target name _ => [part target, preceded .fieldName name]
  | forControl init condition update =>
    init.map (followed .forInit) ++ followed .forCondition condition ::
      update.map (followed .forUpdate)
  | forEachControl declared iterable =>
    [followed .forEachVariable declared, followed .forEachIterable iterable]
  | forEachLoop control body => [part control, followed .forBody body]
  | forLoop control body => [part control, followed .forBody body]
  | identifier _ _ => []
  | ifStatement condition thenPart alternative =>
    part condition :: followed .thenBody thenPart :: alternative.toList.map part
  | importDeclaration beforeStatic _ name => [word .staticImport beforeStatic, part name]
  | labeled label statement => [followed .label label, part statement]
  | lambda l =>
    space .lambdaParameters l.beforeParameters :: (l.parameters.map (followed .lambdaParameter) ++
      [space .lambdaArrow l.beforeArrow, part l.body])
  | literal _ _ => []
  | methodDeclaration d =>
    d.annotations.map part ++ (d.modifiers.map part ++
      (d.typeParameters.toList.map (series .typeParameters) ++ (d.returnType.toList.map part ++
      part d.name :: series .methodParameters d.parameters ::
      (d.thrown.toList.map (series .thrownTypes) ++ d.body.toList.map part))))
  | methodInvocation i =>
    i.receiver.toList.map (followed .receiver) ++
      (i.typeArguments.toList.map (series .typeParameters) ++
      [part i.name, series .methodArguments i.arguments])
  | modifier _ => []
  | multiCatch alternatives => alternatives.map (followed .catchAlternative)
  | namedVariable name initializer _ =>
    part name :: initializer.toList.map (preceded .initializer)
  | newArray element dimensions values =>
    element.toList.map part ++ (dimensions.map part ++ values.toList.map (series .arrayValues))
  | newClass name args body _ =>
    part name :: series .constructorArguments args :: body.toList.map part
  | packageDeclaration annotations name => annotations.map part ++ [part name]
  | parameterizedType name args _ => part name :: args.toList.map (series .typeParameters)
  | parentheses inner => [followed .parentheses inner]
  | primitiveType _ => []
  | returnStatement value => value.toList.map part
  | switchStatement selector cases => [part selector, part cases]
  | ternary condition whenTrue whenFalse =>
    [part condition, preceded .ternaryTrue whenTrue, preceded .ternaryFalse whenFalse]
  | throwStatement value => [part value]
  | tryStatement body catches finallyBlock =>
    part body :: (catches.map part ++ finallyBlock.toList.map (preceded .finallyBlock))
  | typeCast type operand => [part type, part operand]
  | typeParameter annotations name bounds =>
    annotations.map part ++ part name :: bounds.toList.map (series .typeBounds)
  | unary beforeOperator operator operand =>
    if operator.isPostfix then [part operand, word .unaryOperator beforeOperator]
    else [word .unaryOperator beforeOperator, part operand]
  | variableDeclarations d =>
    d.annotations.map part ++ (d.modifiers.map part ++ (d.type.toList.map part ++
      (d.beforeDots.toList.map (space .dots) ++ d.declarators.map (followed .declarator))))
  | whileLoop condition body => [part condition, followed .loopBody body]
  | wildcard bound type =>
    bound.toList.map (fun b => word .wildcardBound b.1) ++ type.toList.map part

/-! ### The slots of a kind of layer -/

namespace NodeKind

/-- The spaces that stand directly in a layer of this kind. -/
def spaceSlots : NodeKind → List SpaceSlot
  | .arrayType => [.leading .arrayDimension, .dimensionEnd]
  | .block => [.afterStatic, .blockEnd]
  | .classDeclaration => [.classKind]
  | .compilationUnit => [.endOfUnit]
  | .lambda => [.lambdaParameters, .lambdaArrow]
  | .variableDeclarations => [.dots]
  | _ => []

/-- The elements and words behind a space that stand directly in a layer of this kind. -/
def precededSlots : NodeKind → List PrecededSlot
  | .assignment => [.assignment]
  | .assignmentOperation => [.assignmentOperator]
  | .binary => [.binaryOperator]
  | .classDeclaration => [.superclass]
  | .doWhileLoop => [.whileCondition]
  | .fieldAccess => [.fieldName]
  | .importDeclaration => [.staticImport]
  | .namedVariable => [.initializer]
  | .ternary => [.ternaryTrue, .ternaryFalse]
  | .tryStatement => [.finallyBlock]
  | .unary => [.unaryOperator]
  | .wildcard => [.wildcardBound]
  | _ => []

/-- The lists that stand directly in a layer of this kind. -/
def seriesSlots : NodeKind → List SeriesSlot
  | .annotationUse => [.annotationArguments]
  | .caseClause => [.caseStatements]
  | .classDeclaration => [.typeParameters, .interfaces]
  | .enumValue => [.constructorArguments]
  | .methodDeclaration => [.typeParameters, .methodParameters, .thrownTypes]
  | .methodInvocation => [.typeParameters, .methodArguments]
  | .newArray => [.arrayValues]
  | .newClass => [.constructorArguments]
  | .parameterizedType => [.typeParameters]
  | .typeParameter => [.typeBounds]
  | _ => []

end NodeKind

/-- A layer of this kind has such slots. -/
def Slot.Fits (k : NodeKind) : Slot α → Prop
  | part _ => True
  | space l _ => l ∈ k.spaceSlots
  | followed l _ => l ∈ k.followedSlots
  | preceded l _ | word l _ => l ∈ k.precededSlots
  | series l _ => l ∈ k.seriesSlots

theorem Shape.fits_slots (x : Shape α) : ∀ p ∈ x.slots, p.Fits x.kind := by
  cases x
  case unary s o a =>
    rw [slots]
    split <;> simp [Slot.Fits, Shape.kind, NodeKind.precededSlots]
  all_goals
    simp only [slots, List.forall_mem_append, List.forall_mem_cons, List.forall_mem_map,
      Option.mem_toList, Slot.Fits]
    simp [Shape.kind, NodeKind.spaceSlots, NodeKind.precededSlots, NodeKind.seriesSlots,
      NodeKind.followedSlots]

/-! ### The order of a traversal -/

section Traverse

variable {m : Type → Type} [Monad m]

/-- The action at a slot. -/
def SlotActions.slot (act : SlotActions m α β) : Slot α → m (Slot β)
  | .part a => .part <$> act.part a
  | .space l s => .space l <$> act.space l s
  | .followed l x => .followed l <$> act.followed l x
  | .preceded l x => .preceded l <$> act.preceded l x
  | .word l s => .word l <$> act.word l s
  | .series l s => .series l <$> act.series l s

variable [LawfulMonad m]

theorem mapM_toList {γ δ : Type} (f : γ → m δ) (o : Option γ) :
    o.toList.mapM f = Option.toList <$> o.mapM f := by
  cases o <;> simp

namespace SlotActions

variable (act : SlotActions m α β)

theorem mapM_slot {γ δ : Type} {f : γ → m δ} {i : γ → Slot α} {j : δ → Slot β}
    (h : ∀ a, act.slot (i a) = j <$> f a) (xs : List γ) :
    (xs.map i).mapM act.slot = List.map j <$> xs.mapM f := by
  induction xs with
  | nil => simp
  | cons x xs ih => rw [List.map_cons, List.mapM_cons, ih, h]; simp

theorem mapM_part (as : List α) :
    (as.map .part).mapM act.slot = List.map .part <$> as.mapM act.part :=
  act.mapM_slot (fun _ => rfl) as

theorem mapM_space (l : SpaceSlot) (ss : List Space) :
    (ss.map (.space l)).mapM act.slot = List.map (.space l) <$> ss.mapM (act.space l) :=
  act.mapM_slot (fun _ => rfl) ss

theorem mapM_followed (l : FollowedSlot) (xs : List (Followed α)) :
    (xs.map (.followed l)).mapM act.slot = List.map (.followed l) <$> xs.mapM (act.followed l) :=
  act.mapM_slot (fun _ => rfl) xs

theorem mapM_preceded (l : PrecededSlot) (xs : List (Preceded α)) :
    (xs.map (.preceded l)).mapM act.slot = List.map (.preceded l) <$> xs.mapM (act.preceded l) :=
  act.mapM_slot (fun _ => rfl) xs

theorem mapM_series (l : SeriesSlot) (ss : List (Series α)) :
    (ss.map (.series l)).mapM act.slot = List.map (.series l) <$> ss.mapM (act.series l) :=
  act.mapM_slot (fun _ => rfl) ss

theorem mapM_bound (o : Option (Space × WildcardBound)) :
    (o.toList.map fun b => Slot.word .wildcardBound b.1).mapM act.slot =
      (fun o => o.toList.map fun b => Slot.word .wildcardBound b.1) <$>
        o.mapM fun b => return (← act.word .wildcardBound b.1, b.2) := by
  cases o <;> simp [slot]

end SlotActions

/-- A traversal runs the actions at the slots of a layer in their order, and its answer is a layer of
the same kind that holds their answers. -/
theorem Shape.slots_traverse (act : SlotActions m α β) (x : Shape α) :
    (fun y => (y.kind, y.slots)) <$> x.traverse act = (x.kind, ·) <$> x.slots.mapM act.slot := by
  cases x
  case unary s o a =>
    cases h : o.isPostfix <;> simp [traverse, slots, kind, SlotActions.slot, h]
  all_goals
    dsimp only [traverse, slots, SlotActions.slot]
    simp only [mapM_toList, act.mapM_part, act.mapM_space, act.mapM_followed, act.mapM_preceded,
      act.mapM_series, act.mapM_bound, List.mapM_nil, List.mapM_cons, List.mapM_append,
      bind_pure_comp, bind_map_left, map_bind, map_pure, Functor.map_map, SlotActions.slot]
    rfl

end Traverse

/-! ### What is met and what is printed -/

/-- The spaces and parts at a slot, in the order in which a walk meets them. -/
def Slot.pieces : Slot α → List (Piece α)
  | part a => [.part a]
  | space l s => [.space l s]
  | followed l x => Piece.followed l x
  | preceded l x => [.space (.before l) x.before, .part x.element]
  | word l s => [.space (.before l) s]
  | series l s => .space (.opening l) s.before :: s.elements.flatMap (Piece.followed l.element)

theorem Slot.pieces_part (a : α) : (part a).pieces = [.part a] := rfl

theorem Slot.pieces_space (l : SpaceSlot) (s : Space) :
    (space l s : Slot α).pieces = [.space l s] := rfl

theorem Slot.pieces_word (l : PrecededSlot) (s : Space) :
    (word l s : Slot α).pieces = [.space (.before l) s] := rfl

/-- The spaces and parts of a layer, in the order in which a walk meets them. -/
def Shape.met (x : Shape α) : List (Piece α) := x.slots.flatMap Slot.pieces

/-- The space that a walk meets and that is not printed: that before the missing `static` of an
import. -/
def Shape.unprinted : Shape α → List (SpaceSlot × Space)
  | .importDeclaration beforeStatic false _ => [(.before .staticImport, beforeStatic)]
  | _ => []

namespace Piece

/-- A piece that is visited: a space or a part. -/
def isMet : Piece α → Bool
  | part _ | space _ _ => true
  | word _ | terminator _ => false

/-- The spaces and parts among the pieces. -/
def mets (ps : List (Piece α)) : List (Piece α) := ps.filter isMet

@[simp] theorem mets_nil : mets ([] : List (Piece α)) = [] := rfl

@[simp] theorem mets_word (t : Text) (ps : List (Piece α)) : mets (word t :: ps) = mets ps := rfl

@[simp] theorem mets_terminator (a : α) (ps : List (Piece α)) :
    mets (terminator a :: ps) = mets ps := rfl

@[simp] theorem mets_space (l : SpaceSlot) (s : Space) (ps : List (Piece α)) :
    mets (space l s :: ps) = space l s :: mets ps := rfl

@[simp] theorem mets_part (a : α) (ps : List (Piece α)) :
    mets (part a :: ps) = part a :: mets ps := rfl

@[simp] theorem mets_append (ps qs : List (Piece α)) : mets (ps ++ qs) = mets ps ++ mets qs :=
  List.filter_append ..

@[simp] theorem mets_map_part (as : List α) : mets (as.map part) = as.map part := by
  induction as with
  | nil => rfl
  | cons a as ih => simp [ih]

@[simp] theorem mets_followed (l : FollowedSlot) (x : Followed α) :
    mets (followed l x) = followed l x := rfl

@[simp] theorem mets_separated (l : FollowedSlot) (w : Text) (xs : List (Followed α)) :
    mets (separated l w xs) = xs.flatMap (followed l) := by
  fun_induction separated l w xs with
  | case1 => rfl
  | case2 x => rfl
  | case3 x y rest ih => simp [ih]

@[simp] theorem mets_statement (l : FollowedSlot) (x : Followed α) :
    mets (statement l x) = followed l x := rfl

@[simp] theorem mets_introduced (l : PrecededSlot) (w : Text) (x : Preceded α) :
    mets (introduced l w x) = (Slot.preceded l x).pieces := rfl

@[simp] theorem mets_listed (l : SeriesSlot) (o w : Text) (s : Series α) :
    mets (listed l o w s) = (Slot.series l s).pieces := by
  simp [listed, Slot.pieces]

@[simp] theorem mets_enclosed (l : SeriesSlot) (o w c : Text) (s : Series α) :
    mets (enclosed l o w c s) = (Slot.series l s).pieces := by
  simp [enclosed]

@[simp] theorem mets_arguments (l : SeriesSlot) (s : Series α) :
    mets (arguments l s) = (Slot.series l s).pieces := mets_enclosed ..

@[simp] theorem mets_typeArguments (s : Series α) :
    mets (typeArguments s) = (Slot.series .typeParameters s).pieces := mets_enclosed ..

@[simp] theorem mets_flatMap {γ : Type} (f : γ → List (Piece α)) (xs : List γ) :
    mets (xs.flatMap f) = xs.flatMap fun x => mets (f x) := by
  induction xs with
  | nil => rfl
  | cons x xs ih => simp [ih]

@[simp] theorem mets_ifPresent {γ : Type} (f : γ → List (Piece α)) (o : Option γ) :
    mets (ifPresent f o) = o.toList.flatMap fun x => mets (f x) := by
  cases o <;> simp [ifPresent]

@[simp] theorem mets_ite (c : Prop) [Decidable c] (ps qs : List (Piece α)) :
    mets (if c then ps else qs) = if c then mets ps else mets qs := by
  split <;> rfl

end Piece

open Piece in
/-- A walk meets the spaces and parts that are printed, in their order, and the space that is not
printed before them. -/
theorem Shape.met_eq (x : Shape α) :
    x.met = x.unprinted.map (fun u => space u.1 u.2) ++ mets x.pieces := by
  cases x
  case unary s o a =>
    cases h : o.isPostfix <;> simp [met, slots, Slot.pieces, unprinted, pieces, h]
  case importDeclaration s isStatic a =>
    cases isStatic <;> simp [met, slots, Slot.pieces, unprinted, pieces]
  case caseClause value s =>
    cases value <;> simp [met, slots, Slot.pieces, unprinted, pieces, SeriesSlot.element]
  all_goals
    simp only [met, slots, unprinted, pieces, List.map_nil, List.flatMap_append, List.flatMap_cons,
      List.flatMap_nil, List.flatMap_map, Slot.pieces_part, Slot.pieces_space, Slot.pieces_word,
      ← List.map_eq_flatMap, mets_nil, mets_word,
      mets_space, mets_part, mets_append, mets_map_part, mets_followed, mets_separated,
      mets_statement, mets_introduced, mets_listed, mets_enclosed, mets_arguments,
      mets_typeArguments, mets_flatMap, mets_ifPresent, mets_ite, ite_self, List.append_nil,
      List.nil_append, List.append_assoc, List.cons_append] <;> rfl

/-! ### The parts of a layer -/

theorem Piece.parts_flatMap {γ : Type} (f : γ → List (Piece α)) (xs : List γ) :
    parts (xs.flatMap f) = xs.flatMap fun x => parts (f x) := by
  induction xs with
  | nil => rfl
  | cons x xs ih => simp [ih]

theorem Piece.parts_mets (ps : List (Piece α)) : parts (mets ps) = parts ps := by
  induction ps with
  | nil => rfl
  | cons p ps ih => cases p <;> simp [ih]

theorem Shape.parts_met (x : Shape α) : Piece.parts x.met = x.children := by
  have hunprinted : Piece.parts (x.unprinted.map fun u => (.space u.1 u.2 : Piece α)) = [] := by
    unfold unprinted
    split <;> rfl
  rw [met_eq, Piece.parts_append, Piece.parts_mets, hunprinted, List.nil_append, parts_pieces]

/-- The parts at a slot. -/
def Slot.parts (x : Slot α) : List α := Piece.parts x.pieces

/-- The parts of a layer are those at its slots. -/
theorem Shape.children_eq_slots (x : Shape α) : x.children = x.slots.flatMap Slot.parts := by
  rw [← parts_met, met, Piece.parts_flatMap]
  rfl

theorem Slot.parts_series (l : SeriesSlot) (s : Series α) :
    (series l s).parts = items s.elements := by
  rw [parts, pieces, Piece.parts_space, Piece.parts_flatMap]
  exact List.map_eq_flatMap.symm

/-! ### Answers at the slots -/

namespace Answers

variable {m : Type → Type} [Monad m] [LawfulMonad m] (A : Answers m)

/-- The answer at the slot is related to what it holds. -/
def AtSlot (R : α → β → Prop) (S : SpaceSlot → Space → Space → Prop) (act : SlotActions m α β) :
    Slot α → Prop
  | .part a => A.Hold (act.part a) (R a)
  | .space l s => A.Hold (act.space l s) (S l s)
  | .followed l x => A.Hold (act.followed l x) (Followed.Rel R S l x)
  | .preceded l x => A.Hold (act.preceded l x) (Preceded.Rel R S l x)
  | .word l s => A.Hold (act.word l s) (S (.before l) s)
  | .series l s => A.Hold (act.series l s) (Series.Rel R S l s)

variable {A}

/-- A layer is related to its traversal if each of its slots is. -/
theorem traverse_of_slots {R : α → β → Prop} {S : SpaceSlot → Space → Space → Prop}
    {act : SlotActions m α β} {x : Shape α} (h : ∀ p ∈ x.slots, A.AtSlot R S act p) :
    A.Hold (x.traverse act) (Shape.Rel R S x) := by
  have hoption {γ δ : Type} {P : γ → δ → Prop} {f : γ → m δ} {o : Option γ}
      (ho : ∀ a, o = some a → A.Hold (f a) (P a)) : A.Hold (o.mapM f) (Option.Rel P o) :=
    A.option_mapM ho
  have hbound {o : Option (Space × WildcardBound)}
      (ho : ∀ b, o = some b → A.Hold (act.word .wildcardBound b.1) (S (.before .wildcardBound) b.1)) :
      A.Hold (o.mapM fun b => return (← act.word .wildcardBound b.1, b.2))
        (Option.Rel (fun c d => S (.before .wildcardBound) c.1 d.1 ∧ c.2 = d.2) o) :=
    hoption fun b hb => A.bind (ho b hb) fun _ hs => A.pure ⟨hs, rfl⟩
  cases x <;> simp only [Shape.traverse, Shape.slots] at h ⊢
  case' unary =>
    split at h <;> rename_i hbehind <;>
      simp only [hbehind, if_true, Bool.false_eq_true, if_false]
  -- each slot is answered in turn, and the new layer is made of the answers
  all_goals
    simp only [List.forall_mem_append, List.forall_mem_cons, List.forall_mem_map, Option.mem_toList,
      AtSlot] at h
    revert h
    try simp only [and_imp]
    intros
    repeat' with_reducible first
      | refine A.bind ‹_› fun _ _ => ?_
      | refine A.bind (A.mapM ‹_›) fun _ _ => ?_
      | refine A.bind (hoption ‹_›) fun _ _ => ?_
      | refine A.bind (hbound ‹_›) fun _ _ => ?_
      | exact A.pure (by constructor <;> first | assumption | rfl)

end Answers

end JavaSource
