import JavaSource.Tree.Children
import JavaSource.Tree.Slot
import JavaSource.Text.Outdent

/-!
# Printing

`Shape.pieces` lists what a layer prints: its words, its spaces and its parts, in the order of the
source. `Tree.toText` writes a tree out. A statement does not print its own semicolon: the list or
the slot that holds the statement does, where `Tree.needsSemicolon` says so.
-/

namespace JavaSource

/-- Something that a layer prints. -/
inductive Piece (α : Type) where
  /-- A fixed word, name or operator. -/
  | word (t : Text)
  | space (slot : SpaceSlot) (s : Space)
  | part (a : α)
  /-- The semicolon after a statement, if it needs one. -/
  | terminator (statement : α)

namespace Piece

variable {α : Type}

/-- An element and the space after it. -/
def followed (slot : FollowedSlot) (x : Followed α) : List (Piece α) :=
  [part x.element, space (.after slot) x.after]

/-- Elements with a separator between them. -/
def separated (slot : FollowedSlot) (separator : Text) : List (Followed α) → List (Piece α)
  | [] => []
  | [x] => followed slot x
  | x :: y :: rest => followed slot x ++ word separator :: separated slot separator (y :: rest)

/-- Statements, each with its semicolon. -/
def statement (slot : FollowedSlot) (x : Followed α) : List (Piece α) :=
  followed slot x ++ [terminator x.element]

/-- A list after the word that opens it. -/
def listed (slot : SeriesSlot) (opening separator : Text) (s : Series α) : List (Piece α) :=
  space (.opening slot) s.before :: word opening :: separated slot.element separator s.elements

/-- A list between two delimiters. -/
def enclosed (slot : SeriesSlot) (opening separator closing : Text) (s : Series α) :
    List (Piece α) :=
  listed slot opening separator s ++ [word closing]

/-- A list between parentheses. -/
def arguments (slot : SeriesSlot) (s : Series α) : List (Piece α) :=
  enclosed slot ['('] [','] [')'] s

/-- A list between angle brackets. -/
def typeArguments (s : Series α) : List (Piece α) :=
  enclosed .typeParameters ['<'] [','] ['>'] s

/-- A word with a space before it, then what the word introduces. -/
def introduced (slot : PrecededSlot) (w : Text) (x : Preceded α) : List (Piece α) :=
  [space (.before slot) x.before, word w, part x.element]

/-- What an optional element prints. -/
def ifPresent {β : Type} (f : β → List (Piece α)) : Option β → List (Piece α)
  | none => []
  | some b => f b

/-- The parts among the pieces. -/
def parts (ps : List (Piece α)) : List α :=
  ps.filterMap fun
    | part a => some a
    | _ => none

end Piece

namespace Shape

variable {α : Type}

open Piece in
/-- What a layer prints after the space before its first token. -/
def pieces : Shape α → List (Piece α)
  | annotationUse name args => word ['@'] :: part name :: ifPresent (arguments .annotationArguments) args
  | arrayAccess array dimension => [part array, part dimension]
  | arrayDimension index => word ['['] :: followed .arrayIndex index ++ [word [']']]
  | arrayType element beforeOpen beforeClose =>
    [part element, space (.leading .arrayDimension) beforeOpen, word ['['],
      space .dimensionEnd beforeClose, word [']']]
  | assignment target value => part target :: introduced .assignment ['='] value
  | assignmentOperation target beforeOperator operator value =>
    [part target, space (.before .assignmentOperator) beforeOperator, word operator.keyword,
      part value]
  | binary left beforeOperator operator right _ =>
    [part left, space (.before .binaryOperator) beforeOperator, word operator.keyword, part right]
  | block afterStatic statements beforeClose =>
    ifPresent (fun s => [word "static".toList, space .afterStatic s]) afterStatic ++
      word ['{'] :: statements.flatMap (statement .blockStatement) ++
      [space .blockEnd beforeClose, word ['}']]
  | breakStatement label => word "break".toList :: label.toList.map part
  | caseClause value statements =>
    ifPresent (fun v => [word "case".toList, part v]) value ++
      (if value.isNone then [word "default".toList] else []) ++
      space (.opening .caseStatements) statements.before :: word [':'] ::
      statements.elements.flatMap (statement .caseStatement)
  | catchClause parameter body => [word "catch".toList, part parameter, part body]
  | classDeclaration d =>
    d.annotations.map part ++ d.modifiers.map part ++
      space .classKind d.beforeKind :: word d.kind.keyword :: part d.name ::
      ifPresent typeArguments d.typeParameters ++
      ifPresent (introduced .superclass "extends".toList) d.superclass ++
      ifPresent
        (listed .interfaces
          (if d.kind = .interface then "extends".toList else "implements".toList) [','])
        d.interfaces ++
      [part d.body]
  | compilationUnit u =>
    ifPresent (fun p => followed .packageDeclaration p ++ [word [';']]) u.package ++
      u.imports.flatMap (fun i => followed .importDeclaration i ++ [word [';']]) ++
      u.declarations.map part ++ [space .endOfUnit u.beforeEnd]
  | continueStatement label => word "continue".toList :: label.toList.map part
  | controlParentheses inner => word ['('] :: followed .parentheses inner ++ [word [')']]
  | doWhileLoop body condition =>
    word "do".toList :: statement .loopBody body ++
      introduced .whileCondition "while".toList condition
  | elsePart body => word "else".toList :: statement .elseBody body
  | empty => []
  | enumValue name args => part name :: ifPresent (arguments .constructorArguments) args
  | enumValueSet values semicolon =>
    separated .enumValue [','] values ++ (if semicolon then [word [';']] else [])
  | fieldAccess target name _ => part target :: introduced .fieldName ['.'] name
  | forControl init condition update =>
    word ['('] :: separated .forInit [','] init ++ word [';'] ::
      followed .forCondition condition ++ word [';'] :: separated .forUpdate [','] update ++
      [word [')']]
  | forEachControl declared iterable =>
    word ['('] :: followed .forEachVariable declared ++ word [':'] ::
      followed .forEachIterable iterable ++ [word [')']]
  | forEachLoop control body => word "for".toList :: part control :: statement .forBody body
  | forLoop control body => word "for".toList :: part control :: statement .forBody body
  | identifier name _ => [word name]
  | ifStatement condition thenPart alternative =>
    word "if".toList :: part condition :: statement .thenBody thenPart ++
      alternative.toList.map part
  | importDeclaration beforeStatic isStatic name =>
    word "import".toList ::
      (if isStatic then [space (.before .staticImport) beforeStatic, word "static".toList]
        else []) ++
      [part name]
  | labeled label statement => followed .label label ++ [word [':'], part statement]
  | lambda l =>
    space .lambdaParameters l.beforeParameters ::
      (if l.parenthesized then [word ['(']] else []) ++
      separated .lambdaParameter [','] l.parameters ++
      (if l.parenthesized then [word [')']] else []) ++
      [space .lambdaArrow l.beforeArrow, word ['-', '>'], part l.body]
  | literal source _ => [word source]
  | methodDeclaration d =>
    d.annotations.map part ++ d.modifiers.map part ++
      ifPresent typeArguments d.typeParameters ++ d.returnType.toList.map part ++
      part d.name :: arguments .methodParameters d.parameters ++
      ifPresent (listed .thrownTypes "throws".toList [',']) d.thrown ++ d.body.toList.map part
  | methodInvocation i =>
    ifPresent (fun r => followed .receiver r ++ [word ['.']]) i.receiver ++
      ifPresent typeArguments i.typeArguments ++
      part i.name :: arguments .methodArguments i.arguments
  | modifier w => [word w.keyword]
  | multiCatch alternatives => separated .catchAlternative ['|'] alternatives
  | namedVariable name initializer _ =>
    part name :: ifPresent (introduced .initializer ['=']) initializer
  | newArray element dimensions values =>
    ifPresent (fun e => [word "new".toList, part e]) element ++ dimensions.map part ++
      ifPresent (enclosed .arrayValues ['{'] [','] ['}']) values
  | newClass name args body _ =>
    word "new".toList :: part name :: arguments .constructorArguments args ++
      body.toList.map part
  | packageDeclaration annotations name =>
    annotations.map part ++ [word "package".toList, part name]
  | parameterizedType name args _ => part name :: ifPresent typeArguments args
  | parentheses inner => word ['('] :: followed .parentheses inner ++ [word [')']]
  | primitiveType primitive => [word primitive.keyword]
  | returnStatement value => word "return".toList :: value.toList.map part
  | switchStatement selector cases => [word "switch".toList, part selector, part cases]
  | ternary condition whenTrue whenFalse =>
    part condition :: introduced .ternaryTrue ['?'] whenTrue ++
      introduced .ternaryFalse [':'] whenFalse
  | throwStatement value => [word "throw".toList, part value]
  | tryStatement body catches finallyBlock =>
    word "try".toList :: part body :: catches.map part ++
      ifPresent (introduced .finallyBlock "finally".toList) finallyBlock
  | typeCast type operand => [part type, part operand]
  | typeParameter annotations name bounds =>
    annotations.map part ++ part name :: ifPresent (listed .typeBounds "extends".toList ['&']) bounds
  | unary beforeOperator operator operand =>
    let written := [space (.before .unaryOperator) beforeOperator, word operator.keyword]
    if operator.isPostfix then part operand :: written else written ++ [part operand]
  | variableDeclarations d =>
    d.annotations.map part ++ d.modifiers.map part ++ d.type.toList.map part ++
      ifPresent (fun s => [space .dots s, word "...".toList]) d.beforeDots ++
      separated .declarator [','] d.declarators
  | whileLoop condition body => word "while".toList :: part condition :: statement .loopBody body
  | wildcard bound type =>
    word ['?'] ::
      ifPresent (fun b => [space (.before .wildcardBound) b.1, word b.2.keyword]) bound ++
      type.toList.map part

end Shape

/-- A statement of this kind is followed by a semicolon. A method declaration is, when it has no
body; a labeled statement is, when the statement it labels is. -/
def Tree.needsSemicolon : Tree → Bool
  | .node _ _ shape =>
    match shape with
    | .assignment .. | .assignmentOperation .. | .breakStatement .. | .continueStatement ..
    | .doWhileLoop .. | .empty | .methodInvocation .. | .newClass .. | .returnStatement ..
    | .throwStatement .. | .unary .. | .variableDeclarations .. => true
    | .methodDeclaration d => d.body.isNone
    | .labeled _ statement => statement.needsSemicolon
    | _ => false

namespace Piece

variable {α : Type}

@[simp] theorem parts_nil : parts ([] : List (Piece α)) = [] := rfl

@[simp] theorem parts_word (t : Text) (ps : List (Piece α)) : parts (word t :: ps) = parts ps := rfl

@[simp] theorem parts_space (l : SpaceSlot) (s : Space) (ps : List (Piece α)) :
    parts (space l s :: ps) = parts ps := rfl

@[simp] theorem parts_part (a : α) (ps : List (Piece α)) : parts (part a :: ps) = a :: parts ps :=
  rfl

@[simp] theorem parts_terminator (a : α) (ps : List (Piece α)) :
    parts (terminator a :: ps) = parts ps := rfl

@[simp] theorem parts_append (ps qs : List (Piece α)) : parts (ps ++ qs) = parts ps ++ parts qs :=
  List.filterMap_append ..

@[simp] theorem parts_map_part (l : List α) : parts (l.map part) = l := by
  induction l with
  | nil => rfl
  | cons a l ih => simp [ih]

@[simp] theorem parts_followed (slot : FollowedSlot) (x : Followed α) :
    parts (followed slot x) = [x.element] := rfl

@[simp] theorem parts_separated (slot : FollowedSlot) (separator : Text)
    (xs : List (Followed α)) : parts (separated slot separator xs) = items xs := by
  fun_induction separated slot separator xs with
  | case1 => rfl
  | case2 x => rfl
  | case3 x y rest ih => simp [ih, items]

@[simp] theorem parts_flatMap_statement (slot : FollowedSlot) (xs : List (Followed α)) :
    parts (xs.flatMap (statement slot)) = items xs := by
  induction xs with
  | nil => rfl
  | cons x xs ih => simp [ih, statement, items]

@[simp] theorem parts_flatMap_terminated (slot : FollowedSlot) (t : Text)
    (xs : List (Followed α)) : parts (xs.flatMap fun x => followed slot x ++ [word t]) = items xs := by
  induction xs with
  | nil => rfl
  | cons x xs ih => simp [ih, items]

@[simp] theorem parts_statement (slot : FollowedSlot) (x : Followed α) :
    parts (statement slot x) = [x.element] := rfl

@[simp] theorem parts_introduced (slot : PrecededSlot) (w : Text) (x : Preceded α) :
    parts (introduced slot w x) = [x.element] := rfl

@[simp] theorem parts_listed (slot : SeriesSlot) (o s : Text) (l : Series α) :
    parts (listed slot o s l) = items l.elements := by
  simp [listed]

@[simp] theorem parts_enclosed (slot : SeriesSlot) (o s c : Text) (l : Series α) :
    parts (enclosed slot o s c l) = items l.elements := by
  simp [enclosed]

@[simp] theorem parts_arguments (slot : SeriesSlot) (l : Series α) :
    parts (arguments slot l) = items l.elements := parts_enclosed ..

@[simp] theorem parts_typeArguments (l : Series α) :
    parts (typeArguments l) = items l.elements := parts_enclosed ..

/-- The parts of what an optional element prints. -/
theorem parts_ifPresent {β : Type} (f : β → List (Piece α)) (o : Option β) :
    parts (ifPresent f o) = o.elim [] fun b => parts (f b) := by
  cases o <;> rfl

theorem itemsOf_eq_elim (o : Option (Series α)) :
    Series.itemsOf o = o.elim [] fun s => items s.elements := by
  cases o <;> rfl

@[simp] theorem elim_singleton {β : Type} (o : Option β) (f : β → α) :
    (o.elim [] fun b => [f b]) = (o.map f).toList := by
  cases o <;> rfl

theorem elim_nil {β : Type} (o : Option β) : (o.elim [] fun _ => []) = ([] : List α) := by
  cases o <;> rfl

@[simp] theorem parts_ite (c : Prop) [Decidable c] (ps qs : List (Piece α)) :
    parts (if c then ps else qs) = if c then parts ps else parts qs := by
  split <;> rfl

end Piece

open Piece in
/-- What a layer prints holds its parts, once each and in order. -/
theorem Shape.parts_pieces {α : Type} (x : Shape α) : parts x.pieces = x.children := by
  cases x <;> simp only [pieces, children, parts_nil, parts_word, parts_space, parts_part,
    parts_append, parts_map_part, parts_followed, parts_separated, parts_statement,
    parts_flatMap_statement, parts_flatMap_terminated, parts_introduced, parts_listed,
    parts_enclosed, parts_arguments, parts_typeArguments, parts_ifPresent, parts_ite,
    itemsOf_eq_elim, elim_nil, elim_singleton, ite_self, List.append_nil, List.nil_append,
    List.cons_append, List.append_assoc, Option.map_id']

theorem Piece.mem_parts {α : Type} {a : α} {ps : List (Piece α)} (h : part a ∈ ps) :
    a ∈ parts ps := List.mem_filterMap.2 ⟨_, h, rfl⟩

namespace Tree

/-- Writes the tree out, from the space before its first token on. -/
def toText (t : Tree) : Text :=
  t.leading.toText ++ t.shape.pieces.attach.flatMap fun p =>
    match _h : p.1 with
    | .word w => w
    | .space _ s => s.toText
    | .part c => c.toText
    | .terminator c => if c.needsSemicolon then [';'] else []
termination_by sizeOf t
decreasing_by
  apply sizeOf_lt_of_mem_children
  rw [children, ← Shape.parts_pieces]
  exact Piece.mem_parts (_h ▸ p.2)

/-- What a piece prints. -/
def pieceText : Piece Tree → Text
  | .word w => w
  | .space _ s => s.toText
  | .part c => c.toText
  | .terminator c => if c.needsSemicolon then [';'] else []

theorem toText_eq (t : Tree) :
    t.toText = t.leading.toText ++ t.shape.pieces.flatMap pieceText := by
  rw [toText]
  congr 1
  conv => rhs; rw [← List.attach_map_subtype_val t.shape.pieces, List.flatMap_map]
  congr 1
  funext ⟨p, _⟩
  cases p <;> rfl

/-- The text without the blank lines around it and the indent common to its lines. -/
def toTrimmedText (t : Tree) : Text := Text.outdent t.toText

end Tree

end JavaSource
