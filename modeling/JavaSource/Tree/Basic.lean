import JavaSource.Tree.Padding
import JavaSource.Tree.Word
import JavaSource.Types.Handle

/-!
# The lossless syntax tree

A `Tree` node has an identity, the space before its first token and a `Shape`: its own words and
spaces, and its parts in the order of the source. `Shape α` is one layer of the tree, with parts of
any type `α`, so that a function on one layer says nothing about how the tree is descended.
-/

namespace JavaSource

/-- The identity of a node, which it keeps through every edit. -/
abbrev NodeId := Nat

/-- A source file. -/
structure CompilationUnit (α : Type) where
  /-- With the space before its semicolon. -/
  package : Option (Followed α)
  /-- Each with the space before its semicolon. -/
  imports : List (Followed α)
  declarations : List α
  /-- The space after the last declaration. -/
  beforeEnd : Space

/-- A class, interface, enumeration or annotation type. -/
structure ClassDeclaration (α : Type) where
  annotations : List α
  modifiers : List α
  /-- The space before the keyword of the declaration. -/
  beforeKind : Space
  kind : ClassKind
  name : α
  typeParameters : Option (Series α)
  superclass : Option (Preceded α)
  /-- The implemented types, or those that an interface extends. -/
  interfaces : Option (Series α)
  body : α
  type : Option TypeHandle

/-- A method or constructor. -/
structure MethodDeclaration (α : Type) where
  annotations : List α
  modifiers : List α
  typeParameters : Option (Series α)
  /-- Absent in a constructor. -/
  returnType : Option α
  name : α
  parameters : Series α
  thrown : Option (Series α)
  /-- Absent in an abstract method. -/
  body : Option α
  type : Option TypeHandle

/-- Fields, local variables or one parameter. -/
structure VariableDeclarations (α : Type) where
  annotations : List α
  modifiers : List α
  type : Option α
  /-- The space before the three dots of a parameter of variable arity. -/
  beforeDots : Option Space
  declarators : List (Followed α)

/-- A method call. -/
structure MethodInvocation (α : Type) where
  /-- The receiver with the space before the dot. -/
  receiver : Option (Followed α)
  typeArguments : Option (Series α)
  name : α
  arguments : Series α
  type : Option TypeHandle

/-- A lambda expression. -/
structure Lambda (α : Type) where
  beforeParameters : Space
  parenthesized : Bool
  parameters : List (Followed α)
  beforeArrow : Space
  body : α

/-- One layer of the tree. -/
inductive Shape (α : Type) where
  | annotationUse (name : α) (arguments : Option (Series α))
  | arrayAccess (array dimension : α)
  /-- An index in brackets. -/
  | arrayDimension (index : Followed α)
  /-- A type, then the space before each of its two brackets. -/
  | arrayType (element : α) (beforeOpen beforeClose : Space)
  | assignment (target : α) (value : Preceded α)
  | assignmentOperation (target : α) (beforeOperator : Space) (operator : AssignmentOperator)
      (value : α)
  | binary (left : α) (beforeOperator : Space) (operator : BinaryOperator) (right : α)
      (type : Option TypeHandle)
  /-- Statements in braces; a static initializer has the space after its keyword. -/
  | block (afterStatic : Option Space) (statements : List (Followed α)) (beforeClose : Space)
  | breakStatement (label : Option α)
  /-- A `case`, or `default` when there is no value. -/
  | caseClause (value : Option α) (statements : Series α)
  | catchClause (parameter body : α)
  | classDeclaration (d : ClassDeclaration α)
  | compilationUnit (u : CompilationUnit α)
  | continueStatement (label : Option α)
  /-- Parentheses that belong to a statement or a cast. -/
  | controlParentheses (inner : Followed α)
  | doWhileLoop (body : Followed α) (condition : Preceded α)
  | elsePart (body : Followed α)
  /-- Nothing, where a list or a statement needs a node. -/
  | empty
  | enumValue (name : α) (arguments : Option (Series α))
  | enumValueSet (values : List (Followed α)) (semicolon : Bool)
  | fieldAccess (target : α) (name : Preceded α) (type : Option TypeHandle)
  | forControl (init : List (Followed α)) (condition : Followed α) (update : List (Followed α))
  | forEachControl (declared iterable : Followed α)
  | forEachLoop (control : α) (body : Followed α)
  | forLoop (control : α) (body : Followed α)
  | identifier (name : Text) (type : Option TypeHandle)
  | ifStatement (condition : α) (thenPart : Followed α) (elsePart : Option α)
  | importDeclaration (beforeStatic : Space) (isStatic : Bool) (name : α)
  | labeled (label : Followed α) (statement : α)
  | lambda (l : Lambda α)
  /-- A literal as it is written. -/
  | literal (source : Text) (kind : Primitive)
  | methodDeclaration (d : MethodDeclaration α)
  | methodInvocation (i : MethodInvocation α)
  | modifier (word : Modifier)
  | multiCatch (alternatives : List (Followed α))
  | namedVariable (name : α) (initializer : Option (Preceded α)) (type : Option TypeHandle)
  | newArray (element : Option α) (dimensions : List α) (values : Option (Series α))
  | newClass (name : α) (arguments : Series α) (body : Option α) (type : Option TypeHandle)
  | packageDeclaration (annotations : List α) (name : α)
  | parameterizedType (name : α) (arguments : Option (Series α)) (type : Option TypeHandle)
  | parentheses (inner : Followed α)
  | primitiveType (primitive : Primitive)
  | returnStatement (value : Option α)
  /-- A switch over a block of case clauses. -/
  | switchStatement (selector cases : α)
  | ternary (condition : α) (whenTrue whenFalse : Preceded α)
  | throwStatement (value : α)
  | tryStatement (body : α) (catches : List α) (finallyBlock : Option (Preceded α))
  | typeCast (type operand : α)
  | typeParameter (annotations : List α) (name : α) (bounds : Option (Series α))
  | unary (beforeOperator : Space) (operator : UnaryOperator) (operand : α)
  | variableDeclarations (d : VariableDeclarations α)
  | whileLoop (condition : α) (body : Followed α)
  /-- A question mark; a bounded one with the space before the keyword and the bound. -/
  | wildcard (bound : Option (Space × WildcardBound)) (type : Option α)

/-- A node: its identity, the space before its first token, and its layer. -/
inductive Tree where
  | node (id : NodeId) (leading : Space) (shape : Shape Tree)

namespace Tree

/-- The identity of the node. -/
def id : Tree → NodeId
  | node i _ _ => i

/-- The space before the first token. -/
def leading : Tree → Space
  | node _ s _ => s

/-- The layer at the node. -/
def shape : Tree → Shape Tree
  | node _ _ x => x

/-- The same node with another space before its first token. -/
def withLeading (s : Space) : Tree → Tree
  | node i _ x => node i s x

/-- The same node with its leading space changed. -/
def mapLeading (f : Space → Space) : Tree → Tree
  | node i s x => node i (f s) x

/-- The same node with another layer. -/
def withShape (x : Shape Tree) : Tree → Tree
  | node i s _ => node i s x

/-- A placeholder that stands for nothing. -/
def isEmpty (t : Tree) : Bool :=
  match t.shape with
  | .empty => true
  | _ => false

instance : Inhabited Tree := ⟨node 0 .empty .empty⟩

end Tree

end JavaSource
