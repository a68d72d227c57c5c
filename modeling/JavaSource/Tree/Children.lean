import JavaSource.Tree.Kind

/-!
# The parts of a node

`Shape.children` lists the parts of a layer in the order of the source, `Tree.preorder` every node
of a tree. A child is smaller than its parent (`Tree.sizeOf_lt_of_mem_children`), which is what
recursion over a tree rests on.
-/

namespace JavaSource

namespace Shape

variable {α : Type}

/-- The parts of a layer, in the order of the source. -/
def children : Shape α → List α
  | annotationUse name arguments => name :: Series.itemsOf arguments
  | arrayAccess array dimension => [array, dimension]
  | arrayDimension index => [index.element]
  | arrayType element _ _ => [element]
  | assignment target value => [target, value.element]
  | assignmentOperation target _ _ value => [target, value]
  | binary left _ _ right _ => [left, right]
  | block _ statements _ => items statements
  | breakStatement label => label.toList
  | caseClause value statements => value.toList ++ items statements.elements
  | catchClause parameter body => [parameter, body]
  | classDeclaration d =>
    d.annotations ++ d.modifiers ++ d.name :: Series.itemsOf d.typeParameters ++
      (d.superclass.map Preceded.element).toList ++ Series.itemsOf d.interfaces ++ [d.body]
  | compilationUnit u =>
    (u.package.map Followed.element).toList ++ items u.imports ++ u.declarations
  | continueStatement label => label.toList
  | controlParentheses inner => [inner.element]
  | doWhileLoop body condition => [body.element, condition.element]
  | elsePart body => [body.element]
  | empty => []
  | enumValue name arguments => name :: Series.itemsOf arguments
  | enumValueSet values _ => items values
  | fieldAccess target name _ => [target, name.element]
  | forControl init condition update => items init ++ condition.element :: items update
  | forEachControl declared iterable => [declared.element, iterable.element]
  | forEachLoop control body => [control, body.element]
  | forLoop control body => [control, body.element]
  | identifier _ _ => []
  | ifStatement condition thenPart alternative =>
    condition :: thenPart.element :: alternative.toList
  | importDeclaration _ _ name => [name]
  | labeled label statement => [label.element, statement]
  | lambda l => items l.parameters ++ [l.body]
  | literal _ _ => []
  | methodDeclaration d =>
    d.annotations ++ d.modifiers ++ Series.itemsOf d.typeParameters ++ d.returnType.toList ++
      d.name :: items d.parameters.elements ++ Series.itemsOf d.thrown ++ d.body.toList
  | methodInvocation i =>
    (i.receiver.map Followed.element).toList ++ Series.itemsOf i.typeArguments ++
      i.name :: items i.arguments.elements
  | modifier _ => []
  | multiCatch alternatives => items alternatives
  | namedVariable name initializer _ => name :: (initializer.map Preceded.element).toList
  | newArray element dimensions values =>
    element.toList ++ dimensions ++ Series.itemsOf values
  | newClass name arguments body _ => name :: items arguments.elements ++ body.toList
  | packageDeclaration annotations name => annotations ++ [name]
  | parameterizedType name arguments _ => name :: Series.itemsOf arguments
  | parentheses inner => [inner.element]
  | primitiveType _ => []
  | returnStatement value => value.toList
  | switchStatement selector cases => [selector, cases]
  | ternary condition whenTrue whenFalse => [condition, whenTrue.element, whenFalse.element]
  | throwStatement value => [value]
  | tryStatement body catches finallyBlock =>
    body :: catches ++ (finallyBlock.map Preceded.element).toList
  | typeCast type operand => [type, operand]
  | typeParameter annotations name bounds => annotations ++ name :: Series.itemsOf bounds
  | unary _ _ operand => [operand]
  | variableDeclarations d =>
    d.annotations ++ d.modifiers ++ d.type.toList ++ items d.declarators
  | whileLoop condition body => [condition, body.element]
  | wildcard _ type => type.toList

variable [SizeOf α]

attribute [local grind =] Followed.sizeOf_eq Preceded.sizeOf_eq Series.sizeOf_eq

attribute [local grind →] sizeOf_lt_of_mem_items sizeOf_lt_of_mem_itemsOf sizeOf_lt_of_mem_toList
  sizeOf_lt_of_mem_followed sizeOf_lt_of_mem_preceded List.sizeOf_lt_of_mem

theorem sizeOf_lt_of_mem_children {x : Shape α} {a : α} (h : a ∈ x.children) :
    sizeOf a < sizeOf x := by
  cases x with
  | empty | identifier | literal | modifier | primitiveType => simp [children] at h
  | compilationUnit d | classDeclaration d | methodDeclaration d | methodInvocation d | lambda d
  | variableDeclarations d =>
    cases d
    simp only [children, List.mem_append, List.mem_cons, List.not_mem_nil, or_false] at h
    grind
  | _ =>
    simp only [children, List.mem_append, List.mem_cons, List.not_mem_nil, or_false] at h
    grind

end Shape

namespace Tree

/-- The parts of the node. -/
def children (t : Tree) : List Tree := t.shape.children

theorem sizeOf_lt_of_mem_children {t c : Tree} (h : c ∈ t.children) : sizeOf c < sizeOf t := by
  have := Shape.sizeOf_lt_of_mem_children h
  cases t with
  | node i s x => simp only [shape] at this; simp only [node.sizeOf_spec]; omega

/-- Induction over a tree: a property holds of a node if it holds of each of its parts. -/
theorem induction {motive : Tree → Prop}
    (node : ∀ t, (∀ c ∈ t.children, motive c) → motive t) (t : Tree) : motive t :=
  node t fun c _ => induction node c
termination_by sizeOf t
decreasing_by exact sizeOf_lt_of_mem_children ‹_›

/-- The number of nodes on the longest way down. -/
def height (t : Tree) : Nat :=
  1 + (t.children.attach.map fun c => height c.1).foldr max 0
termination_by sizeOf t
decreasing_by exact sizeOf_lt_of_mem_children c.2

/-- Every node of the tree with its depth, each before its parts. -/
def preorderFrom (depth : Nat) (t : Tree) : List (Nat × Tree) :=
  (depth, t) :: t.children.attach.flatMap fun c => preorderFrom (depth + 1) c.1
termination_by sizeOf t
decreasing_by exact sizeOf_lt_of_mem_children c.2

/-- Every node of the tree, each before its parts. -/
def preorder (t : Tree) : List Tree := (preorderFrom 0 t).map Prod.snd

/-- The first node, in the order of `preorder`, that has this identity. -/
def find? (id : NodeId) (t : Tree) : Option Tree := t.preorder.find? fun n => n.id == id

theorem height_eq (t : Tree) : t.height = 1 + (t.children.map height).foldr max 0 := by
  rw [height]; simp only [List.map_attach_eq_pmap, List.pmap_eq_map]

theorem preorderFrom_eq (d : Nat) (t : Tree) :
    t.preorderFrom d = (d, t) :: t.children.flatMap (preorderFrom (d + 1)) := by
  rw [preorderFrom]; simp only [List.flatMap_def, List.map_attach_eq_pmap, List.pmap_eq_map]

theorem height_lt_of_mem_children {t c : Tree} (h : c ∈ t.children) : c.height < t.height := by
  have le_foldr : ∀ (l : List Nat), ∀ n ∈ l, n ≤ l.foldr max 0 := by
    intro l
    induction l with
    | nil => simp
    | cons a l ih => simp only [List.foldr_cons, List.mem_cons]; grind
  have := le_foldr _ _ (List.mem_map_of_mem (f := height) h)
  rw [height_eq t]
  omega

end Tree

end JavaSource
