import JavaSource.Tree.Children

/-!
# Names in a tree

The names that identifiers and chains of field accesses spell.
-/

namespace JavaSource.Tree

/-- The name of an identifier. -/
def identifierName? (t : Tree) : Option Text :=
  match t.shape with
  | .identifier name _ => some name
  | _ => none

/-- The dotted name that an identifier or a chain of field accesses spells. -/
def qualifiedName? (t : Tree) : Option Text :=
  match _h : t.shape with
  | .identifier name _ => some name
  | .fieldAccess target name _ =>
    match qualifiedName? target, name.element.identifierName? with
    | some before, some last => some (before ++ '.' :: last)
    | _, _ => none
  | _ => none
termination_by sizeOf t
decreasing_by exact sizeOf_lt_of_mem_children (by simp [children, _h, Shape.children])

/-- The type attached to a name. -/
def nameType? (t : Tree) : Option TypeHandle :=
  match t.shape with
  | .identifier _ type | .fieldAccess _ _ type => type
  | _ => none

/-- The same node with another type attached, if it is a name, a call or a declaration. -/
def withType (type : Option TypeHandle) (t : Tree) : Tree :=
  match t.shape with
  | .identifier name _ => t.withShape (.identifier name type)
  | .fieldAccess target name _ => t.withShape (.fieldAccess target name type)
  | .methodInvocation i => t.withShape (.methodInvocation { i with type })
  | .newClass name arguments body _ => t.withShape (.newClass name arguments body type)
  | .classDeclaration d => t.withShape (.classDeclaration { d with type })
  | .methodDeclaration d => t.withShape (.methodDeclaration { d with type })
  | _ => t

end JavaSource.Tree
