import JavaSource.Types.Name
import JavaSource.Types.Registry

/-!
# Questions about types

A type with a name can be asked for its detail. A generic type with arguments answers as its raw
type does and a type variable as its bound does, all but for the name and kind of a type variable. A
class known by name only is a public class directly below `java.lang.Object`.
-/

namespace JavaSource.Registry

/-- The descriptor behind generic types and type variables, no more than `depth` of them. -/
def behindWithin (r : Registry) : Nat → TypeHandle → Option Descriptor
  | 0, _ => none
  | depth + 1, h =>
    match r.get? h with
    | some (.parameterized raw _) => behindWithin r depth raw
    | some (.typeVariable _ bound) => bound.bind (behindWithin r depth)
    | d => d

/-- The descriptor that answers for a type. -/
def behind (r : Registry) (h : TypeHandle) : Option Descriptor := r.behindWithin r.size h

/-- What a class behind a type answers; nothing for any other type. -/
def askClass {α : Type} (r : Registry) (h : TypeHandle) (answer : ClassType → List α) : List α :=
  match r.behind h with
  | some (.classType c) => answer c
  | _ => []

/-- The type has a name. -/
def isNamed (r : Registry) (h : TypeHandle) : Bool := (r.get? h).any Descriptor.isNamed

/-- The name of a type through no more than `depth` generic types. -/
def nameWithin (r : Registry) : Nat → TypeHandle → Option Text
  | 0, _ => none
  | depth + 1, h =>
    match r.get? h with
    | some (.classType c) => some c.name
    | some (.shallow name) | some (.cyclic name) | some (.typeVariable name _) => some name
    | some (.parameterized raw _) => some ((nameWithin r depth raw).getD [])
    | _ => none

/-- The fully qualified name of a type. -/
def name? (r : Registry) (h : TypeHandle) : Option Text := r.nameWithin r.size h

/-- The kind of a type through no more than `depth` generic types. -/
def kindWithin (r : Registry) : Nat → TypeHandle → Option ClassKind
  | 0, _ => none
  | depth + 1, h =>
    match r.get? h with
    | some (.classType c) => some c.kind
    | some (.shallow _) | some (.cyclic _) | some (.typeVariable _ _) => some .regular
    | some (.parameterized raw _) => some ((kindWithin r depth raw).getD .regular)
    | _ => none

/-- The kind of a type. -/
def kind? (r : Registry) (h : TypeHandle) : Option ClassKind := r.kindWithin r.size h

/-- The flags of a type, a variable or a method. -/
def flags (r : Registry) (h : TypeHandle) : Flags :=
  match r.behind h with
  | some (.classType c) => c.flags
  | some (.shallow _) | some (.cyclic _) => .publicOnly
  | some (.variableType v) => v.flags
  | some (.methodType m) => m.flags
  | _ => .none

/-- Every flag of `test` is set. A class known by name only has the one flag that it has, and is not
asked for none. -/
def hasFlags (r : Registry) (h : TypeHandle) (test : Flags) : Bool :=
  match r.behind h with
  | some (.classType c) => c.flags.hasAll test
  | some (.shallow _) | some (.cyclic _) => test == .publicOnly
  | some (.variableType v) => v.flags.hasAll test
  | some (.methodType m) => m.flags.hasAll test
  | _ => false

/-- The annotations of a type. -/
def annotations (r : Registry) (h : TypeHandle) : List TypeHandle := r.askClass h (·.annotations)

/-- The interfaces of a type. -/
def interfaces (r : Registry) (h : TypeHandle) : List TypeHandle := r.askClass h (·.interfaces)

/-- The members of a type. -/
def members (r : Registry) (h : TypeHandle) : List TypeHandle := r.askClass h (·.members)

/-- The methods of a type. -/
def methodsOf (r : Registry) (h : TypeHandle) : List TypeHandle := r.askClass h (·.methods)

/-- The class that a type is nested in. -/
def owner? (r : Registry) (h : TypeHandle) : Option TypeHandle :=
  match r.behind h with
  | some (.classType c) => c.owner
  | _ => none

/-- The supertype of a type. -/
def supertype? (r : Registry) (h : TypeHandle) : Option TypeHandle :=
  match r.behind h with
  | some (.classType c) => c.supertype
  | some (.shallow _) | some (.cyclic _) => some .object
  | _ => none

/-- The members of the supertypes that are not private, through no more than `depth` of them. -/
def inheritedWithin (r : Registry) : Nat → TypeHandle → List TypeHandle
  | 0, _ => []
  | depth + 1, h =>
    match r.behind h with
    | some (.classType c) =>
      match c.supertype with
      | some s =>
        ((r.members s).filter fun m => !r.hasFlags m .privateOnly) ++ inheritedWithin r depth s
      | none => []
    | _ => []

/-- The members of the supertypes that are not private, nearest supertype first. -/
def inheritedMembers (r : Registry) (h : TypeHandle) : List TypeHandle :=
  r.inheritedWithin r.size h

/-- A type of this name is the type itself, or above it in no more than `depth` steps. -/
def isBelowWithin (r : Registry) (target : Text) : Nat → TypeHandle → Bool
  | 0, _ => false
  | depth + 1, h =>
    match r.name? h with
    | none => false
    | some name =>
      name == target || (r.supertype? h).any (isBelowWithin r target depth) ||
        (r.interfaces h).any (isBelowWithin r target depth)

/-- A value of one type can be assigned to another: anything to `java.lang.Object`, else what has a
type of the name among itself, its supertypes and their interfaces. -/
def isAssignable (r : Registry) (target : TypeHandle) (source : Option TypeHandle) : Bool :=
  match source with
  | none => false
  | some h =>
    target == .object ||
      match r.name? target with
      | none => false
      | some name => r.isBelowWithin name r.size h

/-- The name of a type without its packages. -/
def className? (r : Registry) (h : TypeHandle) : Option Text := (r.name? h).map className

/-- The package of a type. -/
def packageName? (r : Registry) (h : TypeHandle) : Option Text := (r.name? h).map packageName

end JavaSource.Registry
