import JavaSource.Types.Flags
import JavaSource.Types.Handle

/-!
# Type descriptors

What the table of types holds at a place. A descriptor names other types by their handles.
-/

namespace JavaSource

/-- A class with all its detail. -/
structure ClassType where
  name : Text
  flags : Flags
  kind : ClassKind
  /-- The fields, by name. -/
  members : List TypeHandle
  interfaces : List TypeHandle
  methods : List TypeHandle
  supertype : Option TypeHandle
  /-- The class that it is nested in. -/
  owner : Option TypeHandle
  annotations : List TypeHandle
deriving DecidableEq, Repr

/-- A field or a local variable. -/
structure VariableType where
  name : Text
  owner : TypeHandle
  type : Option TypeHandle
  annotations : List TypeHandle
  flags : Flags
deriving DecidableEq, Repr

/-- What a method returns and takes. -/
structure Signature where
  returns : Option TypeHandle
  parameters : List TypeHandle
deriving DecidableEq, Repr

/-- A method or a constructor. -/
structure MethodType where
  flags : Flags
  /-- The type that declares it. -/
  declaring : TypeHandle
  name : Text
  /-- The signature as declared. -/
  generic : Option Signature
  /-- The signature with type arguments in place. -/
  resolved : Option Signature
  parameterNames : List Text
  thrown : List TypeHandle
  annotations : List TypeHandle
deriving DecidableEq, Repr

/-- The method is a constructor. -/
def MethodType.isConstructor (m : MethodType) : Bool := m.name == "<constructor>".toList

/-- What the table of types holds at a place. -/
inductive Descriptor where
  | primitive (p : Primitive)
  /-- An array; without an element type when that was not resolved. -/
  | array (element : Option TypeHandle)
  | classType (c : ClassType)
  /-- A class known by name only. -/
  | shallow (name : Text)
  /-- Stands for a class inside its own definition. -/
  | cyclic (name : Text)
  /-- A generic type with its arguments. -/
  | parameterized (raw : TypeHandle) (arguments : List TypeHandle)
  /-- A type variable and its bound. -/
  | typeVariable (name : Text) (bound : Option TypeHandle)
  | variableType (v : VariableType)
  | methodType (m : MethodType)
  /-- The alternatives of a `catch` clause. -/
  | multiCatch (alternatives : List TypeHandle)
deriving DecidableEq, Repr

namespace Descriptor

/-- The type has a fully qualified name. -/
def isNamed : Descriptor → Bool
  | classType _ | shallow _ | cyclic _ | parameterized _ _ | typeVariable _ _ => true
  | _ => false

end Descriptor

end JavaSource
