import JavaSource.Types.Build

/-!
# Changed copies of types

Each function builds the type that differs from a given one in one field. It gives the handle itself
when the field has the value already, and nothing when the handle is of another kind.
-/

namespace JavaSource.Registry

/-- A class with a change, unless nothing changes. -/
def withClass (r : Registry) (h : TypeHandle) (unchanged : ClassType → Bool)
    (change : ClassType → ClassType) : Option (TypeHandle × Registry) :=
  (r.classAt? h).map fun c => if unchanged c then (h, r) else r.buildExactClass (change c)

/-- The class with other flags. -/
def withClassFlags (r : Registry) (h : TypeHandle) (flags : Flags) :
    Option (TypeHandle × Registry) :=
  r.withClass h (·.flags == flags) fun c => { c with flags }

/-- The class with other members. -/
def withClassMembers (r : Registry) (h : TypeHandle) (members : List TypeHandle) :
    Option (TypeHandle × Registry) :=
  r.withClass h (·.members == members) fun c => { c with members }

/-- The class with other methods. -/
def withClassMethods (r : Registry) (h : TypeHandle) (methods : List TypeHandle) :
    Option (TypeHandle × Registry) :=
  r.withClass h (·.methods == methods) fun c => { c with methods }

/-- The class with other interfaces. -/
def withClassInterfaces (r : Registry) (h : TypeHandle) (interfaces : List TypeHandle) :
    Option (TypeHandle × Registry) :=
  r.withClass h (·.interfaces == interfaces) fun c => { c with interfaces }

/-- The class with another supertype. -/
def withClassSupertype (r : Registry) (h : TypeHandle) (supertype : Option TypeHandle) :
    Option (TypeHandle × Registry) :=
  r.withClass h (·.supertype == supertype) fun c => { c with supertype }

/-- Another name for a type, through no more than `depth` generic types. -/
def withNameWithin (r : Registry) (name : Text) :
    Nat → TypeHandle → Option (TypeHandle × Registry)
  | 0, _ => none
  | depth + 1, h =>
    match r.get? h with
    | some (.classType c) =>
      if c.name = name then some (h, r) else some (r.buildExactClass { c with name })
    | some (.shallow _) => some (r.buildShallow name)
    | some (.cyclic _) => some (r.buildCyclic name)
    | some (.typeVariable _ bound) => some (r.buildTypeVariable name bound)
    | some (.parameterized raw arguments) =>
      (withNameWithin r name depth raw).map fun (renamed, r) =>
        if renamed = raw then (h, r) else r.buildParameterized renamed arguments
    | _ => none

/-- The type under another name; a generic type with arguments has its raw type renamed. -/
def withName (r : Registry) (h : TypeHandle) (name : Text) : Option (TypeHandle × Registry) :=
  r.withNameWithin name r.size h

/-- The variable with another type. -/
def withVariableType (r : Registry) (h : TypeHandle) (type : Option TypeHandle) :
    Option (TypeHandle × Registry) :=
  (r.variableAt? h).map fun v => if v.type = type then (h, r) else r.buildVariable { v with type }

/-- The variable with another owner. -/
def withVariableOwner (r : Registry) (h owner : TypeHandle) : Option (TypeHandle × Registry) :=
  (r.variableAt? h).map fun v => if v.owner = owner then (h, r) else r.buildVariable { v with owner }

/-- The method with another name. -/
def withMethodName (r : Registry) (h : TypeHandle) (name : Text) : Option (TypeHandle × Registry) :=
  (r.methodAt? h).map fun m => if m.name = name then (h, r) else r.buildMethod { m with name }

/-- The method with other flags. -/
def withMethodFlags (r : Registry) (h : TypeHandle) (flags : Flags) :
    Option (TypeHandle × Registry) :=
  (r.methodAt? h).map fun m => if m.flags = flags then (h, r) else r.buildMethod { m with flags }

/-- The method declared by another type. -/
def withDeclaringType (r : Registry) (h declaring : TypeHandle) : Option (TypeHandle × Registry) :=
  (r.methodAt? h).map fun m =>
    if m.declaring = declaring then (h, r) else r.buildMethod { m with declaring }

/-- The method with another resolved signature. -/
def withResolvedSignature (r : Registry) (h : TypeHandle) (resolved : Option Signature) :
    Option (TypeHandle × Registry) :=
  (r.methodAt? h).map fun m =>
    if m.resolved = resolved then (h, r) else r.buildMethod { m with resolved }

end JavaSource.Registry
