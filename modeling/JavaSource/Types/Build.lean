import JavaSource.Types.Equality
import JavaSource.Types.Name

/-!
# Building types

Each function gives the handle of a descriptor that was registered before, or registers a new one.
-/

namespace JavaSource.Registry

/-! ### Classes -/

/-- The name of a variable; empty for anything else. -/
def memberName (r : Registry) (h : TypeHandle) : Text := ((r.variableAt? h).map (·.name)).getD []

/-- The members of a class, by name. `java.lang.String` has a field that is for serialization only
and does not count. -/
def canonicalMembers (r : Registry) (className : Text) (members : List TypeHandle) :
    List TypeHandle :=
  let counted :=
    if className = "java.lang.String".toList then
      members.filter fun h => r.memberName h != "serialPersistentFields".toList
    else members
  counted.mergeSort fun a b => !decide (r.memberName b < r.memberName a)

/-- A requested class in the form in which it is registered. -/
def canonicalClass (r : Registry) (c : ClassType) : ClassType :=
  { c with members := r.canonicalMembers c.name c.members }

/-- Registers a class under its name. -/
def addClass (r : Registry) (c : ClassType) : TypeHandle × Registry :=
  let (h, r) := r.alloc (.classType c)
  (h, { r with classes := r.classes.push c.name h })

/-- The handle of a class that agrees with a descriptor. -/
def matchesClass (r : Registry) (c : ClassType) (h : TypeHandle) : Bool :=
  (r.classAt? h).any fun registered => registered.agrees r.deepEqual c

/-- The class of a handle has a supertype. -/
def hasSupertype (r : Registry) (h : TypeHandle) : Bool :=
  (r.classAt? h).any fun c => c.supertype.isSome

/-- The class with exactly this detail. A request without a supertype is content with a first class
of the name that has one. -/
def buildExactClass (r : Registry) (request : ClassType) : TypeHandle × Registry :=
  let variants := r.classes.get request.name
  let candidate := r.canonicalClass request
  match variants.find? (r.matchesClass candidate) with
  | some h => (h, r)
  | none =>
    match candidate.supertype, variants with
    | none, first :: _ => if r.hasSupertype first then (first, r) else r.addClass candidate
    | _, _ => r.addClass candidate

/-- The first class of the name, whatever its detail. -/
def buildRelaxedClass (r : Registry) (request : ClassType) : TypeHandle × Registry :=
  match r.classes.get request.name with
  | first :: _ => (first, r)
  | [] => r.addClass (r.canonicalClass request)

/-- The class that is requested: the first of its name, or the one with exactly this detail. -/
def buildClassFrom (r : Registry) (relaxed : Bool) (request : ClassType) : TypeHandle × Registry :=
  if relaxed then r.buildRelaxedClass request else r.buildExactClass request

/-- A public class without detail. -/
def bareClass (name : Text) (kind : ClassKind) (owner : Option TypeHandle) : ClassType :=
  { name
    flags := .publicOnly
    kind
    members := []
    interfaces := []
    methods := []
    supertype := none
    owner
    annotations := [] }

/-- The first class of the name; the class around it, by the name, is built before it. -/
def buildClass (r : Registry) (name : Text) : TypeHandle × Registry :=
  match _h : ownerName? name with
  | none => r.buildRelaxedClass (bareClass name .regular none)
  | some owner =>
    let (h, r) := buildClass r owner
    r.buildRelaxedClass (bareClass name .regular (some h))
termination_by name.length
decreasing_by exact length_of_ownerName? _h

/-- The first class of the name, without a class around it. -/
def buildClassOfKind (r : Registry) (name : Text) (kind : ClassKind) : TypeHandle × Registry :=
  r.buildRelaxedClass (bareClass name kind none)

/-- The primitive or the class of a name. -/
def buildType (r : Registry) (name : Text) : TypeHandle × Registry :=
  match Primitive.ofKeyword? name with
  | some p => (.ofPrimitive p, r)
  | none => r.buildClass name

/-! ### Other types -/

/-- A generic type with arguments. -/
def buildParameterized (r : Registry) (raw : TypeHandle) (arguments : List TypeHandle) :
    TypeHandle × Registry :=
  let path := raw :: arguments
  match r.parameterized.find? path with
  | some h => (h, r)
  | none =>
    let (h, r) := r.alloc (.parameterized raw arguments)
    (h, { r with parameterized := r.parameterized.insert h path })

/-- A variable. -/
def buildVariable (r : Registry) (v : VariableType) : TypeHandle × Registry :=
  let key := (v.name, v.type)
  let known (h : TypeHandle) : Bool :=
    (r.variableAt? h).any fun registered => registered.agrees r.deepEqual v
  match (r.vars.get key).find? known with
  | some h => (h, r)
  | none =>
    let (h, r) := r.alloc (.variableType v)
    (h, { r with vars := r.vars.push key h })

/-- A method. -/
def buildMethod (r : Registry) (m : MethodType) : TypeHandle × Registry :=
  let key := (m.declaring, m.name)
  let known (h : TypeHandle) : Bool :=
    (r.methodAt? h).any fun registered => registered.agrees r.deepEqual m
  match (r.methods.get key).find? known with
  | some h => (h, r)
  | none =>
    let (h, r) := r.alloc (.methodType m)
    (h, { r with methods := r.methods.push key h })

/-- A descriptor that is looked up by itself. -/
def buildOther (r : Registry) (d : Descriptor) : TypeHandle × Registry :=
  match r.others.get d with
  | h :: _ => (h, r)
  | [] =>
    let (h, r) := r.alloc d
    (h, { r with others := r.others.push d h })

/-- A class known by name only. -/
def buildShallow (r : Registry) (name : Text) : TypeHandle × Registry := r.buildOther (.shallow name)

/-- A placeholder for a class inside its own definition. -/
def buildCyclic (r : Registry) (name : Text) : TypeHandle × Registry := r.buildOther (.cyclic name)

/-- A type variable. -/
def buildTypeVariable (r : Registry) (name : Text) (bound : Option TypeHandle) :
    TypeHandle × Registry :=
  r.buildOther (.typeVariable name bound)

/-- An array type. -/
def buildArray (r : Registry) (element : Option TypeHandle) : TypeHandle × Registry :=
  r.buildOther (.array element)

/-- The alternatives of a `catch` clause. -/
def buildMultiCatch (r : Registry) (alternatives : List TypeHandle) : TypeHandle × Registry :=
  r.buildOther (.multiCatch alternatives)

end JavaSource.Registry
