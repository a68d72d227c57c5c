import JavaSource.Types.Descriptor
import JavaSource.Types.Table

/-!
# The registry of types

A `Registry` holds descriptors in slots, which handles name, and tables in which each kind of
descriptor is looked up before a new one is put into a slot. The first slots hold the primitives
and `java.lang.Object`.
-/

namespace JavaSource

/-- The name of the class above all others. -/
def objectName : Text := "java.lang.Object".toList

/-- The class above all others. -/
def objectClass : ClassType :=
  { name := objectName
    flags := .publicOnly
    kind := .regular
    members := []
    interfaces := []
    methods := []
    supertype := none
    owner := none
    annotations := [] }

/-- The descriptors that are there from the start. -/
def seedSlots : List Descriptor :=
  Primitive.all.map .primitive ++ [.classType objectClass]

/-- Descriptors, and where to look for them. -/
structure Registry where
  slots : List Descriptor
  /-- Classes by name. -/
  classes : Table Text
  /-- Generic types with arguments, at the end of the path of the raw type and the arguments. -/
  parameterized : PathTrie
  /-- Variables by name and declared type. -/
  vars : Table (Text × Option TypeHandle)
  /-- Methods by declaring type and name. -/
  methods : Table (TypeHandle × Text)
  /-- All other descriptors by themselves. -/
  others : Table Descriptor
  /-- How often the registry was cleared. -/
  generation : Nat

namespace Registry

/-- The registry in a generation, with nothing but the descriptors that are there from the start. -/
def fresh (generation : Nat) : Registry :=
  { slots := seedSlots
    classes := Table.empty.push objectName .object
    parameterized := .empty
    vars := .empty
    methods := .empty
    others := .empty
    generation }

/-- A new registry. -/
def new : Registry := fresh 0

/-- Drops all types that were built. Handles of theirs are not to be used any more. -/
def clear (r : Registry) : Registry := fresh (r.generation + 1)

/-- The descriptor of a handle. -/
def get? (r : Registry) (h : TypeHandle) : Option Descriptor := r.slots[h.index]?

/-- The number of descriptors. -/
def size (r : Registry) : Nat := r.slots.length

/-- No descriptors but those that are there from the start. -/
def isEmpty (r : Registry) : Bool := r.size ≤ TypeHandle.firstDynamic.index

/-- Puts a descriptor into a new slot, outside all tables. -/
def alloc (r : Registry) (d : Descriptor) : TypeHandle × Registry :=
  (⟨r.slots.length⟩, { r with slots := r.slots ++ [d] })

/-- The class of a handle. -/
def classAt? (r : Registry) (h : TypeHandle) : Option ClassType :=
  match r.get? h with
  | some (.classType c) => some c
  | _ => none

/-- The variable of a handle. -/
def variableAt? (r : Registry) (h : TypeHandle) : Option VariableType :=
  match r.get? h with
  | some (.variableType v) => some v
  | _ => none

/-- The method of a handle. -/
def methodAt? (r : Registry) (h : TypeHandle) : Option MethodType :=
  match r.get? h with
  | some (.methodType m) => some m
  | _ => none

/-- The first class that was registered under a name. -/
def findClass? (r : Registry) (name : Text) : Option TypeHandle := (r.classes.get name).head?

end Registry

/-- The sizes of the tables of a registry. -/
structure RegistryStats where
  descriptors : Nat
  classNames : Nat
  /-- The classes under all names. -/
  classVariants : Nat
  trieNodes : Nat
  vars : Nat
  methods : Nat
  generation : Nat
deriving DecidableEq, Repr

/-- The sizes of the tables. -/
def Registry.stats (r : Registry) : RegistryStats where
  descriptors := r.size
  classNames := r.classes.keyCount
  classVariants := r.classes.handleCount
  trieNodes := r.parameterized.nodeCount
  vars := r.vars.handleCount
  methods := r.methods.handleCount
  generation := r.generation

end JavaSource
