import JavaSource.Types.Registry

/-!
# Structural equality

Two handles are deeply equal when they are the same, or when their descriptors are of one kind and
agree in the fields that tell types of that kind apart. The methods and the owner of a class and the
name of a method do not count; an array whose element type was not resolved equals only itself.
-/

namespace JavaSource

section Agreement

variable (same : TypeHandle → TypeHandle → Bool)

/-- Lists of handles agree place by place. -/
def handlesAgree : List TypeHandle → List TypeHandle → Bool
  | [], [] => true
  | a :: as, b :: bs => same a b && handlesAgree as bs
  | _, _ => false

/-- Both handles are absent, or they agree. -/
def optionsAgree : Option TypeHandle → Option TypeHandle → Bool
  | none, none => true
  | some a, some b => same a b
  | _, _ => false

/-- Both signatures are absent, or they agree. -/
def signaturesAgree : Option Signature → Option Signature → Bool
  | none, none => true
  | some a, some b =>
    optionsAgree same a.returns b.returns && handlesAgree same a.parameters b.parameters
  | _, _ => false

/-- The classes agree in what tells classes apart. -/
def ClassType.agrees (a b : ClassType) : Bool :=
  a.kind == b.kind && a.flags == b.flags && a.name == b.name &&
    handlesAgree same a.members b.members && handlesAgree same a.interfaces b.interfaces &&
    optionsAgree same a.supertype b.supertype && handlesAgree same a.annotations b.annotations

/-- The variables agree in what tells variables apart. -/
def VariableType.agrees (a b : VariableType) : Bool :=
  a.name == b.name && a.flags == b.flags && same a.owner b.owner &&
    optionsAgree same a.type b.type && handlesAgree same a.annotations b.annotations

/-- The methods agree in what tells methods of one name apart. -/
def MethodType.agrees (a b : MethodType) : Bool :=
  a.parameterNames == b.parameterNames && a.flags == b.flags &&
    same a.declaring b.declaring && signaturesAgree same a.generic b.generic &&
    signaturesAgree same a.resolved b.resolved && handlesAgree same a.thrown b.thrown &&
    handlesAgree same a.annotations b.annotations

/-- The descriptors are of one kind and agree. -/
def Descriptor.agrees : Descriptor → Descriptor → Bool
  | .primitive a, .primitive b => a == b
  | .array (some a), .array (some b) => same a b
  | .classType a, .classType b => a.agrees same b
  | .shallow a, .shallow b => a == b
  | .cyclic a, .cyclic b => a == b
  | .parameterized a as, .parameterized b bs => same a b && handlesAgree same as bs
  | .typeVariable a as, .typeVariable b bs => a == b && optionsAgree same as bs
  | .variableType a, .variableType b => a.agrees same b
  | .methodType a, .methodType b => a.agrees same b
  | .multiCatch as, .multiCatch bs => handlesAgree same as bs
  | _, _ => false

end Agreement

namespace Registry

/-- Deep equality through no more than `depth` descriptors. -/
def deepEqualWithin (r : Registry) : Nat → TypeHandle → TypeHandle → Bool
  | 0, a, b => a == b
  | depth + 1, a, b =>
    a == b ||
      match r.get? a, r.get? b with
      | some da, some db => da.agrees (r.deepEqualWithin depth) db
      | _, _ => false

/-- The handles are the same, or their descriptors agree. -/
def deepEqual (r : Registry) (a b : TypeHandle) : Bool := r.deepEqualWithin r.size a b

/-- Both handles are absent, or they are deeply equal. -/
def deepEqualOption (r : Registry) : Option TypeHandle → Option TypeHandle → Bool :=
  optionsAgree r.deepEqual

/-- The lists are deeply equal place by place. -/
def allDeepEqual (r : Registry) : List TypeHandle → List TypeHandle → Bool :=
  handlesAgree r.deepEqual

end Registry

end JavaSource
