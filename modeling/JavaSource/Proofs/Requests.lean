import JavaSource.Proofs.Interned
import JavaSource.Types.Copy

/-!
# Requests to a registry

The requests for a type, the changed copies and the clearing of a registry as data, so that a run of
them can be spoken of (`Registry.Reaches`).  Each of them only registers descriptors or starts anew
(`RegistryStep.grows`), hence keeps a registry well formed (`Reaches.wellFormed`).

Questions to a registry are no steps: they leave it as it is.
-/

namespace JavaSource

/-- A request for a type. -/
inductive TypeRequest where
  /-- The primitive or the class of a name. -/
  | named (name : Text)
  | className (name : Text)
  | classOfKind (name : Text) (kind : ClassKind)
  | classFrom (relaxed : Bool) (c : ClassType)
  | parameterized (raw : TypeHandle) (arguments : List TypeHandle)
  | variableType (v : VariableType)
  | methodType (m : MethodType)
  | array (element : Option TypeHandle)
  | shallow (name : Text)
  | cyclic (name : Text)
  | typeVariable (name : Text) (bound : Option TypeHandle)
  | multiCatch (alternatives : List TypeHandle)

/-- A change to one field of a type. -/
inductive TypeChange where
  | classFlags (flags : Flags)
  | classMembers (members : List TypeHandle)
  | classMethods (methods : List TypeHandle)
  | classInterfaces (interfaces : List TypeHandle)
  | classSupertype (supertype : Option TypeHandle)
  | name (name : Text)
  | variableType (type : Option TypeHandle)
  | variableOwner (owner : TypeHandle)
  | methodName (name : Text)
  | methodFlags (flags : Flags)
  | declaringType (declaring : TypeHandle)
  | resolvedSignature (resolved : Option Signature)

/-- What can be done to a registry. -/
inductive RegistryStep where
  | build (q : TypeRequest)
  | copy (of : TypeHandle) (change : TypeChange)
  | clear

namespace TypeRequest

/-- Asks a registry. -/
def run (r : Registry) : TypeRequest → TypeHandle × Registry
  | named name => r.buildType name
  | className name => r.buildClass name
  | classOfKind name kind => r.buildClassOfKind name kind
  | classFrom relaxed c => r.buildClassFrom relaxed c
  | parameterized raw arguments => r.buildParameterized raw arguments
  | variableType v => r.buildVariable v
  | methodType m => r.buildMethod m
  | array element => r.buildArray element
  | shallow name => r.buildShallow name
  | cyclic name => r.buildCyclic name
  | typeVariable name bound => r.buildTypeVariable name bound
  | multiCatch alternatives => r.buildMultiCatch alternatives

/-- The descriptor that is asked for, unless by name only. -/
def descriptor? : TypeRequest → Option Descriptor
  | named _ | className _ | classOfKind _ _ => none
  | classFrom _ c => some (.classType c)
  | parameterized raw arguments => some (.parameterized raw arguments)
  | variableType v => some (.variableType v)
  | methodType m => some (.methodType m)
  | array element => some (.array element)
  | shallow name => some (.shallow name)
  | cyclic name => some (.cyclic name)
  | typeVariable name bound => some (.typeVariable name bound)
  | multiCatch alternatives => some (.multiCatch alternatives)

/-- The first class of a name will do. -/
def isRelaxed : TypeRequest → Bool
  | classFrom relaxed _ => relaxed
  | _ => false

/-- The handles of the request are live. -/
def Live (r : Registry) (q : TypeRequest) : Prop :=
  ∀ d ∈ q.descriptor?, ∀ x ∈ d.handles, r.Live x

/-- The request has methods only in the list of methods of a class. -/
def Strict (r : Registry) (q : TypeRequest) : Prop :=
  ∀ d ∈ q.descriptor?, ∀ x ∈ d.components, r.methodAt? x = none

instance (r : Registry) (q : TypeRequest) : Decidable (q.Live r) :=
  inferInstanceAs (Decidable (∀ d ∈ q.descriptor?, ∀ x ∈ d.handles, r.Live x))

instance (r : Registry) (q : TypeRequest) : Decidable (q.Strict r) :=
  inferInstanceAs (Decidable (∀ d ∈ q.descriptor?, ∀ x ∈ d.components, r.methodAt? x = none))

end TypeRequest

namespace TypeChange

/-- The copy of a type with the change. -/
def run (r : Registry) (h : TypeHandle) : TypeChange → Option (TypeHandle × Registry)
  | classFlags flags => r.withClassFlags h flags
  | classMembers members => r.withClassMembers h members
  | classMethods methods => r.withClassMethods h methods
  | classInterfaces interfaces => r.withClassInterfaces h interfaces
  | classSupertype supertype => r.withClassSupertype h supertype
  | name n => r.withName h n
  | variableType type => r.withVariableType h type
  | variableOwner owner => r.withVariableOwner h owner
  | methodName n => r.withMethodName h n
  | methodFlags flags => r.withMethodFlags h flags
  | declaringType declaring => r.withDeclaringType h declaring
  | resolvedSignature resolved => r.withResolvedSignature h resolved

/-- The new handles, but for the methods of a class. -/
def components : TypeChange → List TypeHandle
  | classMembers handles | classInterfaces handles => handles
  | classSupertype handle | variableType handle => handle.toList
  | variableOwner handle | declaringType handle => [handle]
  | resolvedSignature resolved => resolved.toList.flatMap Signature.handles
  | classFlags _ | classMethods _ | name _ | methodName _ | methodFlags _ => []

/-- The new handles. -/
def handles : TypeChange → List TypeHandle
  | classMethods methods => methods
  | c => c.components

theorem mem_handles_of_components (c : TypeChange) {x : TypeHandle} (h : x ∈ c.components) :
    x ∈ c.handles := by
  cases c <;> first | exact h | cases h

end TypeChange

namespace RegistryStep

/-- The registry after a step. -/
def run (r : Registry) : RegistryStep → Registry
  | build q => (q.run r).2
  | copy of change => ((change.run r of).map Prod.snd).getD r
  | clear => r.clear

/-- The handles of the step are live. -/
def Live (r : Registry) : RegistryStep → Prop
  | build q => q.Live r
  | copy of change => r.Live of ∧ ∀ x ∈ change.handles, r.Live x
  | clear => True

/-- The step puts methods only into lists of methods. -/
def Strict (r : Registry) : RegistryStep → Prop
  | build q => q.Strict r
  | copy _ change => ∀ x ∈ change.components, r.methodAt? x = none
  | clear => True

instance (r : Registry) : (o : RegistryStep) → Decidable (o.Live r)
  | build q => inferInstanceAs (Decidable (q.Live r))
  | copy of change => inferInstanceAs (Decidable (r.Live of ∧ ∀ x ∈ change.handles, r.Live x))
  | clear => inferInstanceAs (Decidable True)

instance (r : Registry) : (o : RegistryStep) → Decidable (o.Strict r)
  | build q => inferInstanceAs (Decidable (q.Strict r))
  | copy _ change => inferInstanceAs (Decidable (∀ x ∈ change.components, r.methodAt? x = none))
  | clear => inferInstanceAs (Decidable True)

end RegistryStep

namespace Registry

variable {r s : Registry} {d e : Descriptor} {a b h : TypeHandle} {relaxed : Bool} {strict : Prop}
  {name : Text}

/-- The second registry comes from the first by steps that are allowed when they are taken. -/
inductive Reaches (allowed : Registry → RegistryStep → Prop) (r : Registry) : Registry → Prop where
  | refl : Reaches allowed r r
  | step {s : Registry} (before : Reaches allowed r s) (o : RegistryStep) (ho : allowed s o) :
      Reaches allowed r (o.run s)

/-! ### Requests -/

theorem run_of_descriptor? {q : TypeRequest} (h : q.descriptor? = some d) :
    q.run r = r.intern q.isRelaxed (r.canonical d) := by
  cases q with
  | named | className | classOfKind => cases h
  | classFrom relaxed c => cases h; exact buildClassFrom_eq r relaxed c
  | parameterized raw arguments => cases h; exact buildParameterized_eq r raw arguments
  | variableType v => cases h; exact buildVariable_eq r v
  | methodType m => cases h; exact buildMethod_eq r m
  | _ => cases h; exact buildOther_eq r rfl

theorem isPrimitive_of_descriptor? {q : TypeRequest} (h : q.descriptor? = some d) :
    d.isPrimitive = false := by
  cases q <;> cases h <;> rfl

/-- Interning the form in which a descriptor is registered only registers. -/
theorem grows_intern_canonical (hr : r.WellFormed strict) (hlive : ∀ x ∈ d.handles, r.Live x)
    (hstrict : strict → ∀ x ∈ d.components, r.methodAt? x = none) (hp : d.isPrimitive = false) :
    Grows strict r (r.intern relaxed (r.canonical d)).2 :=
  grows_intern hr (canonical_canonical r d) (fun x hx => hlive x (mem_handles_canonical hx))
    (fun hs x hx => hstrict hs x (mem_components_canonical hx))
    ((isPrimitive_canonical r d).trans hp)

/-! ### Classes by name -/

theorem mem_handles_bareClass {kind : ClassKind} {owner : Option TypeHandle} {x : TypeHandle} :
    x ∈ (Descriptor.classType (bareClass name kind owner)).handles ↔ x ∈ owner := by
  simp [Descriptor.handles, Descriptor.components, Descriptor.compared, bareClass]

/-- The first class of a name is a class. -/
theorem WellFormed.get?_of_findClass? (hr : r.WellFormed strict) (h : r.findClass? name = some a) :
    ∃ c, r.get? a = some (.classType c) := by
  obtain ⟨d, hd, hk⟩ := hr.filed (k := .className name) (List.mem_of_mem_head? h)
  obtain ⟨c, rfl, -⟩ := Descriptor.exists_of_key_eq_className hk
  exact ⟨c, hd⟩

/-- The first class of a name stays the first. -/
theorem Grows.findClass? (h : Grows strict r s) (hr : r.WellFormed strict)
    (ha : r.findClass? name = some a) : s.findClass? name = some a :=
  have hbare : r.lookUp true (.classType (bareClass name .regular none)) = some a := ha
  h.lookUp hr (fun x hx => by cases mem_handles_bareClass.1 hx) hbare

theorem buildRelaxedClass_of_findClass? {c : ClassType} (h : r.findClass? c.name = some a) :
    r.buildRelaxedClass c = (a, r) := by
  obtain ⟨rest, hrest⟩ := List.head?_eq_some_iff.1 h
  rw [buildRelaxedClass, hrest]

section BareClass

variable {kind : ClassKind} {owner : Option TypeHandle} (hr : r.WellFormed strict)
  (howner : ∀ x ∈ owner, r.Live x ∧ r.methodAt? x = none)

include hr howner

theorem grows_buildRelaxedClass :
    Grows strict r (r.buildRelaxedClass (bareClass name kind owner)).2 := by
  rw [buildRelaxedClass_eq]
  exact grows_intern_canonical (d := .classType _) hr
    (fun x hx => (howner x (mem_handles_bareClass.1 hx)).1)
    (fun _ x hx => (howner x (mem_handles_bareClass.1
      (Descriptor.mem_handles_of_components hx))).2) rfl

theorem findClass?_buildRelaxedClass :
    (r.buildRelaxedClass (bareClass name kind owner)).2.findClass? name =
      some (r.buildRelaxedClass (bareClass name kind owner)).1 := by
  rw [buildRelaxedClass_eq]
  have hmem {x : TypeHandle}
      (hx : x ∈ (r.canonical (.classType (bareClass name kind owner))).handles) : x ∈ owner :=
    mem_handles_bareClass.1 (mem_handles_canonical hx)
  exact lookUp_intern hr (canonical_canonical r _) (fun x hx => (howner x (hmem hx)).1)
    (fun _ x hx => (howner x (hmem (Descriptor.mem_handles_of_components hx))).2) rfl true

end BareClass

/-- A class is built after the class around it, and is then the first of its name. -/
theorem grows_buildClass (hr : r.WellFormed strict) (name : Text) :
    Grows strict r (r.buildClass name).2 ∧
      (r.buildClass name).2.findClass? name = some (r.buildClass name).1 := by
  fun_induction buildClass r name with
  | case1 name h =>
    exact ⟨grows_buildRelaxedClass hr (by nofun), findClass?_buildRelaxedClass hr (by nofun)⟩
  | case2 name owner h around s hbuilt ih =>
    rw [hbuilt] at ih
    obtain ⟨hgrows, hfound⟩ := ih
    have hs := hgrows.wellFormed hr
    obtain ⟨c, hc⟩ := hs.get?_of_findClass? hfound
    have howner : ∀ x ∈ some around, s.Live x ∧ s.methodAt? x = none := by
      rintro _ ⟨⟩
      exact ⟨live_of_get? hc, (methodAt?_eq_none_iff hc).2 rfl⟩
    exact ⟨hgrows.trans (grows_buildRelaxedClass hs howner), findClass?_buildRelaxedClass hs howner⟩

/-- A class that is there is found by its name. -/
theorem buildClass_of_findClass? (hr : r.WellFormed strict) (h : r.findClass? name = some a) :
    (r.buildClass name).1 = a := by
  rw [buildClass]
  split
  · rw [buildRelaxedClass_of_findClass? h]
  · next owner _ =>
    have hfound := (grows_buildClass hr owner).1.findClass? hr h
    exact congrArg Prod.fst (buildRelaxedClass_of_findClass? (c := bareClass name _ _) hfound)

theorem TypeRequest.grows {q : TypeRequest} (hr : r.WellFormed strict) (hlive : q.Live r)
    (hstrict : strict → q.Strict r) : Grows strict r (q.run r).2 := by
  cases hq : q.descriptor? with
  | some d =>
    rw [run_of_descriptor? hq]
    exact grows_intern_canonical hr (hlive d hq) (fun hs => hstrict hs d hq)
      (isPrimitive_of_descriptor? hq)
  | none =>
    cases q with
    | named name =>
      rw [TypeRequest.run, buildType]
      split
      · exact .refl
      · exact (grows_buildClass hr name).1
    | className name => exact (grows_buildClass hr name).1
    | classOfKind name kind => exact grows_buildRelaxedClass hr (by nofun)
    | _ => cases hq

/-! ### Changed copies -/

theorem get?_of_classAt? {c : ClassType} (h : r.classAt? a = some c) :
    r.get? a = some (.classType c) := by
  unfold classAt? at h
  split at h
  · next c' hc => rw [hc, Option.some.inj h]
  · cases h

theorem get?_of_variableAt? {v : VariableType} (h : r.variableAt? a = some v) :
    r.get? a = some (.variableType v) := by
  unfold variableAt? at h
  split at h
  · next v' hv => rw [hv, Option.some.inj h]
  · cases h

theorem get?_of_methodAt? {m : MethodType} (h : r.methodAt? a = some m) :
    r.get? a = some (.methodType m) := by
  unfold methodAt? at h
  split at h
  · next m' hm => rw [hm, Option.some.inj h]
  · cases h

/-- A descriptor that differs from another one in the given handles only. -/
structure Revises (e : Descriptor) (handles components : List TypeHandle) (d : Descriptor) :
    Prop where
  handles : ∀ x ∈ d.handles, x ∈ e.handles ∨ x ∈ handles
  components : ∀ x ∈ d.components, x ∈ e.components ∨ x ∈ components
  isPrimitive : d.isPrimitive = false

section Copies

variable {p : TypeHandle × Registry}

theorem withClass_cases {unchanged : ClassType → Bool} {change : ClassType → ClassType}
    (h : r.withClass a unchanged change = some p) :
    ∃ k, r.get? a = some (.classType k) ∧
      (p = (a, r) ∨ p = r.intern false (r.canonical (.classType (change k)))) := by
  obtain ⟨k, hk, rfl⟩ := Option.map_eq_some_iff.1 h
  refine ⟨k, get?_of_classAt? hk, ?_⟩
  split
  · exact .inl rfl
  · exact .inr (buildExactClass_eq r (change k))

theorem variable_cases {unchanged : VariableType → Prop} [DecidablePred unchanged]
    {change : VariableType → VariableType}
    (h : ((r.variableAt? a).map fun v => if unchanged v then (a, r) else r.buildVariable (change v)) =
      some p) :
    ∃ v, r.get? a = some (.variableType v) ∧
      (p = (a, r) ∨ p = r.intern false (r.canonical (.variableType (change v)))) := by
  obtain ⟨v, hv, rfl⟩ := Option.map_eq_some_iff.1 h
  refine ⟨v, get?_of_variableAt? hv, ?_⟩
  split
  · exact .inl rfl
  · exact .inr (buildVariable_eq r (change v))

theorem method_cases {unchanged : MethodType → Prop} [DecidablePred unchanged]
    {change : MethodType → MethodType}
    (h : ((r.methodAt? a).map fun m => if unchanged m then (a, r) else r.buildMethod (change m)) =
      some p) :
    ∃ m, r.get? a = some (.methodType m) ∧
      (p = (a, r) ∨ p = r.intern false (r.canonical (.methodType (change m)))) := by
  obtain ⟨m, hm, rfl⟩ := Option.map_eq_some_iff.1 h
  refine ⟨m, get?_of_methodAt? hm, ?_⟩
  split
  · exact .inl rfl
  · exact .inr (buildMethod_eq r (change m))

/-- A change of anything but the name gives the type itself, or asks for a descriptor that differs in
the new handles only. -/
theorem TypeChange.run_cases {c : TypeChange} (hname : ∀ n, c ≠ .name n) (h : c.run r a = some p) :
    ∃ e, r.get? a = some e ∧ (p = (a, r) ∨
      ∃ d, Revises e c.handles c.components d ∧ p = r.intern false (r.canonical d)) := by
  cases c with
  | name n => exact absurd rfl (hname n)
  | classFlags | classMembers | classMethods | classInterfaces | classSupertype =>
    obtain ⟨k, hk, hp⟩ := withClass_cases h
    refine ⟨_, hk, hp.imp_right fun hp => ⟨_, ⟨fun x hx => ?_, fun x hx => ?_, rfl⟩, hp⟩⟩ <;>
      grind [Descriptor.handles, Descriptor.components, Descriptor.compared, TypeChange.handles,
        TypeChange.components]
  | variableType | variableOwner =>
    obtain ⟨v, hv, hp⟩ := variable_cases h
    refine ⟨_, hv, hp.imp_right fun hp => ⟨_, ⟨fun x hx => ?_, fun x hx => ?_, rfl⟩, hp⟩⟩ <;>
      grind [Descriptor.handles, Descriptor.components, Descriptor.compared, TypeChange.handles,
        TypeChange.components]
  | methodName | methodFlags | declaringType | resolvedSignature =>
    obtain ⟨m, hm, hp⟩ := method_cases h
    refine ⟨_, hm, hp.imp_right fun hp => ⟨_, ⟨fun x hx => ?_, fun x hx => ?_, rfl⟩, hp⟩⟩ <;>
      grind [Descriptor.handles, Descriptor.components, Descriptor.compared, TypeChange.handles,
        TypeChange.components]

/-- A type under another name is the type itself, a type that is asked for, or a generic type with its
raw type renamed. -/
theorem withNameWithin_cases {n : Nat} (h : r.withNameWithin name (n + 1) a = some p) :
    ∃ e, r.get? a = some e ∧ ((p = (a, r) ∧ e.methodName? = none) ∨
      (∃ d, Revises e [] [] d ∧ d.methodName? = none ∧ p = r.intern false (r.canonical d)) ∨
      ∃ raw arguments q, e = .parameterized raw arguments ∧
        r.withNameWithin name n raw = some q ∧
        (p = (a, q.2) ∨ p = q.2.intern false (q.2.canonical (.parameterized q.1 arguments)))) := by
  rw [withNameWithin] at h
  have hself {e d : Descriptor} (hhandles : d.handles = e.handles)
      (hcomponents : d.components = e.components) (hp : d.isPrimitive = false) :
      Revises e [] [] d := ⟨fun x hx => .inl (hhandles ▸ hx), fun x hx => .inl (hcomponents ▸ hx), hp⟩
  split at h
  · next c hc =>
    refine ⟨_, hc, ?_⟩
    split at h
    · exact .inl ⟨(Option.some.inj h).symm, rfl⟩
    · exact .inr (.inl ⟨.classType { c with name }, hself rfl rfl rfl, rfl,
        (Option.some.inj h).symm.trans (buildExactClass_eq r _)⟩)
  · next hs =>
    exact ⟨_, hs, .inr (.inl ⟨.shallow name, hself rfl rfl rfl, rfl,
      (Option.some.inj h).symm.trans (buildOther_eq r rfl)⟩)⟩
  · next hs =>
    exact ⟨_, hs, .inr (.inl ⟨.cyclic name, hself rfl rfl rfl, rfl,
      (Option.some.inj h).symm.trans (buildOther_eq r rfl)⟩)⟩
  · next bound hv =>
    exact ⟨_, hv, .inr (.inl ⟨.typeVariable name bound, hself rfl rfl rfl, rfl,
      (Option.some.inj h).symm.trans (buildOther_eq r rfl)⟩)⟩
  · next raw arguments hp =>
    obtain ⟨q, hq, rfl⟩ := Option.map_eq_some_iff.1 h
    refine ⟨_, hp, .inr (.inr ⟨raw, arguments, q, rfl, hq, ?_⟩)⟩
    dsimp only
    split
    · exact .inl rfl
    · exact .inr (buildParameterized_eq q.2 q.1 arguments)
  · cases h

end Copies

/-- A descriptor that differs from a registered one in live handles only may be registered. -/
theorem Revises.grows_intern {handles components : List TypeHandle}
    (hd : Revises e handles components d) (hr : r.WellFormed strict) (he : r.get? h = some e)
    (hlive : ∀ x ∈ handles, r.Live x) (hstrict : strict → ∀ x ∈ components, r.methodAt? x = none) :
    Grows strict r (r.intern relaxed (r.canonical d)).2 :=
  grows_intern_canonical hr
    (fun x hx => (hd.handles x hx).elim (hr.descends.live he) (hlive x))
    (fun hs x hx => (hd.components x hx).elim (hr.strictly hs he x) (hstrict hs x)) hd.isPrimitive

/-- The registry has grown, and the handle names a type that is no method. -/
structure GivesType (strict : Prop) (r : Registry) (p : TypeHandle × Registry) : Prop where
  grows : Grows strict r p.2
  type : ∃ e, p.2.get? p.1 = some e ∧ e.methodName? = none

theorem givesType_intern (hr : r.WellFormed strict) (hlive : ∀ x ∈ d.handles, r.Live x)
    (hstrict : strict → ∀ x ∈ d.components, r.methodAt? x = none) (hp : d.isPrimitive = false)
    (hname : d.methodName? = none) : GivesType strict r (r.intern relaxed (r.canonical d)) where
  grows := grows_intern_canonical hr hlive hstrict hp
  type := by
    obtain ⟨e, he, hk⟩ := exists_get?_intern hr (canonical_canonical r d)
      (fun x hx => hlive x (mem_handles_canonical hx))
      (fun hs x hx => hstrict hs x (mem_components_canonical hx))
      ((isPrimitive_canonical r d).trans hp) relaxed
    refine ⟨e, he, ?_⟩
    rw [Descriptor.methodName?_eq_of_key_eq hk, ← hname]
    cases d <;> rfl

/-- A type under another name is no method. -/
theorem givesType_withNameWithin (hr : r.WellFormed strict) {n : Nat} {p : TypeHandle × Registry}
    (h : r.withNameWithin name n a = some p) : GivesType strict r p := by
  induction n generalizing a p with
  | zero => cases h
  | succ n ih =>
    obtain ⟨e, he, ⟨rfl, hname⟩ | ⟨d, hd, hname, rfl⟩ | ⟨raw, arguments, q, rfl, hq, hp⟩⟩ :=
      withNameWithin_cases h
    · exact ⟨.refl, e, he, hname⟩
    · exact givesType_intern hr
        (fun x hx => (hd.handles x hx).elim (hr.descends.live he) (by nofun))
        (fun hs x hx => (hd.components x hx).elim (hr.strictly hs he x) (by nofun))
        hd.isPrimitive hname
    · obtain ⟨hgrows, e, hrenamed, hname⟩ := ih hq
      have hold {x : TypeHandle} (hx : x ∈ arguments) : r.Live x :=
        hr.descends.live he (List.mem_cons_of_mem _ hx)
      rcases hp with rfl | rfl
      · exact ⟨hgrows, _, ((live_of_get? he).get?_eq hgrows.slots).trans he, rfl⟩
      · have hbuilt : GivesType strict q.2
            (q.2.intern false (q.2.canonical (.parameterized q.1 arguments))) := by
          refine givesType_intern (hgrows.wellFormed hr) (fun x hx => ?_) (fun hs x hx => ?_) rfl rfl
          · rcases List.mem_cons.1 hx with rfl | hx
            · exact live_of_get? hrenamed
            · exact (hold hx).grown hgrows.slots
          · rcases List.mem_cons.1 hx with rfl | hx
            · exact (methodAt?_eq_none_iff hrenamed).2 hname
            · rw [(hold hx).methodAt?_eq hgrows.slots]
              exact hr.strictly hs he x (List.mem_cons_of_mem _ hx)
        exact ⟨hgrows.trans hbuilt.grows, hbuilt.type⟩

theorem TypeChange.grows {c : TypeChange} {p : TypeHandle × Registry} (hr : r.WellFormed strict)
    (hlive : ∀ x ∈ c.handles, r.Live x)
    (hstrict : strict → ∀ x ∈ c.components, r.methodAt? x = none) (hp : c.run r a = some p) :
    Grows strict r p.2 := by
  by_cases hname : ∃ n, c = .name n
  · obtain ⟨n, rfl⟩ := hname
    exact (givesType_withNameWithin hr hp).grows
  · obtain ⟨e, he, rfl | ⟨d, hd, rfl⟩⟩ := TypeChange.run_cases (fun n h => hname ⟨n, h⟩) hp
    · exact .refl
    · exact hd.grows_intern hr he hlive hstrict

/-- A step other than clearing only registers. -/
theorem RegistryStep.grows {o : RegistryStep} (hr : r.WellFormed strict) (hlive : o.Live r)
    (hstrict : strict → o.Strict r) (ho : o ≠ .clear) : Grows strict r (o.run r) := by
  cases o with
  | build q => exact TypeRequest.grows hr hlive hstrict
  | copy of c =>
    rw [RegistryStep.run]
    cases hp : c.run r of with
    | none => exact .refl
    | some p => exact TypeChange.grows hr hlive.2 hstrict hp
  | clear => exact absurd rfl ho

theorem RegistryStep.wellFormed {o : RegistryStep} (hr : r.WellFormed strict) (hlive : o.Live r)
    (hstrict : strict → o.Strict r) : (o.run r).WellFormed strict := by
  by_cases ho : o = .clear
  · subst ho
    exact .fresh _
  · exact (RegistryStep.grows hr hlive hstrict ho).wellFormed hr

/-- Steps on live handles keep a registry well formed. -/
theorem Reaches.wellFormed {allowed : Registry → RegistryStep → Prop} (h : Reaches allowed r s)
    (hallowed : ∀ {r o}, allowed r o → o.Live r ∧ (strict → o.Strict r))
    (hr : r.WellFormed strict) : s.WellFormed strict := by
  induction h with
  | refl => exact hr
  | step _ o ho ih => exact RegistryStep.wellFormed ih (hallowed ho).1 (hallowed ho).2

/-- Steps other than clearing only register. -/
theorem Reaches.grows {allowed : Registry → RegistryStep → Prop} (h : Reaches allowed r s)
    (hallowed : ∀ {r o}, allowed r o → o.Live r ∧ (strict → o.Strict r) ∧ o ≠ .clear)
    (hr : r.WellFormed strict) : Grows strict r s := by
  induction h with
  | refl => exact .refl
  | step _ o ho ih =>
    obtain ⟨hlive, hstrict, hclear⟩ := hallowed ho
    exact ih.trans (RegistryStep.grows (ih.wellFormed hr) hlive hstrict hclear)

/-- Steps on live handles lead from a new registry to well-formed ones. -/
theorem Reaches.wellFormed_of_live (h : Reaches RegistryStep.Live .new r) : r.WellFormed False :=
  h.wellFormed (fun hlive => ⟨hlive, False.elim⟩) (.fresh 0)

/-- Steps on live handles other than clearing only register. -/
theorem Reaches.grows_of_live (h : Reaches (fun r o => o.Live r ∧ o ≠ .clear) r s)
    (hr : r.WellFormed False) : Grows False r s :=
  h.grows (fun hstep => ⟨hstep.1, False.elim, hstep.2⟩) hr

end Registry

end JavaSource
