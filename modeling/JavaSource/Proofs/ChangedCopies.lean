import JavaSource.Proofs.ClassVariants
import JavaSource.Proofs.Interning

/-!
# Changed copies

A changed copy is a request for the changed descriptor.  The answer may be an older descriptor that
only agrees with the requested one (`Registry.carries_intern`), but what agrees with a descriptor
under its own key is that descriptor (`Registry.Settled.intern_eq`).

So a variable or method comes back when a field of its changed copy gets the old value again
(`Registry.restores_of_reaches`).  The copy of a class has the flags, members or interfaces that are
asked for, as far as structural equality tells them apart; since it does not compare methods, a class
with other methods is the class itself (`Registry.copies_of_reaches`).
-/

namespace JavaSource

theorem ClassType.agrees_iff {same : TypeHandle → TypeHandle → Bool} {k c : ClassType} :
    k.agrees same c ↔ k.kind = c.kind ∧ k.flags = c.flags ∧ k.name = c.name ∧
      handlesAgree same k.members c.members ∧ handlesAgree same k.interfaces c.interfaces ∧
      optionsAgree same k.supertype c.supertype ∧
      handlesAgree same k.annotations c.annotations := by
  simp only [agrees, Bool.and_eq_true, beq_iff_eq, and_assoc]

namespace Registry

variable {r s : Registry} {d e : Descriptor} {a b h : TypeHandle} {name : Text} {strict : Prop}

/-! ### Answers that agree -/

theorem agrees_self (r : Registry) (hd : d.isSought) : d.agrees r.deepEqual d :=
  Descriptor.agrees_refl (deepEqual_self r) (by rintro rfl; cases hd)

/-- The handle names a descriptor that agrees with this one, under the same key. -/
def Carries (r : Registry) (h : TypeHandle) (d : Descriptor) : Prop :=
  ∃ e, r.get? h = some e ∧ e.key = d.key ∧ e.agrees r.deepEqual d

/-- A descriptor that is sought is answered with one that agrees with it, unless a richer class takes
its place. -/
theorem carries_intern (hr : r.WellFormed strict) (hd : d.isSought) (hricher : r.richer? d = none) :
    (r.intern false d).2.Carries (r.intern false d).1 d := by
  rw [intern]
  split
  · next a hfound =>
    obtain ⟨e, he, hk⟩ := hr.filed (mem_under_of_lookUp hfound)
    rw [lookUp, if_neg Bool.false_ne_true, hricher, Option.or_none] at hfound
    have hanswers := List.find?_some hfound
    rw [answers, hd, he] at hanswers
    exact ⟨e, he, hk, by simpa using hanswers⟩
  · exact ⟨d, get?_register_self r d, rfl, agrees_self _ hd⟩

/-- What agrees with a descriptor under its key is answered with that descriptor. -/
theorem Settled.intern_eq (h : r.Settled) (hr : r.WellFormed strict) (hd : r.get? a = some d)
    (he : e.isSought) (hkey : d.key = e.key) (hagrees : d.agrees r.deepEqual e) :
    r.intern false e = (a, r) := by
  have hmem : a ∈ r.under e.key :=
    hkey ▸ hr.listed hd (Descriptor.isPrimitive_of_key_eq he hkey)
  have hanswers : r.answers e a := by rw [answers, hd, Option.any_some, hagrees, Bool.or_true]
  obtain ⟨b, hfound⟩ := Option.isSome_iff_exists.1 (List.find?_isSome.2 ⟨a, hmem, hanswers⟩)
  obtain ⟨x, hx, hk⟩ := hr.filed (List.mem_of_find?_eq_some hfound)
  have hbanswers := List.find?_some hfound
  rw [answers, he, hx] at hbanswers
  have hxe : x.agrees r.deepEqual e := by simpa using hbanswers
  have htrans (x y z : TypeHandle) (hxy : r.deepEqual x y) (hyz : r.deepEqual y z) :
      r.deepEqual x z := deepEqualWithin_trans hxy hyz
  -- the first answer and the descriptor both agree with the request, hence with one another
  have hdx : d.agrees r.deepEqual x :=
    Descriptor.agrees_trans htrans hagrees (agrees_comm r x e ▸ hxe)
  obtain rfl := h.apart hd hx (hkey.trans hk.symm) hdx
  rw [intern, lookUp, if_neg Bool.false_ne_true, hfound, Option.some_or]

end Registry

/-! ### Variables and methods -/

theorem optionsAgree_refl {same : TypeHandle → TypeHandle → Bool} (hr : ∀ x, same x x)
    (a : Option TypeHandle) : optionsAgree same a a :=
  optionsAgree_imp (fun x _ y _ (hxy : (x == y) = true) => eq_of_beq hxy ▸ hr x)
    (optionsAgree_beq.2 rfl)

theorem signaturesAgree_refl {same : TypeHandle → TypeHandle → Bool} (hr : ∀ x, same x x)
    (a : Option Signature) : signaturesAgree same a a :=
  signaturesAgree_imp (fun x _ y _ (hxy : (x == y) = true) => eq_of_beq hxy ▸ hr x)
    (signaturesAgree_beq.2 rfl)

namespace TypeChange

variable {c back : TypeChange} {d e : Descriptor}

/-- A variable or a method with the change; anything else as it is. -/
def revise : TypeChange → Descriptor → Descriptor
  | variableType type, .variableType v => .variableType { v with type }
  | variableOwner owner, .variableType v => .variableType { v with owner }
  | methodName n, .methodType m => .methodType { m with name := n }
  | methodFlags flags, .methodType m => .methodType { m with flags }
  | declaringType declaring, .methodType m => .methodType { m with declaring }
  | resolvedSignature resolved, .methodType m => .methodType { m with resolved }
  | _, d => d

/-- The second change is of the same field as the first, to the value that it has in a variable or a
method. -/
inductive Restored : TypeChange → Descriptor → TypeChange → Prop where
  | variableType (type : Option TypeHandle) (v : VariableType) :
      Restored (.variableType type) (.variableType v) (.variableType v.type)
  | variableOwner (owner : TypeHandle) (v : VariableType) :
      Restored (.variableOwner owner) (.variableType v) (.variableOwner v.owner)
  | methodName (n : Text) (m : MethodType) :
      Restored (.methodName n) (.methodType m) (.methodName m.name)
  | methodFlags (flags : Flags) (m : MethodType) :
      Restored (.methodFlags flags) (.methodType m) (.methodFlags m.flags)
  | declaringType (declaring : TypeHandle) (m : MethodType) :
      Restored (.declaringType declaring) (.methodType m) (.declaringType m.declaring)
  | resolvedSignature (resolved : Option Signature) (m : MethodType) :
      Restored (.resolvedSignature resolved) (.methodType m) (.resolvedSignature m.resolved)

namespace Restored

/-- A change to the value that is there changes nothing. -/
theorem revise_eq (h : Restored c d c) : c.revise d = d := by
  cases h <;> rfl

/-- What is registered under the key of the changed descriptor has the field. -/
theorem exists_of_key_eq (h : Restored c d back) (hk : e.key = (c.revise d).key) :
    ∃ c', Restored back e c' := by
  cases h with
  | variableType => cases e <;> first | exact ⟨_, .variableType _ _⟩ | cases hk
  | variableOwner => cases e <;> first | exact ⟨_, .variableOwner _ _⟩ | cases hk
  | methodName => cases e <;> first | exact ⟨_, .methodName _ _⟩ | cases hk
  | methodFlags => cases e <;> first | exact ⟨_, .methodFlags _ _⟩ | cases hk
  | declaringType => cases e <;> first | exact ⟨_, .declaringType _ _⟩ | cases hk
  | resolvedSignature => cases e <;> first | exact ⟨_, .resolvedSignature _ _⟩ | cases hk

/-- With the old value in the field again, what agrees with the changed descriptor has the key of the
descriptor and agrees with it. -/
theorem agrees {same : TypeHandle → TypeHandle → Bool} (hr : ∀ x, same x x)
    (h : Restored c d back) (hk : e.key = (c.revise d).key) (ha : (c.revise d).agrees same e) :
    d.key = (back.revise e).key ∧ d.agrees same (back.revise e) := by
  cases h <;> cases e <;> first
    | cases hk
    | simp_all [revise, Descriptor.key, Descriptor.agrees, VariableType.agrees, MethodType.agrees,
        optionsAgree_refl, signaturesAgree_refl]

end Restored

end TypeChange

namespace Registry

variable {r s : Registry} {d e : Descriptor} {a b h : TypeHandle} {c back : TypeChange}
  {strict : Prop}

/-! ### There and back -/

/-- A changed copy of a variable or a method: itself where nothing changes, else what answers the
request for the changed descriptor. -/
theorem run_of_restored (hd : r.get? h = some d) (hc : c.Restored d back) :
    (back = c → c.run r h = some (h, r)) ∧
      (back ≠ c → c.run r h = some (r.intern false (c.revise d))) := by
  cases hc <;> constructor <;> intro hback <;>
    simp_all [TypeChange.run, TypeChange.revise, withVariableType, withVariableOwner,
      withMethodName, withMethodFlags, withDeclaringType, withResolvedSignature, variableAt?,
      methodAt?, buildVariable_eq, buildMethod_eq]

/-- The first change gives a copy of the type that carries the type with the change, and the second
change of that copy gives the type. -/
def Restores (r : Registry) (h : TypeHandle) (there back : TypeChange) : Prop :=
  ∃ d h' s, r.get? h = some d ∧ there.run r h = some (h', s) ∧ s.Carries h' (there.revise d) ∧
    back.run s h' = some (h, s)

theorem Settled.restores (hs : r.Settled) (hr : r.WellFormed strict) (hd : r.get? h = some d)
    (hc : c.Restored d back) (hlive : ∀ x ∈ c.handles, r.Live x)
    (hstrict : strict → ∀ x ∈ c.components, r.methodAt? x = none) : r.Restores h c back := by
  obtain ⟨hsame, hother⟩ := run_of_restored hd hc
  have hsought : (c.revise d).isSought ∧ r.richer? (c.revise d) = none := by
    cases hc <;> exact ⟨rfl, rfl⟩
  by_cases hback : back = c
  · subst hback
    rw [hc.revise_eq] at hsought
    refine ⟨d, h, r, hd, hsame rfl, ?_, hsame rfl⟩
    rw [hc.revise_eq]
    exact ⟨d, hd, rfl, agrees_self r hsought.1⟩
  obtain ⟨p, hp⟩ : ∃ p, r.intern false (c.revise d) = p := ⟨_, rfl⟩
  have hrun := hp ▸ hother hback
  have hgrows := TypeChange.grows hr hlive hstrict hrun
  have hwell := hgrows.wellFormed hr
  have hsettled := hgrows.settled hr hs
  have hcarries := carries_intern hr hsought.1 hsought.2
  rw [hp] at hcarries
  obtain ⟨e, he, hk, hagrees⟩ := hcarries
  have hd' : p.2.get? h = some d := ((live_of_get? hd).get?_eq hgrows.slots).trans hd
  obtain ⟨hkey, hrestored⟩ := hc.agrees (deepEqual_self p.2) hk (agrees_comm p.2 _ e ▸ hagrees)
  obtain ⟨c', hc'⟩ := hc.exists_of_key_eq hk
  refine ⟨d, p.1, p.2, hd, hrun, ⟨e, he, hk, hagrees⟩, ?_⟩
  obtain ⟨hsame', hother'⟩ := run_of_restored he hc'
  by_cases hback' : c' = back
  · -- the copy has the old value already, so it agrees with the type: it is the type
    subst hback'
    rw [hc'.revise_eq] at hkey hrestored
    rw [hsame' rfl, hsettled.apart hd' he hkey hrestored]
  · have hsought' : (back.revise e).isSought := by cases hc' <;> rfl
    rw [hother' hback', hsettled.intern_eq hwell hd' hsought' hkey hrestored]

/-- **Changed copies lead back.** In a registry that steps on live handles lead to, a method with
another name, other flags, another declaring type or another resolved signature carries the new value,
and it gives the method when the field gets its old value again; so does a variable with another type or
another owner. -/
theorem restores_of_reaches (hr : Reaches RegistryStep.Live .new r) (h : TypeHandle) :
    (∀ m, r.methodAt? h = some m →
      (∀ name, r.Restores h (.methodName name) (.methodName m.name)) ∧
      (∀ flags, r.Restores h (.methodFlags flags) (.methodFlags m.flags)) ∧
      (∀ declaring, r.Live declaring →
        r.Restores h (.declaringType declaring) (.declaringType m.declaring)) ∧
      ∀ resolved : Option Signature, (∀ x ∈ resolved.toList.flatMap Signature.handles, r.Live x) →
        r.Restores h (.resolvedSignature resolved) (.resolvedSignature m.resolved)) ∧
    ∀ v, r.variableAt? h = some v →
      (∀ type : Option TypeHandle, (∀ x ∈ type, r.Live x) →
        r.Restores h (.variableType type) (.variableType v.type)) ∧
      ∀ owner, r.Live owner → r.Restores h (.variableOwner owner) (.variableOwner v.owner) := by
  have hwell := hr.wellFormed_of_live
  have hrestores {d : Descriptor} {c back : TypeChange} (hd : r.get? h = some d)
      (hc : c.Restored d back) (hlive : ∀ x ∈ c.handles, r.Live x) : r.Restores h c back :=
    hr.settled.restores hwell hd hc hlive False.elim
  constructor
  · intro m hm
    have hd := get?_of_methodAt? hm
    exact ⟨fun name => hrestores hd (.methodName name m) (by nofun),
      fun flags => hrestores hd (.methodFlags flags m) (by nofun),
      fun declaring hlive => hrestores hd (.declaringType declaring m) fun x hx =>
        List.mem_singleton.1 hx ▸ hlive,
      fun resolved hlive => hrestores hd (.resolvedSignature resolved m) hlive⟩
  · intro v hv
    have hd := get?_of_variableAt? hv
    exact ⟨fun type hlive => hrestores hd (.variableType type v) fun x hx =>
        hlive x (Option.mem_toList.1 hx),
      fun owner hlive => hrestores hd (.variableOwner owner v) fun x hx =>
        List.mem_singleton.1 hx ▸ hlive⟩

/-- A variable in one method whose copy with another type is a variable in another method, of the same
signature, and back. -/
theorem restores_of_reaches_owners :
    let method (name : Text) := RegistryStep.build (.methodType
      ⟨.publicOnly, .object, name, none, none, [], [], []⟩)
    let x (owner : TypeHandle) (type : Primitive) : VariableType :=
      ⟨['x'], owner, some (.ofPrimitive type), [], .none⟩
    let r := (RegistryStep.build (.variableType (x ⟨15⟩ .long))).run <|
      (RegistryStep.build (.variableType (x ⟨14⟩ .int))).run <|
        (method ['g']).run ((method ['f']).run .new)
    let long := TypeChange.variableType (some (.ofPrimitive .long))
    r.variableAt? ⟨16⟩ = some (x ⟨14⟩ .int) ∧ r.variableAt? ⟨17⟩ = some (x ⟨15⟩ .long) ∧
      (long.run r ⟨16⟩).map (·.1) = some ⟨17⟩ ∧
      r.Restores ⟨16⟩ long (.variableType (some (.ofPrimitive .int))) := by
  intro method x r long
  have hr : Reaches RegistryStep.Live .new r :=
    .step (.step (.step (.step .refl (method ['f']) (by decide)) (method ['g']) (by decide))
      (.build (.variableType (x ⟨14⟩ .int))) (by decide))
      (.build (.variableType (x ⟨15⟩ .long))) (by decide)
  have hx : r.variableAt? ⟨16⟩ = some (x ⟨14⟩ .int) := by decide
  exact ⟨hx, by decide, by decide +kernel,
    ((restores_of_reaches hr ⟨16⟩).2 _ hx).1 (some (.ofPrimitive .long)) (by decide)⟩

/-! ### Copies of classes -/

theorem MethodFree.grown (hgrown : r.slots <+: s.slots) (h : r.MethodFree a) : s.MethodFree a := by
  induction h with
  | intro get kind _ ih =>
    exact .intro (((live_of_get? get).get?_eq hgrown).trans get) kind ih

/-- Lists that are deeply equal are one list where structural equality comes to no method. -/
theorem eq_of_handlesAgree (hr : r.WellFormed strict) {as bs : List TypeHandle}
    (hfree : ∀ b ∈ bs, r.MethodFree b) (h : handlesAgree r.deepEqual as bs) : as = bs :=
  handlesAgree_beq.1 <| handlesAgree_imp
    (fun _ _ b hb hab => beq_iff_eq.2 ((hfree b hb).eq_of_deepEqual hr hab)) h

/-- The answer is a class with a property in the registry that goes with it. -/
def GivesClass (answer : Option (TypeHandle × Registry)) (P : Registry → ClassType → Prop) : Prop :=
  ∃ h s c, answer = some (h, s) ∧ s.classAt? h = some c ∧ P s c

/-- The members of a class are in the form in which they are registered. -/
theorem Settled.canonicalMembers_eq (hs : r.Settled) {k : ClassType} (hk : r.classAt? h = some k) :
    r.canonicalMembers k.name k.members = k.members :=
  congrArg ClassType.members (Descriptor.classType.inj (hs.canonical (get?_of_classAt? hk)))

/-- A changed copy of a class with a supertype agrees with the changed class. -/
theorem Settled.givesClass_withClass (hs : r.Settled) (hr : r.WellFormed strict) {k : ClassType}
    (hk : r.classAt? h = some k) (hsupertype : k.supertype.isSome) {c : TypeChange}
    (hlive : ∀ x ∈ c.handles, r.Live x)
    (hstrict : strict → ∀ x ∈ c.components, r.methodAt? x = none)
    {unchanged : ClassType → Bool} {change : ClassType → ClassType}
    (hrun : c.run r h = r.withClass h unchanged change) (hunchanged : unchanged k → change k = k)
    (hsame : (change k).supertype = k.supertype) :
    GivesClass (r.withClass h unchanged change) fun s k' => r.slots <+: s.slots ∧
      s.WellFormed strict ∧ k'.agrees s.deepEqual (r.canonicalClass (change k)) := by
  have hget := get?_of_classAt? hk
  by_cases hu : unchanged k
  · have hcanonical : r.canonicalClass (change k) = k := by
      rw [hunchanged hu]
      exact Descriptor.classType.inj (hs.canonical hget)
    refine ⟨h, r, k, by rw [withClass, hk, Option.map_some, if_pos hu], hk, List.prefix_rfl, hr, ?_⟩
    rw [hcanonical]
    exact agrees_self r (d := .classType k) rfl
  · obtain ⟨p, hp⟩ : ∃ p, r.buildExactClass (change k) = p := ⟨_, rfl⟩
    have hanswer : r.withClass h unchanged change = some p := by
      rw [withClass, hk, Option.map_some, if_neg hu, hp]
    have hgrows := TypeChange.grows hr hlive hstrict (hrun.trans hanswer)
    rw [buildExactClass_eq] at hp
    have hricher : r.richer? (.classType (r.canonicalClass (change k))) = none := by
      obtain ⟨s, hsome⟩ := Option.isSome_iff_exists.1 hsupertype
      simp [richer?, canonicalClass, hsame, hsome]
    have hcarries := carries_intern hr (d := .classType (r.canonicalClass (change k))) rfl hricher
    rw [hp] at hcarries
    obtain ⟨e, he, hkey, hagrees⟩ := hcarries
    obtain ⟨k', rfl, -⟩ := Descriptor.exists_of_key_eq_className hkey
    exact ⟨p.1, p.2, k', hanswer, by rw [classAt?, he], hgrows.slots, hgrows.wellFormed hr, hagrees⟩

/-- A change that structural equality does not see gives the class itself. -/
theorem Settled.withClass_eq (hs : r.Settled) (hr : r.WellFormed strict) {k : ClassType}
    (hk : r.classAt? h = some k) {unchanged : ClassType → Bool} {change : ClassType → ClassType}
    (hname : (change k).name = k.name) (hmembers : (change k).members = k.members)
    (hagrees : k.agrees r.deepEqual (change k)) :
    r.withClass h unchanged change = some (h, r) := by
  have hcanonical : r.canonicalClass (change k) = change k := by
    have hsorted : r.canonicalMembers (change k).name (change k).members = (change k).members := by
      rw [hname, hmembers, hs.canonicalMembers_eq hk]
    rw [canonicalClass, hsorted]
  have hkey : (Descriptor.classType k).key = (Descriptor.classType (change k)).key :=
    congrArg RegistryKey.className hname.symm
  rw [withClass, hk, Option.map_some, buildExactClass_eq, hcanonical,
    hs.intern_eq hr (get?_of_classAt? hk) rfl hkey hagrees, ite_self]

/-- **A changed copy of a class has the change.** In a registry that steps on live handles lead to, let
a class with a supertype be given.  Its copy with other flags is a class with these flags; its copy
with other members or interfaces is a class with these, the members by name and without the one that is
for serialization only, up to structural equality, and exactly these where structural equality comes to
no method from them.  All else that tells classes apart is deeply equal to what it was.  Structural
equality does not compare the methods of a class, so the copy with other methods is the class itself,
with its own methods. -/
theorem copies_of_reaches (hr : Reaches RegistryStep.Live .new r) {k : ClassType}
    (hk : r.classAt? h = some k) (hsupertype : k.supertype.isSome) :
    (∀ flags, GivesClass (r.withClassFlags h flags) fun s k' =>
      k'.flags = flags ∧ k'.agrees s.deepEqual { k with flags }) ∧
    (∀ members, (∀ x ∈ members, r.Live x) → GivesClass (r.withClassMembers h members) fun s k' =>
      k'.agrees s.deepEqual { k with members := r.canonicalMembers k.name members } ∧
        ((∀ x ∈ members, r.MethodFree x) → k'.members = r.canonicalMembers k.name members)) ∧
    (∀ interfaces, (∀ x ∈ interfaces, r.Live x) →
      GivesClass (r.withClassInterfaces h interfaces) fun s k' =>
        k'.agrees s.deepEqual { k with interfaces } ∧
          ((∀ x ∈ interfaces, r.MethodFree x) → k'.interfaces = interfaces)) ∧
    ∀ methods, r.withClassMethods h methods = some (h, r) := by
  have hwell := hr.wellFormed_of_live
  have hsettled := hr.settled
  have hmembers := hsettled.canonicalMembers_eq hk
  refine ⟨fun flags => ?_, fun members hlive => ?_, fun interfaces hlive => ?_, fun methods =>
    hsettled.withClass_eq hwell hk rfl rfl (agrees_self r (d := .classType k) rfl)⟩
  · obtain ⟨h', s, k', hanswer, hk', -, -, hagrees⟩ := hsettled.givesClass_withClass hwell hk
      hsupertype (c := .classFlags flags) (by nofun) False.elim rfl
      (fun h => by rw [← eq_of_beq h]) rfl
    rw [canonicalClass, hmembers] at hagrees
    obtain ⟨-, hflags, -⟩ := ClassType.agrees_iff.1 hagrees
    exact ⟨h', s, k', hanswer, hk', hflags, hagrees⟩
  · obtain ⟨h', s, k', hanswer, hk', hgrown, hwell', hagrees⟩ := hsettled.givesClass_withClass hwell
      hk hsupertype (c := .classMembers members) hlive False.elim rfl
      (fun h => by rw [← eq_of_beq h]) rfl
    refine ⟨h', s, k', hanswer, hk', hagrees, fun hfree => ?_⟩
    obtain ⟨-, -, -, hmembers, -⟩ := ClassType.agrees_iff.1 hagrees
    exact eq_of_handlesAgree hwell' (fun b hb => (hfree b (mem_canonicalMembers hb)).grown hgrown)
      hmembers
  · obtain ⟨h', s, k', hanswer, hk', hgrown, hwell', hagrees⟩ := hsettled.givesClass_withClass hwell
      hk hsupertype (c := .classInterfaces interfaces) hlive False.elim rfl
      (fun h => by rw [← eq_of_beq h]) rfl
    rw [canonicalClass, hmembers] at hagrees
    refine ⟨h', s, k', hanswer, hk', hagrees, fun hfree => ?_⟩
    obtain ⟨-, -, -, -, hinterfaces, -⟩ := ClassType.agrees_iff.1 hagrees
    exact eq_of_handlesAgree hwell' (fun b hb => (hfree b hb).grown hgrown) hinterfaces

/-- The string class without and with members: the members come by name, and the one that is for
serialization only is left out. -/
theorem copies_of_reaches_string :
    let x (name : String) : VariableType := ⟨name.toList, .object, none, [], .none⟩
    let string : ClassType :=
      { bareClass "java.lang.String".toList .regular none with supertype := some .object }
    let field (name : String) := RegistryStep.build (.variableType (x name))
    let r := (RegistryStep.build (.classFrom false string)).run <|
      (field "hash").run ((field "serialPersistentFields").run ((field "value").run .new))
    r.classAt? ⟨17⟩ = some string ∧
      GivesClass (r.withClassMembers ⟨17⟩ [⟨14⟩, ⟨15⟩, ⟨16⟩]) fun s k =>
        k.agrees s.deepEqual { string with members := [⟨16⟩, ⟨14⟩] } ∧ k.members = [⟨16⟩, ⟨14⟩] := by
  intro x string field r
  have hr : Reaches RegistryStep.Live .new r :=
    .step (.step (.step (.step .refl (field "value") (by decide))
      (field "serialPersistentFields") (by decide)) (field "hash") (by decide))
      (.build (.classFrom false string)) (by decide)
  have hk : r.classAt? ⟨17⟩ = some string := by decide +kernel
  have hobject : r.MethodFree .object :=
    .intro (d := .classType objectClass) rfl rfl fun y hy => by cases hy
  have hfield (name : String) {i : Nat} (hget : r.get? ⟨i⟩ = some (.variableType (x name))) :
      r.MethodFree ⟨i⟩ :=
    .intro hget rfl fun y hy => List.mem_singleton.1 hy ▸ hobject
  have hcounted : ([⟨14⟩, ⟨15⟩, ⟨16⟩] : List TypeHandle).filter (fun h =>
      r.memberName h != "serialPersistentFields".toList) = [⟨14⟩, ⟨16⟩] := by decide +kernel
  have hsecond : r.memberName ⟨16⟩ < r.memberName ⟨14⟩ := by decide +kernel
  have hcanonical : r.canonicalMembers string.name [⟨14⟩, ⟨15⟩, ⟨16⟩] = [⟨16⟩, ⟨14⟩] := by
    rw [canonicalMembers, if_pos (by rfl), hcounted]
    simp [List.mergeSort, hsecond]
  obtain ⟨h', s, k, hanswer, hk', hagrees, hmembers⟩ :=
    (copies_of_reaches hr hk rfl).2.1 [⟨14⟩, ⟨15⟩, ⟨16⟩] (by decide +kernel)
  rw [hcanonical] at hagrees hmembers
  refine ⟨hk, h', s, k, hanswer, hk', hagrees, hmembers ?_⟩
  simp only [List.forall_mem_cons]
  exact ⟨hfield "value" (by decide +kernel),
    hfield "serialPersistentFields" (by decide +kernel),
    hfield "hash" (by decide +kernel), List.forall_mem_nil _⟩

/-- A class with other methods does not have them; and a class with an interface that differs from its
own in the name of a method only, were methods interfaces, does not have it. -/
theorem exists_copy_ne :
    let method (name : Text) := RegistryStep.build (.methodType
      ⟨.publicOnly, .object, name, none, none, [], [], []⟩)
    let c : ClassType := { bareClass ['A'] .regular none with
      interfaces := [⟨14⟩]
      supertype := some .object }
    let r := (RegistryStep.build (.classFrom false c)).run <|
      (method ['g']).run ((method ['f']).run .new)
    Reaches RegistryStep.Live .new r ∧ r.classAt? ⟨16⟩ = some c ∧ r.Live ⟨15⟩ ∧
      (∃ s k, r.withClassMethods ⟨16⟩ [⟨15⟩] = some (⟨16⟩, s) ∧ s.classAt? ⟨16⟩ = some k ∧
        k.methods ≠ [⟨15⟩]) ∧
      ∃ s k, r.withClassInterfaces ⟨16⟩ [⟨15⟩] = some (⟨16⟩, s) ∧ s.classAt? ⟨16⟩ = some k ∧
        k.interfaces ≠ [⟨15⟩] := by
  intro method c r
  have hr : Reaches RegistryStep.Live .new r :=
    .step (.step (.step .refl (method ['f']) (by decide)) (method ['g']) (by decide))
      (.build (.classFrom false c)) (by decide)
  have hwell := hr.wellFormed_of_live
  have hclass : r.classAt? ⟨16⟩ = some c := by decide +kernel
  exact ⟨hr, hclass, by decide,
    ⟨r, c, hr.settled.withClass_eq hwell hclass rfl rfl (by decide +kernel), hclass, by decide⟩,
    ⟨r, c, hr.settled.withClass_eq hwell hclass rfl rfl (by decide +kernel), hclass, by decide⟩⟩

end Registry

end JavaSource
