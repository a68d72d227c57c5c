import JavaSource.Proofs.Requests

/-!
# Interning

A request that is repeated is answered with the same handle (`Registry.run_eq_of_reaches`).  Handles
that are structurally equal are one handle (`Registry.eq_of_deepEqual_of_reaches`), and a handle
carries the fields that were asked for (`Registry.get?_run_of_reaches`), as long as no method is
compared: structural equality leaves out the name of a method, so types that differ in the methods
that they name can be confused (`Registry.exists_get?_run_ne`).
-/

namespace JavaSource

/-- The handles of a variable or a method that are compared by structure when it is looked up; the
other handles of a descriptor belong to its key. -/
def Descriptor.sought : Descriptor → List TypeHandle
  | variableType v => v.owner :: v.annotations
  | methodType m =>
    m.generic.toList.flatMap Signature.handles ++ m.resolved.toList.flatMap Signature.handles ++
      m.thrown ++ m.annotations
  | _ => []

namespace Registry

variable {r s : Registry} {d e : Descriptor} {a b h : TypeHandle} {strict : Prop}

/-! ### Repeated requests -/

section Repeated

variable (hr : r.WellFormed strict)

include hr

theorem Grows.intern_canonical_eq {relaxed : Bool} (hlive : ∀ x ∈ d.handles, r.Live x)
    (hstrict : strict → ∀ x ∈ d.components, r.methodAt? x = none) (hp : d.isPrimitive = false)
    (h : Grows strict (r.intern relaxed (r.canonical d)).2 s) :
    s.intern relaxed (s.canonical d) = ((r.intern relaxed (r.canonical d)).1, s) := by
  have hbuilt : Grows strict r (r.intern relaxed (r.canonical d)).2 :=
    grows_intern_canonical hr hlive hstrict hp
  have hcanonical : ∀ x ∈ (r.canonical d).handles, r.Live x := fun x hx =>
    hlive x (mem_handles_canonical hx)
  have hfound := lookUp_intern hr (canonical_canonical r d) hcanonical
    (fun hs x hx => hstrict hs x (mem_components_canonical hx))
    ((isPrimitive_canonical r d).trans hp) relaxed
  have hlater := h.lookUp (hbuilt.wellFormed hr) (fun x hx => (hcanonical x hx).grown hbuilt.slots)
    hfound
  rw [canonical_eq (hbuilt.trans h).slots hlive, intern, hlater]

theorem Grows.buildClass_eq {name : Text} (h : Grows strict (r.buildClass name).2 s) :
    (s.buildClass name).1 = (r.buildClass name).1 := by
  obtain ⟨hbuilt, hfound⟩ := grows_buildClass hr name
  have hr' := hbuilt.wellFormed hr
  exact buildClass_of_findClass? (h.wellFormed hr') (h.findClass? hr' hfound)

theorem Grows.buildClassOfKind_eq {name : Text} {kind : ClassKind}
    (h : Grows strict (r.buildClassOfKind name kind).2 s) :
    (s.buildClassOfKind name kind).1 = (r.buildClassOfKind name kind).1 := by
  have hbuilt : Grows strict r (r.buildClassOfKind name kind).2 :=
    grows_buildRelaxedClass hr (by nofun)
  have hfound : (r.buildClassOfKind name kind).2.findClass? name =
      some (r.buildClassOfKind name kind).1 := findClass?_buildRelaxedClass hr (by nofun)
  have hlater := h.findClass? (hbuilt.wellFormed hr) hfound
  rw [buildClassOfKind, buildRelaxedClass_of_findClass? (c := bareClass name kind none) hlater]

/-- A request is answered as it was before descriptors were registered. -/
theorem Grows.run_eq {q : TypeRequest} (hlive : q.Live r) (hstrict : strict → q.Strict r)
    (h : Grows strict (q.run r).2 s) : (q.run s).1 = (q.run r).1 := by
  cases hq : q.descriptor? with
  | some d =>
    rw [run_of_descriptor? hq] at h ⊢
    rw [run_of_descriptor? hq, h.intern_canonical_eq hr (hlive d hq) (fun hs => hstrict hs d hq)
      (isPrimitive_of_descriptor? hq)]
  | none =>
    cases q with
    | named name =>
      rw [TypeRequest.run, buildType] at h ⊢
      rw [TypeRequest.run, buildType]
      cases hname : Primitive.ofKeyword? name with
      | some p => rfl
      | none =>
        rw [hname] at h
        exact h.buildClass_eq hr
    | className name => exact h.buildClass_eq hr
    | classOfKind name kind => exact h.buildClassOfKind_eq hr
    | _ => cases hq

end Repeated

/-- **Interning is stable.** In a registry that steps on live handles lead to, a request is answered
with the same handle when it is repeated after further such steps, unless the registry is
cleared. -/
theorem run_eq_of_reaches (hr : Reaches RegistryStep.Live .new r) {q : TypeRequest} (hq : q.Live r)
    (hs : Reaches (fun r o => o.Live r ∧ o ≠ .clear) (q.run r).2 s) :
    (q.run s).1 = (q.run r).1 := by
  have hwell : r.WellFormed False := hr.wellFormed (fun h => ⟨h, False.elim⟩) (.fresh 0)
  have hbuilt := (TypeRequest.grows hwell hq False.elim).wellFormed hwell
  exact (hs.grows (fun h => ⟨h.1, False.elim, h.2⟩) hbuilt).run_eq hwell hq False.elim

/-- A class without a supertype that was content with a richer one is so again when another class of
the name has come. -/
theorem run_eq_of_reaches_richer :
    let rich : ClassType := { bareClass ['A'] .regular none with supertype := some .object }
    let r := ((TypeRequest.classFrom false rich).run .new).2
    let q := TypeRequest.classFrom false (bareClass ['A'] .regular none)
    let o := RegistryStep.build (.classFrom false { rich with flags := .privateOnly })
    r.size = 15 ∧ q.Live r ∧ (q.run (o.run (q.run r).2)).1 = (q.run r).1 := by
  intro rich r q o
  have hq : q.Live r := by decide
  have hr : Reaches RegistryStep.Live .new r :=
    .step .refl (.build (.classFrom false rich)) (by decide)
  exact ⟨by decide, hq, run_eq_of_reaches hr hq (.step .refl o ⟨by decide +kernel, by nofun⟩)⟩

/-! ### Structural equality -/

/-- From the handle, structural equality comes to no method. -/
inductive MethodFree (r : Registry) : TypeHandle → Prop where
  | intro {a : TypeHandle} {d : Descriptor} (get : r.get? a = some d) (kind : d.methodName? = none)
      (behind : ∀ x ∈ d.compared, MethodFree r x) : MethodFree r a

/-- Descriptors are at one place if they agree, with handles that agree with themselves only, and
are not methods of different names. -/
theorem WellFormed.eq_of_agrees (hr : r.WellFormed strict) {same : TypeHandle → TypeHandle → Bool}
    (ha : r.get? a = some d) (hb : r.get? b = some e) (hname : d.methodName? = e.methodName?)
    (hsame : ∀ x, ∀ y ∈ e.compared, same x y → x = y) (h : d.agrees same e) : a = b :=
  hr.eq_of_essence_eq ha hb <| Descriptor.essence_eq_of_agrees hname <|
    Descriptor.agrees_imp (fun x _ y hy hxy => beq_iff_eq.2 (hsame x y hy hxy)) h

/-- What is structurally equal to a handle from which it comes to no method is that handle. -/
theorem MethodFree.eq_of_deepEqualWithin (hr : r.WellFormed strict) (hb : r.MethodFree b) {n : Nat}
    (h : r.deepEqualWithin n a b) : a = b := by
  induction hb generalizing n a with
  | @intro b e get kind _ ih =>
    cases n with
    | zero => exact eq_of_beq h
    | succ n =>
      rw [deepEqualWithin, Bool.or_eq_true, beq_iff_eq, get] at h
      rcases h with h | h
      · exact h
      · split at h
        · next d e' hd he =>
          obtain rfl := Option.some.inj he
          have hname : d.methodName? = e.methodName? := by
            have hsome := Descriptor.isSome_methodName?_of_agrees h
            rw [kind] at hsome ⊢
            simpa using hsome
          exact hr.eq_of_agrees hd get hname (fun x y hy hxy => ih y hy hxy) h
        · cases h

theorem MethodFree.eq_of_deepEqual (hr : r.WellFormed strict) (hb : r.MethodFree b)
    (h : r.deepEqual a b) : a = b :=
  hb.eq_of_deepEqualWithin hr h

/-- Where methods stand in the method lists of classes only, structural equality comes to none from
anything else. -/
theorem WellFormed.methodFree (hr : r.WellFormed True) (ha : r.Live a) (hm : r.methodAt? a = none) :
    r.MethodFree a := by
  induction hn : a.index using Nat.strong_induction_on generalizing a with
  | _ n ih =>
    obtain ⟨d, hd⟩ := ha.exists_get?
    refine .intro hd ((methodAt?_eq_none_iff hd).1 hm) fun x hx => ?_
    have hcomponents := Descriptor.mem_components_of_compared hx
    have hhandles := Descriptor.mem_handles_of_components hcomponents
    exact ih x.index (hn ▸ hr.descends hd x hhandles) (hr.descends.live hd hhandles)
      (hr.strictly trivial hd x hcomponents) rfl

/-- **Structural equality is identity.** Where methods are put into the method lists of classes
only, structurally equal types are one, and structurally equal methods of one name are. -/
theorem eq_of_deepEqual_of_reaches (hr : Reaches (fun r o => o.Live r ∧ o.Strict r) .new r)
    (ha : r.Live a) (hb : r.Live b) (h : r.deepEqual a b) :
    (r.methodAt? a = none → r.methodAt? b = none → a = b) ∧
      ∀ m m', r.methodAt? a = some m → r.methodAt? b = some m' → m.name = m'.name → a = b := by
  have hwell : r.WellFormed True := hr.wellFormed (fun h => ⟨h.1, fun _ => h.2⟩) (.fresh 0)
  constructor
  · intro _ hmb
    exact (hwell.methodFree hb hmb).eq_of_deepEqual hwell h
  · intro m m' hm hm' hname
    have hd := get?_of_methodAt? hm
    have he := get?_of_methodAt? hm'
    rw [deepEqual, show r.size = r.size - 1 + 1 by have : a.index < r.size := ha; omega,
      deepEqualWithin, Bool.or_eq_true, beq_iff_eq, hd, he] at h
    refine h.elim id fun h =>
      hwell.eq_of_agrees hd he (congrArg some hname) (fun x y hy hxy => ?_) h
    have hcomponents := Descriptor.mem_components_of_compared hy
    have hlive := hwell.descends.live he (Descriptor.mem_handles_of_components hcomponents)
    exact (hwell.methodFree hlive (hwell.strictly trivial he y hcomponents)).eq_of_deepEqualWithin
      hwell hxy

/-- Two methods of one signature, and one of them asked for again. -/
theorem eq_of_deepEqual_of_reaches_method :
    let method (name : Text) := RegistryStep.build (.methodType
      ⟨.publicOnly, .object, name, none, none, [], [], []⟩)
    let r := (method ['f']).run ((method ['g']).run ((method ['f']).run .new))
    r.size = 16 ∧ r.deepEqual ⟨14⟩ ⟨15⟩ ∧ r.deepEqual ⟨14⟩ ⟨14⟩ ∧
      ∀ m m', r.methodAt? ⟨14⟩ = some m → r.methodAt? ⟨14⟩ = some m' → m.name = m'.name →
        (⟨14⟩ : TypeHandle) = ⟨14⟩ := by
  intro method r
  have hr : Reaches (fun r o => o.Live r ∧ o.Strict r) .new r :=
    .step (.step (.step .refl (method ['f']) (by decide)) (method ['g']) (by decide)) (method ['f'])
      (by decide)
  exact ⟨by decide, by decide, by decide,
    (eq_of_deepEqual_of_reaches hr (by decide) (by decide) (by decide)).2⟩

/-! ### What a handle carries -/

/-- What answers a request for anything but a class is what was asked for, when no method is
compared. -/
theorem eq_of_answers (hr : r.WellFormed strict) (hd : ∀ c, d ≠ .classType c)
    (hfree : ∀ x ∈ d.sought, r.MethodFree x) (he : r.get? h = some e) (hk : e.key = d.key)
    (ha : r.answers d h) : e = d := by
  rw [answers, he, Option.any_some, Bool.or_eq_true, Bool.not_eq_true'] at ha
  rcases ha with hs | ha
  · exact Descriptor.eq_of_key_eq hs hk
  have hsame {x y : TypeHandle} (hy : y ∈ d.sought) (hxy : r.deepEqual x y) : x == y :=
    beq_iff_eq.2 ((hfree y hy).eq_of_deepEqual hr hxy)
  cases Descriptor.agrees_iff.1 ha with
  | classType => exact absurd rfl (hd _)
  | @variableType v w hagrees =>
    simp only [VariableType.agrees, Bool.and_eq_true, beq_iff_eq] at hagrees
    obtain ⟨⟨⟨⟨hname, hflags⟩, howner⟩, -⟩, hannotations⟩ := hagrees
    have howner : v.owner = w.owner := eq_of_beq (hsame (.head _) howner)
    have hannotations : v.annotations = w.annotations := handlesAgree_beq.1 <|
      handlesAgree_imp (fun x _ y hy => hsame (.tail _ hy)) hannotations
    have htype : v.type = w.type := (RegistryKey.typedName.inj hk).2
    cases v; cases w
    simp_all
  | @methodType m n hagrees =>
    simp only [MethodType.agrees, Bool.and_eq_true, beq_iff_eq] at hagrees
    obtain ⟨⟨⟨⟨⟨⟨hparameters, hflags⟩, -⟩, hgeneric⟩, hresolved⟩, hthrown⟩, hannotations⟩ := hagrees
    simp only [Descriptor.sought, List.mem_append] at hsame
    have hgeneric : m.generic = n.generic := signaturesAgree_beq.1 <|
      signaturesAgree_imp (fun x _ y hy => hsame (.inl (.inl (.inl hy)))) hgeneric
    have hresolved : m.resolved = n.resolved := signaturesAgree_beq.1 <|
      signaturesAgree_imp (fun x _ y hy => hsame (.inl (.inl (.inr hy)))) hresolved
    have hthrown : m.thrown = n.thrown := handlesAgree_beq.1 <|
      handlesAgree_imp (fun x _ y hy => hsame (.inl (.inr hy))) hthrown
    have hannotations : m.annotations = n.annotations := handlesAgree_beq.1 <|
      handlesAgree_imp (fun x _ y hy => hsame (.inr hy)) hannotations
    obtain ⟨hdeclaring, hname⟩ := RegistryKey.declaredName.inj hk
    cases m; cases n
    simp_all
  | _ => exact Descriptor.eq_of_key_eq rfl hk

/-- The handle that a request is answered with carries the descriptor that was asked for. -/
theorem WellFormed.get?_of_descriptor? {q : TypeRequest} (hr : r.WellFormed False) (hq : q.Live r)
    (hqd : q.descriptor? = some d) (hd : ∀ c, d ≠ .classType c)
    (hfree : ∀ x ∈ d.sought, r.MethodFree x) : (q.run r).2.get? (q.run r).1 = some d := by
  have hcanonical : r.canonical d = d := by
    cases d <;> first | rfl | exact absurd rfl (hd _)
  have hrelaxed : q.isRelaxed = false := by
    cases q <;> first | rfl | exact absurd (Option.some.inj hqd).symm (hd _)
  rw [run_of_descriptor? hqd, hcanonical, hrelaxed, intern]
  split
  · next h hfound =>
    obtain ⟨e, he, hk⟩ := hr.filed (mem_under_of_lookUp hfound)
    have hricher : r.richer? d = none := by
      cases d <;> first | rfl | exact absurd rfl (hd _)
    rw [lookUp, if_neg Bool.false_ne_true, hricher, Option.or_none] at hfound
    rw [he, eq_of_answers hr hd hfree he hk (List.find?_some hfound)]
  · exact get?_register_self r d

/-- **Interning keeps descriptors apart.** In a registry that steps on live handles lead to, a
request for a type other than a class gives a handle that carries the fields that were asked for, if
structural equality comes to no method from the handles that it compares in the look-up; so a later
request of this kind for another descriptor gives another handle, unless the registry is cleared. -/
theorem get?_run_of_reaches (hr : Reaches RegistryStep.Live .new r) {q : TypeRequest}
    (hq : q.Live r) (hqd : q.descriptor? = some d) (hd : ∀ c, d ≠ .classType c)
    (hfree : ∀ x ∈ d.sought, r.MethodFree x) :
    (q.run r).2.get? (q.run r).1 = some d ∧
      ∀ s, Reaches (fun r o => o.Live r ∧ o ≠ .clear) (q.run r).2 s →
        ∀ q' : TypeRequest, q'.Live s → ∀ e, q'.descriptor? = some e → (∀ c, e ≠ .classType c) →
          (∀ x ∈ e.sought, s.MethodFree x) → e ≠ d → (q'.run s).1 ≠ (q.run r).1 := by
  have hwell : r.WellFormed False := hr.wellFormed (fun h => ⟨h, False.elim⟩) (.fresh 0)
  have hgot := hwell.get?_of_descriptor? hq hqd hd hfree
  refine ⟨hgot, fun s hs q' hq' e hqe he hfree' hne heq => hne ?_⟩
  have hbuilt := (TypeRequest.grows hwell hq False.elim).wellFormed hwell
  have hgrows : Grows False (q.run r).2 s := hs.grows (fun h => ⟨h.1, False.elim, h.2⟩) hbuilt
  have hlater := hgrows.wellFormed hbuilt
  have hgot' := hlater.get?_of_descriptor? hq' hqe he hfree'
  have hall := (hgrows.trans (TypeRequest.grows hlater hq' False.elim)).slots
  rw [heq, (live_of_get? hgot).get?_eq hall, hgot] at hgot'
  exact (Option.some.inj hgot').symm

/-- Variables of one name in different classes. -/
theorem get?_run_of_reaches_owners :
    let x (owner : TypeHandle) : VariableType := ⟨['x'], owner, none, [], .none⟩
    let o := RegistryStep.build (.shallow ['A'])
    let s := ((TypeRequest.variableType (x .object)).run (o.run .new)).2
    s.get? ⟨15⟩ = some (.variableType (x .object)) ∧
      ((TypeRequest.variableType (x ⟨14⟩)).run s).1 ≠ ⟨15⟩ := by
  intro x o s
  have hfree : (o.run new).MethodFree .object := .intro rfl rfl (by nofun)
  have hfree' : s.MethodFree ⟨14⟩ := .intro rfl rfl (by nofun)
  obtain ⟨hgot, hnext⟩ := get?_run_of_reaches (.step .refl o (by decide))
    (q := .variableType (x .object)) (by decide) rfl (by nofun)
    (fun y hy => List.mem_singleton.1 hy ▸ hfree)
  exact ⟨hgot, hnext s .refl (.variableType (x ⟨14⟩)) (by decide) _ rfl (by nofun)
    (fun y hy => List.mem_singleton.1 hy ▸ hfree') (by decide)⟩

/-- A variable in a method is taken for the variable of the same name in another method, when the
methods differ in their names only. -/
theorem exists_get?_run_ne :
    ∃ (r : Registry) (v w : VariableType), Reaches RegistryStep.Live .new r ∧
      (TypeRequest.variableType v).Live r ∧
      (TypeRequest.variableType w).Live ((TypeRequest.variableType v).run r).2 ∧ v.owner ≠ w.owner ∧
      let (h, s) := (TypeRequest.variableType v).run r
      (TypeRequest.variableType w).run s = (h, s) ∧ s.get? h = some (.variableType v) := by
  let method (name : Text) := RegistryStep.build (.methodType
    ⟨.publicOnly, .object, name, none, none, [], [], []⟩)
  let x (owner : TypeHandle) : VariableType := ⟨['x'], owner, none, [], .publicOnly⟩
  exact ⟨(method ['b', 'a', 'r']).run ((method ['f', 'o', 'o']).run .new), x ⟨14⟩, x ⟨15⟩,
    .step (.step .refl (method ['f', 'o', 'o']) (by decide)) (method ['b', 'a', 'r']) (by decide),
    by decide, by decide, by decide, rfl, rfl⟩

end Registry

end JavaSource
