import JavaSource.Proofs.Filing
import JavaSource.Proofs.StructuralEquality

/-!
# What looking up first achieves

A descriptor is registered in its canonical form, and only where nothing under its key answers the
request (`Registry.Registrable`).  So no two descriptors under one key agree, and where the first
class of a name has a supertype, no class without one comes behind it (`Registry.Settled`): every
class of the name that is asked for has a supertype then (`Registry.richer_of_reaches`).
-/

namespace JavaSource

/-- The name of the class that is asked for. -/
def TypeRequest.className? : TypeRequest → Option Text
  | named name => if (Primitive.ofKeyword? name).isNone then some name else none
  | className name | classOfKind name _ => some name
  | classFrom _ c => some c.name
  | _ => none

/-- What shares a key with a descriptor that is sought is no primitive. -/
theorem Descriptor.isPrimitive_of_key_eq {d e : Descriptor} (hd : d.isSought) (h : e.key = d.key) :
    e.isPrimitive = false := by
  cases d <;> cases e <;> simp_all [isSought, key, isPrimitive]

namespace Registry

variable {r s : Registry} {d e : Descriptor} {a b h first : TypeHandle} {name : Text}
  {strict : Prop}

/-- What holds of a registry because a descriptor is looked up before it is registered. -/
structure Settled (r : Registry) : Prop where
  canonical : ∀ ⦃h d⦄, r.get? h = some d → r.canonical d = d
  /-- Descriptors under one key that agree are in one place. -/
  apart : ∀ ⦃a b d e⦄, r.get? a = some d → r.get? b = some e → d.key = e.key →
    d.agrees r.deepEqual e → a = b
  /-- No class of a name is poorer than the first. -/
  richer : ∀ ⦃name first h⦄, r.findClass? name = some first → r.hasSupertype first →
    h ∈ r.classes.get name → r.hasSupertype h

/-! ### Agreement in a registry -/

theorem deepEqual_comm (r : Registry) (a b : TypeHandle) : r.deepEqual a b = r.deepEqual b a :=
  deepEqualWithin_comm r r.size a b

theorem agrees_comm (r : Registry) (d e : Descriptor) :
    d.agrees r.deepEqual e = e.agrees r.deepEqual d := by
  have hswap : (fun x y => r.deepEqual y x) = r.deepEqual :=
    funext₂ fun x y => deepEqual_comm r y x
  rw [← Descriptor.agrees_swap r.deepEqual d e, hswap]

/-- A descriptor that may be registered agrees with none under its key. -/
theorem Registrable.agrees_eq_false (hd : r.Registrable strict d) (hr : r.WellFormed strict)
    (he : r.get? a = some e) (hkey : e.key = d.key) : e.agrees r.deepEqual d = false := by
  cases hs : d.isSought with
  | false =>
    obtain rfl := Descriptor.eq_of_key_eq hs hkey
    exact absurd rfl (hd.unlike he)
  | true =>
    have hprimitive := Descriptor.isPrimitive_of_key_eq hs hkey
    have hanswers := hd.unanswered a (hkey ▸ hr.listed he hprimitive)
    rw [answers, hs, he] at hanswers
    simpa using hanswers

/-! ### Registering -/

/-- A registry with nothing but what is there from the start. -/
protected theorem Settled.fresh (n : Nat) : (Registry.fresh n).Settled where
  canonical h d hd := by
    have hseeds : ∀ d ∈ seedSlots, d.isPrimitive ∨ d = .classType objectClass := by decide
    rcases hseeds d (List.mem_of_getElem? hd) with hprimitive | rfl
    · cases d <;> first | rfl | cases hprimitive
    · rw [Registry.canonical, canonicalClass, objectClass, canonicalMembers_nil]
  apart a b d e ha hb hkey _ := by
    have hdistinct : (seedSlots.map Descriptor.key).Nodup := by decide
    obtain ⟨i⟩ := a
    obtain ⟨j⟩ := b
    obtain ⟨hi, rfl⟩ := List.getElem?_eq_some_iff.1 ha
    obtain ⟨hj, rfl⟩ := List.getElem?_eq_some_iff.1 hb
    congr 1
    have hi : i < (seedSlots.map Descriptor.key).length := by rwa [List.length_map]
    have hj : j < (seedSlots.map Descriptor.key).length := by rwa [List.length_map]
    have hsame : (seedSlots.map Descriptor.key)[i] = (seedSlots.map Descriptor.key)[j] := by
      rw [List.getElem_map, List.getElem_map]
      exact hkey
    exact hdistinct.getElem_inj_iff.1 hsame
  richer name first h hfirst hrich _ := by
    rw [findClass?, Registry.fresh, Table.get_push] at hfirst
    split at hfirst
    · obtain rfl := Option.some.inj hfirst
      cases hrich
    · cases hfirst

/-- Registering a descriptor that was looked up in vain. -/
theorem Settled.register (h : r.Settled) (hr : r.WellFormed strict)
    (hd : r.Registrable strict d) : (r.register d).2.Settled where
  canonical a e he := by
    have hgrown := prefix_register r d
    rcases get?_register_cases he with he | ⟨-, rfl⟩
    · rw [canonical_eq hgrown fun x hx => hr.descends.live he hx, h.canonical he]
    · rw [canonical_eq hgrown hd.live, hd.canonical]
  apart a b x y ha hb hkey hagrees := by
    have hgrown := prefix_register r d
    rcases get?_register_cases ha with hx | ⟨rfl, rfl⟩ <;>
      rcases get?_register_cases hb with hy | ⟨rfl, rfl⟩
    · rw [hr.agrees_eq hgrown hx fun z hz => hr.descends.live hy hz] at hagrees
      exact h.apart hx hy hkey hagrees
    · rw [hr.agrees_eq hgrown hx hd.live, hd.agrees_eq_false hr hx hkey] at hagrees
      cases hagrees
    · rw [agrees_comm, hr.agrees_eq hgrown hy hd.live, hd.agrees_eq_false hr hy hkey.symm] at hagrees
      cases hagrees
    · rfl
  richer name first a hfirst hrich ha := by
    have hgrown := prefix_register r d
    obtain ⟨more, hunder, hmore⟩ := WellFormed.exists_under_register hd (.className name)
    simp only [under] at hunder
    rw [findClass?, hunder] at hfirst
    rw [hunder] at ha
    cases hold : r.classes.get name with
    | nil =>
      -- the new class is the first of its name
      rw [hold, List.nil_append] at hfirst ha
      rw [(hmore a ha).1, ← (hmore first (List.mem_of_mem_head? hfirst)).1]
      exact hrich
    | cons old rest =>
      rw [hold, List.cons_append, List.head?_cons, Option.some.injEq] at hfirst
      subst hfirst
      have hmem : old ∈ r.under (.className name) := by rw [under, hold]; exact .head _
      rw [(hr.live_of_mem_under hmem).hasSupertype_eq hgrown] at hrich
      have hfirst : r.findClass? name = some old := by rw [findClass?, hold]; rfl
      rcases List.mem_append.1 ha with ha | ha
      · rw [(hr.live_of_mem_under (k := .className name) ha).hasSupertype_eq hgrown]
        exact h.richer hfirst hrich ha
      · obtain ⟨rfl, hk⟩ := hmore a ha
        obtain ⟨c, rfl, rfl⟩ := Descriptor.exists_of_key_eq_className hk
        rw [hasSupertype, classAt?, get?_register_self]
        cases hs : c.supertype with
        | some s => simp [hs]
        | none =>
          rw [hd.poorer c rfl hs old hfirst] at hrich
          cases hrich

theorem Reaches.settled (hr : Reaches RegistryStep.Live .new r) : r.Settled :=
  hr.invariant Settled.fresh fun hs hd h => h.register hs hd

theorem Grows.settled (h : Grows strict r s) (hr : r.WellFormed strict) (hs : r.Settled) :
    s.Settled :=
  h.invariant (fun hwell hd ih => ih.register hwell hd) hr hs

/-! ### Classes of one name -/

/-- What is registered under a name is a class of the name. -/
theorem WellFormed.exists_of_mem_classes (hr : r.WellFormed strict) (h : a ∈ r.classes.get name) :
    ∃ c, r.classAt? a = some c ∧ c.name = name := by
  obtain ⟨d, hd, hk⟩ := hr.filed (k := .className name) h
  obtain ⟨c, rfl, hname⟩ := Descriptor.exists_of_key_eq_className hk
  exact ⟨c, by rw [classAt?, hd], hname⟩

/-- A class is registered under its name. -/
theorem WellFormed.mem_classes (hr : r.WellFormed strict) {c : ClassType}
    (h : r.classAt? a = some c) : a ∈ r.classes.get c.name :=
  hr.listed (get?_of_classAt? h) rfl

/-- A request for a class is answered with a class of the name. -/
theorem mem_classes_of_run (hr : r.WellFormed strict) {q : TypeRequest} (hq : q.Live r)
    (hstrict : strict → q.Strict r) (hname : q.className? = some name) :
    (q.run r).1 ∈ (q.run r).2.classes.get name := by
  have hbuild : (r.buildClass name).1 ∈ (r.buildClass name).2.classes.get name :=
    List.mem_of_mem_head? (grows_buildClass hr name).2
  cases q with
  | named n =>
    rw [TypeRequest.className?] at hname
    split at hname
    · next hkeyword =>
      obtain rfl := Option.some.inj hname
      rw [TypeRequest.run, buildType, Option.isNone_iff_eq_none.1 hkeyword]
      exact hbuild
    · cases hname
  | className n =>
    obtain rfl := Option.some.inj hname
    exact hbuild
  | classOfKind n kind =>
    obtain rfl := Option.some.inj hname
    exact List.mem_of_mem_head? (findClass?_buildRelaxedClass hr fun x hx => by cases hx)
  | classFrom relaxed c =>
    obtain rfl := Option.some.inj hname
    have hgrown := (TypeRequest.grows hr hq hstrict).wellFormed hr
    rw [run_of_descriptor? rfl] at hgrown ⊢
    obtain ⟨e, he, hk⟩ := exists_get?_intern hr (canonical_canonical r _)
      (fun x hx => hq _ rfl x (mem_handles_canonical hx))
      (fun hs x hx => hstrict hs _ rfl x (mem_components_canonical hx)) rfl relaxed
    obtain ⟨k, rfl, hname⟩ := Descriptor.exists_of_key_eq_className hk
    have hlisted := hgrown.listed he rfl
    rw [Descriptor.key, hname] at hlisted
    exact hlisted
  | _ => cases hname

/-- A class of a name whose first class has a supertype has one. -/
theorem Settled.isSome_supertype (h : r.Settled) (hr : r.WellFormed strict)
    (hfirst : r.findClass? name = some first) (hrich : r.hasSupertype first) {c : ClassType}
    (hc : r.classAt? a = some c) (hname : c.name = name) : c.supertype.isSome := by
  have hmem := hr.mem_classes hc
  rw [hname] at hmem
  have hsupertype := h.richer hfirst hrich hmem
  rwa [hasSupertype, hc, Option.any_some] at hsupertype

/-- **A richer class wins.** In a registry that steps on live handles lead to, classes of one name are
not deeply equal.  Where the first class of a name has a supertype, every class registered under the
name has one, and after further such steps still: until the registry is cleared, whatever class of the
name there is (a changed copy, say) has a supertype, and every request for a class of the name is
answered with such a class. -/
theorem richer_of_reaches (hr : Reaches RegistryStep.Live .new r) (name : Text) :
    (∀ a ∈ r.classes.get name, ∀ b ∈ r.classes.get name, r.deepEqual a b → a = b) ∧
      ∀ first, r.findClass? name = some first → r.hasSupertype first →
        (∀ a ∈ r.classes.get name, r.hasSupertype a) ∧
          ∀ s, Reaches (fun r o => o.Live r ∧ o ≠ .clear) r s →
            (∀ a c, s.classAt? a = some c → c.name = name → c.supertype.isSome) ∧
              ∀ q : TypeRequest, q.Live s → q.className? = some name →
                ∃ c, (q.run s).2.classAt? (q.run s).1 = some c ∧ c.name = name ∧
                  c.supertype.isSome := by
  have hwell := hr.wellFormed_of_live
  have hsettled := hr.settled
  refine ⟨fun a ha b hb hequal => ?_, fun first hfirst hrich =>
    ⟨fun a ha => hsettled.richer hfirst hrich ha, fun s hs => ?_⟩⟩
  · obtain ⟨c, hc, hname⟩ := hwell.exists_of_mem_classes ha
    obtain ⟨k, hk, hname'⟩ := hwell.exists_of_mem_classes hb
    have hc := get?_of_classAt? hc
    have hk := get?_of_classAt? hk
    rw [hwell.descends.deepEqual_eq, hc, hk, Bool.or_eq_true, beq_iff_eq] at hequal
    refine hequal.elim id fun hagrees => hsettled.apart hc hk ?_ hagrees
    rw [Descriptor.key, Descriptor.key, hname, hname']
  · have hgrows := hs.grows_of_live hwell
    -- the first class stays the first, with its supertype, however much the registry grows
    have hlater {t : Registry} (ht : Grows False r t) (a : TypeHandle) (c : ClassType)
        (hc : t.classAt? a = some c) (hname : c.name = name) : c.supertype.isSome := by
      have hlive : r.Live first :=
        hwell.live_of_mem_under (k := .className name) (List.mem_of_mem_head? hfirst)
      rw [← hlive.hasSupertype_eq ht.slots] at hrich
      exact (ht.settled hwell hsettled).isSome_supertype (ht.wellFormed hwell)
        (ht.findClass? hwell hfirst) hrich hc hname
    refine ⟨hlater hgrows, fun q hq hname => ?_⟩
    have hs' := hgrows.wellFormed hwell
    have hrun := hgrows.trans (TypeRequest.grows hs' hq False.elim)
    obtain ⟨c, hc, hcname⟩ := (hrun.wellFormed hwell).exists_of_mem_classes
      (mem_classes_of_run hs' hq False.elim hname)
    exact ⟨c, hc, hcname, hlater hrun _ c hc hcname⟩

/-- A class with a supertype, a copy of it with other flags, and a request for the latter without the
supertype: the answer is the first class. -/
theorem richer_of_reaches_copies :
    let rich : ClassType := { bareClass ['A'] .regular none with supertype := some .object }
    let r := (RegistryStep.build (.classFrom false rich)).run .new
    let s := (RegistryStep.copy ⟨14⟩ (.classFlags .privateOnly)).run r
    let q := TypeRequest.classFrom false { rich with flags := .privateOnly, supertype := none }
    r.findClass? ['A'] = some ⟨14⟩ ∧ r.hasSupertype ⟨14⟩ ∧ s.size = 16 ∧ q.Live s ∧
      (q.run s).1 = ⟨14⟩ ∧ ((q.run s).2.classAt? ⟨14⟩).map (·.supertype) = some (some .object) ∧
      ∃ c, (q.run s).2.classAt? (q.run s).1 = some c ∧ c.name = ['A'] ∧ c.supertype.isSome := by
  intro rich r s q
  have hr : Reaches RegistryStep.Live .new r :=
    .step .refl (.build (.classFrom false rich)) (by decide)
  have hs : Reaches (fun r o => o.Live r ∧ o ≠ .clear) r s :=
    .step .refl (.copy ⟨14⟩ (.classFlags .privateOnly)) ⟨by decide, by nofun⟩
  have hfirst : r.findClass? ['A'] = some ⟨14⟩ := by decide
  have hrich : r.hasSupertype ⟨14⟩ := by decide
  have hq : q.Live s := by decide +kernel
  obtain ⟨-, hbuilds⟩ := (((richer_of_reaches hr ['A']).2 ⟨14⟩ hfirst hrich).2 s hs)
  exact ⟨hfirst, hrich, by decide +kernel, hq, by decide +kernel, by decide +kernel,
    hbuilds q hq rfl⟩

end Registry

end JavaSource
