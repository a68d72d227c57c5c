import JavaSource.Proofs.ChangedCopies

/-!
# The members of a class

A class is registered with its members in the order of their names, and `java.lang.String` without
the member that is for serialization only, whatever the request was (`Registry.members_of_reaches`).
The order in which a request lists members of different names does not count: a list that is in order
is determined by what is in it (`Registry.canonicalMembers_eq_of_perm`), so both requests are for one
descriptor.
-/

namespace JavaSource.Registry

variable {r s : Registry} {h : TypeHandle} {c : ClassType} {name : Text}
  {members members' : List TypeHandle} {strict : Prop}

/-- The member of `java.lang.String` that is for serialization only is not kept. -/
theorem memberName_ne_of_mem_canonicalMembers {x : TypeHandle}
    (hx : x ∈ r.canonicalMembers "java.lang.String".toList members) :
    r.memberName x ≠ "serialPersistentFields".toList := by
  rw [canonicalMembers, if_pos rfl, List.mem_mergeSort, List.mem_filter] at hx
  exact bne_iff_ne.1 hx.2

/-- Members that are listed in another order are kept in another order at most. -/
theorem canonicalMembers_perm (h : members.Perm members') :
    (r.canonicalMembers name members).Perm (r.canonicalMembers name members') := by
  refine (List.mergeSort_perm _ _).trans (List.Perm.trans ?_ (List.mergeSort_perm _ _).symm)
  split
  · exact h.filter _
  · exact h

/-- The order in which members of different names are listed does not count. -/
theorem canonicalMembers_eq_of_perm (h : members.Perm members')
    (hnames : (members.map r.memberName).Nodup) :
    r.canonicalMembers name members = r.canonicalMembers name members' := by
  refine List.Perm.eq_of_pairwise (fun a b ha hb hab hba => ?_)
    (pairwise_canonicalMembers r name members) (pairwise_canonicalMembers r name members')
    (canonicalMembers_perm h)
  -- members that the order does not tell apart have one name, so they are one member
  have hname : r.memberName a = r.memberName b :=
    List.le_antisymm (List.not_lt.1 hab) (List.not_lt.1 hba)
  exact List.inj_on_of_nodup_map hnames (mem_canonicalMembers ha)
    (h.mem_iff.2 (mem_canonicalMembers hb)) hname

/-- What is registered for a class is found again by a request that lists the members in another
order, if they have different names. -/
theorem Grows.buildExactClass_eq (hr : r.WellFormed strict)
    (hlive : ∀ x ∈ (Descriptor.classType c).handles, r.Live x)
    (hstrict : strict → ∀ x ∈ (Descriptor.classType c).components, r.methodAt? x = none)
    (hnames : (c.members.map r.memberName).Nodup) (hperm : c.members.Perm members)
    (h : Grows strict (r.buildExactClass c).2 s) :
    s.buildExactClass { c with members } = ((r.buildExactClass c).1, s) := by
  have hbuilt : Grows strict r (r.buildExactClass c).2 := by
    rw [Registry.buildExactClass_eq]
    exact grows_intern_canonical (d := .classType c) hr hlive hstrict rfl
  have hgrown := (hbuilt.trans h).slots
  have hmembers : ∀ x ∈ c.members, r.Live x := fun x hx =>
    hlive x (by simp [Descriptor.handles, Descriptor.components, Descriptor.compared, hx])
  have hsame : s.canonicalMembers c.name members = s.canonicalMembers c.name c.members := by
    refine (canonicalMembers_eq_of_perm hperm ?_).symm
    rwa [List.map_congr_left fun x hx => (hmembers x hx).memberName_eq hgrown]
  rw [Registry.buildExactClass_eq] at h ⊢
  rw [Registry.buildExactClass_eq, canonicalClass, hsame]
  exact h.intern_canonical_eq (d := .classType c) hr hlive hstrict rfl

/-- **The members of a class are in the order of their names.** In a registry that steps on live
handles lead to, this holds of every class, and no class named `java.lang.String` has the member that
is for serialization only.  A request for a class is answered with the same handle, until the registry
is cleared, when it is repeated with its members in another order, if they have different names. -/
theorem members_of_reaches (hr : Reaches RegistryStep.Live .new r) :
    (∀ h c, r.classAt? h = some c →
      (c.members.Pairwise fun a b => ¬r.memberName b < r.memberName a) ∧
        (c.name = "java.lang.String".toList →
          ∀ m ∈ c.members, r.memberName m ≠ "serialPersistentFields".toList)) ∧
      ∀ c, (∀ x ∈ (Descriptor.classType c).handles, r.Live x) →
        (c.members.map r.memberName).Nodup → ∀ members, c.members.Perm members →
          ∀ s, Reaches (fun r o => o.Live r ∧ o ≠ .clear) (r.buildExactClass c).2 s →
            s.buildExactClass { c with members } = ((r.buildExactClass c).1, s) := by
  have hwell := hr.wellFormed_of_live
  refine ⟨fun h c hc => ?_, fun c hlive hnames members hperm s hs => ?_⟩
  · have hmembers := hr.settled.canonicalMembers_eq hc
    refine ⟨hmembers ▸ pairwise_canonicalMembers r c.name c.members, fun hname m hm => ?_⟩
    rw [← hmembers, hname] at hm
    exact memberName_ne_of_mem_canonicalMembers hm
  · have hbuilt : (r.buildExactClass c).2.WellFormed False :=
      (TypeRequest.grows (q := .classFrom false c) hwell
        (fun d hd => Option.some.inj hd ▸ hlive) False.elim).wellFormed hwell
    exact (hs.grows_of_live hbuilt).buildExactClass_eq hwell hlive False.elim hnames hperm

/-- A class with three members is renamed to `java.lang.String` and loses the one that is for
serialization only.  The request for the class, made again with its members in reverse order, is
answered with the first class. -/
theorem members_of_reaches_renamed :
    let x (name : String) : VariableType := ⟨name.toList, .object, none, [], .none⟩
    let field (name : String) := RegistryStep.build (.variableType (x name))
    let c : ClassType := { bareClass ['T'] .regular none with members := [⟨14⟩, ⟨15⟩, ⟨16⟩] }
    let r := (field "hash").run ((field "serialPersistentFields").run ((field "value").run .new))
    let o := RegistryStep.copy ⟨17⟩ (.name "java.lang.String".toList)
    let s := o.run (r.buildExactClass c).2
    (c.members.map r.memberName).Nodup ∧
      (∃ k, s.classAt? ⟨18⟩ = some k ∧ k.name = "java.lang.String".toList ∧
        (k.members.Pairwise fun a b => ¬s.memberName b < s.memberName a) ∧
          ∀ m ∈ k.members, s.memberName m ≠ "serialPersistentFields".toList) ∧
      s.buildExactClass { c with members := [⟨16⟩, ⟨15⟩, ⟨14⟩] } = (⟨17⟩, s) := by
  intro x field c r o s
  have hr : Reaches RegistryStep.Live .new r :=
    .step (.step (.step .refl (field "value") (by decide))
      (field "serialPersistentFields") (by decide)) (field "hash") (by decide)
  have hbuild : Reaches RegistryStep.Live .new (r.buildExactClass c).2 :=
    hr.step (.build (.classFrom false c)) (by decide +kernel)
  have ho : o.Live (r.buildExactClass c).2 := by decide +kernel
  have hs : Reaches (fun r o => o.Live r ∧ o ≠ .clear) (r.buildExactClass c).2 s :=
    .step .refl o ⟨ho, by nofun⟩
  have hnames : (c.members.map r.memberName).Nodup := by decide +kernel
  have hrenamed : (s.classAt? ⟨18⟩).map (·.name) = some "java.lang.String".toList := by
    decide +kernel
  obtain ⟨k, hk, hname⟩ := Option.map_eq_some_iff.1 hrenamed
  obtain ⟨hsorted, hcounted⟩ := (members_of_reaches (hbuild.step o ho)).1 ⟨18⟩ k hk
  have hfirst : (r.buildExactClass c).1 = ⟨17⟩ := by decide +kernel
  refine ⟨hnames, ⟨k, hk, hname, hsorted, hcounted hname⟩, hfirst ▸ ?_⟩
  exact (members_of_reaches hr).2 c (by decide +kernel) hnames _ (by decide) s hs

end JavaSource.Registry
