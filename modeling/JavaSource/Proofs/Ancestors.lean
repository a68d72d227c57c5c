import JavaSource.Proofs.Walks
import Mathlib.Logic.Relation

/-!
# What is above a type

The supertypes of a type are a chain (`Registry.Supertypes`), and a step up leads from a type to its
supertype or to one of its interfaces (`Registry.StepsUp`).  Each step leads to an earlier place, so
walks up need no more rounds than there are places: the members that a type inherits are those along
the chain, and a type can be assigned to what is above it by name
(`Registry.ancestors_of_reaches`).

A class known by name only inherits nothing, though `java.lang.Object` is its supertype; the chain says
the same, since that class has no members.  A type variable is not assigned to its bound but to what is
above the bound: the name that it goes by is its own.
-/

namespace JavaSource.Registry

variable {r : Registry} {a b h : TypeHandle} {target : Text} {strict : Prop} {n : Nat}

/-- The supertypes of a type, nearest first, up to one that has none. -/
inductive Supertypes (r : Registry) : TypeHandle → List TypeHandle → Prop where
  | nil {h : TypeHandle} (hs : r.supertype? h = none) : Supertypes r h []
  | cons {h s : TypeHandle} {above : List TypeHandle} (hs : r.supertype? h = some s)
      (habove : Supertypes r s above) : Supertypes r h (s :: above)

/-- The second type is the supertype of the first or one of its interfaces. -/
def StepsUp (r : Registry) (a b : TypeHandle) : Prop :=
  r.supertype? a = some b ∨ b ∈ r.interfaces a

/-- The members of a type that are not private. -/
def visibleMembers (r : Registry) (h : TypeHandle) : List TypeHandle :=
  (r.members h).filter fun m => !(r.flags m).hasAll .privateOnly

/-- Being private is read off the flags, also where a type has an answer of its own to whether it has
a flag. -/
theorem hasFlags_privateOnly (r : Registry) (h : TypeHandle) :
    r.hasFlags h .privateOnly = (r.flags h).hasAll .privateOnly := by
  rw [hasFlags, flags]
  split <;> simp_all [Flags.hasAll, Flags.privateOnly, Flags.publicOnly, Flags.none]

/-- What is above a type has its place before it. -/
theorem WellFormed.of_stepsUp (hr : r.WellFormed strict) (h : r.StepsUp a b) :
    r.Live b ∧ b.index < a.index :=
  h.elim hr.grounded.of_supertype? hr.descends.of_mem_interfaces

/-- Nothing is above a type without a name. -/
theorem StepsUp.exists_name? (h : r.StepsUp a b) : ∃ name, r.name? a = some name := by
  have hbehind : ∃ d, r.behind a = some d ∧ d.isNamed := by
    rcases h with h | h
    · rw [supertype?] at h
      split at h
      case h_4 => cases h
      all_goals exact ⟨_, ‹_›, rfl⟩
    · rw [interfaces, askClass] at h
      split at h
      · exact ⟨_, ‹_›, rfl⟩
      · cases h
  obtain ⟨d, hd, hnamed⟩ := hbehind
  rw [behind] at hd
  rw [name?]
  cases hsize : r.size with
  | zero =>
    rw [hsize] at hd
    cases hd
  | succ n =>
    rw [hsize, behindWithin] at hd
    rw [nameWithin]
    -- a descriptor without a name answers for itself
    cases hget : r.get? a with
    | none =>
      rw [hget] at hd
      cases hd
    | some e =>
      rw [hget] at hd
      cases e <;> first | exact ⟨_, rfl⟩ | (cases hd; cases hnamed)

theorem WellFormed.behind_object (hr : r.WellFormed strict) :
    r.behind .object = some (.classType objectClass) := by
  have hget : r.get? .object = some (.classType objectClass) :=
    get?_of_seeded hr.seeded (a := .object) (by decide)
  obtain ⟨n, hn⟩ := (live_of_get? hget).exists_size
  rw [behind, hn, behindWithin, hget]

/-- Nothing is inherited from `java.lang.Object`, the only supertype of a class known by name only. -/
theorem WellFormed.exists_supertypes_of_object (hr : r.WellFormed strict)
    (hs : r.supertype? h = some .object) :
    ∃ chain, r.Supertypes h chain ∧ chain.flatMap r.visibleMembers = [] := by
  have htop : r.supertype? .object = none := by rw [supertype?, hr.behind_object]; rfl
  have hmembers : r.members .object = [] := by rw [members, askClass, hr.behind_object]; rfl
  exact ⟨_, .cons hs (.nil htop), by simp [visibleMembers, hmembers]⟩

/-- With a budget above the place of a type, the walk up collects along the whole chain. -/
theorem WellFormed.exists_supertypes (hr : r.WellFormed strict) (hn : h.index < n) :
    ∃ chain, r.Supertypes h chain ∧ r.inheritedWithin n h = chain.flatMap r.visibleMembers := by
  induction n generalizing h with
  | zero => omega
  | succ n ih =>
    rw [inheritedWithin]
    cases hs : r.supertype? h with
    | none =>
      refine ⟨[], .nil hs, ?_⟩
      rw [supertype?] at hs
      split
      · next c hc =>
        rw [hc] at hs
        dsimp only at hs
        rw [hs]
        rfl
      · rfl
    | some s =>
      have hup := (hr.grounded.of_supertype? hs).2
      obtain ⟨chain, hchain, hinherited⟩ := ih (h := s) (by omega)
      split
      · next c hc =>
        have hsupertype : c.supertype = some s := by rwa [supertype?, hc] at hs
        refine ⟨s :: chain, .cons hs hchain, ?_⟩
        simp only [hsupertype, hasFlags_privateOnly, hinherited, List.flatMap_cons, visibleMembers]
      · next hclass =>
        -- the walk ends here, where the chain has one more type
        obtain rfl : s = .object := by
          rw [supertype?] at hs
          split at hs
          · next c hc => exact absurd hc (hclass c)
          · exact (Option.some.inj hs).symm
          · exact (Option.some.inj hs).symm
          · cases hs
        obtain ⟨chain, hchain, hnothing⟩ := hr.exists_supertypes_of_object hs
        exact ⟨chain, hchain, hnothing.symm⟩

/-- With a budget above the place of a type, the walk finds every type above it. -/
theorem WellFormed.isBelowWithin_iff (hr : r.WellFormed strict) (hn : h.index < n) :
    r.isBelowWithin target n h ↔
      ∃ t, Relation.ReflTransGen r.StepsUp h t ∧ r.name? t = some target := by
  induction n generalizing h with
  | zero => omega
  | succ n ih =>
    have hstep {x : TypeHandle} (hx : r.StepsUp h x) : r.isBelowWithin target n x ↔
        ∃ t, Relation.ReflTransGen r.StepsUp x t ∧ r.name? t = some target := by
      have hbefore := (hr.of_stepsUp hx).2
      exact ih (by omega)
    rw [isBelowWithin]
    cases hname : r.name? h with
    | none =>
      -- neither the walk nor a step goes up from a type without a name
      refine iff_of_false Bool.false_ne_true ?_
      rintro ⟨t, ht, htarget⟩
      rcases ht.cases_head with rfl | ⟨x, hx, -⟩
      · rw [hname] at htarget
        cases htarget
      · obtain ⟨name, hsome⟩ := hx.exists_name?
        rw [hname] at hsome
        cases hsome
    | some name =>
      simp only [Bool.or_eq_true, beq_iff_eq, Option.any_eq_true, List.any_eq_true]
      constructor
      · rintro ((rfl | ⟨x, hx, hbelow⟩) | ⟨x, hx, hbelow⟩)
        · exact ⟨h, .refl, hname⟩
        · obtain ⟨t, ht, htarget⟩ := (hstep (.inl hx)).1 hbelow
          exact ⟨t, .head (.inl hx) ht, htarget⟩
        · obtain ⟨t, ht, htarget⟩ := (hstep (.inr hx)).1 hbelow
          exact ⟨t, .head (.inr hx) ht, htarget⟩
      · rintro ⟨t, ht, htarget⟩
        rcases ht.cases_head with rfl | ⟨x, hx, ht⟩
        · rw [hname] at htarget
          exact .inl (.inl (Option.some.inj htarget))
        · have hbelow := (hstep hx).2 ⟨t, ht, htarget⟩
          rcases hx with hx | hx
          · exact .inl (.inr ⟨x, hx, hbelow⟩)
          · exact .inr ⟨x, hx, hbelow⟩

/-- **Walks up follow supertypes and interfaces.** In a registry that steps on live handles lead to, a
type inherits the members of its supertypes that are not private, nearest supertype first; and it can
be assigned to `java.lang.Object`, and else to a type with a name if a type of this name is the type
itself or comes after it by steps to supertypes and interfaces. -/
theorem ancestors_of_reaches (hr : Reaches RegistryStep.Live .new r) (hh : r.Live h) :
    (∃ chain, r.Supertypes h chain ∧ r.inheritedMembers h = chain.flatMap r.visibleMembers) ∧
      ∀ target, r.isAssignable target (some h) ↔ target = .object ∨
        ∃ name, r.name? target = some name ∧
          ∃ t, Relation.ReflTransGen r.StepsUp h t ∧ r.name? t = some name := by
  have hwell := hr.wellFormed_of_live
  refine ⟨hwell.exists_supertypes hh, fun target => ?_⟩
  rw [isAssignable, Bool.or_eq_true, beq_iff_eq]
  refine or_congr_right ?_
  cases htarget : r.name? target with
  | none => simp
  | some name =>
    rw [hwell.isBelowWithin_iff hh]
    simp

/-- A type variable whose bound is a generic type: it inherits the public member of one supertype and
not the private one of the next, and can be assigned to an interface of the raw type. -/
theorem ancestors_of_reaches_bound :
    let field (name : Char) (flags : Flags) :=
      RegistryStep.build (.variableType ⟨[name], .object, none, [], flags⟩)
    let build (name : Char) (members interfaces : List TypeHandle) (supertype : TypeHandle) :=
      RegistryStep.build (.classFrom false
        { bareClass [name] .regular none with members, interfaces, supertype := some supertype })
    let types := (build 'C' [⟨15⟩] [] ⟨17⟩).run <| (build 'B' [⟨14⟩] [] .object).run <|
      (RegistryStep.build (.classOfKind ['I'] .interface)).run <|
        (field 'y' .publicOnly).run ((field 'x' .privateOnly).run .new)
    let r := (RegistryStep.build (.typeVariable ['T'] (some ⟨20⟩))).run <|
      (RegistryStep.build (.parameterized ⟨19⟩ [.object])).run <|
        (build 'A' [] [⟨16⟩] ⟨18⟩).run types
    Reaches RegistryStep.Live .new r ∧ r.Live ⟨21⟩ ∧
      (∃ chain, r.Supertypes ⟨21⟩ chain ∧ [⟨15⟩] = chain.flatMap r.visibleMembers) ∧
      (∃ t, Relation.ReflTransGen r.StepsUp ⟨21⟩ t ∧ r.name? t = some ['I']) := by
  intro field build types r
  have htypes : Reaches RegistryStep.Live .new types :=
    .step (.step (.step (.step (.step .refl (field 'x' .privateOnly) (by decide))
      (field 'y' .publicOnly) (by decide)) (.build (.classOfKind ['I'] .interface)) (by decide))
      (build 'B' [⟨14⟩] [] .object) (by decide)) (build 'C' [⟨15⟩] [] ⟨17⟩) (by decide +kernel)
  have hr : Reaches RegistryStep.Live .new r :=
    .step (.step (.step htypes (build 'A' [] [⟨16⟩] ⟨18⟩) (by decide +kernel))
      (.build (.parameterized ⟨19⟩ [.object])) (by decide +kernel))
      (.build (.typeVariable ['T'] (some ⟨20⟩))) (by decide +kernel)
  have hlive : r.Live ⟨21⟩ := by decide +kernel
  have hinherited : r.inheritedMembers ⟨21⟩ = [⟨15⟩] := by decide +kernel
  have hassignable : r.isAssignable ⟨16⟩ (some ⟨21⟩) := by decide +kernel
  have hname : r.name? ⟨16⟩ = some ['I'] := by decide +kernel
  obtain ⟨⟨chain, hchain, heq⟩, hassign⟩ := ancestors_of_reaches hr hlive
  obtain hobject | ⟨name, htarget, t, ht, hbelow⟩ := (hassign ⟨16⟩).1 hassignable
  · cases hobject
  · rw [hname] at htarget
    obtain rfl := Option.some.inj htarget
    exact ⟨hr, hlive, ⟨chain, hchain, hinherited ▸ heq⟩, t, ht, hbelow⟩

end JavaSource.Registry
