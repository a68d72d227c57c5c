import JavaSource.Proofs.Allocations
import JavaSource.Proofs.Walks
import Mathlib.Logic.Relation

/-!
# Matching through ancestors

A method pattern looks for its declaring type at a type and above it.  What counts as above is not
what the types say alone (`MethodPattern.Ascends`): where no supertype is known the search goes on at
`java.lang.Object`, it takes no supertype of a type that goes by that name, and it takes interfaces only
where they are asked for.  Each such step leads to an earlier place, so the budget of the search is never
used up and it finds whatever can be reached (`MethodPattern.matchesType_iff_of_arises`).
-/

namespace JavaSource.MethodPattern

open Registry

variable {r : Registry} {p : MethodPattern} {a b h : TypeHandle} {n : Nat}

/-- The search for the declaring type goes on from the first type at the second. -/
def Ascends (withInterfaces : Bool) (r : Registry) (a b : TypeHandle) : Prop :=
  ∃ name, r.name? a = some name ∧
    (name ≠ objectName ∧ b = (r.supertype? a).getD .object ∨ withInterfaces ∧ b ∈ r.interfaces a)

/-- What the search finds: a type above with a name that fits. -/
def Finds (p : MethodPattern) (r : Registry) (h : TypeHandle) : Prop :=
  ∃ t name, Relation.ReflTransGen (Ascends p.withInterfaces r) h t ∧ r.name? t = some name ∧
    p.fitsType name

/-- The search goes on at earlier places. -/
theorem Ascends.index_lt {withInterfaces : Bool} (hr : r.Grounded)
    (hstep : Ascends withInterfaces r a b) : b.index < a.index := by
  obtain ⟨name, hname, ⟨hobject, rfl⟩ | ⟨-, hb⟩⟩ := hstep
  · cases hs : r.supertype? a with
    | some s => exact (hr.of_supertype? hs).2
    | none => exact hr.object_lt_of_name? hname hobject
  · exact (hr.descends.of_mem_interfaces hb).2

/-- Something is found at a type with a name if this name fits or something is found where the search
goes on; nothing is found at any other type. -/
theorem finds_iff {name : Text} (hname : r.name? h = some name) :
    p.Finds r h ↔ p.fitsType name ∨ ∃ b, Ascends p.withInterfaces r h b ∧ p.Finds r b := by
  constructor
  · rintro ⟨t, found, ht, hfound, hfits⟩
    rcases ht.cases_head with rfl | ⟨b, hb, ht⟩
    · rw [hname] at hfound
      exact .inl (Option.some.inj hfound ▸ hfits)
    · exact .inr ⟨b, hb, t, found, ht, hfound, hfits⟩
  · rintro (hfits | ⟨b, hb, t, found, ht, hfound, hfits⟩)
    · exact ⟨h, name, .refl, hname, hfits⟩
    · exact ⟨t, found, .head hb ht, hfound, hfits⟩

theorem not_finds_of_name? (hname : r.name? h = none) : ¬ p.Finds r h := by
  rintro ⟨t, found, ht, hfound, -⟩
  rcases ht.cases_head with rfl | ⟨b, ⟨name, hsome, -⟩, -⟩
  · rw [hname] at hfound
    cases hfound
  · rw [hname] at hsome
    cases hsome

/-- With a budget above the place of a type, the search finds whatever there is. -/
theorem matchesTypeWithin_iff (hr : r.Grounded) (hn : h.index < n) :
    p.matchesTypeWithin r n h ↔ p.Finds r h := by
  induction n generalizing h with
  | zero => omega
  | succ n ih =>
    -- one step up costs one from the budget, and leads to an earlier place
    have hstep {b : TypeHandle} (hb : Ascends p.withInterfaces r h b) :
        p.matchesTypeWithin r n b ↔ p.Finds r b := by
      have hlt := hb.index_lt hr
      exact ih (by omega)
    rw [matchesTypeWithin]
    cases hname : r.name? h with
    | none => exact iff_of_false Bool.false_ne_true (not_finds_of_name? hname)
    | some name =>
      simp only [finds_iff hname, Bool.or_eq_true, Bool.and_eq_true, bne_iff_ne, List.any_eq_true,
        or_assoc]
      refine or_congr_right ?_
      constructor
      · rintro (⟨hobject, hfound⟩ | ⟨hinterfaces, b, hb, hfound⟩)
        · have hup : Ascends p.withInterfaces r h ((r.supertype? h).getD .object) :=
            ⟨name, hname, .inl ⟨hobject, rfl⟩⟩
          exact ⟨_, hup, (hstep hup).1 hfound⟩
        · have hup : Ascends p.withInterfaces r h b := ⟨name, hname, .inr ⟨hinterfaces, hb⟩⟩
          exact ⟨b, hup, (hstep hup).1 hfound⟩
      · rintro ⟨b, hup, hfound⟩
        have hfound := (hstep hup).2 hfound
        obtain ⟨_, hname', hup⟩ := hup
        cases hname.symm.trans hname'
        rcases hup with ⟨hobject, rfl⟩ | ⟨hinterfaces, hb⟩
        · exact .inl ⟨hobject, hfound⟩
        · exact .inr ⟨hinterfaces, b, hb, hfound⟩

/-- What is found without interfaces is found with them. -/
theorem Finds.withInterfaces (hfound : p.Finds r h) : { p with withInterfaces := true }.Finds r h := by
  obtain ⟨t, name, ht, hname, hfits⟩ := hfound
  refine ⟨t, name, Relation.ReflTransGen.mono (fun a b hstep => ?_) h t ht, hname, hfits⟩
  obtain ⟨name, hname, hstep⟩ := hstep
  exact ⟨name, hname, hstep.imp_right fun hb => ⟨rfl, hb.2⟩⟩

/-- **Declaring types match through their ancestors.** In a registry that moves on live handles lead
to, a type matches if the search comes to a type with a name that fits.  With interfaces no match is
lost. -/
theorem matchesType_iff_of_arises (hr : Arises (fun r o => o.Live r) r) (hh : r.Live h)
    (p : MethodPattern) :
    (p.matchesType r h ↔ ∃ t name, Relation.ReflTransGen (Ascends p.withInterfaces r) h t ∧
      r.name? t = some name ∧ p.fitsType name) ∧
    (p.matchesType r h → { p with withInterfaces := true }.matchesType r h) := by
  have hiff (p : MethodPattern) : p.matchesType r h ↔ p.Finds r h :=
    matchesTypeWithin_iff hr.grounded hh
  exact ⟨hiff p, fun hmatch => (hiff _).2 ((hiff p).1 hmatch).withInterfaces⟩

/-- A type variable, put in by hand, whose bound implements an interface: the interface is found only
where interfaces count. -/
theorem matchesType_iff_of_arises_interface :
    let interface := RegistryMove.step (.build (.classOfKind "a.I".toList .interface))
    let implementing := RegistryMove.step (.build (.classFrom false
      { bareClass "a.A".toList .regular none with interfaces := [⟨14⟩] }))
    let bounded := RegistryMove.alloc (.typeVariable ['T'] (some ⟨15⟩))
    let r := bounded.run (implementing.run (interface.run .new))
    let p : MethodPattern := ⟨"a.I m()".toList, "a.I".toList, ['m'], [], false⟩
    Arises (fun r o => o.Live r) r ∧ r.Live ⟨16⟩ ∧ ¬ p.Finds r ⟨16⟩ ∧
      { p with withInterfaces := true }.Finds r ⟨16⟩ := by
  intro interface implementing bounded r p
  have hr : Arises (fun r o => o.Live r) r :=
    .move (.move (.move .new interface (by decide)) implementing (by decide)) bounded
      (by decide +kernel)
  have hlive : r.Live ⟨16⟩ := by decide +kernel
  have hwithout : p.matchesType r ⟨16⟩ = false := by decide +kernel
  have hwith : { p with withInterfaces := true }.matchesType r ⟨16⟩ = true := by decide +kernel
  have hsearch (p : MethodPattern) := (matchesType_iff_of_arises hr hlive p).1
  refine ⟨hr, hlive, fun hfound => ?_, (hsearch _).1 hwith⟩
  exact Bool.false_ne_true (hwithout.symm.trans ((hsearch p).2 hfound))

end JavaSource.MethodPattern
