import JavaSource.Proofs.Interning
import JavaSource.Proofs.TrieNodes

/-!
# Parameterized types

Only building a parameterized type makes nodes in the trie of a registry, and it makes those that the
path of the type needs (`Registry.holds_buildParameterized`).  What is built is recorded beside the
registry (`Registry.Built`), with the paths that come from renaming, so that the nodes can be counted
(`Registry.parameterized_of_reaches`).
-/

namespace JavaSource

/-! ### The paths that are built -/

/-- The paths of the parameterized types that are built when a type gets another name. -/
def Registry.renamedPathsWithin (r : Registry) (name : Text) :
    Nat → TypeHandle → List (List TypeHandle)
  | 0, _ => []
  | depth + 1, h =>
    match r.get? h with
    | some (.parameterized raw arguments) =>
      renamedPathsWithin r name depth raw ++
        match r.withNameWithin name depth raw with
        | some (renamed, _) => if renamed = raw then [] else [renamed :: arguments]
        | none => []
    | _ => []

/-- The paths of the parameterized types that were built since the last clearing, when these were the
paths before the step. -/
def RegistryStep.pathsAfter (r : Registry) (paths : List (List TypeHandle)) :
    RegistryStep → List (List TypeHandle)
  | build (.parameterized raw arguments) => paths ++ [raw :: arguments]
  | copy of (.name name) => paths ++ r.renamedPathsWithin name r.size of
  | clear => []
  | _ => paths

namespace Registry

variable {r s : Registry} {d : Descriptor} {a raw : TypeHandle} {arguments : List TypeHandle}
  {relaxed : Bool} {name : Text} {n : Nat} {paths : List (List TypeHandle)}

/-- Steps on live handles lead from the new registry to this one, and the paths of the parameterized
types that they built since the last clearing are these. -/
inductive Built : List (List TypeHandle) → Registry → Prop where
  | new : Built [] .new
  | step {paths : List (List TypeHandle)} {r : Registry} (before : Built paths r) (o : RegistryStep)
      (ho : o.Live r) : Built (o.pathsAfter r paths) (o.run r)

theorem Built.reaches (h : Built paths r) : Reaches RegistryStep.Live .new r := by
  induction h with
  | new => exact .refl
  | step _ o ho ih => exact .step ih o ho

theorem Reaches.exists_built (h : Reaches RegistryStep.Live .new r) : ∃ paths, Built paths r := by
  induction h with
  | refl => exact ⟨[], .new⟩
  | step _ o ho ih =>
    obtain ⟨paths, hbuilt⟩ := ih
    exact ⟨_, hbuilt.step o ho⟩

/-! ### What makes nodes -/

theorem parameterized_intern (hd : ∀ p, d.key ≠ .path p) :
    (r.intern relaxed d).2.parameterized = r.parameterized := by
  rw [intern]
  split
  · rfl
  · rw [register]
    cases hk : d.key with
    | path p => exact absurd hk (hd p)
    | _ => rfl

theorem parameterized_buildRelaxedClass (r : Registry) (c : ClassType) :
    (r.buildRelaxedClass c).2.parameterized = r.parameterized := by
  rw [buildRelaxedClass_eq]
  exact parameterized_intern (by nofun)

theorem parameterized_buildClass (r : Registry) (name : Text) :
    (r.buildClass name).2.parameterized = r.parameterized := by
  fun_induction buildClass r name with
  | case1 name h => exact parameterized_buildRelaxedClass _ _
  | case2 name owner h around s hbuilt ih =>
    rw [hbuilt] at ih
    exact (parameterized_buildRelaxedClass _ _).trans ih

/-- A request for something else than a parameterized type makes no nodes. -/
theorem parameterized_request {q : TypeRequest}
    (hq : ∀ raw arguments, q ≠ .parameterized raw arguments) :
    (q.run r).2.parameterized = r.parameterized := by
  cases hd : q.descriptor? with
  | some d =>
    rw [run_of_descriptor? hd]
    refine parameterized_intern fun p hp => ?_
    cases q with
    | parameterized raw arguments => exact hq raw arguments rfl
    | _ => cases hd <;> cases hp
  | none =>
    cases q with
    | named name =>
      rw [TypeRequest.run, buildType]
      split
      · rfl
      · exact parameterized_buildClass r name
    | className name => exact parameterized_buildClass r name
    | classOfKind name kind => exact parameterized_buildRelaxedClass _ _
    | _ => cases hd

/-- A change of something else than the name makes no nodes. -/
theorem parameterized_change {c : TypeChange} {p : TypeHandle × Registry}
    (hc : ∀ name, c ≠ .name name) (h : c.run r a = some p) :
    p.2.parameterized = r.parameterized := by
  cases c with
  | name n => exact absurd rfl (hc n)
  | classFlags | classMembers | classMethods | classInterfaces | classSupertype =>
    obtain ⟨k, -, rfl⟩ := Option.map_eq_some_iff.1 h
    split
    · rfl
    · exact parameterized_request (q := .classFrom false _) (by nofun)
  | variableType | variableOwner =>
    obtain ⟨v, -, rfl⟩ := Option.map_eq_some_iff.1 h
    split
    · rfl
    · exact parameterized_request (q := .variableType _) (by nofun)
  | methodName | methodFlags | declaringType | resolvedSignature =>
    obtain ⟨m, -, rfl⟩ := Option.map_eq_some_iff.1 h
    split
    · rfl
    · exact parameterized_request (q := .methodType _) (by nofun)

theorem holds_buildParameterized (hr : r.parameterized.Holds paths) (raw : TypeHandle)
    (arguments : List TypeHandle) :
    (r.buildParameterized raw arguments).2.parameterized.Holds (paths ++ [raw :: arguments]) := by
  rw [buildParameterized]
  split
  · next h hfound => exact hr.again (PathTrie.hasNode_of_find? hfound)
  · exact hr.insert _ _

theorem renamedPathsWithin_of_none (h : r.withNameWithin name n a = none) :
    r.renamedPathsWithin name n a = [] := by
  induction n generalizing a with
  | zero => rfl
  | succ n ih =>
    rw [renamedPathsWithin]
    split
    · next raw arguments hp =>
      rw [withNameWithin, hp, Option.map_eq_none_iff] at h
      rw [ih h, h, List.append_nil]
    · rfl

/-- Renaming makes the nodes of the parameterized types that are built with the new name. -/
theorem holds_withNameWithin {p : TypeHandle × Registry} (hr : r.parameterized.Holds paths)
    (h : r.withNameWithin name n a = some p) :
    p.2.parameterized.Holds (paths ++ r.renamedPathsWithin name n a) := by
  induction n generalizing a p with
  | zero => cases h
  | succ n ih =>
    have hother {q : TypeRequest} (hq : ∀ raw arguments, q ≠ .parameterized raw arguments) :
        (q.run r).2.parameterized.Holds paths := by
      rwa [parameterized_request hq]
    rw [withNameWithin] at h
    rw [renamedPathsWithin]
    split at h
    · next c hc =>
      rw [hc, List.append_nil]
      split at h
      · cases h
        exact hr
      · cases h
        exact hother (q := .classFrom false _) (by simp)
    · next hget =>
      cases h
      rw [hget, List.append_nil]
      exact hother (q := .shallow name) (by simp)
    · next hget =>
      cases h
      rw [hget, List.append_nil]
      exact hother (q := .cyclic name) (by simp)
    · next bound hget =>
      cases h
      rw [hget, List.append_nil]
      exact hother (q := .typeVariable name bound) (by simp)
    · next raw arguments hget =>
      obtain ⟨⟨renamed, s⟩, hrenamed, rfl⟩ := Option.map_eq_some_iff.1 h
      -- the types further in come first, in the registry that the outer one is then built in
      have hs := ih hrenamed
      simp only [hget, hrenamed]
      rw [← List.append_assoc]
      split
      · rwa [List.append_nil]
      · exact holds_buildParameterized hs renamed arguments
    · cases h

/-- A step makes the nodes that its paths need. -/
theorem holds_step (o : RegistryStep) (hr : r.parameterized.Holds paths) :
    (o.run r).parameterized.Holds (o.pathsAfter r paths) := by
  cases o with
  | build q =>
    cases q with
    | parameterized raw arguments => exact holds_buildParameterized hr raw arguments
    | _ =>
      rw [RegistryStep.run, parameterized_request]
      exacts [hr, by simp]
  | copy of c =>
    rw [RegistryStep.run]
    cases hp : c.run r of with
    | none =>
      cases c with
      | name n =>
        rw [RegistryStep.pathsAfter, renamedPathsWithin_of_none hp, List.append_nil]
        exact hr
      | _ => exact hr
    | some p =>
      cases c with
      | name n => exact holds_withNameWithin hr hp
      | _ =>
        rw [Option.map_some, Option.getD_some, parameterized_change ?_ hp]
        exacts [hr, by simp]
  | clear => exact .empty

theorem Built.holds (h : Built paths r) : r.parameterized.Holds paths := by
  induction h with
  | new => exact .empty
  | step _ o _ ih => exact holds_step o ih

/-! ### Canonical types -/

theorem live_parameterized (h : ∀ x ∈ raw :: arguments, r.Live x) :
    (TypeRequest.parameterized raw arguments).Live r := fun _ hd => by
  cases hd
  exact h

/-- The handle of a parameterized type carries its raw type and its arguments. -/
theorem WellFormed.get?_buildParameterized (hr : r.WellFormed False)
    (hlive : ∀ x ∈ raw :: arguments, r.Live x) :
    (r.buildParameterized raw arguments).2.get? (r.buildParameterized raw arguments).1 =
      some (.parameterized raw arguments) :=
  hr.get?_of_descriptor? (live_parameterized hlive) rfl (by nofun) (by nofun)

/-- **Parameterized types are canonical.** In a registry that steps on live handles lead to, building a
parameterized type gives a handle that carries its raw type and its arguments until the registry is
cleared; and until then just building a type of the same raw type with the same arguments gives this
handle again.  The nodes of the trie are the beginnings of the paths that were built since the last
clearing, those of renamed types among them, each counted once. -/
theorem parameterized_of_reaches (hr : Reaches RegistryStep.Live .new r) :
    (∀ raw arguments, (∀ x ∈ raw :: arguments, r.Live x) →
      ∀ s, Reaches (fun r o => o.Live r ∧ o ≠ .clear) (r.buildParameterized raw arguments).2 s →
        s.get? (r.buildParameterized raw arguments).1 = some (.parameterized raw arguments) ∧
          ∀ raw' arguments', (∀ x ∈ raw' :: arguments', s.Live x) →
            ((s.buildParameterized raw' arguments').1 = (r.buildParameterized raw arguments).1 ↔
              raw' = raw ∧ arguments' = arguments)) ∧
      (∃ paths, Built paths r) ∧
      ∀ paths, Built paths r →
        r.stats.trieNodes = (paths.flatMap PathTrie.starts).toFinset.card := by
  have hwell := hr.wellFormed_of_live
  refine ⟨fun raw arguments hlive s hs => ?_, hr.exists_built, fun paths hpaths =>
    hpaths.holds.nodeCount⟩
  have hgot := hwell.get?_buildParameterized hlive
  have hbuilt : (r.buildParameterized raw arguments).2.WellFormed False :=
    (TypeRequest.grows hwell (live_parameterized hlive) False.elim).wellFormed hwell
  have hgrows := hs.grows_of_live hbuilt
  have hstays := ((live_of_get? hgot).get?_eq hgrows.slots).trans hgot
  refine ⟨hstays, fun raw' arguments' hlive' => ⟨fun heq => ?_, ?_⟩⟩
  · have hlater := hgrows.wellFormed hbuilt
    have hgot' := hlater.get?_buildParameterized hlive'
    have hmore : Grows False s (s.buildParameterized raw' arguments').2 :=
      TypeRequest.grows hlater (live_parameterized hlive') False.elim
    rw [heq, (live_of_get? hstays).get?_eq hmore.slots, hstays] at hgot'
    obtain ⟨rfl, rfl⟩ := Descriptor.parameterized.inj (Option.some.inj hgot')
    exact ⟨rfl, rfl⟩
  · rintro ⟨rfl, rfl⟩
    exact hgrows.run_eq (q := .parameterized raw' arguments') hwell (live_parameterized hlive)
      False.elim

/-- A generic type with an argument and without one, one of the first, and the last under another
name. -/
theorem parameterized_of_reaches_renamed :
    let build (q : TypeRequest) := RegistryStep.build q
    let named := (build (.shallow ['B'])).run ((build (.shallow ['A'])).run .new)
    let r := (build (.parameterized ⟨16⟩ [⟨15⟩])).run <| (build (.parameterized ⟨14⟩ [])).run <|
      (named.buildParameterized ⟨14⟩ [⟨15⟩]).2
    let s := (RegistryStep.copy ⟨18⟩ (.name ['C'])).run r
    (named.buildParameterized ⟨14⟩ [⟨15⟩]).1 = ⟨16⟩ ∧
      s.get? ⟨16⟩ = some (.parameterized ⟨14⟩ [⟨15⟩]) ∧
      (s.buildParameterized ⟨14⟩ [⟨15⟩]).1 = ⟨16⟩ ∧ (s.buildParameterized ⟨14⟩ []).1 ≠ ⟨16⟩ ∧
      s.get? ⟨21⟩ = some (.parameterized ⟨20⟩ [⟨15⟩]) ∧
      Built [[⟨14⟩, ⟨15⟩], [⟨14⟩], [⟨16⟩, ⟨15⟩], [⟨19⟩, ⟨15⟩], [⟨20⟩, ⟨15⟩]] s ∧
      s.stats.trieNodes = 8 := by
  intro build named r s
  have hnamed : Built [] named :=
    .step (.step .new (build (.shallow ['A'])) (by decide)) (build (.shallow ['B'])) (by decide)
  have hr : Built [[⟨14⟩, ⟨15⟩], [⟨14⟩], [⟨16⟩, ⟨15⟩]] r :=
    .step (.step (.step hnamed (build (.parameterized ⟨14⟩ [⟨15⟩])) (by decide))
      (build (.parameterized ⟨14⟩ [])) (by decide)) (build (.parameterized ⟨16⟩ [⟨15⟩])) (by decide)
  have hrenamed : r.renamedPathsWithin ['C'] r.size ⟨18⟩ = [[⟨19⟩, ⟨15⟩], [⟨20⟩, ⟨15⟩]] := by
    decide +kernel
  have hs := hr.step (.copy ⟨18⟩ (.name ['C'])) (by decide)
  rw [RegistryStep.pathsAfter, hrenamed] at hs
  have hlater : Reaches (fun r o => o.Live r ∧ o ≠ .clear)
      (named.buildParameterized ⟨14⟩ [⟨15⟩]).2 s :=
    .step (.step (.step .refl (build (.parameterized ⟨14⟩ [])) ⟨by decide, by nofun⟩)
      (build (.parameterized ⟨16⟩ [⟨15⟩])) ⟨by decide, by nofun⟩)
      (.copy ⟨18⟩ (.name ['C'])) ⟨by decide, by nofun⟩
  have hfirst : (named.buildParameterized ⟨14⟩ [⟨15⟩]).1 = ⟨16⟩ := by decide +kernel
  obtain ⟨hgot, hagain⟩ :=
    (parameterized_of_reaches hnamed.reaches).1 ⟨14⟩ [⟨15⟩] (by decide) s hlater
  rw [hfirst] at hgot hagain
  have hraw : ¬((⟨14⟩ : TypeHandle) = ⟨14⟩ ∧ [] = [(⟨15⟩ : TypeHandle)]) := by decide
  refine ⟨hfirst, hgot, (hagain ⟨14⟩ [⟨15⟩] (by decide +kernel)).2 ⟨rfl, rfl⟩,
    mt (hagain ⟨14⟩ [] (by decide +kernel)).1 hraw, by decide +kernel, hs, ?_⟩
  rw [(parameterized_of_reaches hs.reaches).2.2 _ hs]
  decide

end Registry

end JavaSource
