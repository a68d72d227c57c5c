import JavaSource.Proofs.Agreement

/-!
# Registering descriptors

Whatever builds a type looks a descriptor up under its key, and registers it when nothing there
answers the request: each such function is `Registry.intern` of some descriptor.  Classes, variables
and methods are sought among the handles of their key by structural equality; any other descriptor
is determined by its key.
-/

namespace JavaSource

/-! ### Keys -/

/-- Under what a descriptor is registered. -/
inductive RegistryKey where
  | className (name : Text)
  /-- A raw type and its arguments. -/
  | path (handles : List TypeHandle)
  | typedName (name : Text) (type : Option TypeHandle)
  | declaredName (declaring : TypeHandle) (name : Text)
  | itself (d : Descriptor)
deriving DecidableEq

namespace Descriptor

/-- Under what the descriptor is registered. -/
def key : Descriptor → RegistryKey
  | classType c => .className c.name
  | parameterized raw arguments => .path (raw :: arguments)
  | variableType v => .typedName v.name v.type
  | methodType m => .declaredName m.declaring m.name
  | d => .itself d

/-- The descriptor is one of the primitives, which are there from the start. -/
def isPrimitive : Descriptor → Bool
  | primitive _ => true
  | _ => false

/-- Structural equality finds the descriptor, not equality of the key. -/
def isSought : Descriptor → Bool
  | classType _ | variableType _ | methodType _ => true
  | _ => false

theorem key_essence (d : Descriptor) : d.essence.key = d.key := by
  cases d <;> rfl

theorem key_eq_of_essence_eq {d e : Descriptor} (h : d.essence = e.essence) : d.key = e.key := by
  rw [← key_essence d, h, key_essence]

theorem eq_of_key_eq {d e : Descriptor} (hd : d.isSought = false) (h : e.key = d.key) : e = d := by
  cases d <;> cases e <;> simp_all [isSought, key]

theorem methodName?_eq_of_key_eq {d e : Descriptor} (h : d.key = e.key) :
    d.methodName? = e.methodName? := by
  cases d <;> cases e <;> simp_all [key, methodName?]

theorem exists_of_key_eq_className {d : Descriptor} {name : Text} (h : d.key = .className name) :
    ∃ c, d = classType c ∧ c.name = name := by
  cases d <;> simp_all [key]

end Descriptor

namespace Registry

variable {r s : Registry} {d e : Descriptor} {a b h : TypeHandle} {relaxed : Bool} {strict : Prop}
  {name : Text}

/-- The handles registered under a key. -/
def under (r : Registry) : RegistryKey → List TypeHandle
  | .className name => r.classes.get name
  | .path handles => (r.parameterized.find? handles).toList
  | .typedName name type => r.vars.get (name, type)
  | .declaredName declaring name => r.methods.get (declaring, name)
  | .itself d => r.others.get d

/-- Puts a handle under a key. -/
def file (r : Registry) (h : TypeHandle) : RegistryKey → Registry
  | .className name => { r with classes := r.classes.push name h }
  | .path handles => { r with parameterized := r.parameterized.insert h handles }
  | .typedName name type => { r with vars := r.vars.push (name, type) h }
  | .declaredName declaring name => { r with methods := r.methods.push (declaring, name) h }
  | .itself d => { r with others := r.others.push d h }

/-- Puts a descriptor into a new slot and under its key. -/
def register (r : Registry) (d : Descriptor) : TypeHandle × Registry :=
  let (h, r) := r.alloc d
  (h, r.file h d.key)

@[simp] theorem slots_file (r : Registry) (h : TypeHandle) (k : RegistryKey) :
    (r.file h k).slots = r.slots := by
  cases k <;> rfl

/-- Only one handle is kept at the end of a path; under any other key the handles are listed. -/
theorem under_file (r : Registry) (h : TypeHandle) (k k' : RegistryKey)
    (hpath : ∀ p, k = .path p → r.under k = []) :
    (r.file h k).under k' = if k' = k then r.under k ++ [h] else r.under k' := by
  cases k with
  | path p =>
    cases k' with
    | path p' =>
      have hnone : r.parameterized.find? p = none := by simpa [under] using hpath p rfl
      simp only [file, under, PathTrie.find?_insert, RegistryKey.path.injEq, hnone]
      split <;> rfl
    | _ => rfl
  | _ => cases k' <;> first | rfl | simp [file, under, Table.get_push]

@[simp] theorem slots_register (r : Registry) (d : Descriptor) :
    (r.register d).2.slots = r.slots ++ [d] :=
  slots_file _ _ _

theorem prefix_register (r : Registry) (d : Descriptor) : r.slots <+: (r.register d).2.slots :=
  ⟨[d], (slots_register r d).symm⟩

@[simp] theorem get?_register_self (r : Registry) (d : Descriptor) :
    (r.register d).2.get? (r.register d).1 = some d := by
  simp [get?, register, alloc]

/-- What a registry holds after a descriptor was registered: what it held, and the descriptor. -/
theorem get?_register_cases (hh : (r.register d).2.get? h = some e) :
    r.get? h = some e ∨ h = (r.register d).1 ∧ e = d := by
  rw [get?, slots_register, List.getElem?_append] at hh
  split at hh
  · exact .inl hh
  · next hle =>
    obtain ⟨hlt, he⟩ := List.getElem?_eq_some_iff.1 hh
    have hindex : h.index = r.slots.length := by
      simp only [List.length_singleton] at hlt
      omega
    refine .inr ⟨congrArg TypeHandle.mk hindex, ?_⟩
    simpa [hindex] using he.symm

theorem under_register (hpath : ∀ p, d.key = .path p → r.under d.key = []) (k : RegistryKey) :
    (r.register d).2.under k =
      if k = d.key then r.under d.key ++ [(r.register d).1] else r.under k :=
  under_file { r with slots := r.slots ++ [d] } _ d.key k fun p hp => hpath p hp

/-! ### Looking up -/

/-- A registered handle answers a request for a descriptor. -/
def answers (r : Registry) (d : Descriptor) (h : TypeHandle) : Bool :=
  !d.isSought || (r.get? h).any fun registered => registered.agrees r.deepEqual d

/-- The first class of a name, if it has a supertype and the requested class has none. -/
def richer? (r : Registry) : Descriptor → Option TypeHandle
  | .classType c => (r.classes.get c.name).head?.filter fun first =>
      c.supertype.isNone && r.hasSupertype first
  | _ => none

/-- The handle that answers a request for a descriptor. -/
def lookUp (r : Registry) (relaxed : Bool) (d : Descriptor) : Option TypeHandle :=
  if relaxed then (r.under d.key).head?
  else ((r.under d.key).find? (r.answers d)).or (r.richer? d)

/-- The handle that answers a request for a descriptor, registered if there is none. -/
def intern (r : Registry) (relaxed : Bool) (d : Descriptor) : TypeHandle × Registry :=
  match r.lookUp relaxed d with
  | some h => (h, r)
  | none => r.register d

theorem answers_classType (r : Registry) (c : ClassType) :
    r.answers (.classType c) = r.matchesClass c := by
  funext h
  simp only [answers, matchesClass, classAt?]
  cases r.get? h with
  | none => rfl
  | some e => cases e with
    | array element => cases element <;> rfl
    | _ => rfl

theorem answers_variableType (r : Registry) (v : VariableType) :
    r.answers (.variableType v) = fun h =>
      (r.variableAt? h).any fun registered => registered.agrees r.deepEqual v := by
  funext h
  simp only [answers, variableAt?]
  cases r.get? h with
  | none => rfl
  | some e => cases e with
    | array element => cases element <;> rfl
    | _ => rfl

theorem answers_methodType (r : Registry) (m : MethodType) :
    r.answers (.methodType m) = fun h =>
      (r.methodAt? h).any fun registered => registered.agrees r.deepEqual m := by
  funext h
  simp only [answers, methodAt?]
  cases r.get? h with
  | none => rfl
  | some e => cases e with
    | array element => cases element <;> rfl
    | _ => rfl

theorem answers_of_not_isSought (hd : d.isSought = false) : r.answers d = fun _ => true := by
  funext h
  simp [answers, hd]

theorem find?_true {α : Type} (xs : List α) : xs.find? (fun _ => true) = xs.head? := by
  cases xs <;> rfl

theorem lookUp_of_not_isSought (hd : d.isSought = false) :
    r.lookUp relaxed d = (r.under d.key).head? := by
  have hricher : r.richer? d = none := by cases d <;> first | rfl | cases hd
  simp [lookUp, answers_of_not_isSought hd, find?_true, hricher]

/-! ### The form in which a descriptor is registered -/

/-- The form in which a descriptor is registered. -/
def canonical (r : Registry) : Descriptor → Descriptor
  | .classType c => .classType (r.canonicalClass c)
  | d => d

theorem mem_canonicalMembers {members : List TypeHandle} {x : TypeHandle}
    (h : x ∈ r.canonicalMembers name members) : x ∈ members := by
  rw [canonicalMembers, List.mem_mergeSort] at h
  split at h
  · exact (List.mem_filter.1 h).1
  · exact h

theorem canonicalMembers_nil (r : Registry) (name : Text) : r.canonicalMembers name [] = [] :=
  List.eq_nil_iff_forall_not_mem.2 fun _ hx => List.not_mem_nil (mem_canonicalMembers hx)

theorem mem_components_canonical {x : TypeHandle} (h : x ∈ (r.canonical d).components) :
    x ∈ d.components := by
  cases d with
  | classType c =>
    simp only [canonical, Descriptor.components, Descriptor.compared, canonicalClass,
      List.mem_append] at h ⊢
    exact h.imp_left <| .imp_left <| .imp_left <| .imp_left mem_canonicalMembers
  | _ => exact h

theorem mem_handles_canonical {x : TypeHandle} (h : x ∈ (r.canonical d).handles) :
    x ∈ d.handles := by
  cases d with
  | classType c =>
    rcases List.mem_append.1 h with h | h
    · exact List.mem_append_left _ (mem_components_canonical h)
    · exact List.mem_append_right _ h
  | _ => exact h

@[simp] theorem isPrimitive_canonical (r : Registry) (d : Descriptor) :
    (r.canonical d).isPrimitive = d.isPrimitive := by
  cases d <;> rfl

/-- The members of a class stand in the order of their names. -/
theorem pairwise_canonicalMembers (r : Registry) (name : Text) (members : List TypeHandle) :
    (r.canonicalMembers name members).Pairwise fun a b => ¬r.memberName b < r.memberName a := by
  let counted := if name = "java.lang.String".toList then
    members.filter fun h => r.memberName h != "serialPersistentFields".toList else members
  have hsorted : (r.canonicalMembers name members).Pairwise fun a b =>
      (!decide (r.memberName b < r.memberName a)) = true := by
    refine List.pairwise_mergeSort (fun a b c hab hbc => ?_) (fun a b => ?_) counted
    · simp only [Bool.not_eq_true', decide_eq_false_iff_not, List.not_lt] at hab hbc ⊢
      exact List.le_trans hab hbc
    · simp only [Bool.or_eq_true, Bool.not_eq_true', decide_eq_false_iff_not, List.not_lt]
      exact List.le_total _ _
  exact hsorted.imp fun h => by simpa using h

/-- Members that are in this form stay as they are. -/
theorem canonicalMembers_canonicalMembers (r : Registry) (name : Text)
    (members : List TypeHandle) :
    r.canonicalMembers name (r.canonicalMembers name members) =
      r.canonicalMembers name members := by
  have hsorted : ((r.canonicalMembers name members).mergeSort fun a b =>
      !decide (r.memberName b < r.memberName a)) = r.canonicalMembers name members :=
    List.mergeSort_of_pairwise <| (r.pairwise_canonicalMembers name members).imp fun h => by
      simpa using h
  rw [canonicalMembers]
  split
  · next hname =>
    have hcounted : ∀ h ∈ r.canonicalMembers name members,
        r.memberName h != "serialPersistentFields".toList := fun h hh => by
      rw [canonicalMembers, if_pos hname, List.mem_mergeSort] at hh
      exact (List.mem_filter.1 hh).2
    rw [List.filter_eq_self.2 hcounted, hsorted]
  · exact hsorted

theorem canonical_canonical (r : Registry) (d : Descriptor) :
    r.canonical (r.canonical d) = r.canonical d := by
  cases d with
  | classType c =>
    simp only [canonical, canonicalClass, canonicalMembers_canonicalMembers]
  | _ => rfl

theorem Live.memberName_eq (hgrown : r.slots <+: s.slots) (h : r.Live a) :
    s.memberName a = r.memberName a := by
  rw [memberName, memberName, variableAt?, variableAt?, h.get?_eq hgrown]

theorem canonicalMembers_eq (hgrown : r.slots <+: s.slots) {members : List TypeHandle}
    (hlive : ∀ x ∈ members, r.Live x) :
    s.canonicalMembers name members = r.canonicalMembers name members := by
  have hname : ∀ x ∈ members, s.memberName x = r.memberName x := fun x hx =>
    (hlive x hx).memberName_eq hgrown
  have hsort {xs : List TypeHandle} (hxs : ∀ x ∈ xs, x ∈ members) :
      (xs.mergeSort fun a b => !decide (s.memberName b < s.memberName a)) =
        xs.mergeSort fun a b => !decide (r.memberName b < r.memberName a) := by
    simpa using List.map_mergeSort (f := id) fun a ha b hb => by
      rw [id, id, hname a (hxs a ha), hname b (hxs b hb)]
  have hfilter : (members.filter fun h => s.memberName h != "serialPersistentFields".toList) =
      members.filter fun h => r.memberName h != "serialPersistentFields".toList :=
    List.filter_congr fun x hx => by rw [hname x hx]
  simp only [canonicalMembers, hfilter]
  split
  · exact hsort fun x hx => (List.mem_filter.1 hx).1
  · exact hsort fun x hx => hx

/-- The form does not change when descriptors are put behind. -/
theorem canonical_eq (hgrown : r.slots <+: s.slots) (hd : ∀ x ∈ d.handles, r.Live x) :
    s.canonical d = r.canonical d := by
  cases d with
  | classType c =>
    have hlive : ∀ x ∈ c.members, r.Live x := fun x hx =>
      hd x (by simp [Descriptor.handles, Descriptor.components, Descriptor.compared, hx])
    rw [canonical, canonical, canonicalClass, canonicalClass, canonicalMembers_eq hgrown hlive]
  | _ => rfl

/-! ### Building -/

theorem buildExactClass_eq (r : Registry) (c : ClassType) :
    r.buildExactClass c = r.intern false (.classType (r.canonicalClass c)) := by
  have hname : (r.canonicalClass c).name = c.name := rfl
  simp only [buildExactClass, intern, lookUp, answers_classType, richer?, Descriptor.key, under,
    hname, Bool.false_eq_true, if_false]
  cases (r.classes.get c.name).find? (r.matchesClass (r.canonicalClass c)) with
  | some h => rfl
  | none =>
    cases (r.canonicalClass c).supertype with
    | some s => cases r.classes.get c.name <;> rfl
    | none =>
      cases r.classes.get c.name with
      | nil => rfl
      | cons first rest =>
        by_cases hf : r.hasSupertype first <;>
          simp [hf, Option.filter, addClass, register, Descriptor.key, file]

theorem buildRelaxedClass_eq (r : Registry) (c : ClassType) :
    r.buildRelaxedClass c = r.intern true (.classType (r.canonicalClass c)) := by
  have hname : (r.canonicalClass c).name = c.name := rfl
  simp only [buildRelaxedClass, intern, lookUp, Descriptor.key, under, hname, if_true]
  cases r.classes.get c.name <;> rfl

theorem buildClassFrom_eq (r : Registry) (relaxed : Bool) (c : ClassType) :
    r.buildClassFrom relaxed c = r.intern relaxed (.classType (r.canonicalClass c)) := by
  cases relaxed
  · exact buildExactClass_eq r c
  · exact buildRelaxedClass_eq r c

theorem buildParameterized_eq (r : Registry) (raw : TypeHandle) (arguments : List TypeHandle) :
    r.buildParameterized raw arguments = r.intern false (.parameterized raw arguments) := by
  rw [intern, lookUp_of_not_isSought rfl, buildParameterized, Descriptor.key, under]
  cases r.parameterized.find? (raw :: arguments) <;> rfl

theorem buildVariable_eq (r : Registry) (v : VariableType) :
    r.buildVariable v = r.intern false (.variableType v) := by
  simp only [buildVariable, intern, lookUp, answers_variableType, richer?, Descriptor.key, under,
    Option.or_none, Bool.false_eq_true, if_false]
  rfl

theorem buildMethod_eq (r : Registry) (m : MethodType) :
    r.buildMethod m = r.intern false (.methodType m) := by
  simp only [buildMethod, intern, lookUp, answers_methodType, richer?, Descriptor.key, under,
    Option.or_none, Bool.false_eq_true, if_false]
  rfl

theorem buildOther_eq (r : Registry) (hd : d.key = .itself d) :
    r.buildOther d = r.intern false d := by
  have hsought : d.isSought = false := by cases d <;> first | rfl | cases hd
  rw [intern, lookUp_of_not_isSought hsought, buildOther, register, hd, under]
  cases r.others.get d <;> rfl

end Registry

end JavaSource
