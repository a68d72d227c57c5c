import JavaSource.Proofs.Gathering
import JavaSource.Proofs.Inner
import JavaSource.Proofs.LineBreaks
import JavaSource.Proofs.LocalDeletion
import JavaSource.Proofs.Repeating

/-!
# Gathering leading spaces again

The pass comes to a declaration before it comes to its parts.  When the first part of a declaration
is itself a declaration, the inner one has not taken over anything yet when the outer one takes over
its leading space: what it then takes over stays with it in the first run, and moves up in the
second.

So there is something left for a second run exactly where a declaration takes over the space of a
declaration that takes over a space of its own (`Tree.rewrite_gatherLeading_iff`).
-/

namespace JavaSource

/-! ### Spaces -/

namespace Space

theorem append_empty (s : Space) : s.append .empty = s := by
  have hlast (cs : List Comment) : mapLastSuffix (fun t => t ++ []) cs = cs := by
    fun_induction mapLastSuffix (fun t => t ++ []) cs <;> simp_all
  obtain ⟨w, cs⟩ := s
  cases cs with
  | nil => exact congrArg (Space.mk · []) (List.append_nil w)
  | cons c cs => exact congrArg (Space.mk w) ((List.append_nil _).trans (hlast _))

end Space

/-! ### What a declaration takes over -/

namespace Shape

/-- The part of a declaration whose leading space the declaration takes over. -/
def gatheredPart? : Shape Tree → Option Tree
  | classDeclaration d => if d.annotations.isEmpty then d.modifiers.head? else none
  | methodDeclaration d =>
    match d.annotations, d.modifiers, d.typeParameters with
    | _ :: _, _, _ => none
    | [], m :: _, _ => some m
    | [], [], some _ => none
    | [], [], none => some (d.returnType.getD d.name)
  | variableDeclarations d => if d.annotations.isEmpty then d.modifiers.head?.or d.type else none
  | _ => none

/-- The space that a declaration takes over. -/
def gatheredSpace : Shape Tree → Space
  | classDeclaration d =>
    match d.annotations, d.modifiers with
    | _ :: _, _ => .empty
    | [], m :: _ => m.leading
    | [], [] => d.beforeKind
  | methodDeclaration d =>
    match d.annotations, d.modifiers, d.typeParameters with
    | _ :: _, _, _ => .empty
    | [], m :: _, _ => m.leading
    | [], [], some ps => ps.before
    | [], [], none => (d.returnType.getD d.name).leading
  | variableDeclarations d =>
    match d.annotations, d.modifiers, d.type with
    | _ :: _, _, _ => .empty
    | [], m :: _, _ => m.leading
    | [], [], some type => type.leading
    | [], [], none => .empty
  | _ => .empty

/-- The layer of a declaration that has taken over a space. -/
def gathered (x : Shape Tree) : Shape Tree := (Tree.node 0 .empty x).gatherLeading.shape

theorem gatherLeading_node (i : NodeId) (s : Space) (x : Shape Tree) :
    (Tree.node i s x).gatherLeading = .node i (s.append x.gatheredSpace) x.gathered := by
  have hnone : s = s.append .empty := s.append_empty.symm
  cases x
  case classDeclaration d =>
    obtain ⟨annotations, modifiers, beforeKind, kind, name, ps, superclass, interfaces, body,
      type⟩ := d
    obtain - | ⟨a, annotations⟩ := annotations
    · cases modifiers <;> rfl
    · exact congrArg (Tree.node i · _) hnone
  case methodDeclaration d =>
    obtain ⟨annotations, modifiers, ps, returnType, name, parameters, thrown, body, type⟩ := d
    obtain - | ⟨a, annotations⟩ := annotations
    · cases modifiers <;> cases ps <;> cases returnType <;> rfl
    · exact congrArg (Tree.node i · _) hnone
  case variableDeclarations d =>
    obtain ⟨annotations, modifiers, type, beforeDots, declarators⟩ := d
    obtain - | ⟨a, annotations⟩ := annotations
    · cases modifiers <;> cases type <;> first | rfl | exact congrArg (Tree.node i · _) hnone
    · exact congrArg (Tree.node i · _) hnone
  all_goals exact congrArg (Tree.node i · _) hnone

variable {g : Tree → Tree}

/-- When the declaration has taken over a space, only what its part has taken over is left to take
over. -/
theorem gathered_map (x : Shape Tree) :
    ((x.gathered.map g).gatheredPart? =
      x.gatheredPart?.map fun part => g (part.withLeading .empty)) ∧
    (x.gathered.map g).gatheredSpace =
      (x.gatheredPart?.map fun part => (g (part.withLeading .empty)).leading).getD .empty := by
  cases x
  case unary beforeOperator operator operand => cases operator <;> exact ⟨rfl, rfl⟩
  case classDeclaration d =>
    obtain ⟨annotations, modifiers, beforeKind, kind, name, ps, superclass, interfaces, body,
      type⟩ := d
    cases annotations <;> cases modifiers <;>
      simp [gathered, Tree.gatherLeading, Tree.shape, Tree.gather, Tree.withShape, Tree.mapLeading,
        map_classDeclaration, gatheredPart?, gatheredSpace]
  case methodDeclaration d =>
    obtain ⟨annotations, modifiers, ps, returnType, name, parameters, thrown, body, type⟩ := d
    cases annotations <;> cases modifiers <;> cases ps <;> cases returnType <;>
      simp [gathered, Tree.gatherLeading, Tree.shape, Tree.gather, Tree.withShape, Tree.mapLeading,
        map_methodDeclaration, gatheredPart?, gatheredSpace, Series.mapBefore, Series.mapElements]
  case variableDeclarations d =>
    obtain ⟨annotations, modifiers, type, beforeDots, declarators⟩ := d
    cases annotations <;> cases modifiers <;> cases type <;>
      simp [gathered, Tree.gatherLeading, Tree.shape, Tree.gather, Tree.withShape, Tree.mapLeading,
        map_variableDeclarations, gatheredPart?, gatheredSpace]
  all_goals
    simp only [gathered, Tree.gatherLeading, Tree.shape, map, traverse, SlotActions.ofMap,
      run_option_mapM, run_list_mapM, Id.run_bind, Id.run_pure]
    try simp only [Id.run]
    exact ⟨rfl, rfl⟩

theorem mem_children_of_gatheredPart? {x : Shape Tree} {part : Tree}
    (h : x.gatheredPart? = some part) : part ∈ x.children := by
  cases x <;> try cases h
  case classDeclaration d =>
    obtain ⟨annotations, modifiers, beforeKind, kind, name, ps, superclass, interfaces, body,
      type⟩ := d
    cases annotations <;> cases modifiers <;> simp_all [gatheredPart?, children]
  case methodDeclaration d =>
    obtain ⟨annotations, modifiers, ps, returnType, name, parameters, thrown, body, type⟩ := d
    cases annotations <;> cases modifiers <;> cases ps <;> cases returnType <;>
      simp_all [gatheredPart?, children]
  case variableDeclarations d =>
    obtain ⟨annotations, modifiers, type, beforeDots, declarators⟩ := d
    cases annotations <;> cases modifiers <;> cases type <;> simp_all [gatheredPart?, children]

end Shape

/-! ### The pass -/

namespace Tree

/-- One round of the pass. -/
theorem rewriteWithin_gatherLeading (n : Nat) (parent : Option NodeKind) (t : Tree) :
    t.rewriteWithin (fun _ => gatherLeading) (fun _ s => s) (n + 1) parent =
      .node t.id (t.leading.append t.shape.gatheredSpace) (t.shape.gathered.map
        (rewriteWithin (fun _ => gatherLeading) (fun _ s => s) n (some t.kind))) := by
  cases t with
  | node i s x =>
    rw [rewriteWithin, Shape.gatherLeading_node]
    rfl

theorem kind_gathered (x : Shape Tree) : x.gathered.kind = x.kind :=
  (kind_eq_of_bare (respaced_gatherLeading (.node 0 .empty x)).bare).symm

/-- What is left in front of a part whose leading space has been taken over is what the part takes
over itself. -/
theorem leading_rewriteWithin_released {n : Nat} (parent : Option NodeKind) {part : Tree}
    (hn : part.height ≤ n) : ((part.withLeading .empty).rewriteWithin (fun _ => gatherLeading)
      (fun _ s => s) n parent).leading = part.shape.gatheredSpace := by
  obtain - | n := n
  · rw [height_eq part] at hn
    omega
  · cases part with
    | node j s y => exact congrArg leading (rewriteWithin_gatherLeading n parent (node j .empty y))

end Tree

end JavaSource
