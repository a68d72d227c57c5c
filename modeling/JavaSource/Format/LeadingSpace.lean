import JavaSource.Visit.Local

/-!
# The leading space of a declaration

An edit that removes the annotations or modifiers of a declaration can leave its leading space on
what is now its first part. `Tree.gatherLeading` moves that space to the declaration itself; the
text of the tree stays the same.
-/

namespace JavaSource

/-- Moves the leading space of a part of the node to the end of the node's own. -/
def Tree.gather (t part : Tree) (rebuild : Tree → Shape Tree) : Tree :=
  (t.mapLeading fun s => s.append part.leading).withShape (rebuild (part.withLeading .empty))

/-- Moves the space before the first token of a declaration to the declaration. -/
def Tree.gatherLeading (t : Tree) : Tree :=
  match t.shape with
  | .classDeclaration d =>
    match d.annotations, d.modifiers with
    | [], m :: ms => t.gather m fun m => .classDeclaration { d with modifiers := m :: ms }
    | [], [] =>
      (t.mapLeading fun s => s.append d.beforeKind).withShape
        (.classDeclaration { d with beforeKind := .empty })
    | _ :: _, _ => t
  | .methodDeclaration d =>
    match d.annotations, d.modifiers, d.typeParameters, d.returnType with
    | [], m :: ms, _, _ => t.gather m fun m => .methodDeclaration { d with modifiers := m :: ms }
    | [], [], some ps, _ =>
      (t.mapLeading fun s => s.append ps.before).withShape
        (.methodDeclaration { d with typeParameters := some (ps.mapBefore fun _ => .empty) })
    | [], [], none, some r =>
      t.gather r fun r => .methodDeclaration { d with returnType := some r }
    | [], [], none, none => t.gather d.name fun name => .methodDeclaration { d with name }
    | _ :: _, _, _, _ => t
  | .variableDeclarations d =>
    match d.annotations, d.modifiers, d.type with
    | [], m :: ms, _ => t.gather m fun m => .variableDeclarations { d with modifiers := m :: ms }
    | [], [], some type =>
      t.gather type fun type => .variableDeclarations { d with type := some type }
    | [], [], none => t
    | _ :: _, _, _ => t
  | _ => t

/-- Moves the space before the first token of each declaration to the declaration. -/
def leadingSpaceGatherer (stopAfter : Option NodeId) : Visitor Unit Unit :=
  .ofNodes stopAfter fun _ => Tree.gatherLeading

end JavaSource
