import JavaSource.Visit.Local

/-!
# Wrapping

Each statement of a block starts a line, and so does what follows an annotation of a class or a
method.
-/

namespace JavaSource

/-- The space with a line break before the token that follows. -/
def Space.wrapped (s : Space) : Space :=
  if s.hasNewline then s else s.mapLastWhitespace ('\n' :: ·)

/-- The node at the start of a line. -/
def Tree.wrapped (t : Tree) : Tree := t.mapLeading Space.wrapped

/-- Puts what follows each annotation of a class on a new line. -/
def ClassDeclaration.wrapAnnotations (d : ClassDeclaration Tree) : ClassDeclaration Tree :=
  if d.annotations.isEmpty then d
  else
    let d := { d with annotations := mapRest Tree.wrapped d.annotations }
    match d.modifiers with
    | m :: ms => { d with modifiers := m.wrapped :: ms }
    | [] => { d with beforeKind := d.beforeKind.wrapped }

/-- Puts what follows each annotation of a method on a new line. -/
def MethodDeclaration.wrapAnnotations (d : MethodDeclaration Tree) : MethodDeclaration Tree :=
  if d.annotations.isEmpty then d
  else
    let d := { d with annotations := mapRest Tree.wrapped d.annotations }
    match d.modifiers, d.typeParameters, d.returnType with
    | m :: ms, _, _ => { d with modifiers := m.wrapped :: ms }
    | [], some ps, _ => { d with typeParameters := some (ps.mapBefore Space.wrapped) }
    | [], none, some r => { d with returnType := some r.wrapped }
    | [], none, none => { d with name := d.name.wrapped }

/-- Wraps the parts of a layer that belong on a new line. -/
def Shape.wrapParts : Shape Tree → Shape Tree
  | block afterStatic statements beforeClose =>
    block afterStatic (mapRest (Followed.map Tree.wrapped) statements) beforeClose
  | classDeclaration d => classDeclaration d.wrapAnnotations
  | methodDeclaration d => methodDeclaration d.wrapAnnotations
  | x => x

/-- Puts statements, and what follows annotations, on new lines. -/
def lineWrapper (stopAfter : Option NodeId) : Visitor Unit Unit :=
  .ofNodes stopAfter fun _ t => t.withShape t.shape.wrapParts

end JavaSource
