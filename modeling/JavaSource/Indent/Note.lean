import JavaSource.Indent.Space
import JavaSource.Tree.Printer
import JavaSource.Visit.Trail

/-!
# What the frames know about indents

While a tree is indented, each frame of the trail may carry the column that its line starts at, and
how far its parts are indented from the nearest such column.
-/

namespace JavaSource

/-- How far a part is indented from the nearest column above. -/
inductive IndentStep where
  /-- Not at all. -/
  | align
  /-- As the inside of a block. -/
  | inside
  /-- As the rest of a statement. -/
  | continuation
deriving DecidableEq, Repr

/-- How far the parts of a node are indented. -/
def IndentStep.ofKind : NodeKind → IndentStep
  | .compilationUnit | .packageDeclaration | .importDeclaration | .labeled | .doWhileLoop
  | .arrayDimension | .classDeclaration => .align
  | .block | .ifStatement | .elsePart | .forLoop | .forEachLoop | .whileLoop | .caseClause
  | .enumValueSet => .inside
  | _ => .continuation

/-- The columns of a step. -/
def IndentStyle.columns (style : IndentStyle) : IndentStep → Nat
  | .align => 0
  | .inside => style.indentSize
  | .continuation => style.continuation

/-- What a frame knows about indents. -/
structure IndentNote where
  /-- The column that its line starts at. -/
  column : Option Int
  /-- How far its parts are indented. -/
  step : Option IndentStep
  /-- The slot of the last space directly at the frame. -/
  lastSlot : Option SpaceSlot
  /-- An annotation of the node has just ended. -/
  afterAnnotation : Bool

instance : Inhabited IndentNote := ⟨none, none, none, false⟩

namespace Trail

/-- The nearest column, if there is one. -/
def column? (trail : Trail IndentNote) : Option Int :=
  trail.findSome? fun frame => frame.note.column

/-- The nearest column, or the first of a line when there is none. -/
def column (trail : Trail IndentNote) : Int := trail.column?.getD 0

/-- The nearest step. -/
def indentStep (trail : Trail IndentNote) : IndentStep :=
  (trail.findSome? fun frame => frame.note.step).getD .align

/-- Some frame stands for an annotation. -/
def hasAnnotationFrame (trail : Trail IndentNote) : Bool :=
  trail.any fun frame => frame.value.kind? == some .annotationUse

/-- Takes the mark that an annotation has ended off the nearest frame that carries it. -/
def takeAfterAnnotation : Trail IndentNote → Bool × Trail IndentNote
  | [] => (false, [])
  | frame :: rest =>
    if frame.note.afterAnnotation then
      (true, { frame with note := { frame.note with afterAnnotation := false } } :: rest)
    else
      let (found, rest) := takeAfterAnnotation rest
      (found, frame :: rest)

/-- The elements of the list that the innermost frame stands for. -/
def elements (trail : Trail IndentNote) : List (Followed Tree) :=
  match trail with
  | ⟨.series _ s, _, _⟩ :: _ => s.elements
  | _ => []

/-- The column of the outermost call in the chain of calls that the innermost frame is part of. -/
def chainColumn (column : Int) : Trail IndentNote → Int
  | [] => column
  | frame :: rest =>
    match frame.value with
    | .followed _ _ => chainColumn column rest
    | .tree t =>
      if t.kind = .methodInvocation then
        chainColumn ((Trail.column? (frame :: rest)).getD column) rest
      else column
    | _ => column

end Trail

/-! ### The header of a `for` loop -/

/-- The column of the first character after an opening parenthesis that is no white space. -/
def columnInParentheses (lineStart : Int) (offset : Nat) (opened : Bool) : Text → Option Int
  | [] => none
  | c :: rest =>
    if c = '\n' then columnInParentheses 0 0 opened rest
    else if opened && !isWhiteSpace c then some (lineStart + offset)
    else columnInParentheses lineStart (offset + 1) (opened || c == '(') rest

/-- A `for` loop without a body or a leading space, behind its label if it has one. -/
def forHeader (label : Option Tree) (loop : Tree) : Tree :=
  let loop := match loop.shape with
    | .forLoop control _ => loop.withShape (.forLoop control (.bare (.node 0 .empty .empty)))
    | _ => loop
  match label with
  | some l =>
    match l.shape with
    | .labeled name _ => (l.withLeading .empty).withShape (.labeled name loop)
    | _ => loop.withLeading .empty
  | none => loop.withLeading .empty

/-- The column of the first initializer of the nearest `for` loop. -/
def Trail.forInitColumn (trail : Trail IndentNote) : Except VisitError Int :=
  match trail.dropWhile fun frame => frame.value.kind? != some .forLoop with
  | ⟨.tree loop, stopped, note⟩ :: above =>
    let parents := above.dropWhile fun frame => frame.value.tree?.isNone
    let label := (parents.head?.bind fun frame => frame.value.tree?).filter fun t =>
      t.kind == .labeled
    let anchor : Trail IndentNote :=
      if label.isSome then parents else ⟨.tree loop, stopped, note⟩ :: above
    match columnInParentheses anchor.column 0 false (forHeader label loop).toText with
    | some column => .ok column
    | none => .error .missingForControl
  | _ => .error .missingForControl

end JavaSource
