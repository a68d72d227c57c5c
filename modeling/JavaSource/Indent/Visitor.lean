import JavaSource.Indent.Note
import JavaSource.Visit.Visitor

/-!
# Indents

`indenter` moves every token that starts a line, and every comment, to the column of its place. A
column is measured from the nearest frame whose own line start is known; lists of arguments, chains
of calls and the headers of `for` loops have rules of their own. A space that neither starts a line
nor holds a comment stays as it is.
-/

namespace JavaSource

/-- A step of the indenter. -/
abbrev IndentWalk := Walk IndentNote Unit

namespace IndentWalk

/-- Changes the note of the frame at this distance from the innermost. -/
def modifyNoteAt (distance : Nat) (f : IndentNote → IndentNote) : IndentWalk Unit :=
  Walk.modifyTrail fun trail =>
    trail.modify distance fun frame => { frame with note := f frame.note }

/-- Notes the column of the frame at this distance from the innermost. -/
def setColumn (distance : Nat) (column : Int) : IndentWalk Unit :=
  modifyNoteAt distance fun note => { note with column := some column }

/-- Notes the step of the frame at this distance from the innermost. -/
def setStep (distance : Nat) (step : IndentStep) : IndentWalk Unit :=
  modifyNoteAt distance fun note => { note with step := some step }

/-- The token after a space directly at the innermost frame lines up with an annotation before it.
Says so once for each annotation. -/
def alignsWithAnnotation : IndentWalk Bool := do
  match ← Walk.trail with
  | frame :: parent :: above =>
    if parent.value.kind? = some .annotationUse then
      modifyNoteAt 2 fun note => { note with afterAnnotation := true }
      return false
    else if (Trail.hasAnnotationFrame (parent :: above)) then return false
    else
      let (found, trail) := Trail.takeAfterAnnotation (frame :: parent :: above)
      Walk.modifyTrail fun _ => trail
      return found
  | _ => return false

end IndentWalk

/-- The space before these starts a line at the column of the node itself. -/
def SpaceSlot.closes : SpaceSlot → Bool
  | .blockEnd | .after .arrayValue | .leading .catchClause | .before .finallyBlock
  | .leading .elsePart => true
  | _ => false

/-- A brace that starts a line, unless it opens a block directly in a block. -/
def opensOwnLine (slot : SpaceSlot) (s : Space) (frame : Frame IndentNote)
    (above : Trail IndentNote) : Bool :=
  slot == .leading .block && s.whitespace.contains '\n' && frame.value.kind? == some .block &&
    above.findSome? (fun f => f.value.kind?) != some .block

/-- How far the token after a space directly at the frame is indented. -/
def indentStepAt (slot : SpaceSlot) (s : Space) (aligned : Bool) (frame : Frame IndentNote)
    (above : Trail IndentNote) : IndentStep :=
  if aligned || slot.closes || opensOwnLine slot s frame above then .align
  else if slot == .before .superclass && s.whitespace.contains '\n' ||
      (above.head?.bind fun f => f.note.lastSlot) == some (.before .superclass) then .continuation
  else above.indentStep

/-- The line of the frame starts where a space directly at it says. -/
def FrameValue.setsColumn : FrameValue → Bool
  | .preceded _ => false
  | .tree t => t.kind != .enumValueSet
  | _ => true

/-- Indents the token after a space, and the comments in it. -/
def indentAt (style : IndentStyle) (slot : SpaceSlot) (s : Space) : IndentWalk Space := do
  IndentWalk.modifyNoteAt 0 fun note => { note with lastSlot := some slot }
  match ← Walk.trail with
  | frame :: parent :: above =>
    let aligned ← IndentWalk.alignsWithAnnotation
    if s.comments.isEmpty && !s.hasNewline then return s
    let step := indentStepAt slot s aligned frame (parent :: above)
    let column := Trail.column (frame :: parent :: above) + style.columns step
    if frame.value.setsColumn then IndentWalk.setColumn 0 column
    return style.indentSpace slot column s
  | _ => return s

/-! ### Elements -/

section Elements

variable (style : IndentStyle) (visit : Tree → IndentWalk Tree)

/-- Indents an element, and the token after it by the usual rule. -/
def indentElement (slot : FollowedSlot) (x : Followed Tree) : IndentWalk (Followed Tree) := do
  let element ← visit x.element
  return ⟨element, ← indentAt style (.after slot) x.after⟩

/-- Indents an element, and moves the token after it to a column. -/
def indentElementTo (slot : FollowedSlot) (column : Int) (x : Followed Tree) :
    IndentWalk (Followed Tree) := do
  return ⟨← visit x.element, style.indentSpace (.after slot) column x.after⟩

/-- Indents an element from one column of the frame around it, which then has another. -/
def indentElementFrom (slot : FollowedSlot) (start column after : Int) (x : Followed Tree) :
    IndentWalk (Followed Tree) := do
  IndentWalk.setColumn 1 start
  let element ← visit x.element
  IndentWalk.setColumn 1 column
  return ⟨element, style.indentSpace (.after slot) after x.after⟩

/-- Indents the condition or an update of a `for` loop: from its first initializer, unless that
starts a line. -/
def indentForPart (slot : FollowedSlot) (column : Int) (around : Trail IndentNote)
    (x : Followed Tree) : IndentWalk (Followed Tree) := do
  let initStartsLine := around.head?.any fun frame =>
    match frame.value.tree?.map Tree.shape with
    | some (.forControl init _ _) => init.head?.any fun i => i.element.leading.hasNewline
    | _ => false
  if initStartsLine then indentElement style visit slot x
  else
    let initColumn ← around.forInitColumn
    indentElementFrom style visit slot (initColumn - style.continuation) column initColumn x

/-- Indents a parameter of a method as the first one is; the parameters after a first one directly
at the parenthesis stay as they are. -/
def indentParameter (slot : FollowedSlot) (column : Int) (around : Trail IndentNote)
    (x : Followed Tree) : IndentWalk (Followed Tree) :=
  match around.elements with
  | [] => throw (.missingAncestor "parameter list")
  | first :: _ =>
    let leading := first.element.leading
    if leading.hasNewline then indentElementTo style visit slot column x
    else if leading.whitespace.isEmpty then return x
    else
      let firstColumn := style.columnAfter leading
      indentElementFrom style visit slot firstColumn column firstColumn x

/-- The body of a lambda expression goes on in the line of the expression. -/
def Tree.isInlineLambda (t : Tree) : Bool :=
  match t.shape with
  | .lambda l => l.body.kind != .binary && !l.body.leading.hasNewline
  | _ => false

/-- Indents an argument of a call. -/
def indentArgument (slot : FollowedSlot) (column : Int) (x : Followed Tree) :
    IndentWalk (Followed Tree) := do
  if !x.element.leading.hasNewline && x.element.isInlineLambda then
    IndentWalk.setColumn 1 (column + style.continuation)
  indentElementTo style visit slot column x

/-- Indents the receiver of a call from the column of the outermost call in the chain. -/
def indentReceiver (slot : FollowedSlot) (column : Int) (x : Followed Tree) :
    IndentWalk (Followed Tree) := do
  let chain := (← Walk.trail).chainColumn column
  IndentWalk.setColumn 1 chain
  let x ← indentElement style visit slot x
  IndentWalk.setColumn 1 (chain + style.continuation)
  return x

/-- Indents an argument of an annotation; the parenthesis after the last one lines up with the
annotation. -/
def indentAnnotationArgument (slot : FollowedSlot) (around : Trail IndentNote)
    (x : Followed Tree) : IndentWalk (Followed Tree) := do
  let element ← visit x.element
  if (around.elements.getLast?.any fun last => last.element.id == x.element.id) then
    IndentWalk.setStep 1 .align
  return ⟨element, ← indentAt style (.after slot) x.after⟩

/-- An argument in the line of its call that is indented further where a later argument starts a
line: anything but an operation, or a call whose receiver is neither a name nor a call. -/
def Tree.continuesCall (t : Tree) : Bool :=
  match t.shape with
  | .binary _ _ _ _ _ => false
  | .methodInvocation i =>
    t.leading.hasNewline || i.receiver.any fun r =>
      match r.element.kind with
      | .fieldAccess | .identifier | .methodInvocation => true
      | _ => false
  | _ => true

/-- Indents an argument that does not start a line. -/
def indentInlineArgument (slot : FollowedSlot) (column : Int) (around : Trail IndentNote)
    (x : Followed Tree) : IndentWalk (Followed Tree) := do
  let later := (around.elements.dropWhile fun a => a.element.id != x.element.id).drop 1
  if later.any fun a => a.element.leading.hasNewline then
    if x.element.continuesCall then IndentWalk.setColumn 0 (column + style.continuation)
    indentElement style visit slot x
  else indentElementTo style visit slot column x

/-- Indents an element with a line break in the space before or after it. -/
def indentBrokenElement (slot : FollowedSlot) (column : Int) (around : Trail IndentNote)
    (x : Followed Tree) : IndentWalk (Followed Tree) :=
  match slot with
  | .forCondition | .forUpdate => indentForPart style visit slot column around x
  | .methodParameter => indentParameter style visit slot column around x
  | .methodArgument => indentArgument style visit slot column x
  | .constructorArgument | .arrayIndex | .parentheses | .typeParameter =>
    indentElementTo style visit slot column x
  | .receiver => indentReceiver style visit slot column x
  | .annotationArgument => indentAnnotationArgument style visit slot around x
  | _ => indentElement style visit slot x

/-- Indents an element without a line break in the space before or after it. -/
def indentInlineElement (slot : FollowedSlot) (column : Int) (around : Trail IndentNote)
    (x : Followed Tree) : IndentWalk (Followed Tree) :=
  match slot with
  | .constructorArgument | .methodArgument => indentInlineArgument style visit slot column around x
  | _ => return ⟨← visit x.element, x.after⟩

/-- Indents an element and the token after it. -/
def indentFollowed (slot : FollowedSlot) (x : Followed Tree) : IndentWalk (Followed Tree) :=
  Walk.within (.followed slot x.element) do
    let trail ← Walk.trail
    if x.after.hasNewline || x.element.leading.hasNewline then
      indentBrokenElement style visit slot trail.column trail.tail x
    else indentInlineElement style visit slot trail.column trail.tail x

/-- These lists are indented from their own opening where it starts a line. -/
def SeriesSlot.startsOwnLine : SeriesSlot → Bool
  | .typeParameters | .interfaces | .thrownTypes | .constructorArguments => true
  | _ => false

/-- These lists go on as the rest of a statement. -/
def SeriesSlot.continuesStatement : SeriesSlot → Bool
  | .interfaces | .methodArguments | .constructorArguments | .typeParameters | .thrownTypes => true
  | _ => false

/-- Indents a list. -/
def indentSeries (slot : SeriesSlot) (s : Series Tree) : IndentWalk (Series Tree) :=
  Walk.within (.series slot s) do
    let column := (← Walk.trail).column + style.continuation
    let before ←
      if s.before.hasNewline && slot.startsOwnLine then do
        IndentWalk.setStep 0 .align
        IndentWalk.setColumn 0 column
        pure (style.indentSpace (.opening slot) column s.before)
      else do
        if !s.before.hasNewline && slot.continuesStatement then
          IndentWalk.setStep 0 .continuation
        indentAt style (.opening slot) s.before
    return ⟨before, ← s.elements.mapM (indentFollowed style visit slot.element)⟩

end Elements

/-! ### Trees -/

/-- Moves everything that starts a line, and every comment, to its column. -/
def indenter (style : IndentStyle) (stopAfter : Option NodeId) : Visitor IndentNote Unit where
  stopAfter
  enter t := do
    IndentWalk.setStep 0 (.ofKind t.kind)
    return t
  space := indentAt style
  followed := indentFollowed style
  series := indentSeries style

/-- The space before a frame, for a node or a list. -/
def FrameValue.leading? : FrameValue → Option Space
  | tree t => some t.leading
  | series _ s => some s.before
  | _ => none

/-- The frame with the column of its line, if it starts one to the right of the first column. -/
def IndentStyle.seed (style : IndentStyle) (value : FrameValue) : Frame IndentNote :=
  let column := value.leading?.bind fun s =>
    if s.hasNewline && style.columnAfter s != 0 then some (style.columnAfter s : Int) else none
  ⟨value, false, { (default : IndentNote) with column }⟩

/-- Notes the step of the nearest node. -/
def Trail.noteStep : Trail IndentNote → Trail IndentNote
  | [] => []
  | frame :: rest =>
    match frame.value.kind? with
    | some kind => { frame with note := { frame.note with step := some (.ofKind kind) } } :: rest
    | none => frame :: noteStep rest

/-- The trail through frames with the columns that their own spaces give. -/
def IndentStyle.seeds (style : IndentStyle) (above : List FrameValue) : Trail IndentNote :=
  Trail.noteStep (above.map style.seed)

end JavaSource
