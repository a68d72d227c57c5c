import JavaSource.Visit.Trail

/-!
# Cursors

A `CursorTable` holds frames that cursors share: a cursor is the place of its frame, and a frame
knows its parent. Messages are left on a frame under a key and read back by key and type. A fork
copies the frames of a cursor without their messages.
-/

namespace JavaSource

/-- Something left on a frame. -/
inductive Message where
  | bool (b : Bool)
  | int (i : Int)
  | string (s : String)
deriving DecidableEq, Repr

/-- The type of a message. -/
inductive MessageType where
  | bool | int | string
deriving DecidableEq, Repr

/-- The type of a message. -/
def Message.type : Message → MessageType
  | bool _ => .bool
  | int _ => .int
  | string _ => .string

/-- A frame that cursors share. -/
structure CursorFrame where
  value : FrameValue
  /-- The frame above; the root has none. -/
  parent : Option Nat
  /-- The messages, each under its key. -/
  messages : List (String × Message)

/-- The frame of a cursor in its table. -/
abbrev Cursor := Nat

/-- The frames that cursors share. -/
structure CursorTable where
  frames : Array CursorFrame

namespace CursorTable

/-- No frames. -/
def empty : CursorTable := ⟨#[]⟩

/-- Adds a frame; gives its cursor. -/
def add (table : CursorTable) (value : FrameValue) (parent : Option Cursor) :
    Cursor × CursorTable :=
  (table.frames.size, ⟨table.frames.push ⟨value, parent, []⟩⟩)

/-- A new chain of one root frame. -/
def root (table : CursorTable) : Cursor × CursorTable := table.add .root none

/-- A frame below a cursor. -/
def push (table : CursorTable) (c : Cursor) (value : FrameValue) : Cursor × CursorTable :=
  table.add value (some c)

/-- The frame above. -/
def parent? (table : CursorTable) (c : Cursor) : Option Cursor :=
  table.frames[c]?.bind CursorFrame.parent

/-- The cursor, and every one above it up to the root. -/
def path (table : CursorTable) (c : Cursor) : List Cursor :=
  match table.parent? c with
  | none => [c]
  | some p => if p < c then c :: path table p else [c]
termination_by c

/-- What the frame of a cursor stands for. -/
def value (table : CursorTable) (c : Cursor) : FrameValue :=
  (table.frames[c]?.map CursorFrame.value).getD .root

/-- The node that the frame of a cursor stands for, if it is a node. -/
def tree? (table : CursorTable) (c : Cursor) : Option Tree := (table.value c).tree?

/-- What the frames of a cursor stand for, innermost first. -/
def values (table : CursorTable) (c : Cursor) : List FrameValue := (table.path c).map table.value

/-- The number of frames down to the cursor. -/
def depth (table : CursorTable) (c : Cursor) : Nat := (table.path c).length

/-- The outermost frame. -/
def rootOf (table : CursorTable) (c : Cursor) : Cursor := (table.path c).getLast?.getD c

/-- The nearest frame, this one included, that stands for a node with the property. -/
def enclosing? (table : CursorTable) (p : Tree → Bool) (c : Cursor) : Option Cursor :=
  (table.path c).find? fun f => (table.tree? f).any p

/-- The nearest frame above this one that stands for a node. -/
def parentTree? (table : CursorTable) (c : Cursor) : Option Cursor :=
  (table.parent? c).bind (table.enclosing? fun _ => true)

/-- The frame above, or an error when there is none. -/
def parentOrError (table : CursorTable) (c : Cursor) : Except VisitError Cursor :=
  match table.parent? c with
  | some p => .ok p
  | none => .error (.missingAncestor "parent")

/-- The nearest node with the property, or an error that names what was expected. -/
def enclosingOrError (table : CursorTable) (expected : String) (p : Tree → Bool) (c : Cursor) :
    Except VisitError Tree :=
  match (table.enclosing? p c).bind table.tree? with
  | some t => .ok t
  | none => .error (.missingAncestor expected)

/-- Copies the frames of a cursor, without their messages. -/
def fork (table : CursorTable) (c : Cursor) : Cursor × CursorTable :=
  (table.values c).foldr
    (fun value (above, table) => let (c, table) := table.add value above; (some c, table))
    ((none : Option Cursor), table) |> fun (top, table) => (top.getD c, table)

/-! ### Messages -/

/-- The message under a key on this frame, whatever its type. -/
def message? (table : CursorTable) (c : Cursor) (key : String) : Option Message :=
  table.frames[c]?.bind fun f => f.messages.lookup key

/-- Changes the messages of one frame. -/
def modifyMessages (table : CursorTable) (c : Cursor)
    (f : List (String × Message) → List (String × Message)) : CursorTable :=
  ⟨table.frames.modify c fun frame => { frame with messages := f frame.messages }⟩

/-- Leaves a message on a frame, in place of one under the same key. -/
def put (table : CursorTable) (c : Cursor) (key : String) (m : Message) : CursorTable :=
  table.modifyMessages c fun ms => (key, m) :: ms.filter fun e => e.1 != key

/-- The message of this type under a key on this frame. -/
def get? (table : CursorTable) (c : Cursor) (key : String) (type : MessageType) : Option Message :=
  (table.message? c key).filter fun m => m.type == type

/-- Takes the message of this type under a key off this frame. -/
def poll (table : CursorTable) (c : Cursor) (key : String) (type : MessageType) :
    Option Message × CursorTable :=
  match table.get? c key type with
  | none => (none, table)
  | some m => (some m, table.modifyMessages c fun ms => ms.filter fun e => e.1 != key)

/-- The nearest frame, this one included, with a message of this type under the key. -/
def nearestHolder? (table : CursorTable) (c : Cursor) (key : String) (type : MessageType) :
    Option Cursor :=
  (table.path c).find? fun f => (table.get? f key type).isSome

/-- The message of this type under the key on the nearest frame that has one. -/
def nearest? (table : CursorTable) (c : Cursor) (key : String) (type : MessageType) :
    Option Message :=
  (table.nearestHolder? c key type).bind fun f => table.get? f key type

/-- Takes the message of this type under the key off the nearest frame that has one. -/
def pollNearest (table : CursorTable) (c : Cursor) (key : String) (type : MessageType) :
    Option Message × CursorTable :=
  match table.nearestHolder? c key type with
  | none => (none, table)
  | some f => table.poll f key type

/-- Leaves a message on the nearest frame that stands for a node with the property; says whether
there is one. -/
def putOnEnclosing (table : CursorTable) (p : Tree → Bool) (c : Cursor) (key : String)
    (m : Message) : Bool × CursorTable :=
  match table.enclosing? p c with
  | none => (false, table)
  | some f => (true, table.put f key m)

end CursorTable

end JavaSource
