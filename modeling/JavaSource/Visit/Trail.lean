import JavaSource.Visit.Error
import JavaSource.Tree.Traverse

/-!
# Trails

A `Trail` is the way from the root of a visit down to where it is, innermost frame first. A frame
shows what it stands for as it was before the visit, and carries a note that the visitor may change
while it is anywhere below. A `Walk` is an action on a trail, with a state of its own that outlives
the frames.
-/

namespace JavaSource

/-- What a frame stands for. -/
inductive FrameValue where
  /-- The start of the visit. -/
  | root
  | tree (t : Tree)
  | followed (slot : FollowedSlot) (element : Tree)
  | preceded (slot : PrecededSlot)
  | series (slot : SeriesSlot) (s : Series Tree)

namespace FrameValue

/-- The node that the frame stands for, if it is a node. -/
def tree? : FrameValue → Option Tree
  | tree t => some t
  | _ => none

/-- The kind of the node that the frame stands for, if it is a node. -/
def kind? (v : FrameValue) : Option NodeKind := v.tree?.map Tree.kind

/-- How the frame is shown: a node by its kind in quotes, a slot by its name. -/
def describe : FrameValue → String
  | root => "\"root\""
  | tree t => "\"" ++ t.kind.name ++ "\""
  | followed slot _ => slot.name
  | preceded slot => slot.name
  | series slot _ => slot.name

end FrameValue

/-- A step on the way down. -/
structure Frame (μ : Type) where
  value : FrameValue
  /-- Nothing more is visited below this frame. -/
  stopped : Bool
  note : μ

/-- The frames from the innermost to the root. -/
abbrev Trail (μ : Type) := List (Frame μ)

namespace Trail

variable {μ : Type}

/-- A frame with an unused note. -/
def fresh [Inhabited μ] (value : FrameValue) : Frame μ := ⟨value, false, default⟩

/-- The trail at the start of a visit. -/
def start [Inhabited μ] : Trail μ := [fresh .root]

/-- The trail through frames that stand for these values. -/
def ofValues [Inhabited μ] (values : List FrameValue) : Trail μ := values.map fresh

/-- What the frames stand for. -/
def values (trail : Trail μ) : List FrameValue := trail.map Frame.value

/-- Nothing more is visited below some frame of the trail. -/
def isStopped (trail : Trail μ) : Bool := trail.any Frame.stopped

/-- Changes the first frame that satisfies `p`; the last one when none does. -/
def modifyFirst (p : Frame μ → Bool) (f : Frame μ → Frame μ) : Trail μ → Trail μ
  | [] => []
  | [frame] => [f frame]
  | frame :: rest => if p frame then f frame :: rest else frame :: modifyFirst p f rest

/-- Nothing more is visited in the innermost file, or in the whole visit when there is no file. -/
def stop (trail : Trail μ) : Trail μ :=
  trail.modifyFirst (fun frame => frame.value.kind? == some .compilationUnit)
    fun frame => { frame with stopped := true }

/-- How the trail is shown. -/
def describe (values : List FrameValue) : String :=
  "[" ++ ", ".intercalate (values.map FrameValue.describe) ++ "]"

end Trail

/-- Where a visit is, and what it has gathered. -/
structure Traversal (μ σ : Type) where
  trail : Trail μ
  state : σ

/-- An action during a visit. -/
abbrev Walk (μ σ : Type) := StateT (Traversal μ σ) (Except VisitError)

namespace Walk

variable {μ σ α : Type}

/-- The trail to where the visit is. -/
def trail : Walk μ σ (Trail μ) := return (← get).trail

/-- Changes the trail. -/
def modifyTrail (f : Trail μ → Trail μ) : Walk μ σ Unit :=
  modify fun w => { w with trail := f w.trail }

/-- Changes the state. -/
def modifyState (f : σ → σ) : Walk μ σ Unit := modify fun w => { w with state := f w.state }

/-- Runs an action one frame further down. -/
def within [Inhabited μ] (value : FrameValue) (action : Walk μ σ α) : Walk μ σ α := do
  modifyTrail (Trail.fresh value :: ·)
  let a ← action
  modifyTrail List.tail
  return a

/-- The note of the innermost frame. -/
def note [Inhabited μ] : Walk μ σ μ := return ((← trail).head?.map Frame.note).getD default

/-- Changes the note of the innermost frame. -/
def modifyNote (f : μ → μ) : Walk μ σ Unit :=
  modifyTrail fun
    | [] => []
    | frame :: rest => { frame with note := f frame.note } :: rest

end Walk

end JavaSource
