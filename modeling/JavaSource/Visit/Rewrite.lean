import JavaSource.Visit.Local
import JavaSource.Space.Reader

/-!
# Small rewrites

Visitors that change names or spaces and nothing else.
-/

namespace JavaSource

/-- The visitor that changes the name of every identifier. -/
def renamer (stopAfter : Option NodeId) (rename : Text → Except VisitError Text) :
    Visitor Unit Unit where
  stopAfter
  node walk t :=
    match t.shape with
    | .identifier name type => do
      walk (t.withShape (.identifier (← rename name) type))
    | _ => walk t

/-- Another name for identifiers of one name. -/
def renameTo (old new name : Text) : Except VisitError Text :=
  return if name = old then new else name

/-- Every name with a mark behind it; one name may be forbidden. -/
def markName (forbidden : Option Text) (mark name : Text) : Except VisitError Text :=
  if forbidden = some name then throw (.forbiddenName name) else return name ++ mark

/-- The visitor that puts one space in every slot that is chosen. -/
def filler (stopAfter : Option NodeId) (chosen : SpaceSlot → Bool) (filling : Space) :
    Visitor Unit Unit :=
  .ofSpaces stopAfter fun slot s => if chosen slot then filling else s

end JavaSource
