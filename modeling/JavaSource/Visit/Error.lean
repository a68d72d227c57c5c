import JavaSource.Text.Basic

/-!
# Visit errors

Why a visitor gave up. A visit ends at the first error.
-/

namespace JavaSource

/-- Why a visitor gave up. -/
inductive VisitError where
  /-- A node of this description was expected on the way down, and there is none. -/
  | missingAncestor (expected : String)
  /-- A `for` loop without a header. -/
  | missingForControl
  /-- A name that the visitor was told to refuse. -/
  | forbiddenName (name : Text)
deriving DecidableEq, Repr

/-- The whole message. -/
def VisitError.message : VisitError → String
  | missingAncestor expected => "no enclosing " ++ expected ++ " in the cursor chain"
  | missingForControl => "`for` loop has no control section"
  | forbiddenName name => "`" ++ String.ofList name ++ "` is not allowed"

end JavaSource
