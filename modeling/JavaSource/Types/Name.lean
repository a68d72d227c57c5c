import JavaSource.Text.LetterCase

/-!
# Names of classes

What a fully qualified name says about packages and nesting. Packages are written in lower case and
classes start with a capital; a name that is written otherwise defeats these rules.
-/

namespace JavaSource

/-- The name without the packages at its start. -/
def className (name : Text) : Text :=
  Text.join ['.'] ((Text.split '.' name).dropWhile fun part => part.head?.any isLowercase)

/-- The part of the name before the first segment that starts with a capital. -/
def packageName (name : Text) : Text :=
  Text.join ['.'] ((Text.split '.' name).takeWhile fun part => !part.head?.any isUppercase)

/-- Separates a class from the package or the class around it. -/
def isNameDelimiter (c : Char) : Bool := c == '.' || c == '$'

/-- The place of the first capital after a delimiter, and the place of the last delimiter that is
not directly before it, given the places found so far; a place of 0 stands for none. -/
def nestingPlaces (before : Char) (place capital delimiter : Nat) : Text → Nat × Nat
  | [] => (capital, delimiter)
  | c :: rest =>
    if capital = 0 && isNameDelimiter before && isUppercase c then
      nestingPlaces c (place + 1) place delimiter rest
    else if isNameDelimiter c then nestingPlaces c (place + 1) capital place rest
    else nestingPlaces c (place + 1) capital delimiter rest

/-- The name of the class that a class of this name is nested in. -/
def ownerName? (name : Text) : Option Text :=
  let (capital, delimiter) := nestingPlaces ' ' 0 0 0 name
  if capital < delimiter then some (name.take delimiter) else none

theorem delimiter_nestingPlaces (before : Char) (place capital delimiter : Nat) (t : Text) :
    (nestingPlaces before place capital delimiter t).2 = delimiter ∨
      (nestingPlaces before place capital delimiter t).2 < place + t.length := by
  induction t generalizing before place capital delimiter with
  | nil => simp [nestingPlaces]
  | cons c rest ih => grind [nestingPlaces]

theorem length_of_ownerName? {name owner : Text} (h : ownerName? name = some owner) :
    owner.length < name.length := by
  simp only [ownerName?] at h
  split at h
  · rename_i hlt
    have := delimiter_nestingPlaces ' ' 0 0 0 name
    simp only [Option.some.injEq] at h
    subst h
    simp only [List.length_take]
    omega
  · simp at h

end JavaSource
