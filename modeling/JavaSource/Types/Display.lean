import JavaSource.Types.Registry

/-!
# Types as text

A type as it is written in source text.
-/

namespace JavaSource.Registry

/-- Stands for what is not resolved. -/
def unresolved : Text := "\x7bundefined\x7d".toList

/-- The layer of a type as text, given the text of the types that it names. -/
def showDescriptor (text : TypeHandle → Text) : Descriptor → Text
  | .primitive p => p.keyword
  | .array element => (element.map text).getD unresolved ++ ['[', ']']
  | .classType c => c.name
  | .shallow name | .cyclic name => name
  | .parameterized raw arguments =>
    text raw ++ ['<'] ++ Text.join [',', ' '] (arguments.map text) ++ ['>']
  | .typeVariable name none => name
  | .typeVariable name (some bound) => name ++ " extends ".toList ++ text bound
  | .variableType v =>
    match v.type with
    | none => v.name
    | some type => text type ++ [' '] ++ v.name
  | .methodType m =>
    let parameters := match m.resolved with
      | some signature => signature.parameters.map text
      | none => m.parameterNames
    text m.declaring ++ ['.'] ++ m.name ++ ['('] ++ Text.join [',', ' '] parameters ++ [')']
  | .multiCatch alternatives => Text.join [' ', '|', ' '] (alternatives.map text)

/-- A type as text, no more than `depth` descriptors deep. -/
def showWithin (r : Registry) : Nat → TypeHandle → Text
  | 0, _ => unresolved
  | depth + 1, h =>
    match r.get? h with
    | none => unresolved
    | some d => showDescriptor (showWithin r depth) d

/-- A type as it is written in source text. -/
def showType (r : Registry) (h : TypeHandle) : Text := r.showWithin r.size h

end JavaSource.Registry
