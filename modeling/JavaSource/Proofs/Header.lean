import JavaSource.Grammar.Parse

/-!
# The header of a type declaration

`classDeclaration` reads a header, up to the types that the declaration implements, and then the
rest (`classDeclaration_eq`).  `CarriesImplements` names the tokens at which the header is that of
an interface and an `implements` clause follows it.
-/

namespace JavaSource

namespace Grammar

open JavaSource.Parser

/-- What a type declaration has in front of its `implements` clause. -/
structure ClassHeader where
  beforeKind : Space
  name : Tree
  typeParameters : Option (Series Tree)
  superclass : Option (Preceded Tree)
  /-- The types that an interface extends. -/
  extended : Option (Series Tree)

variable (g : Productions)

/-- A type declaration from its keyword up to its `implements` clause. -/
def classHeader (kind : ClassKind) : Parser ClassHeader := do
  let beforeKind ← bump
  let name ← identifier
  let typeParameters ← ifAt .less (typeParameters g)
  if ← at? .extendsWord then
    let before ← bump
    if kind = .interface then
      return ⟨beforeKind, name, typeParameters, none, some (← typeList g before .comma)⟩
    else return ⟨beforeKind, name, typeParameters, some ⟨before, ← type g⟩, none⟩
  else return ⟨beforeKind, name, typeParameters, none, none⟩

/-- A type declaration from its `implements` clause on. -/
def classRest (kind : ClassKind) (leading : Space) (annotations modifiers : List Tree)
    (h : ClassHeader) : Parser Tree := do
  let interfaces ←
    if ← at? .implementsWord then do
      let before ← bump
      pure (some (← typeList g before .comma))
    else pure h.extended
  let body ← if kind = .enumeration then enumBody g else classBody g
  node leading
    (.classDeclaration ⟨annotations, modifiers, h.beforeKind, kind, h.name, h.typeParameters,
      h.superclass, interfaces, body, none⟩)

theorem classDeclaration_eq (kind : ClassKind) (leading : Space)
    (annotations modifiers : List Tree) :
    classDeclaration g kind leading annotations modifiers =
      classHeader g kind >>= classRest g kind leading annotations modifiers := by
  unfold classDeclaration classHeader
  simp only [bind_assoc]
  congr 1; funext beforeKind
  congr 1; funext name
  congr 1; funext typeParameters
  congr 1; funext extends?
  split
  · simp only [bind_assoc]
    congr 1; funext before
    split <;> simp only [bind_assoc, pure_bind, classRest]
  · simp only [pure_bind, classRest]

end Grammar

/-- The tokens start with the header of an interface, and an `implements` clause follows it. -/
def CarriesImplements (ts : List Token) : Prop :=
  kindOf ts = .interfaceWord ∧ ∃ n i h j, i.tokens = ts ∧
    (Grammar.classHeader (grammar n) .interface).run i = .ok (h, j) ∧
    kindOf j.tokens = .implementsWord

end JavaSource
