import JavaSource.Visit.Local

/-!
# Gaps between words

Two words with nothing between them would read as one. `Tree.separateWords` puts a blank into each
empty space that keeps two words of a node apart, and changes no other space.
-/

namespace JavaSource

/-- The space itself, or one blank in place of an empty one. -/
def Space.orSingle (s : Space) : Space := if s.isEmpty then .single else s

/-- The node with a gap before it. -/
def Tree.separated (t : Tree) : Tree := t.mapLeading Space.orSingle

/-- The first element with a gap before it. -/
def separateFirst : List (Followed Tree) → List (Followed Tree) :=
  mapFirst (Followed.map Tree.separated)

/-- A list with gaps on both sides of the word that opens it. -/
def Series.separated (s : Series Tree) : Series Tree :=
  (s.mapBefore Space.orSingle).mapElements separateFirst

/-- The modifiers of a declaration with a gap before each, except before its first token. -/
def separateModifiers (annotations modifiers : List Tree) : List Tree :=
  match annotations, modifiers with
  | [], [] => []
  | [], m :: ms => m :: ms.map Tree.separated
  | _ :: _, ms => ms.map Tree.separated

/-- The node with a gap before it if something precedes it. -/
def Tree.separatedIf (preceded : Bool) (t : Tree) : Tree := if preceded then t.separated else t

/-- Puts a blank between the words of a class. -/
def ClassDeclaration.separateWords (d : ClassDeclaration Tree) : ClassDeclaration Tree :=
  let preceded := !d.annotations.isEmpty || !d.modifiers.isEmpty
  { d with
    modifiers := separateModifiers d.annotations d.modifiers
    beforeKind := if preceded then d.beforeKind.orSingle else d.beforeKind
    name := d.name.separated
    superclass := d.superclass.map fun s => (s.mapBefore Space.orSingle).map Tree.separated
    interfaces := d.interfaces.map Series.separated }

/-- Puts a blank between the words of a method. -/
def MethodDeclaration.separateWords (d : MethodDeclaration Tree) : MethodDeclaration Tree :=
  let preceded := !d.annotations.isEmpty || !d.modifiers.isEmpty
  let precededByParameters := preceded || d.typeParameters.isSome
  { d with
    modifiers := separateModifiers d.annotations d.modifiers
    typeParameters := d.typeParameters.map fun ps =>
      if preceded then ps.mapBefore Space.orSingle else ps
    returnType := d.returnType.map (Tree.separatedIf precededByParameters)
    name := d.name.separatedIf (precededByParameters || d.returnType.isSome)
    thrown := d.thrown.map Series.separated }

/-- Puts a blank between the words of a variable declaration. -/
def VariableDeclarations.separateWords (d : VariableDeclarations Tree) :
    VariableDeclarations Tree :=
  let preceded := !d.annotations.isEmpty || !d.modifiers.isEmpty
  { d with
    modifiers := separateModifiers d.annotations d.modifiers
    type := d.type.map (Tree.separatedIf preceded)
    declarators :=
      if d.type.isSome && d.beforeDots.isNone then separateFirst d.declarators else d.declarators }

/-- Puts a blank between the words of a layer. -/
def Shape.separateWords : Shape Tree → Shape Tree
  | packageDeclaration annotations name => packageDeclaration annotations name.separated
  | importDeclaration beforeStatic isStatic name =>
    importDeclaration (if isStatic then beforeStatic.orSingle else beforeStatic) isStatic
      name.separated
  | classDeclaration d => classDeclaration d.separateWords
  | methodDeclaration d => methodDeclaration d.separateWords
  | variableDeclarations d => variableDeclarations d.separateWords
  | typeParameter annotations name bounds =>
    typeParameter annotations name (bounds.map Series.separated)
  | returnStatement value =>
    returnStatement (value.map fun v => v.separatedIf (v.kind != .parentheses))
  | throwStatement value => throwStatement value.separated
  | newClass name arguments body type => newClass name.separated arguments body type
  | caseClause value statements => caseClause (value.map Tree.separated) statements
  | x => x

/-- Puts a blank between the words of a node. -/
def Tree.separateWords (t : Tree) : Tree := t.withShape t.shape.separateWords

/-- Puts a blank between words that would read as one. -/
def wordSeparator (stopAfter : Option NodeId) : Visitor Unit Unit :=
  .ofNodes stopAfter fun _ => Tree.separateWords

end JavaSource
