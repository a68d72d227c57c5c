import JavaSource.Grammar.Body

/-!
# Declarations

Members of a class, which are also the declarations among the statements of a block, and whole
files.
-/

namespace JavaSource.Grammar

open JavaSource.Parser

variable (g : Productions)

/-- What precedes the type or the name of a member. -/
structure MemberHead where
  leading : Space
  annotations : List Tree
  modifiers : List Tree
  typeParameters : Option (Series Tree)

/-- The constants of an enumeration. A comma behind the last one leaves a placeholder. -/
def enumValues : Parser Tree := do
  let leading ← takeSpace
  let (values, dangling) ← repeating (([] : List (Followed Tree)), true) fun (values, more) => do
    if more && (← at? .identifier) then
      let before ← takeSpace
      let name ← identifier
      let value ← node before (.enumValue name (← ifAt .openParen (arguments g)))
      match ← peek with
      | .comma => return some (⟨value, ← bump⟩ :: values, true)
      | .semicolon => return some (⟨value, ← takeSpace⟩ :: values, false)
      | _ => return some (.bare value :: values, false)
    else return none
  let values ←
    if dangling && !values.isEmpty then do
      let after ← if ← at? .semicolon then takeSpace else pure .empty
      pure (⟨← node .empty .empty, after⟩ :: values)
    else pure values
  let semicolon ← ifAt .semicolon bump
  node leading (.enumValueSet values.reverse semicolon.isSome)

/-- The body of an enumeration: its constants, then ordinary members. -/
def enumBody : Parser Tree := do
  let leading ← expect .openBrace
  let values ←
    if (← at? .identifier) || (← at? .semicolon) then pure [Followed.bare (← enumValues g)]
    else pure []
  let members ← itemsUntilBrace g.member
  let beforeClose ← expect .closeBrace
  node leading (.block none (values ++ members) beforeClose)

/-- The kind of type declaration that the keyword introduces. -/
def classKind? : TokenKind → Option ClassKind
  | .classWord => some .regular
  | .interfaceWord => some .interface
  | .enumWord => some .enumeration
  | .atInterface => some .annotationType
  | _ => none

/-- A type declaration from its keyword on. An interface lists the types that it extends where
other types list those that they implement. -/
def classDeclaration (kind : ClassKind) (leading : Space) (annotations modifiers : List Tree) :
    Parser Tree := do
  let beforeKind ← bump
  let name ← identifier
  let typeParameters ← ifAt .less (typeParameters g)
  let mut superclass := none
  let mut interfaces := none
  if ← at? .extendsWord then
    let before ← bump
    if kind = .interface then interfaces := some (← typeList g before .comma)
    else superclass := some (Preceded.mk before (← type g))
  if ← at? .implementsWord then
    let before ← bump
    interfaces := some (← typeList g before .comma)
  let body ← if kind = .enumeration then enumBody g else classBody g
  node leading
    (.classDeclaration ⟨annotations, modifiers, beforeKind, kind, name, typeParameters, superclass,
      interfaces, body, none⟩)

/-- A method from its name on. -/
def method (head : MemberHead) (returnType : Option Tree) : Parser Tree := do
  let name ← identifier
  let parameters ← delimited .openParen .closeParen (parameter g)
  let thrown ← ifAt .throwsWord do typeList g (← bump) .comma
  let body ← ifAt .openBrace (block g)
  node head.leading
    (.methodDeclaration ⟨head.annotations, head.modifiers, head.typeParameters, returnType, name,
      parameters, thrown, body, none⟩)

/-- Variables from the name of the first one on. -/
def declarators (head : MemberHead) (type : Tree) : Parser Tree := do
  let declared ← separatedBy .comma (namedVariable g true)
  node head.leading
    (.variableDeclarations ⟨head.annotations, head.modifiers, some type, none, declared⟩)

/-- A method or variables. -/
def methodOrVariables (head : MemberHead) : Parser Tree := do
  let atMethodName : Parser Bool := return (← at? .identifier) && (← peekNext) == .openParen
  if ← atMethodName then method g head none
  else
    let type ← type g
    if ← atMethodName then method g head (some type)
    else if head.typeParameters.isSome then fail .methodDeclaration
    else declarators g head type

/-- A modifier, if the current token is one. -/
def modifier? : Parser (Option Tree) := do
  match (← peek).modifier? with
  | some word => return some (← modifier word)
  | none => return none

/-- A type, method, constructor or variables. -/
def declaration : Parser Tree := do
  let leading ← takeSpace
  let annotations ← annotations g
  let modifiers ← collecting modifier?
  match classKind? (← peek) with
  | some kind => classDeclaration g kind leading annotations modifiers
  | none =>
    let typeParameters ← ifAt .less (typeParameters g)
    methodOrVariables g ⟨leading, annotations, modifiers, typeParameters⟩

/-- A member of a class, an initializer or a stray semicolon. -/
def member : Parser Tree := do
  match ← peek with
  | .semicolon => node (← takeSpace) .empty
  | .openBrace => block g
  | .staticWord =>
    if (← peekNext) == .openBrace then
      let leading ← bump
      blockBody g leading (some (← takeSpace))
    else declaration g
  | _ => declaration g

/-- The package of a file. -/
def packageDeclaration : Parser (Followed Tree) := do
  let leading ← bump
  let name ← qualifiedName false
  let after ← expect .semicolon
  return ⟨← node leading (.packageDeclaration [] name), after⟩

/-- An import. -/
def importDeclaration : Parser (Followed Tree) := do
  let leading ← bump
  let beforeStatic ← ifAt .staticWord bump
  let name ← qualifiedName true
  let after ← expect .semicolon
  let tree ← node leading
    (.importDeclaration (beforeStatic.getD .empty) beforeStatic.isSome name)
  return ⟨tree, after⟩

/-- A type declaration of a file. -/
def topLevelDeclaration : Parser Tree := do
  let start ← tokens
  let tree ← member g
  match tree.shape with
  | .classDeclaration _ => return tree
  | _ => failAt start .typeDeclaration

/-- A whole file. -/
def compilationUnit : Parser Tree := do
  let leading ← takeSpace
  let package ← ifAt .packageWord packageDeclaration
  let imports ← whileAt .importWord importDeclaration
  let declarations ← collecting do
    if ← at? .eof then return none else return some (← topLevelDeclaration g)
  let beforeEnd ← takeSpace
  node leading (.compilationUnit ⟨package, imports, declarations, beforeEnd⟩)

end JavaSource.Grammar
