import JavaSource.Tree.Kind
import JavaSource.Tree.Name

/-!
# Summaries of nodes

What a node says beyond its kind and its parts: its words, how many parts of each sort it has and
which optional ones are present. `Tree.summary` writes this on one line.
-/

namespace JavaSource

/-- One thing to say of a node. -/
inductive Fact where
  | word (text : Text)
  | present (name : String) (is : Bool)
  | count (name : String) (n : Nat)
  /-- The length of a list in delimiters, which may be absent as a whole. -/
  | size (name : String) (n : Option Nat)
deriving DecidableEq, Repr

namespace Fact

/-- An optional part is 0 or 1, and an absent list is a dash. -/
def toText : Fact → Text
  | word text => text
  | present name is => (name ++ if is then "=1" else "=0").toList
  | count name n => (name ++ "=" ++ toString n).toList
  | size name none => (name ++ "=-").toList
  | size name (some n) => (name ++ "=" ++ toString n).toList

/-- The size of a list in delimiters. -/
def ofSeries {α : Type} (name : String) (s : Option (Series α)) : Fact :=
  size name (s.map fun s => s.elements.length)

end Fact

namespace Tree

/-- What a node says beyond its kind and its parts. -/
def facts (t : Tree) : List Fact :=
  match t.shape with
  | .annotationUse _ arguments | .enumValue _ arguments => [.ofSeries "args" arguments]
  | .assignmentOperation _ _ operator _ => [.word operator.name.toList]
  | .binary _ _ operator _ _ => [.word operator.name.toList]
  | .unary _ operator _ => [.word operator.name.toList]
  | .block afterStatic _ _ => [.present "static" afterStatic.isSome]
  | .caseClause value _ => [.present "default" value.isNone]
  | .classDeclaration d =>
    [.word d.kind.name.toList, .count "annotations" d.annotations.length,
      .count "modifiers" d.modifiers.length, .ofSeries "params" d.typeParameters,
      .present "extends" d.superclass.isSome, .ofSeries "implements" d.interfaces]
  | .compilationUnit u =>
    [.present "package" u.package.isSome, .count "imports" u.imports.length,
      .count "classes" u.declarations.length]
  | .enumValueSet _ semicolon => [.present "semicolon" semicolon]
  | .forControl init _ update => [.count "init" init.length, .count "update" update.length]
  | .identifier name _ => [.word name]
  | .ifStatement _ _ alternative => [.present "else" alternative.isSome]
  | .importDeclaration _ isStatic _ => [.present "static" isStatic]
  | .lambda l => [.present "parenthesized" l.parenthesized, .count "params" l.parameters.length]
  | .literal source kind => [.word kind.name.toList, .word source]
  | .methodDeclaration d =>
    [.count "annotations" d.annotations.length, .count "modifiers" d.modifiers.length,
      .ofSeries "params" d.typeParameters, .present "returns" d.returnType.isSome,
      .count "args" d.parameters.elements.length, .ofSeries "throws" d.thrown,
      .present "body" d.body.isSome]
  | .methodInvocation i =>
    [.word (i.name.identifierName?.getD []), .present "select" i.receiver.isSome,
      .ofSeries "params" i.typeArguments, .count "args" i.arguments.elements.length]
  | .modifier word => [.word word.keyword]
  | .namedVariable _ initializer _ => [.present "init" initializer.isSome]
  | .newArray element dimensions values =>
    [.present "type" element.isSome, .count "dimensions" dimensions.length,
      .ofSeries "init" values]
  | .newClass _ arguments body _ =>
    [.count "args" arguments.elements.length, .present "body" body.isSome]
  | .parameterizedType _ arguments _ => [.ofSeries "params" arguments]
  | .primitiveType primitive => [.word primitive.keyword]
  | .tryStatement _ catches finallyBlock =>
    [.count "catches" catches.length, .present "finally" finallyBlock.isSome]
  | .typeParameter annotations _ bounds =>
    [.count "annotations" annotations.length, .ofSeries "bounds" bounds]
  | .variableDeclarations d =>
    [.count "annotations" d.annotations.length, .count "modifiers" d.modifiers.length,
      .present "type" d.type.isSome, .present "varargs" d.beforeDots.isSome,
      .count "variables" d.declarators.length]
  | .wildcard (some (_, bound)) _ => [.word bound.keyword]
  | _ => []

/-- What a node says beyond its kind and its parts, on one line. -/
def summary (t : Tree) : Text :=
  match t.facts with
  | [] => []
  | first :: rest => first.toText ++ rest.flatMap fun f => ' ' :: f.toText

end Tree

end JavaSource
