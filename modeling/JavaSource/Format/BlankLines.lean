import JavaSource.Style.Basic
import JavaSource.Text.LineEnd
import JavaSource.Visit.Local

/-!
# Blank lines

Runs of blank lines are cut down to a maximum, and some places get a minimum: after the package and
the imports, and around classes and methods.
-/

namespace JavaSource

/-- Drops line breaks at the start until no more than `limit` blank lines are left. -/
def Text.limitBlankLines (limit : Nat) (t : Text) : Text :=
  t.dropLines (t.lineFeeds - (limit + 1))

/-- Puts line breaks at the start until there are at least `least` blank lines. -/
def Text.requireBlankLines (least : Nat) (t : Text) : Text :=
  if least = 0 then t else List.replicate (least + 1 - t.lineFeeds) '\n' ++ t

/-- A comment with no more than `limit` blank lines after it. -/
def Comment.limitBlankLines (limit : Nat) (c : Comment) : Comment :=
  { c with suffix := c.suffix.limitBlankLines limit }

/-- A space with no more than `limit` blank lines in a row. -/
def Space.limitBlankLines (limit : Nat) (s : Space) : Space :=
  s.map (Text.limitBlankLines limit) (Comment.limitBlankLines limit)

/-- A space with at least `least` blank lines: at its start, or after a comment that ends the
previous line. -/
def Space.requireBlankLines (least : Nat) (s : Space) : Space :=
  match s.comments with
  | c :: cs =>
    if s.whitespace.contains '\n' then ⟨s.whitespace.requireBlankLines least, c :: cs⟩
    else ⟨s.whitespace, { c with suffix := c.suffix.requireBlankLines least } :: cs⟩
  | [] => ⟨s.whitespace.requireBlankLines least, []⟩

/-- The node with its leading space between two limits. -/
def Tree.boundBlankLines (limit least : Nat) (t : Tree) : Tree :=
  t.mapLeading fun s => (s.limitBlankLines limit).requireBlankLines least

/-- The blank lines required between the member and one of this kind next to it. -/
def BlankLineStyle.around (style : BlankLineStyle) : NodeKind → Nat
  | .methodDeclaration => style.minimumAroundMethod
  | .classDeclaration => style.minimumAroundClass
  | _ => 0

/-- The blank lines required between two members. -/
def BlankLineStyle.between (style : BlankLineStyle) (previous member : Tree) : Nat :=
  max (style.around previous.kind) (style.around member.kind)

/-- Bounds the blank lines before the statements after `previous`. -/
def boundStatements (limit : Nat) (least : Tree → Tree → Nat) (previous : Tree) :
    List (Followed Tree) → List (Followed Tree)
  | [] => []
  | x :: xs =>
    x.map (Tree.boundBlankLines limit (least previous x.element)) ::
      boundStatements limit least x.element xs

/-- The kinds of node whose block holds members. -/
def NodeKind.hasMembers : NodeKind → Bool
  | .classDeclaration | .newClass => true
  | _ => false

/-- Bounds the blank lines before the statements of a block, given the kind of the node above. -/
def BlankLineStyle.boundBlock (style : BlankLineStyle) (parent : Option NodeKind)
    (statements : List (Followed Tree)) : List (Followed Tree) :=
  let members := parent.any NodeKind.hasMembers
  let limit := if members then style.maximumInDeclarations else style.maximumInCode
  let least := if parent == some .methodDeclaration then style.minimumBeforeMethodBody else 0
  match statements with
  | [] => []
  | x :: xs =>
    x.map (Tree.boundBlankLines limit least) ::
      boundStatements limit (if members then style.between else fun _ _ => 0) x.element xs

/-- Bounds the blank lines before the parts of a file. -/
def BlankLineStyle.boundUnit (style : BlankLineStyle) (u : CompilationUnit Tree) :
    CompilationUnit Tree :=
  let bound := Tree.boundBlankLines style.maximumInDeclarations
  let require (least : Nat) := Tree.mapLeading (Space.requireBlankLines least)
  let afterPackage := if u.package.isSome then style.minimumAfterPackage else 0
  let imports := u.imports.map (Followed.map (bound 0))
  let declarations := match u.declarations with
    | [] => []
    | d :: ds => bound 0 d :: ds.map (bound style.minimumAroundClass)
  match imports with
  | [] => { u with imports, declarations := mapFirst (require afterPackage) declarations }
  | _ :: _ =>
    { u with
      imports := mapFirst (Followed.map (require afterPackage)) imports
      declarations := mapFirst (require style.minimumAfterImports) declarations }

/-- Bounds the blank lines in a layer, given the kind of the node above. -/
def BlankLineStyle.bound (style : BlankLineStyle) (parent : Option NodeKind) :
    Shape Tree → Shape Tree
  | .compilationUnit u => .compilationUnit (style.boundUnit u)
  | .block afterStatic statements beforeClose =>
    .block afterStatic (style.boundBlock parent statements)
      (beforeClose.limitBlankLines style.maximumBeforeBlockEnd)
  | x => x

/-- Bounds the blank lines of a tree. -/
def blankLineBounder (style : BlankLineStyle) (stopAfter : Option NodeId) : Visitor Unit Unit :=
  .ofNodes stopAfter fun parent t => t.withShape (style.bound parent t.shape)

end JavaSource
