import JavaSource.Token.Error
import JavaSource.Text.Outdent

/-!
# Error reports

A report shows the message, the place, the line of the source that holds it, and a label under the
character at the place.
-/

namespace JavaSource

/-- The text before the byte at an offset, and the text from it on. -/
def Text.splitAtByte : Nat → Text → Text × Text
  | 0, t => ([], t)
  | _ + 1, [] => ([], [])
  | n + 1, c :: cs =>
    let (before, after) := splitAtByte (n + 1 - c.utf8Size) cs
    (c :: before, after)
termination_by _ t => t.length

namespace SyntaxError

/-- The report of an error in a source file. -/
def report (path : String) (source : Text) (e : SyntaxError) : String :=
  let offset := e.offset (Text.byteLength source)
  let (before, after) := Text.splitAtByte offset source
  let line := toString (Text.lineFeeds before + 1)
  let column := (Text.lastLine before).length
  let shown := Text.trimEnd (Text.lastLine before ++ after.takeWhile (· ≠ '\n'))
  let width := line.length + 2
  let blanks (n : Nat) := String.ofList (List.replicate n ' ')
  let margin := blanks width ++ "│ " ++ blanks column
  let (mark, arm) := if after.isEmpty then ("│ ", "╰─ ") else ("┬  ", "╰── ")
  String.intercalate "\n"
    ["Error: " ++ e.message,
      blanks width ++ "╭─[" ++ path ++ ":" ++ line ++ ":" ++ toString (column + 1) ++ "]",
      blanks width ++ "│",
      " " ++ line ++ " │ " ++ String.ofList shown,
      margin ++ mark,
      margin ++ arm ++ e.label,
      String.ofList (List.replicate width '─') ++ "╯",
      ""]

end SyntaxError

end JavaSource
