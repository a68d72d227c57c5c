import JavaSource.Pattern.Glob
import JavaSource.Text.Alphanumeric
import JavaSource.Text.Blank

/-!
# Type patterns

A type pattern is a fully qualified name with two wildcards: a star stands for any characters of one
segment, two dots for a dot and any number of further segments. Some classes of `java.lang` need no
package.
-/

namespace JavaSource

/-- The classes of `java.lang` that are known by their simple names. -/
def knownClasses : List String :=
  ["AutoCloseable", "Boolean", "Byte", "CharSequence", "Character", "Class", "Cloneable",
    "Comparable", "Deprecated", "Double", "Enum", "Error", "Exception", "Float",
    "FunctionalInterface", "IllegalArgumentException", "IllegalStateException", "Integer",
    "Iterable", "Long", "Math", "Number", "NullPointerException", "Object", "Override", "Record",
    "Runnable", "RuntimeException", "SafeVarargs", "Short", "String", "StringBuilder",
    "SuppressWarnings", "System", "Thread", "Throwable", "UnsupportedOperationException", "Void"]

/-- The character can stand in a type pattern. -/
def isTypePatternChar (c : Char) : Bool :=
  isAlphanumeric c || c == '_' || c == '$' || c == '.' || c == '*' || c == '[' || c == ']'

/-- The text without the empty brackets at its end. -/
def withoutBrackets (t : Text) : Text :=
  let rec strip : Text → Text
    | ']' :: '[' :: rest => strip rest
    | reversed => reversed
  (strip t.reverse).reverse

/-- The pattern names a class of `java.lang` without its package. -/
def isKnownClass (pattern : Text) : Bool :=
  !pattern.contains '.' && knownClasses.any fun name => name.toList == withoutBrackets pattern

namespace Glob

/-- Any characters of one segment. -/
def segmentPart : Glob := many (one (.except '.'))

/-- A dot, and any number of further segments in the same line each with a dot behind. -/
def manySegments : Glob := seq (char '.') (optional (seq (atLeastOne (one (.except '\n'))) (char '.')))

/-- One type, packages included, in a list of types. -/
def anyType : Glob := atLeastOne (one (.except ','))

/-- A name with wildcards. -/
def wildcards : Text → Glob
  | [] => empty
  | '.' :: '.' :: rest => seq manySegments (wildcards rest)
  | '*' :: rest => seq segmentPart (wildcards rest)
  | c :: rest => seq (char c) (wildcards rest)

/-- The names that fit a type pattern; a star alone stands for any type. -/
def ofTypePattern (pattern : Text) : Glob :=
  if pattern = ['*'] then anyType
  else if isKnownClass pattern then wildcards ("java.lang.".toList ++ pattern)
  else wildcards pattern

end Glob

end JavaSource
