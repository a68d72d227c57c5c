/-!
# Text

Source text is a list of characters, so that every function on it is a recursion on a list.
Offsets and lengths are counted in bytes of the UTF-8 encoding.
-/

namespace JavaSource

/-- A piece of source text. -/
abbrev Text := List Char

namespace Text

/-- The number of bytes that the text takes in UTF-8. -/
def byteLength : Text → Nat
  | [] => 0
  | c :: cs => c.utf8Size + byteLength cs

@[simp] theorem byteLength_nil : byteLength [] = 0 := rfl

@[simp] theorem byteLength_cons (c : Char) (cs : Text) :
    byteLength (c :: cs) = c.utf8Size + byteLength cs := rfl

theorem byteLength_append (s t : Text) : byteLength (s ++ t) = byteLength s + byteLength t := by
  induction s with
  | nil => simp
  | cons c cs ih => simp only [List.cons_append, byteLength_cons, ih]; omega

/-- The text after its first `n` bytes, if they end between two characters of it. -/
def dropBytes? : Nat → Text → Option Text
  | 0, t => some t
  | _ + 1, [] => none
  | n + 1, c :: cs => if c.utf8Size ≤ n + 1 then dropBytes? (n + 1 - c.utf8Size) cs else none
termination_by _ t => t.length

/-- The number of line feeds in the text. -/
def lineFeeds (t : Text) : Nat := t.count '\n'

/-- The part after the last line feed, or all of it when there is none. -/
def lastLine (t : Text) : Text := (t.reverse.takeWhile (· ≠ '\n')).reverse

/-- The part up to and including the last line feed; empty when there is none. -/
def throughLastLineFeed (t : Text) : Text := (t.reverse.dropWhile (· ≠ '\n')).reverse

theorem throughLastLineFeed_append_lastLine (t : Text) :
    throughLastLineFeed t ++ lastLine t = t := by
  rw [throughLastLineFeed, lastLine, ← List.reverse_append, List.takeWhile_append_dropWhile,
    List.reverse_reverse]

/-- The parts between the occurrences of a character; at least one. -/
def split (sep : Char) : Text → List Text
  | [] => [[]]
  | c :: rest =>
    if c = sep then [] :: split sep rest
    else match split sep rest with
      | [] => [[c]]
      | first :: later => (c :: first) :: later

/-- Parts one after the other, with a text between each two. -/
def join (sep : Text) : List Text → Text
  | [] => []
  | [part] => part
  | part :: later => part ++ sep ++ join sep later

theorem split_ne_nil (sep : Char) (t : Text) : split sep t ≠ [] := by
  cases t with
  | nil => simp [split]
  | cons c rest => simp only [split]; split <;> (try split) <;> simp

theorem join_split (sep : Char) (t : Text) : join [sep] (split sep t) = t := by
  induction t with
  | nil => rfl
  | cons c rest ih =>
    simp only [split]
    match h : split sep rest with
    | [] => exact absurd h (split_ne_nil sep rest)
    | first :: later =>
      rw [h] at ih
      by_cases hc : c = sep
      · subst hc; simp [join, ih]
      · cases later <;> simp_all [join]

/-- Changes each line after the first. -/
def mapLaterLines (f : Text → Text) (t : Text) : Text :=
  match split '\n' t with
  | [] => []
  | first :: later => join ['\n'] (first :: later.map f)

/-- The text before the first `*/` and the text after it, if there is one. -/
def splitClose : Text → Text × Option Text
  | [] => ([], none)
  | '*' :: '/' :: rest => ([], some rest)
  | c :: rest => (c :: (splitClose rest).1, (splitClose rest).2)

theorem length_of_splitClose {t rest : Text} (h : (splitClose t).2 = some rest) :
    rest.length + 2 ≤ t.length := by
  fun_induction splitClose t with
  | case1 => simp at h
  | case2 r => simp at h; subst h; simp
  | case3 c r _ ih => simp only [List.length_cons]; have := ih h; omega

end Text

end JavaSource
