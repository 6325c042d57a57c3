import Emend.Text.Blank

/-!
# Texts computed from nodes

Some names lead to a text that is computed from the source of a node: a character
literal as a string literal, a string literal as a raw one, a block without its
braces, an expression with braces around it, and closure parameters without their
bars.
-/

namespace Emend

namespace Literal

/-- A text without one character at each end, if those are the given ones. -/
def unwrap? (first last : Char) : Text → Option Text
  | [] => none
  | c :: rest =>
      if c = first ∧ rest.getLast? = some last then some rest.dropLast else none

/-- A character literal as a string literal.  The quotes change, so the escaped
single quote loses its backslash and the double quote gains one. -/
def stringOfChar? (literal : Text) : Option Text :=
  (unwrap? '\'' '\'' literal).map fun inner =>
    let inner :=
      if inner = "\\'".toList then "'".toList
      else if inner = "\"".toList then "\\\"".toList
      else inner
    '"' :: inner ++ ['"']

/-- A string literal as a raw one, if it has no escapes. -/
def rawOfString? (literal : Text) : Option Text :=
  match unwrap? '"' '"' literal with
  | some inner => if '\\' ∈ inner then none else some ('r' :: '"' :: inner ++ ['"'])
  | none => none

/-- What stands between the braces around a text, trimmed, or the text itself if
there are none. -/
def stripBraces (t : Text) : Text :=
  match unwrap? '\x7b' '\x7d' t.trim with
  | some inner => inner.trim
  | none => t

/-- A trimmed text with braces around it.  A text that starts and ends with one
gets no more. -/
def wrapBraces (t : Text) : Text :=
  let body := t.trim
  if body.head? = some '\x7b' ∧ body.getLast? = some '\x7d' then body
  else "\x7b ".toList ++ body ++ " \x7d".toList

/-- Closure parameters without the bars around them. -/
def stripBars (t : Text) : Text :=
  (Text.dropTail (· = '|') (t.dropWhile (· = '|'))).trim

example : stringOfChar? "'\"'".toList = some "\"\\\"\"".toList := by decide
example : stringOfChar? "'\\''".toList = some "\"'\"".toList := by decide
example : rawOfString? "\"a\\nb\"".toList = none := by decide
example : stripBraces " \x7b x \x7d".toList = "x".toList := by decide
example : wrapBraces "x ".toList = "\x7b x \x7d".toList := by decide
example : stripBars "| a, b |".toList = "a, b".toList := by decide

end Literal

end Emend
