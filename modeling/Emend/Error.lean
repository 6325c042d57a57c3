import Emend.Settings.Issue
import Emend.Span
import Emend.Text.Quoted

/-!
# Errors

An error is the cause for which a request is refused, with what its message
shows.  The wording of every error is in `Error.message`.

A *failure* is wider than an error.  A computation fails if it is refused, and
also if it breaks down because it cut a text at an offset that is no boundary.
The second has no message and ends whatever was going on.
-/

namespace Emend

/-- What is wrong with the text of a path. -/
inductive PathFlaw where
  /-- Nothing is left after trimming. -/
  | blank
  /-- Two dots follow each other, or a dot stands at an end. -/
  | emptySegment
  /-- A segment is neither a number nor a name. -/
  | badSegment (segment : Text)
deriving DecidableEq, Repr

/-- The wording of a flaw. -/
def PathFlaw.message : PathFlaw → Text
  | .blank => "path is empty".toList
  | .emptySegment => "empty segment".toList
  | .badSegment segment => "unexpected character in '".toList ++ segment ++ "'".toList

/-- Why a request is refused. -/
inductive Error where
  /-- A selector leads nowhere from a node, of which a snippet is shown. -/
  | unsupported (selector snippet : Text)
  /-- The policy refuses conflicts, and this many actions conflict. -/
  | conflict (count : Nat)
  /-- A placeholder stands for a value that has no text. -/
  | unrenderable (path kind : Text)
  /-- A placeholder that starts at this offset of the template does not end. -/
  | openPlaceholder (template : Text) (offset : Nat)
  /-- A path is malformed. -/
  | badPath (path : Text) (flaw : PathFlaw)
  /-- A span does not fit a source of this size. -/
  | badSpan (span : Span) (size : Nat)
  /-- Two edits of one patch overlap. -/
  | overlap (first second : Span)
  /-- There are no usable settings. -/
  | settings (problem : Settings.Problem)
deriving DecidableEq, Repr

namespace Error

/-- The number of characters of a source that a message shows. -/
def snippetLimit : Nat := 60

/-- A source as messages show it: whole if it is short, else its start and three
dots. -/
def snippet (source : Text) : Text :=
  if source.length ≤ snippetLimit then source else source.take snippetLimit ++ "...".toList

/-- The refusal of a selector at a node with this source. -/
def selector (name source : Text) : Error :=
  .unsupported name (snippet source)

/-- The wording of an error. -/
def message : Error → Text
  | .unsupported selector snippet => selector ++ " is not supported for ".toList ++ snippet
  | .conflict count =>
      "mutation actions are conflicted: ".toList ++ Text.ofNat count ++
        " conflicting action(s)".toList
  | .unrenderable path kind =>
      "cannot render \x7b\x7b".toList ++ path ++ "\x7d\x7d as text: it resolved to a ".toList ++ kind
  | .openPlaceholder template offset =>
      "malformed template ".toList ++ template.quoted ++
        ": unterminated placeholder at byte ".toList ++ Text.ofNat offset
  | .badPath path flaw => "invalid path ".toList ++ path.quoted ++ ": ".toList ++ flaw.message
  | .badSpan span size =>
      "invalid byte range ".toList ++ span.display ++ " in source of length ".toList ++
        Text.ofNat size
  | .overlap first second =>
      "edits ".toList ++ first.display ++ " and ".toList ++ second.display ++ " overlap".toList
  | .settings problem => "invalid configuration: ".toList ++ problem.message

end Error

/-- Why a computation gives no result. -/
inductive Failure where
  /-- It was refused. -/
  | refused (cause : Error)
  /-- It broke down. -/
  | crashed
deriving DecidableEq, Repr

/-- A result that can only be refused, where a breakdown is possible too. -/
def Failure.lift {α : Type} : Except Error α → Except Failure α
  | .ok a => .ok a
  | .error e => .error (.refused e)

/-! ## Where a result comes from -/

theorem Failure.lift_eq_ok_iff {α : Type} {x : Except Error α} {a : α} :
    Failure.lift x = .ok a ↔ x = .ok a := by
  cases x <;> simp [Failure.lift]

/-- A result of two computations in a row comes from a result of the first. -/
theorem exists_of_bind_eq_ok {ε α β : Type} {x : Except ε α} {f : α → Except ε β} {b : β}
    (h : (x >>= f) = .ok b) : ∃ a, x = .ok a ∧ f a = .ok b := by
  cases x with
  | error e => cases h
  | ok a => exact ⟨a, rfl, h⟩

end Emend
