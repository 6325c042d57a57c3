import Emend.Path.Basic

/-!
# Templates

A template is text with placeholders.  A placeholder is a path between two
opening and two closing braces.  Reading goes from left to right: the next two
opening braces in a row start a placeholder, and the next two closing ones after
them end it, whatever stands in between.  A placeholder that does not end is an
error that names its offset, and so is a placeholder that holds no path.
-/

namespace Emend

/-- A part of a template. -/
inductive Segment where
  /-- Text that stands for itself. -/
  | literal (t : Text)
  /-- A path whose value is put here. -/
  | placeholder (p : Path)
deriving DecidableEq, Repr

/-- Whether a part stands for itself. -/
def Segment.isLiteral : Segment → Bool
  | .literal _ => true
  | .placeholder _ => false

/-- A template as its parts. -/
abbrev Template := List Segment

namespace Template

/-- Cut a text at the first place where a character stands twice in a row.  The
two characters belong to neither part. -/
def cutAtDouble (c : Char) : Text → Option (Text × Text)
  | a :: b :: t =>
      if a = c ∧ b = c then some ([], t)
      else (cutAtDouble c (b :: t)).map fun (before, after) => (a :: before, after)
  | _ => none

/-- A cut loses the two characters and nothing else. -/
theorem cutAtDouble_eq_some {c : Char} {t before after : Text}
    (h : cutAtDouble c t = some (before, after)) : t = before ++ c :: c :: after := by
  induction t generalizing before with
  | nil => simp [cutAtDouble] at h
  | cons a t ih =>
      cases t with
      | nil => simp [cutAtDouble] at h
      | cons b t =>
          rw [cutAtDouble] at h
          split at h
          next hab => simp at h; simp [← h.1, ← h.2, hab.1, hab.2]
          next =>
            obtain ⟨⟨x, y⟩, hx, he⟩ := Option.map_eq_some_iff.mp h
            obtain ⟨rfl, rfl⟩ := Prod.mk.inj he
            rw [ih hx]
            rfl

/-- What follows a placeholder is shorter than what it starts in. -/
theorem length_after_lt {c d : Char} {rest before inside path after : Text}
    (hopen : cutAtDouble c rest = some (before, inside))
    (hclose : cutAtDouble d inside = some (path, after)) : after.length < rest.length := by
  rw [cutAtDouble_eq_some hopen, cutAtDouble_eq_some hclose]
  simp
  omega

/-- What a text stands for between placeholders. -/
def literal (t : Text) : List Segment :=
  if t.isEmpty then [] else [.literal t]

/-- Read the parts of what is left of a template. -/
def parseRest (template rest : Text) : Except Error (List Segment) :=
  match hopen : cutAtDouble '\x7b' rest with
  | none => .ok (literal rest)
  | some (before, inside) =>
      match hclose : cutAtDouble '\x7d' inside with
      | none =>
          .error (.openPlaceholder template (template.size - rest.size + before.size))
      | some (path, after) =>
          have : after.length < rest.length := length_after_lt hopen hclose
          do
            let path ← Path.parse path
            let segments ← parseRest template after
            .ok (literal before ++ .placeholder path :: segments)
termination_by rest.length

/-- Read a template. -/
def parse (template : Text) : Except Error Template :=
  parseRest template template

/-- Whether a template has no placeholder. -/
def isLiteral (template : Template) : Bool :=
  template.all Segment.isLiteral

end Template

end Emend
