import Emend.Template.Basic

/-!
# A cache of templates

Reading a template again gives what it gave before, so the results are kept.
The cache holds 256 templates at most.  A template that is not in a full cache
empties it, whether or not the template can be read, and a template that cannot
be read is not kept.
-/

namespace Emend

namespace Template

/-- Templates by their texts, newest first. -/
structure Cache where
  /-- The templates read so far. -/
  entries : List (Text × Template)
deriving DecidableEq, Repr

namespace Cache

/-- The cache that holds nothing. -/
def empty : Cache := ⟨[]⟩

/-- The number of templates a cache holds at most. -/
def capacity : Nat := 256

/-- The number of templates a cache holds. -/
def size (c : Cache) : Nat := c.entries.length

/-- A cache with room for one more. -/
def makeRoom (c : Cache) : Cache :=
  if capacity ≤ c.size then empty else c

/-- Look a template up, or read it and keep it. -/
def get (c : Cache) (template : Text) : Except Error Template × Cache :=
  match c.entries.lookup template with
  | some t => (.ok t, c)
  | none =>
      match Template.parse template with
      | .ok t => (.ok t, ⟨(template, t) :: c.makeRoom.entries⟩)
      | .error e => (.error e, c.makeRoom)

end Cache

end Template

end Emend
