import Emend.Edit

/-!
# Actions

An action is an edit or a group of actions.  A group stands or falls as a whole
when edits conflict.  The span of a group is the least span around its members,
and the span `[0, 0)` if it has none.

Four operations work on whole forests of actions.

* `prune` drops groups without edits and puts a lone member in place of its
  group.
* `leaves` lists the edits from left to right.
* `respan` gives the edits new spans, from left to right, as long as there are
  new spans.
* `sort` orders siblings by their spans at every level.

Each is a pair of functions, one for an action and one for a list of actions.
-/

namespace Emend

/-- An edit or a group. -/
inductive Action where
  /-- One edit. -/
  | edit (e : Edit)
  /-- Actions that belong together. -/
  | group (members : List Action)
deriving Repr

namespace Action

/-! ## Spans -/

mutual

/-- The span of an action. -/
def span : Action → Span
  | .edit e => e.span
  | .group members => (Span.hull? (spans members)).getD ⟨0, 0⟩

/-- The spans of actions. -/
def spans : List Action → List Span
  | [] => []
  | a :: as => a.span :: spans as

end

theorem spans_eq_map (as : List Action) : spans as = as.map span := by
  induction as with
  | nil => rfl
  | cons a as ih => simp [spans, ih]

/-- The kind of an action. -/
def kind : Action → EditKind
  | .edit e => e.kind
  | .group _ => .group

/-- The code of an action.  A group has none of its own. -/
def code : Action → Option Text
  | .edit e => e.code
  | .group _ => none

/-- Whether a group has no members; no answer for an edit. -/
def isEmpty? : Action → Option Bool
  | .edit _ => none
  | .group members => some members.isEmpty

/-! ## Pruning -/

/-- The group of some actions, without a group around a lone one. -/
def ofMembers? : List Action → Option Action
  | [] => none
  | [a] => some a
  | as => some (.group as)

mutual

/-- An action without empty groups and without groups of one, if anything is left. -/
def prune? : Action → Option Action
  | .edit e => some (.edit e)
  | .group members => ofMembers? (prune members)

/-- Actions without empty groups and without groups of one. -/
def prune : List Action → List Action
  | [] => []
  | a :: as =>
      match a.prune? with
      | none => prune as
      | some b => b :: prune as

end

/-! ## Leaves -/

mutual

/-- The edits of an action, from left to right. -/
def edits : Action → List Edit
  | .edit e => [e]
  | .group members => leaves members

/-- The edits of actions, from left to right. -/
def leaves : List Action → List Edit
  | [] => []
  | a :: as => a.edits ++ leaves as

end

/-! ## New spans -/

mutual

/-- An action with the next new spans for its edits, and the spans that are left. -/
def respanOne : Action → List Span → Action × List Span
  | .edit e, [] => (.edit e, [])
  | .edit e, s :: spans => (.edit { e with span := s }, spans)
  | .group members, spans =>
      let (members, rest) := respan members spans
      (.group members, rest)

/-- Actions with the next new spans for their edits, and the spans that are left. -/
def respan : List Action → List Span → List Action × List Span
  | [], spans => ([], spans)
  | a :: as, spans =>
      let (a, rest) := a.respanOne spans
      let (as, rest) := respan as rest
      (a :: as, rest)

end

/-! ## Sorting -/

/-- Actions in the order of their spans.  Those of equal spans keep their order. -/
def sortTop (as : List Action) : List Action :=
  Span.sortOn span as

mutual

/-- An action with all groups in it sorted. -/
def sortIn : Action → Action
  | .edit e => .edit e
  | .group members => .group (sortTop (sortEach members))

/-- Actions with all groups in them sorted. -/
def sortEach : List Action → List Action
  | [] => []
  | a :: as => a.sortIn :: sortEach as

end

/-- Actions sorted at every level. -/
def sort (as : List Action) : List Action :=
  sortTop (sortEach as)

theorem sortEach_eq_map (as : List Action) : sortEach as = as.map sortIn := by
  induction as with
  | nil => rfl
  | cons a as ih => simp [sortEach, ih]

end Action

end Emend
