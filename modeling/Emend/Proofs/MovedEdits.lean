import Emend.Proofs.KeptSpans

/-!
# Edits moved by a hook

A hook returns a list of edits, and of these only the spans are read.  They go to the edits of
the forest from left to right.

* Each action takes as many spans off the list as it has edits, and leaves the others to the
  actions after it (`respan_takes`).  So the spans arrive in the order in which the edits were
  listed, across groups of any depth, and an empty group takes none.
* Nothing else changes: groups stay groups of as many members, and edits keep their kinds and
  their codes (`Moved`).
* The groups follow, from the innermost outwards.
-/

namespace Emend

namespace Action

/-! ## What is left alone -/

/-- Two forests differ only in where their edits are. -/
inductive Moved : List Action → List Action → Prop where
  | nil : Moved [] []
  | edit {as bs : List Action} (e : Edit) (s : Span) (h : Moved as bs) :
      Moved (.edit e :: as) (.edit { e with span := s } :: bs)
  | group {members others as bs : List Action} (hin : Moved members others) (h : Moved as bs) :
      Moved (.group members :: as) (.group others :: bs)

mutual

theorem Moved.cons : ∀ {as bs : List Action} (a : Action) (ss : List Span), Moved as bs →
    Moved (a :: as) ((a.respanOne ss).1 :: bs)
  | _, _, .edit e, [], h => .edit e e.span h
  | _, _, .edit e, s :: _, h => .edit e s h
  | _, _, .group members, ss, h => .group (moved_respan members ss) h

/-- New spans move edits and change nothing else. -/
theorem moved_respan : ∀ (as : List Action) (ss : List Span), Moved as (respan as ss).1
  | [], _ => .nil
  | a :: as, ss => .cons a ss (moved_respan as (a.respanOne ss).2)

end

/-! ## Where the edits go -/

mutual

theorem respanOne_takes : ∀ (a : Action) (ss : List Span), a.edits.length ≤ ss.length →
    (a.respanOne ss).1.edits.map Edit.span = ss.take a.edits.length ∧
      (a.respanOne ss).2 = ss.drop a.edits.length
  | .edit _, [], h => absurd h (Nat.not_succ_le_zero 0)
  | .edit _, _ :: _, _ => ⟨rfl, rfl⟩
  | .group members, ss, h => respan_takes members ss h

/-- As many spans are taken as there are edits.  They go to the edits in order, and the others
are left. -/
theorem respan_takes : ∀ (as : List Action) (ss : List Span), (leaves as).length ≤ ss.length →
    (leaves (respan as ss).1).map Edit.span = ss.take (leaves as).length ∧
      (respan as ss).2 = ss.drop (leaves as).length
  | [], _, _ => ⟨rfl, rfl⟩
  | a :: as, ss, h => by
      rw [leaves, List.length_append] at h
      obtain ⟨hfirst, hrest⟩ := respanOne_takes a ss (by omega)
      obtain ⟨hothers, hleft⟩ := respan_takes as (a.respanOne ss).2 (by
        rw [hrest, List.length_drop]
        omega)
      rw [respan, leaves, leaves, List.map_append, List.length_append]
      constructor
      · rw [hfirst, hothers, hrest, List.take_add]
      · rw [hleft, hrest, List.drop_drop]

end

/-- A hook moves edits and does nothing else.  The shape of the forest, and the kinds and codes
of its edits, stay as they are.  The edits get the spans of the edits that the hook returns, in
order.  The span of each group then covers the spans of its members.  If groups keep their
spans, these are right when the edits have been moved in place, whatever they were before. -/
theorem hook_moves_edits (hook : Hook) (as : List Action)
    (hlength : (hook (leaves as)).length = (leaves as).length) :
    Moved as (applyHook hook as) ∧
    (leaves (applyHook hook as)).map Edit.span = (hook (leaves as)).map Edit.span ∧
    (∀ members, Part (.group members) (applyHook hook as) →
      Span.IsCover (members.map span) (Action.group members).span) ∧
    ∀ ks, Kept.forgetAll ks = as →
      Kept.Represents (Kept.applyHook hook ks) (applyHook hook as) := by
  refine ⟨moved_respan as _, ?_, fun members _ => isCover_members members, ?_⟩
  · have hspans : ((hook (leaves as)).map Edit.span).length = (leaves as).length := by
      rw [List.length_map, hlength]
    rw [applyHook, (respan_takes as _ (Nat.le_of_eq hspans.symm)).1, ← hspans, List.take_length]
  · rintro ks rfl
    exact Kept.represents_applyHook hook ks

/-- An empty group inside a group, before a group of groups. -/
def nestedGroups : List Action :=
  [.group [.edit ⟨.delete, ⟨0, 2⟩, some []⟩, .group []],
    .group [.group [.edit ⟨.noop, ⟨5, 9⟩, none⟩, .edit ⟨.insert, ⟨3, 3⟩, some "x".toList⟩]]]

theorem hook_moves_edits_nested :
    (Hook.reverse (leaves nestedGroups)).length = (leaves nestedGroups).length ∧
    (leaves (applyHook Hook.reverse nestedGroups)).map Edit.span = [⟨3, 3⟩, ⟨5, 9⟩, ⟨0, 2⟩] := by
  have hlength : (Hook.reverse (leaves nestedGroups)).length = (leaves nestedGroups).length := by
    decide
  obtain ⟨-, hspans, -⟩ := hook_moves_edits Hook.reverse nestedGroups hlength
  exact ⟨hlength, hspans⟩

end Action

end Emend
