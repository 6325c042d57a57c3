import Emend.Proofs.KeptSpans
import Emend.Proofs.Selection

/-!
# The form of groups on the way to acceptance

A forest is *well grouped* if each of its groups, at any depth, has two members or more and
spans exactly the edits below it.  Pruning makes a forest well grouped, keeps its edits, and
has nothing left to do the second time.  What comes after pruning keeps the forest well
grouped: hooks, sorting, and the choice of the actions that are accepted.

A forest is well grouped exactly if its actions are normal (`wellGrouped_iff`), so this is
read off what these operations do to normal actions.

Sorting is described by a relation and not by the function itself.  First the groups among
the siblings are sorted, and then the siblings are arranged stably (`Sorts`).  The edits below
are the same as before, in another order.
-/

namespace Emend

namespace Action

/-! ## Well grouped forests -/

/-- All groups in a forest have two members or more, and each spans the edits below it. -/
def WellGrouped (as : List Action) : Prop :=
  ∀ members, Part (.group members) as →
    2 ≤ members.length ∧
      Span.IsHull ((leaves members).map Edit.span) (Action.group members).span

theorem wellGrouped_iff {as : List Action} : WellGrouped as ↔ ∀ a ∈ as, Normal a := by
  constructor
  · intro h
    exact allNormal_of_parts as fun members hm => (h members hm).1
  · intro h members hm
    have hnormal := hm.normal h
    cases hnormal with
    | group h2 hmembers => exact ⟨h2, Normal.isHull_edits (.group h2 hmembers)⟩

theorem WellGrouped.subset {as bs : List Action} (h : WellGrouped bs) (hsub : as ⊆ bs) :
    WellGrouped as := by
  intro members hm
  exact h members (hm.mono hsub)

theorem WellGrouped.applyHook {as : List Action} (h : WellGrouped as) (hook : Hook) :
    WellGrouped (applyHook hook as) :=
  wellGrouped_iff.mpr (applyHook_normal hook (wellGrouped_iff.mp h))

theorem WellGrouped.sort {as : List Action} (h : WellGrouped as) : WellGrouped (sort as) :=
  wellGrouped_iff.mpr (sort_normal (wellGrouped_iff.mp h))

theorem WellGrouped.accepted {as : List Action} (h : WellGrouped as) (policy : Policy) :
    WellGrouped (Clash.accepted policy as) :=
  h.subset (Clash.accepted_sublist policy as).subset

theorem WellGrouped.rejected {as : List Action} (h : WellGrouped as) (policy : Policy) :
    WellGrouped (Clash.rejected policy as) := by
  refine h.subset ?_
  rw [Clash.rejected_eq_membersAt]
  exact (Clash.membersAt_sublist as _).subset

theorem prune_wellGrouped (as : List Action) : WellGrouped (prune as) :=
  wellGrouped_iff.mpr fun _ hb => prune_normal as hb

/-! ## Sorted forests -/

mutual

/-- Siblings are arranged stably at every level. -/
inductive Sorts : List Action → List Action → Prop where
  /-- The groups are sorted before the actions of this level are arranged. -/
  | level {as inner bs : List Action} (hin : SortsGroups as inner)
      (h : Span.StablySorted span inner bs) : Sorts as bs

/-- The groups of a list are sorted, and its actions stay where they are. -/
inductive SortsGroups : List Action → List Action → Prop where
  | nil : SortsGroups [] []
  | edit {as bs : List Action} (e : Edit) (h : SortsGroups as bs) :
      SortsGroups (.edit e :: as) (.edit e :: bs)
  | group {members others as bs : List Action} (hin : Sorts members others)
      (h : SortsGroups as bs) : SortsGroups (.group members :: as) (.group others :: bs)

end

mutual

theorem SortsGroups.cons : ∀ {as bs : List Action} (a : Action), SortsGroups as bs →
    SortsGroups (a :: as) (a.sortIn :: bs)
  | _, _, .edit e, h => .edit e h
  | _, _, .group members, h =>
      .group (.level (sortsGroups_sortEach members) (Span.sortOn_stablySorted span _)) h

theorem sortsGroups_sortEach : ∀ (as : List Action), SortsGroups as (sortEach as)
  | [] => .nil
  | a :: as => .cons a (sortsGroups_sortEach as)

end

/-- Sorting arranges siblings stably at every level. -/
theorem sorts_sort (as : List Action) : Sorts as (sort as) :=
  .level (sortsGroups_sortEach as) (Span.sortOn_stablySorted span _)

theorem leaves_sortTop_perm (as : List Action) : (leaves (sortTop as)).Perm (leaves as) := by
  rw [leaves_eq_flatMap, leaves_eq_flatMap]
  exact (Span.sortOn_perm span as).flatMap_right edits

mutual

theorem edits_sortIn_perm : ∀ (a : Action), a.sortIn.edits.Perm a.edits
  | .edit _ => .refl _
  | .group members => (leaves_sortTop_perm _).trans (leaves_sortEach_perm members)

theorem leaves_sortEach_perm : ∀ (as : List Action), (leaves (sortEach as)).Perm (leaves as)
  | [] => .refl _
  | a :: as => by
      rw [sortEach, leaves, leaves]
      exact (edits_sortIn_perm a).append (leaves_sortEach_perm as)

end

/-- Sorting only rearranges the edits of a forest. -/
theorem leaves_sort_perm (as : List Action) : (leaves (sort as)).Perm (leaves as) :=
  (leaves_sortTop_perm _).trans (leaves_sortEach_perm as)

/-! ## The way of a forest -/

/-- Pruning keeps the edits of a forest, is done after one round, and leaves groups of two or
more that span exactly the edits below them.  Hooks, sorting and the choice of accepted
actions keep every forest in this form.  Sorting arranges siblings stably at every level and
only rearranges the edits.  If groups keep their spans, pruning, hooks and sorting in place
keep these right. -/
theorem groups_keep_form (as : List Action) :
    (leaves (prune as) = leaves as ∧ prune (prune as) = prune as ∧ WellGrouped (prune as)) ∧
    (WellGrouped as →
      (∀ hook, WellGrouped (applyHook hook as)) ∧ WellGrouped (sort as) ∧
      ∀ policy, WellGrouped (Clash.accepted policy as) ∧
        WellGrouped (Clash.rejected policy as)) ∧
    (Sorts as (sort as) ∧ (leaves (sort as)).Perm (leaves as)) ∧
    ∀ ks, Kept.Represents ks as →
      Kept.Represents (Kept.prune ks) (prune as) ∧
      (∀ hook, Kept.Represents (Kept.applyHook hook ks) (applyHook hook as)) ∧
      Kept.Represents (Kept.sort ks) (sort as) := by
  refine ⟨⟨leaves_prune as, ?_, prune_wellGrouped as⟩, ?_, ⟨sorts_sort as, leaves_sort_perm as⟩, ?_⟩
  · exact prune_eq_self fun _ hb => prune_normal as hb
  · intro h
    exact ⟨h.applyHook, h.sort, fun policy => ⟨h.accepted policy, h.rejected policy⟩⟩
  · intro ks hks
    obtain rfl := hks.forget_eq
    exact ⟨Kept.represents_prune ks, fun hook => Kept.represents_applyHook hook ks, hks.sort⟩

/-- A group that holds a group of one and an empty group, and a wider edit behind it. -/
def looseGroups : List Action :=
  [.group [.group [.edit ⟨.insert, ⟨7, 7⟩, some "x".toList⟩], .group [],
      .edit ⟨.delete, ⟨2, 4⟩, some []⟩],
    .edit ⟨.noop, ⟨0, 9⟩, none⟩]

theorem groups_keep_form_loose :
    WellGrouped (prune looseGroups) ∧ WellGrouped (sort (prune looseGroups)) ∧
    spans (sort (prune looseGroups)) = [⟨0, 9⟩, ⟨2, 7⟩] ∧
    ∀ policy, WellGrouped (Clash.rejected policy (sort (prune looseGroups))) := by
  have hpruned : WellGrouped (prune looseGroups) := (groups_keep_form looseGroups).1.2.2
  have hsorted : WellGrouped (sort (prune looseGroups)) :=
    ((groups_keep_form (prune looseGroups)).2.1 hpruned).2.1
  refine ⟨hpruned, hsorted, by decide, ?_⟩
  intro policy
  exact (((groups_keep_form (sort (prune looseGroups))).2.1 hsorted).2.2 policy).2

end Action

end Emend
