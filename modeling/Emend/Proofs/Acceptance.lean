import Emend.Clash
import Emend.Proofs.Forest
import Emend.Proofs.Weaving

/-!
# Accepted actions

The scan from right to left keeps one span in mind, that of the action it kept
last.  This is the span of the first action accepted so far, so the accepted
actions can be described without the scan: none of them conflicts with the next
one.  Such a list is called *clear*.  A clear list is accepted whole, which is why
nothing changes if accepted actions are resolved again.

Overlap is checked twice: among actions, by the scan, and among all edits with
code, when they are applied.  The two checks agree on clear actions whose edits fit
the source (`Clear.not_colliding`).  Edits of different actions are apart because
each lies inside the span of its action.  Edits of one group are apart because a
group with overlapping edits is never accepted (`isBroken_group_eq_false_iff`).  So the
second check never fails after the first.
-/

namespace Emend

namespace Clash

/-! ## The scan, one action at a time -/

section

variable (policy : Policy)

theorem scan_cons (a : Action) (as : List Action) :
    scan policy (a :: as) =
      if conflicts policy a (scan policy as).2 then
        (true :: marks policy as, (scan policy as).2)
      else (false :: marks policy as, some a.span) := rfl

theorem marks_cons (a : Action) (as : List Action) :
    marks policy (a :: as) = conflicts policy a (scan policy as).2 :: marks policy as := by
  rw [marks, scan_cons]
  cases conflicts policy a (scan policy as).2 with
  | true => rfl
  | false => rfl

theorem select_cons (mark : Bool) (a : Action) (as : List Action) :
    select policy mark (a :: as) =
      if conflicts policy a (scan policy as).2 = mark then a :: select policy mark as
      else select policy mark as := by
  rw [select, marks_cons, List.zip_cons_cons]
  by_cases h : conflicts policy a (scan policy as).2 = mark
  · simp only [List.filterMap_cons, if_pos h]
    rfl
  · simp only [List.filterMap_cons, if_neg h]
    rfl

/-- The span kept in mind is that of the first accepted action. -/
theorem scan_snd (as : List Action) :
    (scan policy as).2 = (accepted policy as).head?.map Action.span := by
  induction as with
  | nil => rfl
  | cons a as ih =>
      rw [accepted, select_cons, scan_cons]
      cases conflicts policy a (scan policy as).2 with
      | true => exact ih
      | false => rfl

theorem accepted_cons (a : Action) (as : List Action) :
    accepted policy (a :: as) =
      if conflicts policy a ((accepted policy as).head?.map Action.span) then accepted policy as
      else a :: accepted policy as := by
  rw [← scan_snd, accepted, select_cons]
  cases conflicts policy a (scan policy as).2 with
  | true => rfl
  | false => rfl

theorem rejected_cons (a : Action) (as : List Action) :
    rejected policy (a :: as) =
      if conflicts policy a ((accepted policy as).head?.map Action.span)
      then a :: rejected policy as
      else rejected policy as := by
  rw [← scan_snd, rejected, select_cons]
  rfl

theorem accepted_sublist (as : List Action) : (accepted policy as).Sublist as := by
  induction as with
  | nil => exact List.Sublist.refl _
  | cons a as ih =>
      rw [accepted_cons]
      split
      next => exact ih.cons a
      next => exact ih.cons_cons a

/-- Of a policy the scan reads only whether insertions may share an offset. -/
theorem scan_congr {p q : Policy} (h : p.shareOffsets = q.shareOffsets) (as : List Action) :
    scan p as = scan q as := by
  have hconflicts : ∀ a kept, conflicts p a kept = conflicts q a kept := by
    intro a kept
    cases kept with
    | none => rfl
    | some kept => rw [conflicts, conflicts, hits, hits, h]
  induction as with
  | nil => rfl
  | cons a as ih => rw [scan_cons, scan_cons, marks, marks, ih, hconflicts]

theorem rejected_congr {p q : Policy} (h : p.shareOffsets = q.shareOffsets) (as : List Action) :
    rejected p as = rejected q as := by
  rw [rejected, rejected, select, select, marks, marks, scan_congr h]

end

/-! ## Clear actions -/

/-- No action conflicts with the one to its right, or on its own. -/
def Clear (policy : Policy) : List Action → Prop
  | [] => True
  | a :: as => conflicts policy a (as.head?.map Action.span) = false ∧ Clear policy as

theorem accepted_clear (policy : Policy) (as : List Action) : Clear policy (accepted policy as) := by
  induction as with
  | nil => exact trivial
  | cons a as ih =>
      rw [accepted_cons]
      split
      next => exact ih
      next h => exact ⟨Bool.not_eq_true _ ▸ h, ih⟩

section

variable {policy : Policy} {as : List Action}

/-- Clear actions are accepted whole. -/
theorem Clear.accepted_eq (h : Clear policy as) : accepted policy as = as := by
  induction as with
  | nil => rfl
  | cons a as ih => rw [accepted_cons, ih h.2, h.1, if_neg Bool.false_ne_true]

theorem Clear.rejected_eq (h : Clear policy as) : rejected policy as = [] := by
  induction as with
  | nil => rfl
  | cons a as ih =>
      rw [rejected_cons, h.2.accepted_eq, ih h.2, h.1, if_neg Bool.false_ne_true]

theorem Clear.not_broken (h : Clear policy as) : ∀ a ∈ as, isBroken a = false := by
  induction as with
  | nil => simp
  | cons b as ih =>
      intro a ha
      rcases List.mem_cons.mp ha with rfl | ha'
      · have hc := h.1
        cases hk : as.head?.map Action.span with
        | none =>
            rw [hk] at hc
            exact hc
        | some kept =>
            rw [hk, conflicts, Bool.or_eq_false_iff] at hc
            exact hc.1
      · exact ih h.2 a ha'

/-- The spans of clear actions pass the check of neighbours. -/
theorem Clear.anyOverlap_eq_false (h : Clear policy as) :
    Span.anyOverlap (as.map Action.span) = false := by
  induction as with
  | nil => rfl
  | cons a as ih =>
      cases as with
      | nil => rfl
      | cons b as =>
          have hc := h.1
          rw [List.head?_cons, Option.map_some, conflicts, hits, Bool.or_eq_false_iff,
            Bool.or_eq_false_iff] at hc
          rw [List.map_cons, List.map_cons, Span.anyOverlap, hc.2.1]
          exact ih h.2

end

/-! ## Edits of clear actions -/

theorem spliceSpans_eq_map (as : List Action) :
    spliceSpans as = ((Action.leaves as).filterMap Edit.splice?).map Splice.span :=
  List.map_filterMap.symm

/-- Without inverted edits, a group is broken exactly if two of its edits collide. -/
theorem isBroken_group_eq_false_iff {members : List Action}
    (hp : ∀ e ∈ Action.leaves members, e.span.start ≤ e.span.stop) :
    isBroken (.group members) = false ↔ ¬ Patch.Colliding (Action.leaves members) := by
  have hperm := Span.sortOn_perm id (spliceSpans members)
  have hproper : ∀ s ∈ Span.sortOn id (spliceSpans members), s.start ≤ s.stop := by
    intro s hs
    rw [hperm.mem_iff, spliceSpans_eq_map] at hs
    obtain ⟨t, ht, rfl⟩ := List.mem_map.mp hs
    obtain ⟨e, he, hes⟩ := List.mem_filterMap.mp ht
    obtain ⟨c, -, rfl⟩ := Option.map_eq_some_iff.mp hes
    exact hp e he
  rw [isBroken, Span.anyOverlap_sorted_iff (Span.sortOn_pairwise id _) hproper,
    hperm.pairwise_iff Span.not_overlaps_comm, spliceSpans_eq_map, List.pairwise_map,
    Patch.filterMap_splice?_pairwise_iff]

/-- The edits of clear actions do not collide, unless one of them is inverted. -/
theorem Clear.not_colliding {policy : Policy} {as : List Action} (h : Clear policy as)
    (hp : ∀ e ∈ Action.leaves as, e.span.start ≤ e.span.stop) :
    ¬ Patch.Colliding (Action.leaves as) := by
  have hin : ∀ a ∈ as, ∀ e ∈ a.edits, e.span.start ≤ e.span.stop := by
    intro a ha e he
    refine hp e ?_
    rw [Action.leaves_eq_flatMap]
    exact List.mem_flatMap.mpr ⟨a, ha, he⟩
  have hspans : ∀ s ∈ as.map Action.span, s.start ≤ s.stop := by
    rw [← Action.spans_eq_map]
    exact Action.spans_proper as hp
  have hapart := List.pairwise_map.mp
    ((Span.anyOverlap_eq_false_iff hspans).mp h.anyOverlap_eq_false)
  rw [Patch.not_colliding_iff, Action.leaves_eq_flatMap, List.pairwise_flatMap]
  constructor
  · intro a ha
    cases a with
    | edit e => exact List.pairwise_singleton _ e
    | group members =>
        exact Patch.not_colliding_iff.mp
          ((isBroken_group_eq_false_iff (hin _ ha)).mp (h.not_broken _ ha))
  · refine hapart.imp fun {a b} hab x hx y hy _ _ => ?_
    have hxa := Action.edits_within a x hx
    have hyb := Action.edits_within b y hy
    exact Span.not_overlaps_of_stop_le (Nat.le_trans hxa.2 (Nat.le_trans hab hyb.1))

end Clash

end Emend
