import Emend.Proofs.Forest

/-!
# The spans of groups

A span is the *hull* of some others if it reaches from the first of their starts to the last
of their stops.  The span of a group is the hull of the spans of its members
(`isCover_members`), and so the hull of all edits below it, as long as no group there is empty
(`Normal.isHull_edits`).  An empty group would count with the span `[0, 0)`, at which there is
no edit.

An action is a *part* of a forest if it stands in the forest at any depth.  What holds of all
groups of a forest is said of its parts.
-/

namespace Emend

namespace Span

/-! ## Hulls -/

/-- A span reaches from the first start of some spans to the last of their stops. -/
structure IsHull (l : List Span) (s : Span) : Prop where
  /-- All lie inside. -/
  within : ∀ t ∈ l, t.Within s
  /-- One starts where the hull starts. -/
  start_mem : ∃ t ∈ l, t.start = s.start
  /-- One stops where the hull stops. -/
  stop_mem : ∃ t ∈ l, t.stop = s.stop

theorem isHull_singleton (s : Span) : IsHull [s] s where
  within t ht := by
    rw [List.mem_singleton.mp ht]
    exact .refl s
  start_mem := ⟨s, List.mem_singleton_self s, rfl⟩
  stop_mem := ⟨s, List.mem_singleton_self s, rfl⟩

/-- A first span may be covered together with the second. -/
theorem IsHull.of_cover {a b s : Span} {l : List Span} (h : IsHull (a.cover b :: l) s) :
    IsHull (a :: b :: l) s where
  within t ht := by
    have hcover := h.within _ (List.mem_cons_self ..)
    rcases List.mem_cons.mp ht with rfl | ht
    · exact (within_cover_left t b).trans hcover
    rcases List.mem_cons.mp ht with rfl | ht
    · exact (within_cover_right a t).trans hcover
    · exact h.within t (List.mem_cons_of_mem _ ht)
  start_mem := by
    obtain ⟨t, ht, hstart⟩ := h.start_mem
    rcases List.mem_cons.mp ht with rfl | ht
    · rcases Nat.le_total a.start b.start with hle | hle
      · exact ⟨a, by simp, by rw [← hstart, cover, Nat.min_eq_left hle]⟩
      · exact ⟨b, by simp, by rw [← hstart, cover, Nat.min_eq_right hle]⟩
    · exact ⟨t, by simp [ht], hstart⟩
  stop_mem := by
    obtain ⟨t, ht, hstop⟩ := h.stop_mem
    rcases List.mem_cons.mp ht with rfl | ht
    · rcases Nat.le_total a.stop b.stop with hle | hle
      · exact ⟨b, by simp, by rw [← hstop, cover, Nat.max_eq_right hle]⟩
      · exact ⟨a, by simp, by rw [← hstop, cover, Nat.max_eq_left hle]⟩
    · exact ⟨t, by simp [ht], hstop⟩

theorem isHull_foldl_cover (l : List Span) : ∀ s, IsHull (s :: l) (l.foldl cover s) := by
  induction l with
  | nil => exact isHull_singleton
  | cons a l ih =>
      intro s
      exact (ih (s.cover a)).of_cover

/-- The computed hull is the hull. -/
theorem isHull_hull? {l : List Span} {s : Span} (h : hull? l = some s) : IsHull l s := by
  cases l with
  | nil => cases h
  | cons a l =>
      obtain rfl := Option.some.inj h
      exact isHull_foldl_cover l a

/-- Spans have one hull. -/
theorem IsHull.unique {l : List Span} {s t : Span} (hs : IsHull l s) (ht : IsHull l t) : s = t := by
  obtain ⟨a, ha, hstart⟩ := hs.start_mem
  obtain ⟨b, hb, hstop⟩ := hs.stop_mem
  obtain ⟨c, hc, hstart'⟩ := ht.start_mem
  obtain ⟨d, hd, hstop'⟩ := ht.stop_mem
  have hat := (ht.within a ha).1
  have hbt := (ht.within b hb).2
  have hcs := (hs.within c hc).1
  have hds := (hs.within d hd).2
  refine le_antisymm (le_def.mpr ?_) (le_def.mpr ?_)
  · omega
  · omega

/-- A span is the hull of some spans, or `[0, 0)` if there are none. -/
def IsCover (l : List Span) (s : Span) : Prop :=
  (l = [] → s = ⟨0, 0⟩) ∧ (l ≠ [] → IsHull l s)

theorem isCover_hull? (l : List Span) : IsCover l ((hull? l).getD ⟨0, 0⟩) := by
  cases l with
  | nil => exact ⟨fun _ => rfl, fun h => absurd rfl h⟩
  | cons a l => exact ⟨fun h => absurd h (List.cons_ne_nil a l), fun _ => isHull_hull? rfl⟩

theorem IsCover.eq_hull? {l : List Span} {s : Span} (h : IsCover l s) :
    (hull? l).getD ⟨0, 0⟩ = s := by
  by_cases hnil : l = []
  · rw [h.1 hnil, hnil]
    rfl
  · exact ((isCover_hull? l).2 hnil).unique (h.2 hnil)

/-- A hull of hulls is the hull of everything inside. -/
theorem IsHull.flatMap {α : Type} {f : α → Span} {g : α → List Span} {l : List α} {s : Span}
    (h : IsHull (l.map f) s) (hg : ∀ a ∈ l, IsHull (g a) (f a)) : IsHull (l.flatMap g) s where
  within t ht := by
    obtain ⟨a, ha, hta⟩ := List.mem_flatMap.mp ht
    exact ((hg a ha).within t hta).trans (h.within _ (List.mem_map_of_mem ha))
  start_mem := by
    obtain ⟨u, hu, hstart⟩ := h.start_mem
    obtain ⟨a, ha, rfl⟩ := List.mem_map.mp hu
    obtain ⟨t, ht, hta⟩ := (hg a ha).start_mem
    exact ⟨t, List.mem_flatMap.mpr ⟨a, ha, ht⟩, hta.trans hstart⟩
  stop_mem := by
    obtain ⟨u, hu, hstop⟩ := h.stop_mem
    obtain ⟨a, ha, rfl⟩ := List.mem_map.mp hu
    obtain ⟨t, ht, hta⟩ := (hg a ha).stop_mem
    exact ⟨t, List.mem_flatMap.mpr ⟨a, ha, ht⟩, hta.trans hstop⟩

end Span

namespace Action

/-! ## Groups -/

/-- The span of a group covers the spans of its members. -/
theorem isCover_members (members : List Action) :
    Span.IsCover (members.map span) (Action.group members).span := by
  rw [span, ← spans_eq_map]
  exact Span.isCover_hull? _

/-- The span of a normal action is the hull of its edits. -/
theorem Normal.isHull_edits {a : Action} (h : Normal a) :
    Span.IsHull (a.edits.map Edit.span) a.span := by
  induction h with
  | edit e => exact Span.isHull_singleton e.span
  | @group members h2 _ ih =>
      have hne : members ≠ [] := List.ne_nil_of_length_pos (by omega)
      have hmembers := (isCover_members members).2 (mt List.map_eq_nil_iff.mp hne)
      rw [edits, leaves_eq_flatMap, List.map_flatMap]
      exact hmembers.flatMap ih

/-! ## Parts of a forest -/

/-- An action stands in a forest, at some depth. -/
inductive Part : Action → List Action → Prop where
  /-- It is one of the actions. -/
  | here {a : Action} {as : List Action} (h : a ∈ as) : Part a as
  /-- It is a part of a group among them. -/
  | inside {a : Action} {members as : List Action} (h : .group members ∈ as)
      (hin : Part a members) : Part a as

theorem Part.mono {a : Action} {as bs : List Action} (h : Part a as) (hsub : as ⊆ bs) :
    Part a bs := by
  cases h with
  | here ha => exact .here (hsub ha)
  | inside hgroup hin => exact .inside (hsub hgroup) hin

theorem Part.normal {a : Action} {as : List Action} (h : Part a as) (has : ∀ b ∈ as, Normal b) :
    Normal a := by
  induction h with
  | here ha => exact has _ ha
  | inside hgroup _ ih =>
      cases has _ hgroup with
      | group _ hmembers => exact ih hmembers

mutual

/-- An action is normal if all groups in it have two members or more. -/
theorem normal_of_parts : ∀ (a : Action),
    (∀ members, Part (.group members) [a] → 2 ≤ members.length) → Normal a
  | .edit e, _ => .edit e
  | .group members, h =>
      .group (h members (.here (List.mem_singleton_self _)))
        (allNormal_of_parts members fun inner hinner =>
          h inner (.inside (List.mem_singleton_self _) hinner))

theorem allNormal_of_parts : ∀ (as : List Action),
    (∀ members, Part (.group members) as → 2 ≤ members.length) → ∀ a ∈ as, Normal a
  | [], _, a, ha => absurd ha List.not_mem_nil
  | b :: as, h, a, ha => by
      have hb := normal_of_parts b fun members hm => h members (hm.mono (by simp))
      have has := allNormal_of_parts as fun members hm => h members (hm.mono (by simp))
      rcases List.mem_cons.mp ha with rfl | ha'
      · exact hb
      · exact has a ha'

end

end Action

end Emend
