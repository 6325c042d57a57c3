import Emend.Span

/-!
# Stable order and overlap

A list is stably sorted if it is in the order of its members' spans and the
members of each span come in the order they had.  There is only one such list:
two ordered lists that agree on the members of every span are equal
(`eq_of_filter_eq`).  So `sortOn` is *the* stable sort, and it leaves an ordered
list alone.

Two spans *overlap* if each starts before the other stops.  A span of width zero
overlaps what it lies strictly inside of, and nothing at whose border it lies.
In an ordered list of spans that are not inverted it is enough to look at
neighbours: `anyOverlap` finds nothing exactly if every span stops before every
later one starts.
-/

namespace Emend

namespace Span

/-! ## The order of spans -/

theorem le_antisymm {a b : Span} (hab : a ≤ b) (hba : b ≤ a) : a = b := by
  rw [le_def] at hab hba
  obtain ⟨s, t⟩ := a
  obtain ⟨s', t'⟩ := b
  simp only at hab hba
  have hs : s = s' := by omega
  have ht : t = t' := by omega
  rw [hs, ht]

/-! ## Stably sorted lists -/

section

variable {α : Type}

/-- A list is the stable arrangement of another by the spans of its members. -/
structure StablySorted (f : α → Span) (l sorted : List α) : Prop where
  /-- The members are the same. -/
  perm : sorted.Perm l
  /-- They are in the order of their spans. -/
  ordered : sorted.Pairwise fun x y => f x ≤ f y
  /-- Those of one span are in the order they had. -/
  stable : ∀ s, sorted.filter (fun x => f x = s) = l.filter fun x => f x = s

/-- The head of an ordered list comes before every member of a list with the same
members of each span. -/
theorem head_le_of_filter_eq {f : α → Span} {x y : α} {l m : List α}
    (hl : (x :: l).Pairwise fun x y => f x ≤ f y)
    (h : ∀ s, (x :: l).filter (fun x => f x = s) = m.filter fun x => f x = s) (hy : y ∈ m) :
    f x ≤ f y := by
  have hmem : y ∈ (x :: l).filter fun z => f z = f y := by
    rw [h (f y)]
    simp [hy]
  rcases List.mem_cons.mp (List.mem_filter.mp hmem).1 with rfl | hy'
  · exact le_refl _
  · exact (List.pairwise_cons.mp hl).1 y hy'

/-- An ordered list is determined by its members of each span, in order. -/
theorem eq_of_filter_eq {f : α → Span} :
    ∀ {l m : List α}, (l.Pairwise fun x y => f x ≤ f y) → (m.Pairwise fun x y => f x ≤ f y) →
      (∀ s, l.filter (fun x => f x = s) = m.filter fun x => f x = s) → l = m
  | [], [], _, _, _ => rfl
  | [], y :: m, _, _, h => by
      have hy := h (f y)
      simp at hy
  | x :: l, [], _, _, h => by
      have hx := h (f x)
      simp at hx
  | x :: l, y :: m, hl, hm, h => by
      have hxy : f x ≤ f y := head_le_of_filter_eq hl h (List.mem_cons_self ..)
      have hyx : f y ≤ f x := head_le_of_filter_eq hm (fun s => (h s).symm) (List.mem_cons_self ..)
      have hf : f x = f y := le_antisymm hxy hyx
      have hhead : x = y := by
        have hs := h (f x)
        simp only [List.filter_cons, hf, decide_true, if_true] at hs
        exact (List.cons.inj hs).1
      subst hhead
      refine congrArg (x :: ·) (eq_of_filter_eq hl.tail hm.tail fun s => ?_)
      have hs := h s
      by_cases hxs : f x = s
      · simpa [List.filter_cons, hxs] using hs
      · simpa [List.filter_cons, hxs] using hs

/-- There is one stable arrangement of a list. -/
theorem StablySorted.unique {f : α → Span} {l a b : List α} (ha : StablySorted f l a)
    (hb : StablySorted f l b) : a = b :=
  eq_of_filter_eq ha.ordered hb.ordered fun s => (ha.stable s).trans (hb.stable s).symm

theorem filter_insertOn (f : α → Span) (a : α) (s : Span) (l : List α) :
    (insertOn f a l).filter (fun x => f x = s) = (a :: l).filter fun x => f x = s := by
  induction l with
  | nil => rfl
  | cons b l ih =>
      rw [insertOn]
      split
      next => rfl
      next hab =>
        -- The new member moves past `b`, so the two have different spans.
        have hne : f a = s → f b ≠ s := by
          intro ha hb
          exact hab (by rw [ha, hb]; exact le_refl s)
        rw [List.filter_cons, ih]
        by_cases ha : f a = s
        · simp [ha, hne ha]
        · simp [List.filter_cons, ha]

/-- Sorting arranges a list stably. -/
theorem sortOn_stablySorted (f : α → Span) (l : List α) : StablySorted f l (sortOn f l) where
  perm := sortOn_perm f l
  ordered := sortOn_pairwise f l
  stable := by
    intro s
    induction l with
    | nil => rfl
    | cons a l ih => rw [sortOn, filter_insertOn, List.filter_cons, List.filter_cons, ih]

/-- It makes no difference whether members are dropped before sorting or after. -/
theorem filter_sortOn (f : α → Span) (q : α → Bool) (l : List α) :
    (sortOn f l).filter q = sortOn f (l.filter q) := by
  have hsorted := sortOn_stablySorted f l
  refine StablySorted.unique ⟨hsorted.perm.filter q, hsorted.ordered.filter q, fun s => ?_⟩
    (sortOn_stablySorted f (l.filter q))
  have hq := congrArg (List.filter q) (hsorted.stable s)
  simpa only [List.filter_filter, Bool.and_comm] using hq

/-- A list with those members in front that pass a test is cut in two by the test. -/
theorem filter_append_filter_not {q : α → Bool} {l : List α}
    (h : l.Pairwise fun x y => q y = true → q x = true) :
    l.filter q ++ l.filter (fun x => !q x) = l := by
  induction l with
  | nil => rfl
  | cons a l ih =>
      obtain ⟨ha, hl⟩ := List.pairwise_cons.mp h
      cases hq : q a with
      | true => simpa [hq] using ih hl
      | false =>
          have hnone : l.filter q = [] := by
            rw [List.filter_eq_nil_iff]
            intro x hx hqx
            rw [ha x hx hqx] at hq
            cases hq
          have hall := ih hl
          rw [hnone, List.nil_append] at hall
          simp [hq, hnone, hall]

/-- Sorting leaves an ordered list alone. -/
theorem sortOn_eq_self {f : α → Span} {l : List α} (h : l.Pairwise fun x y => f x ≤ f y) :
    sortOn f l = l :=
  (sortOn_stablySorted f l).unique ⟨List.Perm.refl l, h, fun _ => rfl⟩

theorem insertOn_map {β : Type} (f : β → Span) (g : α → β) (a : α) (l : List α) :
    insertOn f (g a) (l.map g) = (insertOn (f ∘ g) a l).map g := by
  induction l with
  | nil => rfl
  | cons b l ih =>
      rw [List.map_cons, insertOn, insertOn, ih, apply_ite (List.map g)]
      rfl

/-- Sorting goes through a function that leaves spans alone. -/
theorem sortOn_map {β : Type} (f : β → Span) (g : α → β) (l : List α) :
    sortOn f (l.map g) = (sortOn (f ∘ g) l).map g := by
  induction l with
  | nil => rfl
  | cons a l ih => rw [List.map_cons, sortOn, ih, insertOn_map, ← sortOn]

end

/-! ## Overlap -/

/-- Each of two spans starts before the other stops. -/
def Overlaps (a b : Span) : Prop := a.start < b.stop ∧ b.start < a.stop

instance (a b : Span) : Decidable (a.Overlaps b) :=
  inferInstanceAs (Decidable (a.start < b.stop ∧ b.start < a.stop))

theorem Overlaps.symm {a b : Span} (h : a.Overlaps b) : b.Overlaps a := ⟨h.2, h.1⟩

theorem not_overlaps_comm {a b : Span} (h : ¬ a.Overlaps b) : ¬ b.Overlaps a :=
  fun h' => h h'.symm

theorem not_overlaps_of_stop_le {a b : Span} (h : a.stop ≤ b.start) : ¬ a.Overlaps b := by
  intro ho
  have := ho.2
  omega

/-- Of two spans in order that are not inverted, the first stops before the second
starts unless they overlap. -/
theorem stop_le_of_not_overlaps {a b : Span} (hab : a ≤ b) (hb : b.start ≤ b.stop)
    (h : ¬ a.Overlaps b) : a.stop ≤ b.start := by
  rw [le_def] at hab
  refine Nat.le_of_not_lt fun hlt => h ⟨?_, hlt⟩
  omega

/-- Neighbours that do not overlap are enough: without inverted spans every span
then stops before every later one starts. -/
theorem anyOverlap_eq_false_iff {l : List Span} (h : ∀ s ∈ l, s.start ≤ s.stop) :
    anyOverlap l = false ↔ l.Pairwise fun a b => a.stop ≤ b.start := by
  induction l with
  | nil => simp [anyOverlap]
  | cons a l ih =>
      cases l with
      | nil => simp [anyOverlap]
      | cons b l =>
          have ih' := ih fun s hs => h s (List.mem_cons_of_mem a hs)
          have hb : b.start ≤ b.stop := h b (by simp)
          rw [anyOverlap, Bool.or_eq_false_iff, decide_eq_false_iff_not, ih']
          constructor
          · rintro ⟨hab, hl⟩
            refine List.pairwise_cons.mpr ⟨fun s hs => ?_, hl⟩
            rcases List.mem_cons.mp hs with rfl | hs'
            · omega
            · have hbs := (List.pairwise_cons.mp hl).1 s hs'
              omega
          · intro hp
            obtain ⟨ha, hl⟩ := List.pairwise_cons.mp hp
            have hab := ha b (by simp)
            exact ⟨by omega, hl⟩

/-- In an ordered list without inverted spans the neighbours tell whether any two
spans overlap. -/
theorem anyOverlap_sorted_iff {l : List Span} (hle : l.Pairwise fun a b => a ≤ b)
    (h : ∀ s ∈ l, s.start ≤ s.stop) :
    anyOverlap l = false ↔ l.Pairwise fun a b => ¬ a.Overlaps b := by
  rw [anyOverlap_eq_false_iff h]
  constructor
  · exact List.Pairwise.imp not_overlaps_of_stop_le
  · intro hno
    have hboth := hle.and hno
    exact hboth.imp_of_mem fun _ hb hab => stop_le_of_not_overlaps hab.1 (h _ hb) hab.2

end Span

end Emend
