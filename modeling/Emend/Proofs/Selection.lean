import Mathlib.Data.List.Perm.Subperm
import Mathlib.Data.Set.Basic
import Mathlib.Order.Bounds.Defs
import Emend.Proofs.Acceptance

/-!
# Which actions are kept

The scan compares an action with one other only, the one it kept last.  Two facts
make up for that.

*All pairs.*  The action kept last has the least span of all kept so far, because the
actions are in the order of their spans.  If an action can stand to the left of that
one, it can stand to the left of all (`conflicts_eq_false_iff`).  So the kept actions
are those that get along with every later kept one, and since this says of each action
what becomes of it once the later ones are settled, it determines them
(`isKept_iff_marks`).  No span has to be proper for this.  Apart from other actions only
the edits inside a group count, and if none of them is inverted, the group is broken
exactly if two of them overlap (`isBroken_iff`).

*As many as possible.*  The scan stays ahead of every other choice: a choice among the
last actions has at most as many members as the scan has kept of them, and if it has as
many, its first span comes no later than that of the scan (`Clear.stays_ahead`).  An
action that the scan drops would then conflict with the other choice as well.
-/

namespace Emend

namespace Clash

/-! ## Conflicts of spans -/

/-- Two spans insert at one offset, and the policy does not let them share it. -/
def Crowds (policy : Policy) (s t : Span) : Prop :=
  policy.shareOffsets = false ∧ ∃ p, s = .point p ∧ t = .point p

/-- A span cannot stand to the left of a kept one: the kept one starts before it stops,
or the two crowd each other. -/
def Blocked (policy : Policy) (s kept : Span) : Prop :=
  kept.start < s.stop ∨ Crowds policy s kept

/-- Two spans cannot both be kept, in whatever order: they overlap or crowd each other. -/
def Clashes (policy : Policy) (s t : Span) : Prop :=
  s.Overlaps t ∨ Crowds policy s t

section

variable {policy : Policy} {s t u : Span}

theorem Crowds.symm (h : Crowds policy s t) : Crowds policy t s := by
  obtain ⟨hshare, p, hs, ht⟩ := h
  exact ⟨hshare, p, ht, hs⟩

theorem Clashes.symm (h : Clashes policy s t) : Clashes policy t s :=
  h.imp Span.Overlaps.symm Crowds.symm

theorem hits_iff : hits policy s t = true ↔ Blocked policy s t := by
  obtain ⟨a, b⟩ := s
  obtain ⟨c, d⟩ := t
  simp only [hits, Blocked, Crowds, Span.isEmpty, Span.point, Span.mk.injEq, Bool.or_eq_true,
    Bool.and_eq_true, decide_eq_true_eq, Bool.not_eq_true']
  refine or_congr_right ⟨?_, ?_⟩
  · rintro ⟨⟨⟨hcd, hab⟩, hca⟩, hshare⟩
    exact ⟨hshare, a, ⟨rfl, hab.symm⟩, hca, by omega⟩
  · rintro ⟨hshare, p, ⟨ha, hb⟩, hc, hd⟩
    exact ⟨⟨⟨by omega, by omega⟩, by omega⟩, hshare⟩

/-- What cannot stand to the left of a span cannot stand to the left of an earlier one
either. -/
theorem Blocked.of_le (h : Blocked policy s u) (hst : s ≤ t) (htu : t ≤ u) :
    Blocked policy s t := by
  rcases h with hstart | ⟨hshare, p, rfl, rfl⟩
  · rw [Span.le_def] at htu
    exact Or.inl (by omega)
  · exact Or.inr ⟨hshare, p, rfl, Span.le_antisymm htu hst⟩

/-- Spans in order that are not inverted clash exactly if the first cannot stand to the
left of the second. -/
theorem blocked_iff_clashes (hst : s ≤ t) (ht : t.start ≤ t.stop) :
    Blocked policy s t ↔ Clashes policy s t := by
  refine or_congr_left ⟨fun h => ⟨?_, h⟩, And.right⟩
  rw [Span.le_def] at hst
  omega

end

/-! ## One action against all that are kept -/

section

variable {policy : Policy} {a : Action} {bs : List Action}

/-- An action that can stand to the left of the first of some actions in order can stand
to the left of all of them. -/
theorem conflicts_eq_false_iff (h : (a :: bs).Pairwise fun a b => a.span ≤ b.span) :
    conflicts policy a (bs.head?.map Action.span) = false ↔
      isBroken a = false ∧ ∀ b ∈ bs, ¬ Blocked policy a.span b.span := by
  cases bs with
  | nil => simp [conflicts]
  | cons c bs =>
      obtain ⟨ha, hbs⟩ := List.pairwise_cons.mp h
      rw [List.head?_cons, Option.map_some, conflicts, Bool.or_eq_false_iff, ← Bool.not_eq_true
        (hits _ _ _), hits_iff]
      refine and_congr_right fun _ => ⟨fun hc b hb hblocked => ?_, fun hall => hall c (by simp)⟩
      refine hc (hblocked.of_le (ha c (by simp)) ?_)
      rcases List.mem_cons.mp hb with rfl | hb'
      · exact Span.le_refl _
      · exact (List.pairwise_cons.mp hbs).1 b hb'

/-- The actions accepted so far are in order with the next one. -/
theorem cons_accepted_ordered (policy : Policy) {as : List Action}
    (h : (a :: as).Pairwise fun a b => a.span ≤ b.span) :
    (a :: accepted policy as).Pairwise fun a b => a.span ≤ b.span :=
  h.sublist ((accepted_sublist policy as).cons_cons a)

end

/-! ## Places of kept actions -/

section

variable (policy : Policy) (a : Action) (as : List Action)

theorem length_marks : (marks policy as).length = as.length := by
  induction as with
  | nil => rfl
  | cons a as ih => simp [marks_cons, ih]

theorem mem_indices_iff {i : Nat} : i ∈ indices policy as ↔ (marks policy as)[i]? = some true := by
  rw [indices, List.mem_filterMap]
  constructor
  · rintro ⟨⟨mark, j⟩, hj, hmark⟩
    rw [List.mk_mem_zipIdx_iff_getElem?] at hj
    cases mark with
    | true => simpa [← Option.some.inj hmark] using hj
    | false => simp at hmark
  · intro hi
    exact ⟨(true, i), List.mk_mem_zipIdx_iff_getElem?.mpr hi, rfl⟩

/-- The places that are not reported are those with the mark of a kept action. -/
theorem not_mem_indices_iff {i : Nat} :
    i < as.length ∧ i ∉ indices policy as ↔ (marks policy as)[i]? = some false := by
  rw [mem_indices_iff, ← length_marks policy as]
  constructor
  · rintro ⟨hi, hmark⟩
    rw [List.getElem?_eq_getElem hi] at hmark ⊢
    simpa using hmark
  · intro hmark
    exact ⟨(List.getElem?_eq_some_iff.mp hmark).1, by simp [hmark]⟩

theorem indices_cons :
    indices policy (a :: as) =
      (if conflicts policy a (scan policy as).2 then [0] else []) ++
        (indices policy as).map (· + 1) := by
  rw [indices, marks_cons, List.zipIdx_cons, Nat.zero_add, List.zipIdx_succ]
  cases conflicts policy a (scan policy as).2 with
  | true => simp [indices, List.filterMap_map, List.map_filterMap, apply_ite]
  | false => simp [indices, List.filterMap_map, List.map_filterMap, apply_ite]

/-- The places are reported in ascending order. -/
theorem indices_ascending : (indices policy as).Pairwise (· < ·) := by
  induction as with
  | nil => exact List.Pairwise.nil
  | cons a as ih =>
      have hlater : ((indices policy as).map (· + 1)).Pairwise (· < ·) :=
        List.pairwise_map.mpr (ih.imp fun h => by omega)
      rw [indices_cons]
      cases conflicts policy a (scan policy as).2 with
      | true => simpa using hlater
      | false => simpa using hlater

/-- The members of a list at those places that pass a test, in order. -/
def membersAt (test : Nat → Bool) (as : List Action) : List Action :=
  (as.zipIdx.filter fun (_, i) => test i).map Prod.fst

theorem membersAt_cons (test : Nat → Bool) :
    membersAt test (a :: as) =
      if test 0 then a :: membersAt (fun i => test (i + 1)) as
      else membersAt (fun i => test (i + 1)) as := by
  rw [membersAt, List.zipIdx_cons, Nat.zero_add, List.zipIdx_succ, List.filter_cons]
  by_cases h : test 0 = true
  · simp [membersAt, h, List.filter_map, Function.comp_def]
  · simp [membersAt, h, List.filter_map, Function.comp_def]

theorem membersAt_sublist (test : Nat → Bool) : (membersAt test as).Sublist as := by
  have hsub := (List.filter_sublist (p := fun (_, i) => test i) (l := as.zipIdx)).map Prod.fst
  rwa [List.zipIdx_map_fst] at hsub

/-- The members at the places that pass a test and those at the other places make up the
list. -/
theorem membersAt_append_perm (test : Nat → Bool) :
    (membersAt test as ++ membersAt (fun i => !test i) as).Perm as := by
  have hperm := (List.filter_append_perm (fun (_, i) => test i) as.zipIdx).map Prod.fst
  rwa [List.map_append, List.zipIdx_map_fst] at hperm

theorem select_eq_membersAt (mark : Bool) :
    select policy mark as = membersAt (fun i => (marks policy as)[i]? = some mark) as := by
  induction as with
  | nil => rfl
  | cons a as ih =>
      rw [select_cons, membersAt_cons, ih]
      simp [marks_cons]

theorem rejected_eq_membersAt :
    rejected policy as = membersAt (fun i => i ∈ indices policy as) as := by
  rw [rejected, select_eq_membersAt]
  simp only [mem_indices_iff]

theorem accepted_eq_membersAt :
    accepted policy as = membersAt (fun i => i ∉ indices policy as) as := by
  rw [accepted, select_eq_membersAt]
  refine congrArg (List.map Prod.fst) (List.filter_congr fun x hx => ?_)
  have hlt : x.2 < as.length := (List.mem_zipIdx' hx).1
  exact decide_eq_decide.mpr
    ((not_mem_indices_iff policy as).symm.trans (and_iff_right hlt))

/-- Every action is accepted or rejected. -/
theorem accepted_append_rejected_perm :
    (accepted policy as ++ rejected policy as).Perm as := by
  rw [accepted_eq_membersAt, rejected_eq_membersAt]
  simpa using membersAt_append_perm as fun i => i ∉ indices policy as

theorem mem_accepted_iff {b : Action} :
    b ∈ accepted policy as ↔ ∃ j : Nat, (marks policy as)[j]? = some false ∧ as[j]? = some b := by
  rw [accepted, select_eq_membersAt, membersAt, List.mem_map]
  constructor
  · rintro ⟨⟨c, j⟩, hj, rfl⟩
    obtain ⟨hj, hmark⟩ := List.mem_filter.mp hj
    exact ⟨j, by simpa using hmark, List.mk_mem_zipIdx_iff_getElem?.mp hj⟩
  · rintro ⟨j, hmark, hj⟩
    have hmem : (b, j) ∈ as.zipIdx := List.mk_mem_zipIdx_iff_getElem?.mpr hj
    exact ⟨(b, j), List.mem_filter.mpr ⟨hmem, by simpa using hmark⟩, rfl⟩

end

/-! ## All pairs -/

/-- An action is a group of which two edits overlap. -/
def CollidesWithin (a : Action) : Prop :=
  ∃ members, a = .group members ∧ Patch.Colliding (Action.leaves members)

/-- Without inverted edits, the broken actions are the groups of which two edits overlap. -/
theorem isBroken_iff {a : Action} (hp : ∀ e ∈ a.edits, e.span.start ≤ e.span.stop) :
    isBroken a = true ↔ CollidesWithin a := by
  cases a with
  | edit e => simp [isBroken, CollidesWithin]
  | group members =>
      have hgroup := isBroken_group_eq_false_iff hp
      rw [← Bool.not_eq_false, hgroup, not_not]
      constructor
      · intro hc
        exact ⟨members, rfl, hc⟩
      · rintro ⟨_, ⟨⟩, hc⟩
        exact hc

/-- The action at a place is not broken and gets along with all later actions of a set of
places. -/
def Admits (policy : Policy) (as : List Action) (K : Set Nat) (i : Nat) : Prop :=
  ∃ a, as[i]? = some a ∧ isBroken a = false ∧
    ∀ j b, i < j → j ∈ K → as[j]? = some b → ¬ Blocked policy a.span b.span

/-- A set holds exactly the places that it admits. -/
def IsKept (policy : Policy) (as : List Action) (K : Set Nat) : Prop :=
  ∀ i, i ∈ K ↔ Admits policy as K i

section

variable {policy : Policy} {a : Action} {as : List Action} {K : Set Nat}

theorem admits_zero :
    Admits policy (a :: as) K 0 ↔ isBroken a = false ∧
      ∀ j b, j + 1 ∈ K → as[j]? = some b → ¬ Blocked policy a.span b.span := by
  simp only [Admits, List.getElem?_cons_zero, Option.some.injEq, exists_eq_left']
  refine and_congr_right fun _ => ⟨fun h j b hj hb => h (j + 1) b (by omega) hj hb, ?_⟩
  intro h j b hlt hj hb
  obtain ⟨k, rfl⟩ := Nat.exists_eq_add_one.mpr hlt
  exact h k b hj hb

theorem admits_succ {i : Nat} :
    Admits policy (a :: as) K (i + 1) ↔ Admits policy as {j | j + 1 ∈ K} i := by
  simp only [Admits, List.getElem?_cons_succ]
  refine exists_congr fun c => and_congr_right fun _ => and_congr_right fun _ => ⟨?_, ?_⟩
  · intro h j b hij hj hb
    exact h (j + 1) b (by omega) hj hb
  · intro h j b hij hj hb
    obtain ⟨k, rfl⟩ := Nat.exists_eq_add_one.mpr (Nat.zero_lt_of_lt hij)
    exact h k b (by omega) hj hb

/-- What becomes of the first action is settled by the later ones, and these are settled
among themselves. -/
theorem isKept_cons :
    IsKept policy (a :: as) K ↔
      (0 ∈ K ↔ isBroken a = false ∧
        ∀ j b, j + 1 ∈ K → as[j]? = some b → ¬ Blocked policy a.span b.span) ∧
      IsKept policy as {i | i + 1 ∈ K} := by
  rw [IsKept, ← Nat.and_forall_add_one, admits_zero]
  simp only [admits_succ, IsKept, Set.mem_ofPred_eq]

/-- One set of places keeps itself, that of the accepted actions. -/
theorem isKept_iff_marks (h : as.Pairwise fun a b => a.span ≤ b.span) :
    IsKept policy as K ↔ ∀ i, i ∈ K ↔ (marks policy as)[i]? = some false := by
  induction as generalizing K with
  | nil => simp [IsKept, Admits, marks, scan]
  | cons a as ih =>
      rw [isKept_cons, ih h.tail]
      refine Iff.trans ?_ Nat.and_forall_add_one
      simp only [marks_cons, scan_snd, List.getElem?_cons_zero, List.getElem?_cons_succ,
        Option.some.injEq, Set.mem_ofPred_eq]
      refine and_congr_left fun hlater => iff_congr Iff.rfl ?_
      -- The later places of the set are those of the accepted later actions.
      rw [conflicts_eq_false_iff (cons_accepted_ordered policy h)]
      refine and_congr_right fun _ => ?_
      simp only [hlater, mem_accepted_iff]
      constructor
      · rintro hall b ⟨j, hj, hb⟩
        exact hall j b hj hb
      · intro hall j b hj hb
        exact hall b ⟨j, hj, hb⟩

end

/-- The scan decides by all pairs.  In a list that is in order, the places that it does not
report are the one set that holds exactly the actions that are not broken and get along with
every later action of the set.  The places are reported in ascending order.  The accepted
actions are those at the places of the set, and the rejected ones are those at the others,
both in the order of the list.  Without inverted edits, an action is broken exactly if it is a
group of which two edits overlap. -/
theorem indices_all_pairs (policy : Policy) {as : List Action}
    (h : as.Pairwise fun a b => a.span ≤ b.span) :
    (∀ K : Set Nat,
      IsKept policy as K ↔ K = {i | i < as.length ∧ i ∉ indices policy as}) ∧
    (indices policy as).Pairwise (· < ·) ∧
    accepted policy as = membersAt (fun i => i ∉ indices policy as) as ∧
    rejected policy as = membersAt (fun i => i ∈ indices policy as) as ∧
    (accepted policy as).Sublist as ∧ (rejected policy as).Sublist as ∧
    (accepted policy as ++ rejected policy as).Perm as ∧
    ∀ a ∈ as, (∀ e ∈ a.edits, e.span.start ≤ e.span.stop) →
      (isBroken a = true ↔ CollidesWithin a) := by
  refine ⟨fun K => ?_, indices_ascending policy as, accepted_eq_membersAt policy as,
    rejected_eq_membersAt policy as, accepted_sublist policy as, ?_,
    accepted_append_rejected_perm policy as, fun a _ => isBroken_iff⟩
  · rw [isKept_iff_marks h, Set.ext_iff]
    simp only [Set.mem_ofPred_eq, not_mem_indices_iff]
  · rw [rejected_eq_membersAt]
    exact membersAt_sublist as _

/-- Actions in order: one that covers all others, an inverted one, two insertions at one
offset, a group whose edits overlap, and an edit that starts where the group stops. -/
def crowd : List Action :=
  [.edit ⟨.replace, ⟨0, 9⟩, some []⟩, .edit ⟨.replace, ⟨2, 1⟩, some []⟩,
    .edit ⟨.insert, ⟨4, 4⟩, some []⟩, .edit ⟨.insert, ⟨4, 4⟩, some []⟩,
    .group [.edit ⟨.replace, ⟨5, 7⟩, some []⟩, .edit ⟨.replace, ⟨6, 8⟩, some []⟩],
    .edit ⟨.replace, ⟨8, 9⟩, some []⟩]

theorem indices_all_pairs_crowd :
    (crowd.Pairwise fun a b => a.span ≤ b.span) ∧ indices .default crowd = [0, 2, 4] ∧
      IsKept .default crowd {i | i < crowd.length ∧ i ∉ indices .default crowd} ∧
      ∃ a ∈ crowd, (∀ e ∈ a.edits, e.span.start ≤ e.span.stop) ∧ CollidesWithin a := by
  have h : crowd.Pairwise fun a b => a.span ≤ b.span := by decide
  obtain ⟨hkept, -, -, -, -, -, -, hbroken⟩ := indices_all_pairs .default h
  have hgroup : crowd[4] ∈ crowd := List.getElem_mem _
  have hproper : ∀ e ∈ crowd[4].edits, e.span.start ≤ e.span.stop := by decide
  exact ⟨h, by decide, (hkept _).mpr rfl, crowd[4], hgroup, hproper,
    (hbroken _ hgroup hproper).mp (by decide)⟩

/-! ## As many as possible -/

/-- No two of these actions clash, and none is broken. -/
structure ClashFree (policy : Policy) (as : List Action) : Prop where
  /-- No two clash. -/
  apart : as.Pairwise fun a b => ¬ Clashes policy a.span b.span
  /-- None is broken. -/
  sound : ∀ a ∈ as, isBroken a = false

theorem ClashFree.perm {policy : Policy} {as bs : List Action} (h : ClashFree policy as)
    (hperm : bs.Perm as) : ClashFree policy bs where
  apart := (hperm.pairwise_iff fun hab hba => hab hba.symm).mpr h.apart
  sound a ha := h.sound a (hperm.mem_iff.mp ha)

/-- Actions in order that are not inverted are free of clashes exactly if none conflicts
with the next one. -/
theorem clashFree_iff_clear {policy : Policy} {as : List Action}
    (h : as.Pairwise fun a b => a.span ≤ b.span) (hproper : ∀ a ∈ as, a.span.start ≤ a.span.stop) :
    ClashFree policy as ↔ Clear policy as := by
  induction as with
  | nil => exact ⟨fun _ => trivial, fun _ => ⟨List.Pairwise.nil, by simp⟩⟩
  | cons a as ih =>
      have hlater := ih h.tail fun b hb => hproper b (List.mem_cons_of_mem a hb)
      have hpair : ∀ b ∈ as, (Blocked policy a.span b.span ↔ Clashes policy a.span b.span) :=
        fun b hb => blocked_iff_clashes ((List.pairwise_cons.mp h).1 b hb)
          (hproper b (List.mem_cons_of_mem a hb))
      rw [Clear, ← hlater, conflicts_eq_false_iff h]
      constructor
      · rintro ⟨hapart, hsound⟩
        obtain ⟨ha, has⟩ := List.pairwise_cons.mp hapart
        exact ⟨⟨hsound a (by simp), fun b hb hblocked => ha b hb ((hpair b hb).mp hblocked)⟩,
          has, fun b hb => hsound b (List.mem_cons_of_mem a hb)⟩
      · rintro ⟨⟨ha, hfree⟩, has⟩
        refine ⟨List.pairwise_cons.mpr ⟨fun b hb hclash => ?_, has.apart⟩, fun b hb => ?_⟩
        · exact hfree b hb ((hpair b hb).mpr hclash)
        · rcases List.mem_cons.mp hb with rfl | hb'
          · exact ha
          · exact has.sound b hb'

section

variable {policy : Policy} {as bs : List Action}

/-- What conflicts with a span conflicts with every earlier one as well. -/
theorem conflicts_of_le {a : Action} {t u : Span} (h : conflicts policy a (some u) = true)
    (hat : a.span ≤ t) (htu : t ≤ u) : conflicts policy a (some t) = true := by
  rw [conflicts, Bool.or_eq_true, hits_iff] at h ⊢
  exact h.imp_right fun hblocked => hblocked.of_le hat htu

/-- An action that the scan drops conflicts with every choice that is level with the scan. -/
theorem conflicts_of_level {a : Action} (hsub : bs.Sublist as)
    (h : (a :: as).Pairwise fun a b => a.span ≤ b.span)
    (heq : bs.length = (accepted policy as).length)
    (hhead : ∀ b ∈ bs.head?, ∀ k ∈ (accepted policy as).head?, b.span ≤ k.span)
    (hconflict : conflicts policy a ((accepted policy as).head?.map Action.span) = true) :
    conflicts policy a (bs.head?.map Action.span) = true := by
  cases hacc : accepted policy as with
  | nil =>
      rw [hacc] at heq hconflict
      rw [List.eq_nil_of_length_eq_zero heq]
      exact hconflict
  | cons k ks =>
      rw [hacc] at heq hhead hconflict
      cases bs with
      | nil => cases heq
      | cons b bs =>
          have hab : a.span ≤ b.span :=
            (List.pairwise_cons.mp h).1 b (hsub.subset (List.mem_cons_self ..))
          exact conflicts_of_le hconflict hab (hhead b rfl k rfl)

/-- The scan stays ahead of every other choice.  A clear choice has at most as many members
as the scan accepts, and if it has as many, its first span comes no later. -/
theorem Clear.stays_ahead (h : as.Pairwise fun a b => a.span ≤ b.span) (hsub : bs.Sublist as)
    (hclear : Clear policy bs) :
    bs.length ≤ (accepted policy as).length ∧
      (bs.length = (accepted policy as).length →
        ∀ b ∈ bs.head?, ∀ k ∈ (accepted policy as).head?, b.span ≤ k.span) := by
  induction hsub with
  | slnil => simp
  | @cons bs as a hsub ih =>
      obtain ⟨hle, hhead⟩ := ih h.tail hclear
      rw [accepted_cons]
      split
      next => exact ⟨hle, hhead⟩
      next =>
        rw [List.length_cons]
        exact ⟨by omega, fun heq => absurd heq (by omega)⟩
  | @cons_cons bs as a hsub ih =>
      obtain ⟨hle, hhead⟩ := ih h.tail hclear.2
      have hordered := cons_accepted_ordered policy h
      rw [accepted_cons]
      split
      next hconflict =>
        -- What the scan drops does not fit a choice that is level with it, so this one was behind.
        have hlt : bs.length < (accepted policy as).length := by
          refine Nat.lt_of_le_of_ne hle fun heq => ?_
          have hfits := hclear.1
          rw [conflicts_of_level hsub h heq (hhead heq) hconflict] at hfits
          cases hfits
        refine ⟨hlt, ?_⟩
        rintro - b hb k hk
        obtain rfl := Option.mem_some_iff.mp hb
        exact (List.pairwise_cons.mp hordered).1 k (List.mem_of_head? hk)
      next =>
        simp only [List.length_cons, List.head?_cons, Option.mem_some_iff]
        refine ⟨by omega, ?_⟩
        rintro - b rfl k rfl
        exact Span.le_refl _

theorem accepted_clashFree (policy : Policy) (h : as.Pairwise fun a b => a.span ≤ b.span)
    (hproper : ∀ a ∈ as, a.span.start ≤ a.span.stop) : ClashFree policy (accepted policy as) := by
  have hsub := accepted_sublist policy as
  rw [clashFree_iff_clear (h.sublist hsub) fun a ha => hproper a (hsub.subset ha)]
  exact accepted_clear policy as

/-- No choice free of clashes has more members than the scan accepts. -/
theorem ClashFree.length_le (hfree : ClashFree policy bs) (hbs : bs.Subperm as)
    (h : as.Pairwise fun a b => a.span ≤ b.span) (hproper : ∀ a ∈ as, a.span.start ≤ a.span.stop) :
    bs.length ≤ (accepted policy as).length := by
  obtain ⟨cs, hperm, hsub⟩ := hbs
  have hclear : Clear policy cs := by
    rw [← clashFree_iff_clear (h.sublist hsub) fun a ha => hproper a (hsub.subset ha)]
    exact hfree.perm hperm
  calc
    bs.length = cs.length := hperm.length_eq.symm
    _ ≤ (accepted policy as).length := (hclear.stays_ahead h hsub).1

end

/-- The accepted actions are a largest choice free of clashes.  This holds for all actions
that are not inverted, once sorted: no two accepted ones clash and none is broken, and no
choice among the actions that is free of clashes and broken groups has more members.  Actions
without clashes are accepted whole, and the number of rejected actions is the least number
that has to be dropped.  Broken are the groups of which two edits overlap, where no edit is
inverted. -/
theorem accepted_largest (policy : Policy) {as : List Action}
    (hproper : ∀ a ∈ as, a.span.start ≤ a.span.stop) :
    (accepted policy (Action.sortTop as)).Subperm as ∧
    ClashFree policy (accepted policy (Action.sortTop as)) ∧
    (∀ bs, bs.Subperm as → ClashFree policy bs →
      bs.length ≤ (accepted policy (Action.sortTop as)).length) ∧
    (ClashFree policy as →
      accepted policy (Action.sortTop as) = Action.sortTop as ∧
        rejected policy (Action.sortTop as) = []) ∧
    IsLeast {n | ∃ bs, bs.Subperm as ∧ ClashFree policy bs ∧ bs.length + n = as.length}
      (rejected policy (Action.sortTop as)).length ∧
    ∀ a ∈ as, (∀ e ∈ a.edits, e.span.start ≤ e.span.stop) →
      (isBroken a = true ↔ CollidesWithin a) := by
  have hperm : (Action.sortTop as).Perm as := Span.sortOn_perm Action.span as
  have hordered : (Action.sortTop as).Pairwise fun a b => a.span ≤ b.span :=
    Span.sortOn_pairwise Action.span as
  have hsorted : ∀ a ∈ Action.sortTop as, a.span.start ≤ a.span.stop :=
    fun a ha => hproper a (hperm.mem_iff.mp ha)
  generalize Action.sortTop as = sorted at *
  have hsub := (accepted_sublist policy sorted).subperm.trans hperm.subperm
  have hfree := accepted_clashFree policy hordered hsorted
  have hmost : ∀ bs, bs.Subperm as → ClashFree policy bs →
      bs.length ≤ (accepted policy sorted).length :=
    fun bs hbs hclash => hclash.length_le (hbs.trans hperm.symm.subperm) hordered hsorted
  have hlength : (accepted policy sorted).length + (rejected policy sorted).length = as.length := by
    rw [← List.length_append, (accepted_append_rejected_perm policy sorted).length_eq,
      hperm.length_eq]
  refine ⟨hsub, hfree, hmost, fun hclash => ?_,
    ⟨⟨accepted policy sorted, hsub, hfree, hlength⟩, ?_⟩, fun a _ => isBroken_iff⟩
  · have hclear := (clashFree_iff_clear hordered hsorted).mp (hclash.perm hperm)
    exact ⟨hclear.accepted_eq, hclear.rejected_eq⟩
  · rintro n ⟨bs, hbs, hclash, hn⟩
    have := hmost bs hbs hclash
    omega

/-- Of five actions, none inverted, three have to go. -/
theorem accepted_largest_crowd :
    (∀ a ∈ (crowd.eraseIdx 1).reverse, a.span.start ≤ a.span.stop) ∧
      IsLeast {n | ∃ bs, bs.Subperm (crowd.eraseIdx 1).reverse ∧ ClashFree .default bs ∧
        bs.length + n = 5} 3 := by
  have hproper : ∀ a ∈ (crowd.eraseIdx 1).reverse, a.span.start ≤ a.span.stop := by decide
  exact ⟨hproper, (accepted_largest .default hproper).2.2.2.2.1⟩

end Clash

end Emend
