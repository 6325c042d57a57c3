import Mathlib.Logic.Relation
import Emend.Proofs.Outcomes

/-!
# Forests that come to the same

Two differences between forests are never seen in an outcome.

*Order.*  Siblings may be registered in any order, at every level, as long as those
of equal spans keep theirs (`Reordered`).  The spans of groups do not depend on the
order of their members, and sorting settles the rest: the members of each span stand
in the order they had, and an ordered list is determined by these.  Hence the two
forests are sorted to the same one.

*Padding.*  A group around a single action and a group without any edit may be put
in anywhere (`Padding` is one such step).  Each of them is gone after pruning, and
what is pruned is all that the resolution sees, so here even a hook cannot tell the
difference.
-/

namespace Emend

namespace Action

/-! ## Siblings in another order -/

/-- Two forests differ by the order of siblings only, and siblings of equal spans are
in the same order in both. -/
inductive Reordered : List Action → List Action → Prop where
  | nil : Reordered [] []
  | edit {as bs : List Action} (e : Edit) (h : Reordered as bs) :
      Reordered (.edit e :: as) (.edit e :: bs)
  | group {members others as bs : List Action} (hin : Reordered members others)
      (h : Reordered as bs) : Reordered (.group members :: as) (.group others :: bs)
  /-- Once the groups are dealt with, the actions themselves are moved. -/
  | move {as bs cs : List Action} (h : Reordered as bs) (hperm : bs.Perm cs)
      (hstable : ∀ s, bs.filter (fun a => a.span = s) = cs.filter fun a => a.span = s) :
      Reordered as cs

/-- Neighbours of different spans may change places. -/
theorem Reordered.swap {a b : Action} {as bs : List Action} (h : Reordered as (a :: b :: bs))
    (hne : a.span ≠ b.span) : Reordered as (b :: a :: bs) := by
  refine .move h (.swap b a bs) fun s => ?_
  by_cases ha : a.span = s
  · have hb : b.span ≠ s := fun hb => hne (ha.trans hb.symm)
    simp [ha, hb]
  · simp [List.filter_cons, ha]

/-- An ordered forest is determined by what the actions of each span are sorted to. -/
theorem sort_eq_of_filter_eq {as bs : List Action}
    (h : ∀ s, (as.filter fun a => a.span = s).map sortIn =
      (bs.filter fun a => a.span = s).map sortIn) : sort as = sort bs := by
  refine Span.eq_of_filter_eq (sort_arranged as).ordered (sort_arranged bs).ordered fun s => ?_
  rw [filter_sort, filter_sort]
  exact h s

theorem filter_map_sortIn_cons {a b : Action} {as bs : List Action} {s : Span}
    (hab : a.sortIn = b.sortIn)
    (h : (as.filter fun a => a.span = s).map sortIn = (bs.filter fun a => a.span = s).map sortIn) :
    ((a :: as).filter fun a => a.span = s).map sortIn =
      ((b :: bs).filter fun a => a.span = s).map sortIn := by
  have hspan : a.span = b.span := by rw [← span_sortIn a, hab, span_sortIn b]
  by_cases hs : b.span = s
  · simp [hspan, hs, hab, h]
  · simp [hspan, hs, h]

theorem Reordered.filter_eq {as bs : List Action} (h : Reordered as bs) :
    ∀ s, (as.filter fun a => a.span = s).map sortIn =
      (bs.filter fun a => a.span = s).map sortIn := by
  induction h with
  | nil => exact fun _ => rfl
  | edit e _ ih => exact fun s => filter_map_sortIn_cons rfl (ih s)
  | @group members others _ _ _ _ ihin ih =>
      have hin : (Action.group members).sortIn = (Action.group others).sortIn := by
        rw [sortIn, sortIn]
        exact congrArg Action.group (sort_eq_of_filter_eq ihin)
      exact fun s => filter_map_sortIn_cons hin (ih s)
  | move _ _ hstable ih => exact fun s => (ih s).trans (congrArg (List.map sortIn) (hstable s))

theorem Reordered.sort_eq {as bs : List Action} (h : Reordered as bs) : sort as = sort bs :=
  sort_eq_of_filter_eq h.filter_eq

/-! ## Groups that make no difference -/

/-- One group is put in, around an action or before one, at any depth. -/
inductive Padding : List Action → List Action → Prop where
  /-- A group around a single action. -/
  | around (a : Action) (as : List Action) : Padding (a :: as) (.group [a] :: as)
  /-- An empty group. -/
  | before (as : List Action) : Padding as (.group [] :: as)
  | inside {members others : List Action} (as : List Action) (h : Padding members others) :
      Padding (.group members :: as) (.group others :: as)
  | behind {as bs : List Action} (a : Action) (h : Padding as bs) : Padding (a :: as) (a :: bs)

/-- Any number of groups is put in, one after the other. -/
def Padded : List Action → List Action → Prop := Relation.ReflTransGen Padding

theorem prune?_group_singleton (a : Action) : (Action.group [a]).prune? = a.prune? := by
  rw [prune?, prune_cons]
  cases a.prune? with
  | none => rfl
  | some b => rfl

theorem Padding.prune_eq {as bs : List Action} (h : Padding as bs) : prune bs = prune as := by
  induction h with
  | around a as => rw [prune_cons, prune_cons, prune?_group_singleton]
  | before as => rfl
  | inside as _ ih => rw [prune_cons, prune_cons, prune?, prune?, ih]
  | behind a _ ih => rw [prune_cons, prune_cons, ih]

theorem Padded.prune_eq {as bs : List Action} (h : Padded as bs) : prune bs = prune as := by
  induction h with
  | refl => rfl
  | tail _ hstep ih => exact hstep.prune_eq.trans ih

end Action

/-! ## What the resolution sees -/

namespace Resolution

variable {policy : Policy} {as bs : List Action}

/-- Without a hook only the sorted forest counts. -/
theorem resolve_of_sort_eq (h : Action.sort (Action.prune as) = Action.sort (Action.prune bs)) :
    resolve policy none as = resolve policy none bs := by
  have hlength : (Action.prune as).length = (Action.prune bs).length := by
    simpa [Action.sort, Action.length_sortTop, Action.sortEach_eq_map] using congrArg List.length h
  have hleaves : Action.leaves as = [] ↔ Action.leaves bs = [] := by
    rw [← Action.prune_eq_nil_iff, ← Action.prune_eq_nil_iff, ← List.length_eq_zero_iff, hlength,
      List.length_eq_zero_iff]
  by_cases has : Action.leaves as = []
  · rw [resolve_of_no_edit has, resolve_of_no_edit (hleaves.mp has)]
  · rw [resolve_of_edit has, resolve_of_edit fun hbs => has (hleaves.mpr hbs), arrange, arrange, h]

end Resolution

namespace Session

variable {ν : Type} {s t : Session ν} {hook : Option Hook}

/-- Sessions at one host and with the same settings differ in their outcomes only if
their resolutions differ. -/
theorem outcomes_congr (hhost : s.host = t.host) (hsettings : s.settings = t.settings)
    (h : Resolution.resolve t.settings.policy hook s.actions =
      Resolution.resolve t.settings.policy hook t.actions) :
    s.preview hook = t.preview hook ∧ s.process hook = t.process hook := by
  constructor
  · rw [preview, preview, hsettings, Outcome.preview, Outcome.preview, h]
  · rw [process, process, hhost, hsettings, Outcome.process, Outcome.process, h]

/-! ## Order -/

/-- The order in which actions are registered does not matter.  If the pruned actions
of two sessions at one host and with the same settings differ by the order of siblings
only, and siblings of equal spans are in the same order, then without a hook their
previews are equal, and so are the results of processing them. -/
theorem process_of_reordered (hhost : s.host = t.host) (hsettings : s.settings = t.settings)
    (h : Action.Reordered (Action.prune s.actions) (Action.prune t.actions)) :
    s.preview none = t.preview none ∧ s.process none = t.process none :=
  outcomes_congr hhost hsettings (Resolution.resolve_of_sort_eq h.sort_eq)

/-- Actions that are not in order at either level, with two insertions at one offset. -/
def unsorted : Session Span :=
  ⟨.ofSpans "abcdefgh".toList, .default,
    [.group [.edit ⟨.replace, ⟨4, 5⟩, some "x".toList⟩, .edit ⟨.delete, ⟨0, 1⟩, some []⟩],
      .edit ⟨.insert, ⟨5, 5⟩, some "1".toList⟩, .edit ⟨.insert, ⟨5, 5⟩, some "2".toList⟩,
      .edit ⟨.noop, ⟨2, 7⟩, none⟩], []⟩

/-- The same actions in another order. -/
def resorted : Session Span :=
  ⟨.ofSpans "abcdefgh".toList, .default,
    [.edit ⟨.insert, ⟨5, 5⟩, some "1".toList⟩,
      .group [.edit ⟨.delete, ⟨0, 1⟩, some []⟩, .edit ⟨.replace, ⟨4, 5⟩, some "x".toList⟩],
      .edit ⟨.insert, ⟨5, 5⟩, some "2".toList⟩, .edit ⟨.noop, ⟨2, 7⟩, none⟩], []⟩

theorem process_of_reordered_unsorted :
    Action.Reordered (Action.prune unsorted.actions) (Action.prune resorted.actions) ∧
    unsorted.preview none = resorted.preview none ∧
    unsorted.process none = resorted.process none := by
  have h : Action.Reordered (Action.prune unsorted.actions) (Action.prune resorted.actions) := by
    have hin := Action.Reordered.edit ⟨.replace, ⟨4, 5⟩, some "x".toList⟩
      (.edit ⟨.delete, ⟨0, 1⟩, some []⟩ .nil)
    exact .swap (.group (hin.swap (by decide)) (.edit _ (.edit _ (.edit _ .nil)))) (by decide)
  exact ⟨h, process_of_reordered rfl rfl h⟩

/-! ## Padding -/

theorem affected_of_process {o : Outcome} (h : s.process hook = .ok o) :
    o.affected = true ↔ Action.leaves s.actions ≠ [] := by
  have hending := process_ending s hook
  rw [h] at hending
  cases hending with
  | idle hnone => simp [Outcome.unaffected, hnone]
  | done hsome => simp [hsome]

theorem affected_of_preview {o : Outcome} (h : s.preview hook = .ok o) :
    o.affected = true ↔ Action.leaves s.actions ≠ [] := by
  rw [preview] at h
  by_cases hnone : Action.leaves s.actions = []
  · rw [Outcome.preview_of_none (Resolution.resolve_of_no_edit hnone)] at h
    obtain rfl := Except.ok.inj h
    simp [Outcome.unaffected, hnone]
  by_cases hr : s.Refuses hook
  · rw [Outcome.preview_of_error (resolve_of_refuses hnone hr)] at h
    cases h
  · rw [Outcome.preview_of_some (resolve_of_not_refuses hnone hr)] at h
    obtain rfl := Except.ok.inj h
    simp [hnone]

/-- Groups of one and groups without edits are invisible.  If a forest is another one
with such groups put in, both are pruned to the same, and sessions with these actions,
at one host and with the same settings, have the same outcomes under every hook.
Something is affected exactly if there is an edit at all. -/
theorem process_of_padded (hhost : t.host = s.host) (hsettings : t.settings = s.settings)
    (h : Action.Padded s.actions t.actions) :
    Action.prune t.actions = Action.prune s.actions ∧
    ∀ hook, t.preview hook = s.preview hook ∧ t.process hook = s.process hook ∧
      (∀ o, s.process hook = .ok o → (o.affected = true ↔ Action.leaves s.actions ≠ [])) ∧
      (∀ o, s.preview hook = .ok o → (o.affected = true ↔ Action.leaves s.actions ≠ [])) ∧
      (Action.leaves s.actions = [] →
        s.process hook = .ok .unaffected ∧
          s.preview hook = .ok { Outcome.unaffected with actions := some [] }) := by
  refine ⟨h.prune_eq, fun hook => ?_⟩
  have hresolve : Resolution.resolve s.settings.policy hook t.actions =
      Resolution.resolve s.settings.policy hook s.actions := by
    rw [Resolution.resolve, Resolution.resolve, h.prune_eq]
  obtain ⟨hpreview, hprocess⟩ := outcomes_congr hhost hsettings hresolve
  refine ⟨hpreview, hprocess, fun _ => affected_of_process, fun _ => affected_of_preview, ?_⟩
  intro hnone
  have hidle : Resolution.resolve s.settings.policy hook s.actions = .ok none :=
    Resolution.resolve_of_no_edit hnone
  exact ⟨Outcome.process_of_none _ hidle, Outcome.preview_of_none hidle⟩

/-- The actions of `unsorted` with an empty group in the group, groups around its first
member, and a group that holds nothing but an empty one at the end. -/
def padded : Session Span :=
  { unsorted with actions :=
      [.group [.group [.group [.edit ⟨.replace, ⟨4, 5⟩, some "x".toList⟩], .group []],
          .edit ⟨.delete, ⟨0, 1⟩, some []⟩],
        .edit ⟨.insert, ⟨5, 5⟩, some "1".toList⟩, .edit ⟨.insert, ⟨5, 5⟩, some "2".toList⟩,
        .edit ⟨.noop, ⟨2, 7⟩, none⟩, .group [.group []]] }

theorem process_of_padded_unsorted :
    Action.Padded unsorted.actions padded.actions ∧
    ∀ hook, padded.preview hook = unsorted.preview hook ∧
      padded.process hook = unsorted.process hook := by
  have h : Action.Padded unsorted.actions padded.actions :=
    .head (.inside _ (.around _ _)) <| .head (.inside _ (.inside _ (.around _ _))) <|
    .head (.inside _ (.inside _ (.behind _ (.before _)))) <|
    .head (.behind _ (.behind _ (.behind _ (.behind _ (.before _))))) <|
    .single (.behind _ (.behind _ (.behind _ (.behind _ (.inside _ (.before _))))))
  obtain ⟨-, hout⟩ := process_of_padded (s := unsorted) (t := padded) rfl rfl h
  exact ⟨h, fun hook => ⟨(hout hook).1, (hout hook).2.1⟩⟩

end Session

end Emend
