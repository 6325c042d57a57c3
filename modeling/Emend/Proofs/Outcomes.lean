import Emend.Host.Spans
import Emend.Proofs.Acceptance
import Emend.Session

/-!
# Outcomes of a session

What `process` and `preview` give, in every case.  Both resolve the actions of the
session first, and the resolution goes one of three ways: there is no edit, the
policy refuses the conflicts, or the actions are told apart.  In the last case
`process` applies the accepted actions, which are clear, and so their edits cannot
collide (`process_ending`).

The accepted actions come out of the resolution pruned, sorted and clear.  Resolving
them once more, without a hook, changes nothing (`resolve_accepted`).  Hence what
`preview` reports is what `process` applies.
-/

namespace Emend

/-! ## Resolving -/

namespace Resolution

section

variable {policy : Policy} {hook : Option Hook} {as : List Action}

theorem arrange_normal (h : ∀ a ∈ as, Action.Normal a) : ∀ b ∈ arrange hook as, Action.Normal b := by
  cases hook with
  | none => exact Action.sort_normal h
  | some hook => exact Action.sort_normal (Action.applyHook_normal hook h)

theorem arrange_arranged (hook : Option Hook) (as : List Action) :
    Action.Arranged (arrange hook as) := by
  cases hook with
  | none => exact Action.sort_arranged _
  | some hook => exact Action.sort_arranged _

theorem resolve_of_no_edit (h : Action.leaves as = []) : resolve policy hook as = .ok none := by
  rw [resolve, Action.prune_eq_nil_iff.mpr h]

/-- Where there is an edit, the pruned actions are arranged and told apart. -/
theorem resolve_of_edit (h : Action.leaves as ≠ []) :
    resolve policy hook as =
      if policy.refuseAll = true ∧ Clash.rejected policy (arrange hook (Action.prune as)) ≠ [] then
        .error (.conflict (Clash.rejected policy (arrange hook (Action.prune as))).length)
      else
        .ok (some ⟨Clash.accepted policy (arrange hook (Action.prune as)),
          Clash.rejected policy (arrange hook (Action.prune as))⟩) := by
  have hne : Action.prune as ≠ [] := fun hp => h (Action.prune_eq_nil_iff.mp hp)
  rw [resolve]
  split
  next hp => exact absurd hp hne
  next =>
    cases hrefuse : policy.refuseAll with
    | false => simp
    | true => simp

/-- Accepted actions are resolved to themselves. -/
theorem resolve_accepted (policy : Policy) (hook : Option Hook) (as : List Action)
    (hne : Clash.accepted policy (arrange hook (Action.prune as)) ≠ []) :
    resolve policy none (Clash.accepted policy (arrange hook (Action.prune as))) =
      .ok (some ⟨Clash.accepted policy (arrange hook (Action.prune as)), []⟩) := by
  have hsub := Clash.accepted_sublist policy (arrange hook (Action.prune as))
  have hclear := Clash.accepted_clear policy (arrange hook (Action.prune as))
  have harr := (arrange_arranged hook (Action.prune as)).sublist hsub
  have hnormal : ∀ a ∈ Clash.accepted policy (arrange hook (Action.prune as)), Action.Normal a :=
    fun a ha => arrange_normal (fun _ => Action.prune_normal as) a (hsub.subset ha)
  generalize Clash.accepted policy (arrange hook (Action.prune as)) = kept at *
  have hprune := Action.prune_eq_self hnormal
  have hleaves : Action.leaves kept ≠ [] := by
    intro hl
    rw [← Action.prune_eq_nil_iff, hprune] at hl
    exact hne hl
  have harrange : arrange none kept = kept := harr.sort_eq
  rw [resolve_of_edit hleaves, hprune, harrange, hclear.rejected_eq, hclear.accepted_eq]
  simp

end

end Resolution

/-! ## Outcomes by the way the resolution goes -/

namespace Outcome

variable (source : Text) {policy : Policy} {hook : Option Hook} {as : List Action}

theorem process_of_error {e : Error} (h : Resolution.resolve policy hook as = .error e) :
    process source policy hook as = .error (.refused e) := by
  rw [process, h]
  rfl

theorem process_of_none (h : Resolution.resolve policy hook as = .ok none) :
    process source policy hook as = .ok unaffected := by
  rw [process, h]
  rfl

theorem process_of_some {r : Resolution} (h : Resolution.resolve policy hook as = .ok (some r)) :
    process source policy hook as =
      (Patch.apply source (Action.leaves r.accepted)).bind fun text =>
        .ok ⟨none, true, !r.rejected.isEmpty, some text, none⟩ := by
  rw [process, h]
  rfl

theorem preview_of_error {e : Error} (h : Resolution.resolve policy hook as = .error e) :
    preview policy hook as = .error e := by
  rw [preview, h]
  rfl

theorem preview_of_none (h : Resolution.resolve policy hook as = .ok none) :
    preview policy hook as = .ok { unaffected with actions := some [] } := by
  rw [preview, h]
  rfl

theorem preview_of_some {r : Resolution} (h : Resolution.resolve policy hook as = .ok (some r)) :
    preview policy hook as = .ok ⟨none, true, !r.rejected.isEmpty, none, some r.accepted⟩ := by
  rw [preview, h]
  rfl

end Outcome

namespace Session

variable {ν : Type}

/-- The actions of a session as they are told apart: pruned, moved by the hook and
sorted. -/
def forest (s : Session ν) (hook : Option Hook) : List Action :=
  Resolution.arrange hook (Action.prune s.actions)

/-- The actions of a session that are applied. -/
def accepted (s : Session ν) (hook : Option Hook) : List Action :=
  Clash.accepted s.settings.policy (s.forest hook)

/-- The actions of a session that conflict. -/
def rejected (s : Session ν) (hook : Option Hook) : List Action :=
  Clash.rejected s.settings.policy (s.forest hook)

/-- The policy of a session refuses its conflicts. -/
def Refuses (s : Session ν) (hook : Option Hook) : Prop :=
  s.settings.policy.refuseAll = true ∧ s.rejected hook ≠ []

/-- The ways in which processing a session can end. -/
inductive Ending (s : Session ν) (hook : Option Hook) : Except Failure Outcome → Prop where
  /-- There is no edit. -/
  | idle (h : Action.leaves s.actions = []) : Ending s hook (.ok .unaffected)
  /-- There are conflicts, and the policy refuses them. -/
  | refused (h : Action.leaves s.actions ≠ []) (hr : s.Refuses hook) :
      Ending s hook (.error (.refused (.conflict (s.rejected hook).length)))
  /-- An accepted edit does not fit the source. -/
  | misfit {e : Edit} (h : Action.leaves s.actions ≠ []) (hr : ¬ s.Refuses hook)
      (he : e ∈ Action.leaves (s.accepted hook)) (hfit : e.span.fits s.host.source = false) :
      Ending s hook (.error (.refused (.badSpan e.span s.host.source.size)))
  /-- The accepted edits are applied at once. -/
  | done {text : Text} (h : Action.leaves s.actions ≠ []) (hr : ¬ s.Refuses hook)
      (hfits : ∀ e ∈ Action.leaves (s.accepted hook), e.span.fits s.host.source = true)
      (hw : Patch.weave? s.host.source 0 (Patch.splices (Action.leaves (s.accepted hook))) =
        some text) :
      Ending s hook (.ok ⟨none, true, !(s.rejected hook).isEmpty, some text, none⟩)

theorem resolve_of_refuses {s : Session ν} {hook : Option Hook}
    (h : Action.leaves s.actions ≠ []) (hr : s.Refuses hook) :
    Resolution.resolve s.settings.policy hook s.actions =
      .error (.conflict (s.rejected hook).length) :=
  (Resolution.resolve_of_edit h).trans (if_pos hr)

theorem resolve_of_not_refuses {s : Session ν} {hook : Option Hook}
    (h : Action.leaves s.actions ≠ []) (hr : ¬ s.Refuses hook) :
    Resolution.resolve s.settings.policy hook s.actions =
      .ok (some ⟨s.accepted hook, s.rejected hook⟩) :=
  (Resolution.resolve_of_edit h).trans (if_neg hr)

/-! ## Processing -/

/-- Processing a session always ends in one of these ways. -/
theorem process_ending (s : Session ν) (hook : Option Hook) : Ending s hook (s.process hook) := by
  by_cases h : Action.leaves s.actions = []
  · rw [process, Outcome.process_of_none _ (Resolution.resolve_of_no_edit h)]
    exact .idle h
  by_cases hr : s.Refuses hook
  · rw [process, Outcome.process_of_error _ (resolve_of_refuses h hr)]
    exact .refused h hr
  rw [process, Outcome.process_of_some _ (resolve_of_not_refuses h hr)]
  by_cases hm : ∃ e ∈ Action.leaves (s.accepted hook), e.span.fits s.host.source = false
  · obtain ⟨e, he, hfit, happly⟩ := Patch.apply_of_exists_misfit hm
    rw [happly]
    exact .misfit h hr he hfit
  · have hfits : ∀ e ∈ Action.leaves (s.accepted hook), e.span.fits s.host.source = true := by
      intro e he
      cases hfit : e.span.fits s.host.source with
      | true => rfl
      | false => exact absurd ⟨e, he, hfit⟩ hm
    have hclear := Clash.accepted_clear s.settings.policy (s.forest hook)
    have hapart := hclear.not_colliding fun e he => Span.start_le_stop_of_fits (hfits e he)
    obtain ⟨text, htext⟩ := Patch.exists_woven_splices hfits hapart
    rw [Patch.apply_of_woven hfits hapart htext]
    exact .done h hr hfits (htext.weave?_eq [] rfl)

section

variable {s : Session ν} {hook : Option Hook}

theorem process_eq_unaffected_iff :
    s.process hook = .ok .unaffected ↔ Action.leaves s.actions = [] := by
  have hending := process_ending s hook
  generalize s.process hook = r at hending
  cases hending with
  | idle h => simp [h]
  | refused h hr => simp [h]
  | misfit h hr he hfit => simp [h]
  | done h hr hfits hw => simp [h, Outcome.unaffected]

theorem process_eq_conflict_iff (h : Action.leaves s.actions ≠ []) :
    s.process hook = .error (.refused (.conflict (s.rejected hook).length)) ↔ s.Refuses hook := by
  have hending := process_ending s hook
  generalize s.process hook = r at hending
  cases hending with
  | idle h' => exact absurd h' h
  | refused _ hr => simp [hr]
  | misfit _ hr he hfit => simp [hr]
  | done _ hr hfits hw => simp [hr]

theorem process_eq_badSpan_iff (h : Action.leaves s.actions ≠ []) (hr : ¬ s.Refuses hook) :
    (∃ span, s.process hook = .error (.refused (.badSpan span s.host.source.size))) ↔
      ∃ e ∈ Action.leaves (s.accepted hook), e.span.fits s.host.source = false := by
  have hending := process_ending s hook
  generalize s.process hook = r at hending
  cases hending with
  | idle h' => exact absurd h' h
  | refused _ hr' => exact absurd hr' hr
  | @misfit e _ _ he hfit => exact ⟨fun _ => ⟨e, he, hfit⟩, fun _ => ⟨e.span, rfl⟩⟩
  | done _ _ hfits hw =>
      constructor
      · rintro ⟨span, hspan⟩
        cases hspan
      · rintro ⟨e, he, hfit⟩
        rw [hfits e he] at hfit
        cases hfit

theorem process_of_fits (h : Action.leaves s.actions ≠ []) (hr : ¬ s.Refuses hook)
    (hfits : ∀ e ∈ Action.leaves (s.accepted hook), e.span.fits s.host.source = true) :
    ∃ text,
      Patch.weave? s.host.source 0 (Patch.splices (Action.leaves (s.accepted hook))) = some text ∧
      s.process hook = .ok ⟨none, true, !(s.rejected hook).isEmpty, some text, none⟩ := by
  have hending := process_ending s hook
  generalize s.process hook = r at hending
  cases hending with
  | idle h' => exact absurd h' h
  | refused _ hr' => exact absurd hr' hr
  | @misfit e _ _ he hfit =>
      rw [hfits e he] at hfit
      cases hfit
  | @done text _ _ _ hw => exact ⟨text, hw, rfl⟩

theorem process_ne_overlap (a b : Span) : s.process hook ≠ .error (.refused (.overlap a b)) := by
  intro herror
  have hending := process_ending s hook
  rw [herror] at hending
  cases hending

end

/-- What processing a session gives.  Without an edit nothing is affected.  Otherwise
conflicts are refused exactly if the policy says so.  Otherwise a bad span is reported
exactly if an accepted edit does not fit, and if all fit, those with code are applied to
the source at once, from left to right and in the order they have at one span.  No overlap
is ever reported, and which actions conflict depends on nothing in the policy but whether
insertions may share an offset. -/
theorem process_spec (s : Session ν) (hook : Option Hook) :
    (s.process hook = .ok .unaffected ↔ Action.leaves s.actions = []) ∧
    (Action.leaves s.actions ≠ [] →
      (s.process hook = .error (.refused (.conflict (s.rejected hook).length)) ↔
        s.settings.policy.refuseAll = true ∧ s.rejected hook ≠ []) ∧
      (¬ (s.settings.policy.refuseAll = true ∧ s.rejected hook ≠ []) →
        ((∃ span, s.process hook = .error (.refused (.badSpan span s.host.source.size))) ↔
          ∃ e ∈ Action.leaves (s.accepted hook), e.span.fits s.host.source = false) ∧
        ((∀ e ∈ Action.leaves (s.accepted hook), e.span.fits s.host.source = true) →
          ∃ sorted text,
            Span.StablySorted Splice.span
              ((Action.leaves (s.accepted hook)).filterMap Edit.splice?) sorted ∧
            Patch.weave? s.host.source 0 sorted = some text ∧
            s.process hook =
              .ok ⟨none, true, !(s.rejected hook).isEmpty, some text, none⟩))) ∧
    (∀ a b, s.process hook ≠ .error (.refused (.overlap a b))) ∧
    (∀ policy : Policy, policy.shareOffsets = s.settings.policy.shareOffsets →
      Clash.rejected policy (s.forest hook) = s.rejected hook) := by
  refine ⟨process_eq_unaffected_iff, fun h => ⟨process_eq_conflict_iff h, fun hr => ?_⟩,
    process_ne_overlap, fun policy hpolicy => Clash.rejected_congr hpolicy (s.forest hook)⟩
  refine ⟨process_eq_badSpan_iff h hr, fun hfits => ?_⟩
  obtain ⟨text, hweave, hprocess⟩ := process_of_fits h hr hfits
  exact ⟨_, text, Patch.splices_stablySorted _, hweave, hprocess⟩

/-! ## Previews -/

/-- A preview that lists actions lists the accepted ones. -/
theorem accepted_of_preview {s : Session ν} {hook : Option Hook} {o : Outcome}
    {kept : List Action} (hpreview : s.preview hook = .ok o) (hkept : o.actions = some kept)
    (hne : kept ≠ []) :
    Action.leaves s.actions ≠ [] ∧ ¬ s.Refuses hook ∧ kept = s.accepted hook ∧
      o.conflicted = !(s.rejected hook).isEmpty := by
  rw [preview] at hpreview
  by_cases h : Action.leaves s.actions = []
  · rw [Outcome.preview_of_none (Resolution.resolve_of_no_edit h)] at hpreview
    obtain rfl := Except.ok.inj hpreview
    exact absurd (Option.some.inj hkept).symm hne
  by_cases hr : s.Refuses hook
  · rw [Outcome.preview_of_error (resolve_of_refuses h hr)] at hpreview
    cases hpreview
  rw [Outcome.preview_of_some (resolve_of_not_refuses h hr)] at hpreview
  obtain rfl := Except.ok.inj hpreview
  exact ⟨h, hr, (Option.some.inj hkept).symm, rfl⟩

/-- Pushing actions outside groups registers them in order. -/
theorem run_push (h : Host ν) (settings : Settings) (pushed : List Action) :
    ∀ as : List Action, ∃ reports,
      run ⟨h, settings, as, []⟩ (pushed.map .push) =
        some (⟨h, settings, as ++ pushed, []⟩, reports) := by
  induction pushed with
  | nil => exact fun as => ⟨[], by rw [List.append_nil]; rfl⟩
  | cons a pushed ih =>
      intro as
      obtain ⟨reports, hrun⟩ := ih (as ++ [a])
      rw [List.append_assoc, List.singleton_append] at hrun
      refine ⟨(.done, newest? ⟨h, settings, as, []⟩ ⟨h, settings, as ++ [a], []⟩) :: reports, ?_⟩
      rw [List.map_cons, run, step, push]
      simp only [Option.bind_eq_bind, Option.bind_some, hrun]

/-- What a preview reports is what processing applies.  If the reported actions are
pushed, in order, into a fresh session at the same host and with the same policy, its
preview without a hook reports them again and without conflicts, and processing it
gives the text that processing the first session gives, or reports the same bad
span. -/
theorem process_of_preview {s : Session ν} {hook : Option Hook} {o : Outcome}
    {kept : List Action} (hpreview : s.preview hook = .ok o) (hkept : o.actions = some kept)
    (hne : kept ≠ []) (settings : Settings) (hpolicy : settings.policy = s.settings.policy) :
    ∃ fresh reports,
      run ⟨s.host, settings, [], []⟩ (kept.map .push) = some (fresh, reports) ∧
      fresh.preview none = .ok ⟨none, true, false, none, some kept⟩ ∧
      ((∃ text, s.process hook = .ok ⟨none, true, o.conflicted, some text, none⟩ ∧
          fresh.process none = .ok ⟨none, true, false, some text, none⟩) ∨
        ∃ span, s.process hook = .error (.refused (.badSpan span s.host.source.size)) ∧
          fresh.process none = .error (.refused (.badSpan span s.host.source.size))) := by
  obtain ⟨h, hr, rfl, hconflicted⟩ := accepted_of_preview hpreview hkept hne
  obtain ⟨reports, hrun⟩ := run_push s.host settings (s.accepted hook) []
  refine ⟨⟨s.host, settings, s.accepted hook, []⟩, reports, hrun, ?_⟩
  have hresolve : Resolution.resolve settings.policy none (s.accepted hook) =
      .ok (some ⟨s.accepted hook, []⟩) := by
    rw [hpolicy]
    exact Resolution.resolve_accepted _ hook s.actions hne
  refine ⟨Outcome.preview_of_some hresolve, ?_⟩
  have hfirst := Outcome.process_of_some s.host.source (resolve_of_not_refuses h hr)
  have hagain := Outcome.process_of_some s.host.source hresolve
  rw [process, process, hfirst, hagain, hconflicted]
  cases happly : Patch.apply s.host.source (Action.leaves (s.accepted hook)) with
  | ok text => exact Or.inl ⟨text, rfl, rfl⟩
  | error f =>
      -- Of the ways to end with an error only the bad span is left.
      have hending := process_ending s hook
      rw [process, hfirst, happly] at hending
      cases hending with
      | refused _ hr' => exact absurd hr' hr
      | misfit => exact Or.inr ⟨_, rfl, rfl⟩

/-- A group of two with an empty group in it, an edit that overlaps the group, and an
edit without code. -/
def crowded : Session Span :=
  ⟨.ofSpans "aébcd".toList, .default,
    [.group [.edit ⟨.replace, ⟨2, 3⟩, some "x".toList⟩, .group [],
        .edit ⟨.insert, ⟨0, 0⟩, some "(".toList⟩],
      .edit ⟨.delete, ⟨1, 4⟩, some []⟩, .edit ⟨.noop, ⟨3, 4⟩, none⟩], []⟩

/-- What is accepted of these if a hook moves them by one byte. -/
def crowdedKept : List Action :=
  [.group [.edit ⟨.insert, ⟨1, 1⟩, some "(".toList⟩, .edit ⟨.replace, ⟨3, 4⟩, some "x".toList⟩],
    .edit ⟨.noop, ⟨4, 5⟩, none⟩]

theorem process_of_preview_crowded :
    crowded.preview (some (.shift 1)) = .ok ⟨none, true, true, none, some crowdedKept⟩ ∧
    ∃ fresh reports,
      run ⟨crowded.host, .default, [], []⟩ (crowdedKept.map .push) = some (fresh, reports) ∧
      fresh.preview none = .ok ⟨none, true, false, none, some crowdedKept⟩ ∧
      ((∃ text, crowded.process (some (.shift 1)) = .ok ⟨none, true, true, some text, none⟩ ∧
          fresh.process none = .ok ⟨none, true, false, some text, none⟩) ∨
        ∃ span, crowded.process (some (.shift 1)) =
            .error (.refused (.badSpan span crowded.host.source.size)) ∧
          fresh.process none = .error (.refused (.badSpan span crowded.host.source.size))) := by
  have hpreview : crowded.preview (some (.shift 1)) =
      .ok ⟨none, true, true, none, some crowdedKept⟩ := rfl
  have hne : crowdedKept ≠ [] := List.cons_ne_nil _ _
  exact ⟨hpreview, process_of_preview hpreview rfl hne .default rfl⟩

end Session

end Emend
