import Emend.Session

/-!
# Build programs

A session runs its steps on a stack of open groups.  The meaning of a step needs no
stack.  A step is evaluated under some settings, and it comes to a *contribution*:
the settings that hold after it, the actions it adds, and why it failed, if it did.
A request, a wrap, a given action and a group add one action each.  Whatever fails
adds none, while settings that were changed on the way stay changed.

The session does what the meaning says (`step_eq_eval`): it adds the contribution to
the innermost open group, or to the actions if no group is open.  The proof follows
the steps and the bodies of groups.  A body starts from an empty frame on top of the
stack, by induction it leaves its contribution there, and closing the group takes the
frame off again, whether the body failed or not.

So outside groups the stack is always empty, and while a group is being filled the
actions are those from before it was opened.  The states that a step passes through
in its groups are those of `Inside`.
-/

namespace Emend

/-! ## The meaning of steps -/

/-- What a step comes to. -/
structure Contribution where
  /-- The settings after the step. -/
  settings : Settings
  /-- The actions it adds. -/
  actions : List Action
  /-- Why it failed, if it did. -/
  failure : Option Error

namespace Contribution

/-- A computed action is added, and a refusal is a failure.  A breakdown comes to
nothing at all. -/
def ofResult (settings : Settings) : Except Failure Action → Option Contribution
  | .ok a => some ⟨settings, [a], none⟩
  | .error (.refused cause) => some ⟨settings, [], some cause⟩
  | .error .crashed => none

/-- The contribution of a group with this body. -/
def asGroup (c : Contribution) : Contribution :=
  match c.failure with
  | none => ⟨c.settings, [.group c.actions], none⟩
  | some cause => ⟨c.settings, [], some cause⟩

/-- One contribution after another. -/
def followedBy (c d : Contribution) : Contribution :=
  ⟨d.settings, c.actions ++ d.actions, d.failure⟩

/-- Nothing is added where something failed. -/
def Atomic (c : Contribution) : Prop := c.failure = none ∨ c.actions = []

theorem ofResult_atomic {settings : Settings} {x : Except Failure Action} {c : Contribution}
    (h : ofResult settings x = some c) : c.Atomic := by
  cases x with
  | ok a =>
      obtain rfl := Option.some.inj h
      exact Or.inl rfl
  | error f =>
      cases f with
      | crashed => cases h
      | refused cause =>
          obtain rfl := Option.some.inj h
          exact Or.inr rfl

theorem asGroup_atomic (c : Contribution) : c.asGroup.Atomic := by
  obtain ⟨settings, actions, failure⟩ := c
  cases failure with
  | none => exact Or.inl rfl
  | some cause => exact Or.inr rfl

theorem failure_asGroup (c : Contribution) : c.asGroup.failure = c.failure := by
  obtain ⟨settings, actions, failure⟩ := c
  cases failure with
  | none => rfl
  | some cause => rfl

end Contribution

namespace Step

variable {ν : Type}

/-- The settings that are asked for, if they suit a host. -/
def chosen (h : Host ν) (asked : Except Error Settings) : Except Error Settings := do
  let settings ← asked
  match settings.mismatch? h.kind with
  | some e => .error e
  | none => .ok settings

mutual

/-- The meaning of a step. -/
def eval (h : Host ν) : Settings → Step ν → Option Contribution
  | settings, .build r => Contribution.ofResult settings ((r.edit h settings.tabWidth).map .edit)
  | settings, .wrap node before after ownLines =>
      Contribution.ofResult settings
        (((Session.wrapRequests h node before after ownLines).mapM
          (Request.edit h settings.tabWidth)).map fun edits => .group (edits.map .edit))
  | settings, .push a => some ⟨settings, [a], none⟩
  | settings, .configure asked =>
      match chosen h asked with
      | .ok settings => some ⟨settings, [], none⟩
      | .error cause => some ⟨settings, [], some cause⟩
  | settings, .inspect => some ⟨settings, [], none⟩
  | settings, .group body => (evalBody h settings body).map Contribution.asGroup
  | settings, .attempt t => eval h settings t

/-- The meaning of the body of a group, up to the first step that fails and is not
only attempted. -/
def evalBody (h : Host ν) : Settings → List (Step ν) → Option Contribution
  | settings, [] => some ⟨settings, [], none⟩
  | settings, t :: ts => do
      let c ← eval h settings t
      match c.failure, t.isAttempt with
      | some _, false => some c
      | _, _ => (evalBody h c.settings ts).map c.followedBy

end

/-- The meaning of a program: the settings after it, the actions it adds, and why each
of its steps failed, if it did. -/
def evalAll (h : Host ν) : Settings → List (Step ν) →
    Option (Settings × List Action × List (Option Error))
  | settings, [] => some (settings, [], [])
  | settings, t :: ts => do
      let c ← eval h settings t
      let (settings, actions, failures) ← evalAll h c.settings ts
      some (settings, c.actions ++ actions, c.failure :: failures)

/-- A step that fails adds no action. -/
theorem eval_atomic {h : Host ν} : ∀ {settings : Settings} {t : Step ν} {c : Contribution},
    t.eval h settings = some c → c.Atomic
  | _, .build r, c, hc => by rw [eval] at hc; exact Contribution.ofResult_atomic hc
  | _, .wrap .., c, hc => by rw [eval] at hc; exact Contribution.ofResult_atomic hc
  | _, .push a, c, hc => by
      rw [eval] at hc
      obtain rfl := Option.some.inj hc
      exact Or.inl rfl
  | _, .configure asked, c, hc => by
      rw [eval] at hc
      cases hs : chosen h asked with
      | ok settings =>
          rw [hs] at hc
          obtain rfl := Option.some.inj hc
          exact Or.inl rfl
      | error cause =>
          rw [hs] at hc
          obtain rfl := Option.some.inj hc
          exact Or.inr rfl
  | _, .inspect, c, hc => by
      rw [eval] at hc
      obtain rfl := Option.some.inj hc
      exact Or.inl rfl
  | _, .group body, c, hc => by
      rw [eval] at hc
      obtain ⟨d, -, rfl⟩ := Option.map_eq_some_iff.mp hc
      exact Contribution.asGroup_atomic d
  | _, .attempt t, c, hc => by
      rw [eval] at hc
      exact eval_atomic hc

end Step

namespace Session

variable {ν : Type}

/-! ## Adding to the innermost group -/

/-- Register actions in the innermost open group, or outside groups. -/
def extend (s : Session ν) (as : List Action) : Session ν :=
  match s.frames with
  | [] => { s with actions := s.actions ++ as }
  | frame :: frames => { s with frames := (frame ++ as) :: frames }

/-- Take over a contribution. -/
def absorb (s : Session ν) (c : Contribution) : Session ν :=
  { s with settings := c.settings }.extend c.actions

section

variable (s : Session ν)

theorem extend_nil : s.extend [] = s := by
  obtain ⟨h, settings, actions, frames⟩ := s
  cases frames with
  | nil => simp [extend]
  | cons frame frames => simp [extend]

theorem extend_extend (as bs : List Action) : (s.extend as).extend bs = s.extend (as ++ bs) := by
  obtain ⟨h, settings, actions, frames⟩ := s
  cases frames with
  | nil => simp [extend]
  | cons frame frames => simp [extend]

theorem push_eq_extend (a : Action) : s.push a = s.extend [a] := by
  obtain ⟨h, settings, actions, frames⟩ := s
  cases frames with
  | nil => rfl
  | cons frame frames => rfl

theorem host_extend (as : List Action) : (s.extend as).host = s.host := by
  obtain ⟨h, settings, actions, frames⟩ := s
  cases frames with
  | nil => rfl
  | cons frame frames => rfl

theorem settings_extend (as : List Action) : (s.extend as).settings = s.settings := by
  obtain ⟨h, settings, actions, frames⟩ := s
  cases frames with
  | nil => rfl
  | cons frame frames => rfl

theorem host_absorb (c : Contribution) : (s.absorb c).host = s.host :=
  host_extend _ _

theorem settings_absorb (c : Contribution) : (s.absorb c).settings = c.settings :=
  settings_extend _ _

theorem absorb_followedBy (c d : Contribution) :
    s.absorb (c.followedBy d) = (s.absorb c).absorb d := by
  obtain ⟨h, settings, actions, frames⟩ := s
  cases frames with
  | nil => simp [absorb, extend, Contribution.followedBy]
  | cons frame frames => simp [absorb, extend, Contribution.followedBy]

/-- Closing the group that was opened takes its frame off the stack and registers it,
unless something failed. -/
theorem closeGroup_absorb (c : Contribution) :
    (s.openGroup.absorb c).closeGroup c.failure = s.absorb c.asGroup := by
  obtain ⟨settings, added, failure⟩ := c
  cases failure with
  | none => exact push_eq_extend _ _
  | some cause => exact (extend_nil _).symm

end

/-! ## Requests -/

theorem register_of_ok {s : Session ν} {r : Request ν} {e : Edit}
    (h : r.edit s.host s.settings.tabWidth = .ok e) :
    s.register r = .ok (s.extend [.edit e]) := by
  rw [register, h, ← push_eq_extend]
  rfl

theorem register_of_error {s : Session ν} {r : Request ν} {f : Failure}
    (h : r.edit s.host s.settings.tabWidth = .error f) : s.register r = .error f := by
  rw [register, h]
  rfl

/-- Requests are registered in order up to the first that fails, and the failure is
the one that computing the edits gives. -/
theorem registerAll_eq (rs : List (Request ν)) :
    ∀ s : Session ν, ∃ as, registerAll s rs =
      match rs.mapM (Request.edit s.host s.settings.tabWidth) with
      | .ok edits => (s.extend (edits.map .edit), none)
      | .error f => (s.extend as, some f) := by
  induction rs with
  | nil => exact fun s => ⟨[], by rw [List.mapM_nil]; exact congrArg (·, none) (extend_nil s).symm⟩
  | cons r rs ih =>
      intro s
      rw [List.mapM_cons, registerAll]
      cases hr : r.edit s.host s.settings.tabWidth with
      | error f =>
          rw [register_of_error hr]
          exact ⟨[], congrArg (·, some f) (extend_nil s).symm⟩
      | ok e =>
          rw [register_of_ok hr]
          obtain ⟨as, has⟩ := ih (s.extend [.edit e])
          rw [host_extend, settings_extend] at has
          refine ⟨.edit e :: as, has.trans ?_⟩
          cases rs.mapM (Request.edit s.host s.settings.tabWidth) with
          | error f => exact congrArg (·, some f) (extend_extend s _ _)
          | ok edits => exact congrArg (·, none) (extend_extend s _ _)

theorem exists_extend_of_registerAll {s s' : Session ν} {rs : List (Request ν)}
    {failure : Option Failure} (h : s.registerAll rs = (s', failure)) : ∃ as, s' = s.extend as := by
  obtain ⟨as, has⟩ := registerAll_eq rs s
  rw [h] at has
  split at has
  next edits _ => exact ⟨edits.map .edit, (Prod.mk.inj has).1⟩
  next => exact ⟨as, (Prod.mk.inj has).1⟩

/-! ## Steps -/

/-- The state after a step and why the step failed, if it did. -/
def summary (x : Session ν × Report) : Session ν × Option Error := (x.1, x.2.failure?)

/-- The state after a contribution and why it failed, if it did. -/
def landing (s : Session ν) (c : Contribution) : Session ν × Option Error :=
  (s.absorb c, c.failure)

theorem landing_unchanged (s : Session ν) (failure : Option Error) :
    s.landing ⟨s.settings, [], failure⟩ = (s, failure) :=
  congrArg (·, failure) (extend_nil s)

theorem build_eq_eval (s : Session ν) (r : Request ν) :
    (s.report (s.register r)).map summary =
      (Contribution.ofResult s.settings
        ((r.edit s.host s.settings.tabWidth).map .edit)).map s.landing := by
  cases hr : r.edit s.host s.settings.tabWidth with
  | ok e => rw [register_of_ok hr]; rfl
  | error f =>
      rw [register_of_error hr]
      cases f with
      | crashed => rfl
      | refused cause => exact congrArg some (landing_unchanged s (some cause)).symm

theorem registerGroup_eq_eval (s : Session ν) (rs : List (Request ν)) :
    (s.registerGroup rs).map summary =
      (Contribution.ofResult s.settings
        ((rs.mapM (Request.edit s.host s.settings.tabWidth)).map fun edits =>
          .group (edits.map .edit))).map s.landing := by
  obtain ⟨as, has⟩ := registerAll_eq rs s.openGroup
  have hclose : ∀ added failure,
      (s.openGroup.extend added).closeGroup failure =
        s.absorb (Contribution.asGroup ⟨s.settings, added, failure⟩) :=
    fun added failure => closeGroup_absorb s ⟨s.settings, added, failure⟩
  rw [registerGroup, has, openGroup]
  cases rs.mapM (Request.edit s.host s.settings.tabWidth) with
  | ok edits => exact congrArg (fun s' => some (s', none)) (hclose _ none)
  | error f =>
      cases f with
      | crashed => rfl
      | refused cause => exact congrArg (fun s' => some (s', some cause)) (hclose as (some cause))

theorem configure_eq_eval (s : Session ν) (asked : Except Error Settings) :
    (s.report (Failure.lift (asked.bind s.configure))).map summary =
      (Step.eval s.host s.settings (.configure asked)).map s.landing := by
  rw [Step.eval, Step.chosen]
  cases asked with
  | error cause => exact congrArg some (landing_unchanged s (some cause)).symm
  | ok settings =>
      simp only [bind, Except.bind, configure]
      cases settings.mismatch? s.host.kind with
      | some cause => exact congrArg some (landing_unchanged s (some cause)).symm
      | none => exact congrArg some (landing_unchanged { s with settings := settings } none).symm

theorem map_eq_map_cases {α β γ : Type} {f : α → γ} {g : β → γ} {x : Option α} {y : Option β}
    (h : x.map f = y.map g) :
    (x = none ∧ y = none) ∨ ∃ a b, x = some a ∧ y = some b ∧ f a = g b := by
  cases x with
  | none => exact Or.inl ⟨rfl, Option.map_eq_none_iff.mp h.symm⟩
  | some a =>
      obtain ⟨b, hb, hfg⟩ := Option.map_eq_some_iff.mp h.symm
      exact Or.inr ⟨a, b, rfl, hb, hfg.symm⟩

/-- The rest of a body adds to what its first step has contributed. -/
theorem map_followedBy {s : Session ν} {c : Contribution} (r : Report)
    {rest : Option (Session ν × Option Error × List Report)} {d : Option Contribution}
    (h : rest.map (fun x => (x.1, x.2.1)) = d.map (s.absorb c).landing) :
    (rest.bind fun x => some (x.1, x.2.1, r :: x.2.2)).map (fun x => (x.1, x.2.1)) =
      (d.map c.followedBy).map s.landing := by
  have hland : s.landing ∘ c.followedBy = (s.absorb c).landing := by
    funext d
    rw [Function.comp, landing, absorb_followedBy]
    rfl
  rw [Option.map_map, hland, ← h]
  cases rest with
  | none => rfl
  | some x => rfl

mutual

/-- A step changes the session by its contribution and fails as its meaning does. -/
theorem step_eq_eval : ∀ (s : Session ν) (t : Step ν),
    (s.step t).map summary = (t.eval s.host s.settings).map s.landing
  | s, .build r => by rw [step, Step.eval]; exact build_eq_eval s r
  | s, .wrap node before after ownLines => by
      rw [step, Step.eval]
      exact registerGroup_eq_eval s _
  | s, .push a => by
      rw [step, Step.eval, push_eq_extend]
      rfl
  | s, .configure asked => by rw [step]; exact configure_eq_eval s asked
  | s, .inspect => by
      rw [step, Step.eval]
      exact congrArg some (landing_unchanged s none).symm
  | s, .group body => by
      have hbody : (s.openGroup.runBody body).map (fun x => (x.1, x.2.1)) =
          (Step.evalBody s.host s.settings body).map s.openGroup.landing :=
        runBody_eq_eval s.openGroup body
      rw [step, Step.eval]
      rcases map_eq_map_cases hbody with ⟨hrun, hc⟩ | ⟨⟨s', failure, inner⟩, c, hrun, hc, hland⟩
      · rw [hrun, hc]
        rfl
      · obtain ⟨rfl, rfl⟩ := Prod.mk.inj hland
        rw [hrun, hc, Option.map_some, Option.map_some, landing, Contribution.failure_asGroup,
          ← closeGroup_absorb]
        rfl
  | s, .attempt t => by
      rw [step, Step.eval]
      exact step_eq_eval s t

/-- The body of a group leaves its contribution in the innermost open group. -/
theorem runBody_eq_eval : ∀ (s : Session ν) (ts : List (Step ν)),
    (s.runBody ts).map (fun x => (x.1, x.2.1)) =
      (Step.evalBody s.host s.settings ts).map s.landing
  | s, [] => by
      rw [runBody, Step.evalBody]
      exact congrArg some (landing_unchanged s none).symm
  | s, t :: ts => by
      rw [runBody, Step.evalBody]
      rcases map_eq_map_cases (step_eq_eval s t) with ⟨hrun, hc⟩ | ⟨⟨s', r⟩, c, hrun, hc, hland⟩
      · rw [hrun, hc]
        rfl
      · obtain ⟨rfl, hfailure⟩ := Prod.mk.inj hland
        have hrest := runBody_eq_eval (s.absorb c) ts
        rw [host_absorb, settings_absorb] at hrest
        rw [hrun, hc]
        simp only [Option.bind_eq_bind, Option.bind_some, hfailure]
        -- The body goes on unless the step failed and was not only attempted.
        cases hf : c.failure with
        | none => exact map_followedBy r hrest
        | some cause =>
            cases t.isAttempt with
            | true => exact map_followedBy r hrest
            | false => exact congrArg (fun f => some (s.absorb c, f)) hf.symm

end

section

variable {s s' : Session ν}

/-- The state after a step comes from its contribution. -/
theorem exists_eval_of_step {t : Step ν} {r : Report} (h : s.step t = some (s', r)) :
    ∃ c, t.eval s.host s.settings = some c ∧ s' = s.absorb c ∧ r.failure? = c.failure := by
  have hstep := step_eq_eval s t
  rw [h] at hstep
  obtain ⟨c, hc, hland⟩ := Option.map_eq_some_iff.mp hstep.symm
  obtain ⟨hs, hf⟩ := Prod.mk.inj hland
  exact ⟨c, hc, hs.symm, hf.symm⟩

theorem exists_eval_of_runBody {ts : List (Step ν)} {failure : Option Error}
    {inner : List Report} (h : s.runBody ts = some (s', failure, inner)) :
    ∃ c, s' = s.absorb c := by
  have hbody := runBody_eq_eval s ts
  rw [h] at hbody
  obtain ⟨c, -, hland⟩ := Option.map_eq_some_iff.mp hbody.symm
  exact ⟨c, (Prod.mk.inj hland).1.symm⟩

/-- A step that fails changes at most the settings. -/
theorem step_of_failure {t : Step ν} {r : Report} {cause : Error}
    (h : s.step t = some (s', r)) (hf : r.failure? = some cause) :
    ∃ settings, s' = { s with settings := settings } := by
  obtain ⟨c, hc, rfl, hfailure⟩ := exists_eval_of_step h
  refine ⟨c.settings, ?_⟩
  rcases Step.eval_atomic hc with hnone | hnil
  · rw [hf, hnone] at hfailure
    cases hfailure
  · rw [absorb, hnil, extend_nil]

end

/-! ## Programs -/

/-- Why each of the reported steps failed, if it did. -/
def failures (reports : List (Report × Option Action)) : List (Option Error) :=
  reports.map fun r => r.1.failure?

/-- A program changes a session by what its steps contribute. -/
theorem run_eq_eval (program : List (Step ν)) : ∀ s : Session ν,
    (s.run program).map (fun x => (x.1, failures x.2)) =
      (Step.evalAll s.host s.settings program).map fun x =>
        (s.absorb ⟨x.1, x.2.1, none⟩, x.2.2) := by
  induction program with
  | nil =>
      intro s
      rw [run, Step.evalAll]
      exact congrArg (fun s' => some (s', [])) (extend_nil s).symm
  | cons t ts ih =>
      intro s
      rw [run, Step.evalAll]
      rcases map_eq_map_cases (step_eq_eval s t) with ⟨hrun, hc⟩ | ⟨⟨s', r⟩, c, hrun, hc, hland⟩
      · rw [hrun, hc]
        rfl
      · obtain ⟨rfl, hfailure⟩ := Prod.mk.inj hland
        have hrest := ih (s.absorb c)
        rw [host_absorb, settings_absorb] at hrest
        rw [hrun, hc]
        rcases map_eq_map_cases hrest with ⟨hrun', hd⟩ | ⟨⟨s'', reports⟩, d, hrun', hd, hland'⟩
        · simp only [Option.bind_eq_bind, Option.bind_some, hrun', hd]
          rfl
        · obtain ⟨rfl, hfailures⟩ := Prod.mk.inj hland'
          simp only [Option.bind_eq_bind, Option.bind_some, Option.map_some, hrun', hd]
          rw [← hfailures, ← absorb_followedBy]
          exact congrArg (fun f => some (_, f :: failures reports)) hfailure

/-! ## Inside groups -/

/-- A step started in one state passes through another while a group that it has
opened is being filled. -/
inductive Inside : Session ν → Step ν → Session ν → Prop where
  /-- Some steps of the body have run, or the body was given up after them. -/
  | body {s s' : Session ν} {done rest : List (Step ν)} {failure : Option Error}
      {inner : List Report} (h : s.openGroup.runBody done = some (s', failure, inner)) :
      Inside s (.group (done ++ rest)) s'
  /-- The next step of the body is inside a group of its own. -/
  | deeper {s s' s'' : Session ν} {done rest : List (Step ν)} {t : Step ν}
      {inner : List Report} (h : s.openGroup.runBody done = some (s', none, inner))
      (ht : Inside s' t s'') : Inside s (.group (done ++ t :: rest)) s''
  /-- Some requests of a wrap have been registered. -/
  | wrap {s s' : Session ν} {node : ν} {before after : Text} {ownLines : Bool}
      {done rest : List (Request ν)} {failure : Option Failure}
      (hrs : wrapRequests s.host node before after ownLines = done ++ rest)
      (h : s.openGroup.registerAll done = (s', failure)) :
      Inside s (.wrap node before after ownLines) s'
  /-- The same holds of a step that is only attempted. -/
  | attempt {s s' : Session ν} {t : Step ν} (ht : Inside s t s') : Inside s (.attempt t) s'

/-- While a group is being filled, the actions are those from before it was opened,
and so are the frames below its own. -/
theorem Inside.unchanged {s s' : Session ν} {t : Step ν} (h : Inside s t s') :
    s'.actions = s.actions ∧ ∃ opened, opened ≠ [] ∧ s'.frames = opened ++ s.frames := by
  induction h with
  | body h =>
      obtain ⟨c, rfl⟩ := exists_eval_of_runBody h
      exact ⟨rfl, [c.actions], by simp, rfl⟩
  | deeper h _ ih =>
      obtain ⟨c, rfl⟩ := exists_eval_of_runBody h
      obtain ⟨hactions, opened, hne, hframes⟩ := ih
      refine ⟨hactions, opened ++ [c.actions], by simp, ?_⟩
      rw [hframes, List.append_assoc]
      rfl
  | wrap _ h =>
      obtain ⟨as, rfl⟩ := exists_extend_of_registerAll h
      exact ⟨rfl, [as], by simp, rfl⟩
  | attempt _ ih => exact ih

/-- A session runs a program as the recursive meaning of its steps says: the actions
and the settings are those of the meaning, and the same steps fail for the same causes.
After every step outside groups no group is open, and while a step fills groups, the
actions do not change.  A step that fails, in a group or not, changes at most the
settings. -/
theorem run_spec (h : Host ν) (settings : Settings) (as : List Action)
    (program : List (Step ν)) :
    (run ⟨h, settings, as, []⟩ program).map (fun (s, reports) => (s, failures reports)) =
      (Step.evalAll h settings program).map (fun (settings', added, causes) =>
        (⟨h, settings', as ++ added, []⟩, causes)) ∧
    (∀ first rest s reports, program = first ++ rest →
      run ⟨h, settings, as, []⟩ first = some (s, reports) →
      s.frames = [] ∧
        ∀ t rest' s', rest = t :: rest' → Inside s t s' → s'.actions = s.actions) ∧
    (∀ (s s' : Session ν) t r cause, s.step t = some (s', r) → r.failure? = some cause →
      ∃ settings', s' = { s with settings := settings' }) := by
  refine ⟨run_eq_eval program _, ?_, fun s s' t r cause => step_of_failure⟩
  intro first rest s reports _ hrun
  have hfirst := run_eq_eval first ⟨h, settings, as, []⟩
  rw [hrun] at hfirst
  obtain ⟨x, -, hland⟩ := Option.map_eq_some_iff.mp hfirst.symm
  obtain ⟨rfl, -⟩ := Prod.mk.inj hland
  exact ⟨rfl, fun t rest' s' _ hinside => hinside.unchanged.1⟩

end Session

end Emend
