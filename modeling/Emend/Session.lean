import Emend.Outcome
import Emend.Request
import Emend.Settings.Basic

/-!
# Sessions

A session collects actions at one host.  It runs *steps*: a step registers an
action, opens and fills a group, changes the settings, or shows the state.

While groups are open, the session holds a stack of them, and what is registered
goes to the group on top.  A step in a group that fails ends the group, unless it
is only attempted, and a group that fails leaves no action behind.  Outside
groups a step that fails does not keep the next one from running.

Every step that ran gives a report.  A step that breaks down gives none, and
neither does the whole run: the functions here have no result then.
-/

namespace Emend

/-- A step of a session. -/
inductive Step (ν : Type) where
  /-- Register the edit of a request. -/
  | build (r : Request ν)
  /-- Put code before and after a node, on lines of its own or not. -/
  | wrap (node : ν) (before after : Text) (ownLines : Bool)
  /-- Register an action that is given. -/
  | push (a : Action)
  /-- Change the settings to those that are asked for, unless there is an error in them. -/
  | configure (asked : Except Error Settings)
  /-- Show the state. -/
  | inspect
  /-- Register what the steps register as one group. -/
  | group (body : List (Step ν))
  /-- Run a step whose failure does not end the group it is in. -/
  | attempt (s : Step ν)

/-- Whether a step may fail in a group without ending it. -/
def Step.isAttempt {ν : Type} : Step ν → Bool
  | .attempt _ => true
  | _ => false

/-- What came of a step. -/
inductive Report where
  /-- It was done. -/
  | done
  /-- It failed. -/
  | failed (cause : Error)
  /-- A group, which failed or did not, and what came of its steps that ran. -/
  | group (failure : Option Error) (inner : List Report)
  /-- The state that was shown. -/
  | view (settings : Settings) (actions : List Action)

/-- Why a step failed, if it did. -/
def Report.failure? : Report → Option Error
  | .done => none
  | .failed cause => some cause
  | .group failure _ => failure
  | .view _ _ => none

/-- The state of collecting actions at a host. -/
structure Session (ν : Type) where
  /-- The host. -/
  host : Host ν
  /-- The settings. -/
  settings : Settings
  /-- The actions registered outside groups. -/
  actions : List Action
  /-- The actions of the open groups, innermost first. -/
  frames : List (List Action)

namespace Session

variable {ν : Type}

/-- A session that has collected nothing. -/
def start (h : Host ν) : Session ν := ⟨h, .default, [], []⟩

/-! ## Single operations -/

/-- Register an action in the innermost open group, or outside groups. -/
def push (s : Session ν) (a : Action) : Session ν :=
  match s.frames with
  | [] => { s with actions := s.actions ++ [a] }
  | frame :: frames => { s with frames := (frame ++ [a]) :: frames }

/-- Register the edit of a request. -/
def register (s : Session ν) (r : Request ν) : Except Failure (Session ν) := do
  let e ← r.edit s.host s.settings.tabWidth
  .ok (s.push (.edit e))

/-- Change the settings, which have to suit the host. -/
def configure (s : Session ν) (settings : Settings) : Except Error (Session ν) :=
  match settings.mismatch? s.host.kind with
  | some e => .error e
  | none => .ok { s with settings := settings }

/-- A session that has collected nothing, with these settings. -/
def startWith (h : Host ν) (settings : Settings) : Except Error (Session ν) :=
  (start h).configure settings

/-- Open a group. -/
def openGroup (s : Session ν) : Session ν :=
  { s with frames := [] :: s.frames }

/-- Close the innermost group, and register it if nothing failed in it. -/
def closeGroup (s : Session ν) (failure : Option Error) : Session ν :=
  match s.frames, failure with
  | [], _ => s
  | frame :: frames, none => { s with frames := frames }.push (.group frame)
  | _ :: frames, some _ => { s with frames := frames }

/-! ## Wrapping -/

/-- The requests that put code around a node.  On lines of its own the code stands at
the column of the node, and the node moves in by one level. -/
def wrapRequests (h : Host ν) (node : ν) (before after : Text) (ownLines : Bool) :
    List (Request ν) :=
  if ownLines then
    let pad := Request.margin h node 0
    [.insert node (before ++ '\n' :: pad) .beginning none false,
      .insert node ('\n' :: pad ++ after) .ending none false, .indent node 1]
  else
    [.insert node before .beginning none false, .insert node after .ending none false]

/-- Register the edits of requests, up to the first that fails. -/
def registerAll : Session ν → List (Request ν) → Session ν × Option Failure
  | s, [] => (s, none)
  | s, r :: rs =>
      match s.register r with
      | .ok s => registerAll s rs
      | .error f => (s, some f)

/-! ## Steps -/

/-- The report on an operation that changes the session unless it fails. -/
def report (s : Session ν) : Except Failure (Session ν) → Option (Session ν × Report)
  | .ok s' => some (s', .done)
  | .error (.refused cause) => some (s, .failed cause)
  | .error .crashed => none

/-- Register requests as one group. -/
def registerGroup (s : Session ν) (rs : List (Request ν)) : Option (Session ν × Report) :=
  match registerAll s.openGroup rs with
  | (s', none) => some (s'.closeGroup none, .done)
  | (s', some (.refused cause)) => some (s'.closeGroup (some cause), .failed cause)
  | (_, some .crashed) => none

mutual

/-- Run a step. -/
def step : Session ν → Step ν → Option (Session ν × Report)
  | s, .build r => s.report (s.register r)
  | s, .wrap node before after ownLines =>
      s.registerGroup (wrapRequests s.host node before after ownLines)
  | s, .push a => some (s.push a, .done)
  | s, .configure asked => s.report (Failure.lift (asked.bind s.configure))
  | s, .inspect => some (s, .view s.settings s.actions)
  | s, .group body => do
      let (s', failure, inner) ← runBody s.openGroup body
      some (s'.closeGroup failure, .group failure inner)
  | s, .attempt t => step s t

/-- Run the steps of a group, up to the first that fails and is not only attempted.
The result says why the group failed, if it did. -/
def runBody : Session ν → List (Step ν) → Option (Session ν × Option Error × List Report)
  | s, [] => some (s, none, [])
  | s, t :: ts => do
      let (s', r) ← step s t
      match r.failure?, t.isAttempt with
      | some cause, false => some (s', some cause, [r])
      | _, _ =>
          let (s'', failure, rs) ← runBody s' ts
          some (s'', failure, r :: rs)

end

/-- The action that was registered last, if one was registered outside groups since
an earlier state. -/
def newest? (before after : Session ν) : Option Action :=
  if before.actions.length < after.actions.length then after.actions.getLast? else none

/-- Run steps one after the other.  Each report comes with the action that its step
registered outside groups. -/
def run : Session ν → List (Step ν) → Option (Session ν × List (Report × Option Action))
  | s, [] => some (s, [])
  | s, t :: ts => do
      let (s', r) ← step s t
      let (s'', rs) ← run s' ts
      some (s'', (r, newest? s s') :: rs)

/-! ## Results -/

/-- The source with the accepted actions applied. -/
def process (s : Session ν) (hook : Option Hook) : Except Failure Outcome :=
  Outcome.process s.host.source s.settings.policy hook s.actions

/-- The accepted actions. -/
def preview (s : Session ν) (hook : Option Hook) : Except Error Outcome :=
  Outcome.preview s.settings.policy hook s.actions

end Session

end Emend
