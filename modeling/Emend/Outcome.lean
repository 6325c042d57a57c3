import Emend.Action.Hook
import Emend.Clash
import Emend.Json
import Emend.Patch

/-!
# Outcomes

Registered actions are resolved in four steps.  They are pruned, a hook may move
their edits, they are sorted, and those that conflict are told from the rest.
If pruning leaves nothing, there is nothing to do and nothing is affected.  If
actions conflict and the policy does not bear it, the whole is refused.

Otherwise `process` applies the accepted actions to the source, and `preview`
lists them.

An outcome can be written in JSON.  It may name the file that the source is from, and
the one thing that can go wrong with the writing is a name that is no text.
-/

namespace Emend

/-- The result of processing actions. -/
structure Outcome where
  /-- The name of the file the source is from, if that is known.  It need not be a text. -/
  file : Option ByteArray
  /-- Whether there was anything to do. -/
  affected : Bool
  /-- Whether actions were dropped. -/
  conflicted : Bool
  /-- The new source, if it was asked for. -/
  source : Option Text
  /-- The accepted actions, if they were asked for. -/
  actions : Option (List Action)

/-- Sorted actions, told apart. -/
structure Resolution where
  /-- Those that are applied. -/
  accepted : List Action
  /-- Those that conflict. -/
  rejected : List Action
deriving Repr

namespace Resolution

/-- Move actions by a hook, if there is one, and sort them. -/
def arrange (hook : Option Hook) (as : List Action) : List Action :=
  match hook with
  | none => Action.sort as
  | some hook => Action.sort (Action.applyHook hook as)

/-- Resolve actions.  Nothing is left if there is no edit among them. -/
def resolve (policy : Policy) (hook : Option Hook) (as : List Action) :
    Except Error (Option Resolution) :=
  match Action.prune as with
  | [] => .ok none
  | pruned =>
      let sorted := arrange hook pruned
      let rejected := Clash.rejected policy sorted
      if !rejected.isEmpty && policy.refuseAll then .error (.conflict rejected.length)
      else .ok (some ⟨Clash.accepted policy sorted, rejected⟩)

end Resolution

namespace Outcome

/-- The outcome of doing nothing. -/
def unaffected : Outcome := ⟨none, false, false, none, none⟩

/-- The outcome with the name of the file the source is from. -/
def withFile (o : Outcome) (file : ByteArray) : Outcome :=
  { o with file := some file }

/-- Resolve actions and apply those that are accepted. -/
def process (source : Text) (policy : Policy) (hook : Option Hook) (as : List Action) :
    Except Failure Outcome := do
  match ← Failure.lift (Resolution.resolve policy hook as) with
  | none => .ok unaffected
  | some r => do
      let text ← Patch.apply source (Action.leaves r.accepted)
      .ok { unaffected with
        affected := true, conflicted := !r.rejected.isEmpty, source := some text }

/-- Resolve actions and list those that are accepted. -/
def preview (policy : Policy) (hook : Option Hook) (as : List Action) : Except Error Outcome := do
  match ← Resolution.resolve policy hook as with
  | none => .ok { unaffected with actions := some [] }
  | some r =>
      .ok { unaffected with
        affected := true, conflicted := !r.rejected.isEmpty, actions := some r.accepted }

end Outcome

/-! ## Outcomes in JSON -/

/-- An edit in JSON. -/
def Edit.toJson (e : Edit) : Json :=
  .obj [("kind".toList, .str e.kind.name), ("start".toList, .num e.span.start),
    ("end".toList, .num e.span.stop), ("new_code".toList, .ofOption .str e.code)]

mutual

/-- An action in JSON. -/
def Action.toJson : Action → Json
  | .edit e => e.toJson
  | .group members =>
      .obj [("kind".toList, .str EditKind.group.name),
        ("start".toList, .num (Action.group members).span.start),
        ("end".toList, .num (Action.group members).span.stop),
        ("actions".toList, .arr (Action.toJsons members))]

/-- Actions in JSON. -/
def Action.toJsons : List Action → List Json
  | [] => []
  | a :: as => a.toJson :: Action.toJsons as

end

/-- An outcome in JSON, if the name of its file is a text.  What was not asked for is left
out. -/
def Outcome.toJson? (o : Outcome) : Option Json := do
  let file ← o.file.mapM Text.ofUTF8?
  some (.obj ([("file_path".toList, .ofOption .str file), ("affected".toList, .bool o.affected),
      ("conflicted".toList, .bool o.conflicted)] ++
    (match o.source with
      | some text => [("new_source".toList, .str text)]
      | none => []) ++
    match o.actions with
    | some as => [("actions".toList, .arr (Action.toJsons as))]
    | none => []))

/-- The JSON text of an outcome, if it has one. -/
def Outcome.print? (o : Outcome) : Option Text :=
  o.toJson?.map Json.print

end Emend
