import Emend.Settings.Basic

/-!
# Settings documents

A settings document may name a kind of host, policy flags and a tab width.
`Document.issues` lists all that is wrong with it: an unknown host, every unknown
flag in order, two flags that oppose each other, a width out of bounds.  A
document without issues stands for settings.  One that names flags, but neither
what to do with conflicts nor to refuse them, drops them.
-/

namespace Emend

namespace Settings

/-- What a settings document says. -/
structure Document where
  /-- The name of a kind of host. -/
  host : Option Text
  /-- The names of policy flags. -/
  flags : Option (List Text)
  /-- The tab width. -/
  tabWidth : Option Int
deriving DecidableEq, Repr

namespace Document

/-- The document that says nothing. -/
def empty : Document := ⟨none, none, none⟩

/-- The flags that names stand for, together. -/
def policyOf (names : List Text) : Policy :=
  names.foldl (fun policy name => policy.union ((Policy.ofName? name).getD .empty)) .empty

/-- Whether a tab width is in bounds. -/
def widthFits (width : Int) : Bool :=
  1 ≤ width && width ≤ maxTabWidth

/-- What is wrong with the host. -/
def hostIssues : Option Text → List Issue
  | none => []
  | some name => if (HostKind.ofName? name).isSome then [] else [.unknownHost name]

/-- What is wrong with the flags. -/
def flagIssues : Option (List Text) → List Issue
  | none => []
  | some names =>
      let unknown := names.filter fun name => (Policy.ofName? name).isNone
      let policy := policyOf names
      unknown.map .unknownFlag ++
        (if policy.keepRunning && policy.refuseAll then [.opposedFlags] else [])

/-- What is wrong with the tab width. -/
def widthIssues : Option Int → List Issue
  | none => []
  | some width => if widthFits width then [] else [.tabWidth width]

/-- All that is wrong with a document. -/
def issues (d : Document) : List Issue :=
  hostIssues d.host ++ flagIssues d.flags ++ widthIssues d.tabWidth

/-- The policy of a document. -/
def policy (d : Document) : Policy :=
  match d.flags with
  | none => .default
  | some names =>
      let policy := policyOf names
      if policy.keepRunning || policy.refuseAll then policy
      else { policy with keepRunning := true }

/-- The settings of a document, leaving aside what is wrong with it. -/
def settings (d : Document) : Settings where
  policy := d.policy
  tabWidth := (d.tabWidth.map Int.toNat).getD Settings.default.tabWidth
  host := d.host.bind HostKind.ofName?

/-- The settings a document stands for, or all that is wrong with it. -/
def validate (d : Document) : Except (List Issue) Settings :=
  match d.issues with
  | [] => .ok d.settings
  | issues => .error issues

end Document

end Settings

end Emend
