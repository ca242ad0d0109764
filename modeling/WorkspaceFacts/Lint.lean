import WorkspaceFacts.Trace

/-!
# Disabled lints

A workspace manifest sets levels for lint rules in two groups. A rule is disabled if its
level is exactly `allow`, whether the rule is given as a string or as a table with a
`level`. The groups are gone through in a fixed order and the rules of a group in the
order of the document.

Every disabled rule is shown with the same prefix, whichever group it comes from.
-/

namespace WorkspaceFacts

/-- The level of a lint rule. -/
inductive LintLevel
  | allow
  | warn
  | deny
  | forbid
  /-- A level that has no meaning here, kept as it is written. -/
  | other (name : String)
  deriving DecidableEq

namespace LintLevel

/-- The level that a name stands for. -/
def ofName (name : String) : LintLevel :=
  if name = "allow" then .allow
  else if name = "warn" then .warn
  else if name = "deny" then .deny
  else if name = "forbid" then .forbid
  else .other name

/-- The name of a level. -/
def name : LintLevel → String
  | .allow => "allow"
  | .warn => "warn"
  | .deny => "deny"
  | .forbid => "forbid"
  | .other name => name

/-- Whether the level disables a rule. -/
def isAllow (level : LintLevel) : Bool := level = .allow

end LintLevel

/-- A rule that its level disables, and the group it comes from. -/
structure DisabledLint where
  group : String
  rule : String
  deriving DecidableEq

namespace DisabledLint

/-- The prefix of every rule that is shown. -/
def shownPrefix : String := "clippy"

/-- How a disabled rule is shown. -/
def display (lint : DisabledLint) : String := shownPrefix ++ "::" ++ lint.rule

/-- How a list of disabled rules is shown on one line. -/
def displayAll (lints : List DisabledLint) : String := ",".intercalate (lints.map display)

end DisabledLint

namespace Lint

/-- The groups, in the order in which they are gone through. -/
def groups : List String := ["clippy", "rust"]

/-- Where a workspace sets the levels of a group. -/
def groupKeys (group : String) : List String := ["workspace", "lints", group]

/-- The level of a rule that is set to a value: `none` if the value has a shape that no
level can have. A table must have a `level`. -/
def levelOf (workspace : Manifest) (group rule : String) :
    Toml.Value → Except ManifestError (Option LintLevel)
  | .scalar (.string name) => .ok (some (.ofName name))
  | .table entries =>
    match Entries.get? entries "level" with
    | some (.scalar (.string name)) => .ok (some (.ofName name))
    | some _ => .ok none
    | none => .error (.missingField workspace.path (groupKeys group ++ [rule, "level"]))
  | _ => .ok none

/-- The disabled rules among the entries of a group. -/
def scan (workspace : Manifest) (group : String) :
    List (String × Toml.Value) → Traced (List DisabledLint)
  | [] => pure []
  | (rule, value) :: rest => do
    let level ← Traced.of (levelOf workspace group rule value)
    if level.any LintLevel.isAllow then
      Traced.tell (.lintDisabled group rule)
      let lints ← scan workspace group rest
      pure (⟨group, rule⟩ :: lints)
    else
      Traced.tell (.lintKept group rule (level.map LintLevel.name))
      scan workspace group rest

/-- The disabled rules of a group. -/
def ofGroup (workspace : Manifest) (group : String) : Traced (List DisabledLint) := do
  let entries ← Traced.of (workspace.requireTable (groupKeys group))
  scan workspace group entries

/-- **The disabled lints** of a workspace. -/
def disabled (workspace : Manifest) : Traced (List DisabledLint) := do
  let perGroup ← Traced.each (ofGroup workspace) groups
  pure perGroup.flatten

end Lint

end WorkspaceFacts
