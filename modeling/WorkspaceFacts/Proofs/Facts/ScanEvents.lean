import WorkspaceFacts.Proofs.Facts.Scanning
import WorkspaceFacts.Proofs.Following

/-!
# What the scan of the lints tells

The scan tells of every rule that it gets past: that the rule is disabled, or at which level it is
kept (`WorkspaceFacts.Lint.Step.told`). It tells nothing of a step that fails. So its events are
those of its steps up to the first that fails (`WorkspaceFacts.Lint.follows_disabled`), and what
is picked out of them can be told from the steps.
-/

namespace WorkspaceFacts

namespace Lint

variable {workspace : Manifest} {group rule : String} {value : Toml.Value} {entries : Toml.Table}

/-- The level that is written for a rule, if it is a string. -/
def writtenLevel? : Toml.Value → Option String
  | .table entries => (Entries.get? entries "level").bind Toml.Value.string?
  | value => value.string?

instance : DecidablePred HasLevel
  | .table entries => decidable_of_iff ((Entries.get? entries "level").isSome = true) <| by
      simp [HasLevel, Option.isSome_iff_exists]
  | .scalar _ => isTrue nofun
  | .array _ => isTrue nofun

/-- What is told of a rule with a level. -/
def eventOf (group rule : String) (value : Toml.Value) : Event :=
  if disables value then .lintDisabled group rule else .lintKept group rule (writtenLevel? value)

/-- **What a step of the scan tells**: nothing of a group that is looked up, and one event of a
rule, unless that is given as a table without a level. -/
def Step.told : Step → List Event
  | .table _ => []
  | .entry group rule value => if HasLevel value then [eventOf group rule value] else []

/-- A step that fails tells nothing. -/
theorem Step.told_of_not_passes {step : Step} (h : ¬step.Passes workspace) : step.told = [] := by
  cases step with
  | table group => rfl
  | entry group rule value => rw [told, if_neg (mt passes_entry_iff.2 h)]

theorem name_ofName (name : String) : (LintLevel.ofName name).name = name := by
  unfold LintLevel.ofName
  repeat' split
  all_goals simp_all [LintLevel.name]

/-- The level of a rule is the one that is written. -/
theorem levelOf_of_hasLevel (workspace : Manifest) (group rule : String) (h : HasLevel value) :
    levelOf workspace group rule value = .ok ((writtenLevel? value).map LintLevel.ofName) := by
  cases value with
  | scalar s => cases s <;> rfl
  | array items => rfl
  | table entries =>
    obtain ⟨level, hl⟩ := h entries rfl
    rw [levelOf, writtenLevel?, hl]
    cases level with
    | scalar s => cases s <;> rfl
    | array items => rfl
    | table inner => rfl

/-- A rule with a level tells its event, and the rules after it follow. -/
theorem scan_cons_of_hasLevel (hv : HasLevel value) :
    scan workspace group ((rule, value) :: entries) =
    Traced.tell (eventOf group rule value) >>= fun _ =>
      if disables value then scan workspace group entries >>= fun lints =>
        pure (⟨group, rule⟩ :: lints)
      else scan workspace group entries := by
  obtain ⟨level, hl, hd⟩ := exists_levelOf workspace group rule hv
  have hname : level.map LintLevel.name = writtenLevel? value := by
    obtain rfl := Except.ok.inj (hl.symm.trans (levelOf_of_hasLevel workspace group rule hv))
    cases writtenLevel? value with
    | none => rfl
    | some name => exact congrArg some (name_ofName name)
  rw [scan, hl, eventOf, ← hname, ← hd]
  show (if level.any LintLevel.isAllow = true then _ else _) = _
  split <;> rfl

theorem follows_eventOf (hv : HasLevel value) : (Traced.tell (eventOf group rule value)).Follows
    (Step.Passes workspace) Step.told [.entry group rule value] := by
  refine Traced.follows_singleton (iff_of_true ⟨(), rfl⟩ (passes_entry_iff.2 hv)) ?_
  rw [Step.told, if_pos hv]
  rfl

/-- **The scan of the rules of a group follows its steps.** -/
theorem follows_scan (workspace : Manifest) (group : String) (entries : Toml.Table) :
    (scan workspace group entries).Follows (Step.Passes workspace) Step.told
      (ruleSteps group entries) := by
  induction entries with
  | nil => exact Traced.follows_pure []
  | cons entry entries ih =>
    obtain ⟨rule, value⟩ := entry
    by_cases hv : HasLevel value
    · rw [scan_cons_of_hasLevel hv]
      refine (follows_eventOf hv).bind fun _ _ => ?_
      split
      · exact ih.bind_pure _
      · exact ih
    · have hno : ¬(Step.entry group rule value).Passes workspace := mt passes_entry_iff.1 hv
      have hfails : (Traced.of (levelOf workspace group rule value)).Follows
          (Step.Passes workspace) Step.told [.entry group rule value] := by
        rw [levelOf_eq_error workspace group rule hv]
        exact Traced.follows_singleton (iff_of_false nofun hno) (Step.told_of_not_passes hno).symm
      refine hfails.bind fun level h => ?_
      rw [Traced.outcome_of, levelOf_eq_error workspace group rule hv] at h
      cases h

theorem follows_ofGroup (workspace : Manifest) (group : String) :
    (ofGroup workspace group).Follows (Step.Passes workspace) Step.told
      (groupSteps workspace group) := by
  have hlook : (Traced.of (workspace.requireTable (groupKeys group))).Follows
      (Step.Passes workspace) Step.told [.table group] := by
    refine Traced.follows_singleton ?_ rfl
    rw [passes_table_iff, Traced.outcome_of]
    constructor
    · rintro ⟨entries, h⟩
      rw [h, rules_of_requireTable h]
    · exact fun h => ⟨_, h⟩
  refine hlook.bind fun entries h => ?_
  rw [rules_of_requireTable h]
  exact follows_scan workspace group entries

/-- **The scan of the lints follows its steps.** -/
theorem follows_disabled (workspace : Manifest) :
    (disabled workspace).Follows (Step.Passes workspace) Step.told (steps workspace) :=
  (Traced.follows_each groups fun group _ => follows_ofGroup workspace group).bind_pure List.flatten

end Lint

/-- The rule that an event tells of as disabled. -/
def Event.disabled? : Event → Option DisabledLint
  | .lintDisabled group rule => some ⟨group, rule⟩
  | _ => none

/-- **The disabled lints are those that were told of**, in the same order. -/
theorem Lint.filterMap_disabled?_events {workspace : Manifest} {lints : List DisabledLint}
    (h : (disabled workspace).outcome = .ok lints) :
    (disabled workspace).events.filterMap Event.disabled? = lints := by
  have hselects : ∀ step : Step, step.Passes workspace →
      step.told.filterMap Event.disabled? = step.selects?.toList := by
    intro step hstep
    cases step with
    | table group => rfl
    | entry group rule value =>
      rw [Step.told, if_pos (passes_entry_iff.1 hstep), Step.selects?, eventOf]
      split <;> rfl
  have hfails : ∀ step : Step, ¬step.Passes workspace →
      step.told.filterMap Event.disabled? <+: step.selects?.toList := by
    intro step hstep
    rw [Step.told_of_not_passes hstep]
    exact List.nil_prefix
  have hall := ((follows_disabled workspace).filterMap_events hselects hfails).2 lints h
  rw [hall, (outcome_disabled_eq_ok_iff_steps.1 h).2, List.filterMap_eq_flatMap_toList]

end WorkspaceFacts
