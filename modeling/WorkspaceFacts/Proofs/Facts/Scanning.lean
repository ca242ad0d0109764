import WorkspaceFacts.Proofs.Facts.Faults

/-!
# The scan of the lints

The groups of lints and the rules in them are gone through in **steps**
(`WorkspaceFacts.Lint.steps`): a group is looked up, the rules of its table follow in the order
of the table, and then comes the next group. A step may select a rule, and a step may fail; what
it does can be told from the step alone and from the workspace manifest. The disabled lints are
what the steps select, in their order, and they cannot be had by the error of the first step
that fails (`WorkspaceFacts.Lint.disabled_eq_scan`).

No table of an accepted manifest holds a key twice, and the groups differ, so no lint is selected
twice (`WorkspaceFacts.Manifest.parse_holds_keys_once`).
-/

namespace WorkspaceFacts

open Toml.Table (Holds Lacks)

namespace Lint

/-! ### Steps -/

/-- A step of the scan. -/
inductive Step
  /-- The table of a group is looked up. -/
  | table (group : String)
  /-- The value of a rule of a group is looked at. -/
  | entry (group rule : String) (value : Toml.Value)

/-- What a step selects: the rule, if its value disables it. -/
def Step.selects? : Step → Option DisabledLint
  | .table _ => none
  | .entry group rule value => if disables value then some ⟨group, rule⟩ else none

/-- **A step fails by an error.** The look-up of a group names the shortest part of its path at
which there is nothing, or at which there is no table; and a rule that is given as a table must
have a level. -/
inductive Step.Fails (workspace : Manifest) : Step → ManifestError → Prop
  | missing {group : String} {keys : List String} (hk : keys <+: groupKeys group)
      (h : Lacks workspace.table keys) :
      Fails workspace (.table group) (.missingField workspace.path keys)
  | notTable {group : String} {keys : List String} {value : Toml.Value}
      (hk : keys <+: groupKeys group) (h : Holds workspace.table keys value)
      (hv : ∀ entries, value ≠ .table entries) :
      Fails workspace (.table group) (.invalidField workspace.path keys .table)
  | level {group rule : String} {entries : Toml.Table}
      (h : Entries.get? entries "level" = none) :
      Fails workspace (.entry group rule (.table entries))
        (.missingField workspace.path (groupKeys group ++ [rule, "level"]))

/-- The rules of a group: none if the group has no table. -/
def rules (workspace : Manifest) (group : String) : Toml.Table :=
  match workspace.requireTable (groupKeys group) with
  | .ok entries => entries
  | .error _ => []

/-- The steps that look at given rules of a group. -/
def ruleSteps (group : String) (entries : Toml.Table) : List Step :=
  entries.map fun entry => .entry group entry.1 entry.2

/-- The steps of a group. -/
def groupSteps (workspace : Manifest) (group : String) : List Step :=
  .table group :: ruleSteps group (rules workspace group)

/-- **The steps of the scan**, in their order. -/
def steps (workspace : Manifest) : List Step := groups.flatMap (groupSteps workspace)

variable {workspace : Manifest} {group rule : String} {value : Toml.Value} {entries : Toml.Table}
  {e : ManifestError}

/-- A step that does not fail. -/
def Step.Passes (workspace : Manifest) (step : Step) : Prop := ∀ e, ¬step.Fails workspace e

theorem fails_table_iff :
    (Step.table group).Fails workspace e ↔ workspace.Refuses (groupKeys group) .table e := by
  constructor
  · rintro (⟨hk, h⟩ | @⟨_, keys, value, hk, h, hv⟩)
    · exact .lookup (.missing hk h)
    · by_cases hne : keys = groupKeys group
      · subst hne
        exact .shape h fun ⟨entries, he⟩ => hv entries he
      · exact .lookup (.notTable hk hne h hv)
  · rintro (h | ⟨h, hv⟩)
    · rcases h with ⟨hk, h⟩ | ⟨hk, -, h, hv⟩
      · exact .missing hk h
      · exact .notTable hk h hv
    · exact .notTable List.prefix_rfl h fun entries he => hv ⟨entries, he⟩

theorem fails_entry_iff : (Step.entry group rule value).Fails workspace e ↔
    ¬HasLevel value ∧ e = .missingField workspace.path (levelKeys group rule) := by
  rw [not_hasLevel_iff]
  constructor
  · intro hf
    cases hf with
    | level h => exact ⟨⟨_, rfl, h⟩, rfl⟩
  · rintro ⟨⟨entries, rfl, h⟩, rfl⟩
    exact .level h

theorem passes_entry_iff : (Step.entry group rule value).Passes workspace ↔ HasLevel value := by
  simp only [Step.Passes, fails_entry_iff, not_and]
  constructor
  · exact fun h => by_contra fun hv => h _ hv rfl
  · exact fun h _ hv => absurd h hv

theorem passes_ruleSteps_iff :
    (∀ step ∈ ruleSteps group entries, step.Passes workspace) ↔ Levelled entries := by
  simp only [ruleSteps, List.forall_mem_map, passes_entry_iff, Levelled]

theorem rules_of_requireTable (h : workspace.requireTable (groupKeys group) = .ok entries) :
    rules workspace group = entries := by
  rw [rules, h]

/-- The look-up of a group passes where the group has a table. -/
theorem passes_table_iff : (Step.table group).Passes workspace ↔
    workspace.requireTable (groupKeys group) = .ok (rules workspace group) := by
  have hk : groupKeys group ≠ [] := List.cons_ne_nil _ _
  simp only [Step.Passes, fails_table_iff, ← Manifest.requireTable_eq_error_iff hk]
  rw [rules]
  cases workspace.requireTable (groupKeys group) with
  | ok entries => simp
  | error e => simp

/-- **The steps of a group pass where the levels of the group are set.** -/
theorem passes_groupSteps_iff : (∀ step ∈ groupSteps workspace group, step.Passes workspace) ↔
    ∃ entries, Sets workspace.table group entries := by
  simp only [groupSteps, List.forall_mem_cons, passes_table_iff, passes_ruleSteps_iff, Sets,
    ← Manifest.requireTable_eq_ok_iff]
  constructor
  · rintro ⟨h, hlev⟩
    exact ⟨_, h, hlev⟩
  · rintro ⟨entries, h, hlev⟩
    rw [rules_of_requireTable h]
    exact ⟨h, hlev⟩

theorem first_ruleSteps_iff :
    First (Step.Passes workspace) (Step.Fails workspace · e) (ruleSteps group entries) ↔
      ∃ rule, First (HasLevel ·.2) (fun entry => entry.1 = rule ∧ ¬HasLevel entry.2) entries ∧
        e = .missingField workspace.path (levelKeys group rule) := by
  rw [ruleSteps, first_map]
  simp only [passes_entry_iff, fails_entry_iff]
  constructor
  · rintro ⟨before, entry, after, h, hbefore, hv, rfl⟩
    exact ⟨entry.1, ⟨before, entry, after, h, hbefore, rfl, hv⟩, rfl⟩
  · rintro ⟨_, ⟨before, entry, after, h, hbefore, rfl, hv⟩, rfl⟩
    exact ⟨before, entry, after, h, hbefore, hv, rfl⟩

/-- **The first step of a group that fails** is the fault of the group. -/
theorem first_groupSteps_iff :
    First (Step.Passes workspace) (Step.Fails workspace · e) (groupSteps workspace group) ↔
      GroupFault workspace group e := by
  rw [groupSteps, first_cons, fails_table_iff, passes_table_iff, first_ruleSteps_iff]
  constructor
  · rintro (h | ⟨h, rule, hr, rfl⟩)
    · exact .refused h
    · exact .level (Manifest.requireTable_eq_ok_iff.1 h) hr
  · rintro (h | ⟨h, hr⟩)
    · exact .inl h
    · have htable := Manifest.requireTable_eq_ok_iff.2 h
      rw [rules_of_requireTable htable]
      exact .inr ⟨htable, _, hr, rfl⟩

theorem filterMap_selects?_ruleSteps (group : String) (entries : Toml.Table) :
    (ruleSteps group entries).filterMap Step.selects? = selected group entries := by
  induction entries with
  | nil => rfl
  | cons entry entries ih =>
    obtain ⟨rule, value⟩ := entry
    have hstep : ruleSteps group ((rule, value) :: entries) =
        .entry group rule value :: ruleSteps group entries := rfl
    rw [selected_cons, hstep, List.filterMap_cons, ih]
    by_cases hd : disables value = true
    · rw [Step.selects?, if_pos hd, if_pos hd]
    · rw [Step.selects?, if_neg hd, if_neg hd]

theorem filterMap_selects?_groupSteps (h : Sets workspace.table group entries) :
    (groupSteps workspace group).filterMap Step.selects? = selected group entries := by
  rw [groupSteps, rules_of_requireTable (Manifest.requireTable_eq_ok_iff.2 h.1),
    List.filterMap_cons, Step.selects?, filterMap_selects?_ruleSteps]

/-- What the scan of a workspace returns if all its steps pass. -/
theorem outcome_disabled_eq_ok_iff_steps {lints : List DisabledLint} :
    (disabled workspace).outcome = .ok lints ↔
      (∀ step ∈ steps workspace, step.Passes workspace) ∧
        lints = (steps workspace).filterMap Step.selects? := by
  have hsteps : steps workspace =
      groupSteps workspace "clippy" ++ groupSteps workspace "rust" := by
    rw [steps, groups, List.flatMap_cons, List.flatMap_singleton]
  rw [outcome_disabled_eq_ok_iff, hsteps, List.forall_mem_append, List.filterMap_append,
    passes_groupSteps_iff, passes_groupSteps_iff]
  constructor
  · rintro ⟨clippy, rust, hc, hr, rfl⟩
    refine ⟨⟨⟨clippy, hc⟩, rust, hr⟩, ?_⟩
    rw [filterMap_selects?_groupSteps hc, filterMap_selects?_groupSteps hr]
  · rintro ⟨⟨⟨clippy, hc⟩, rust, hr⟩, rfl⟩
    refine ⟨clippy, rust, hc, hr, ?_⟩
    rw [filterMap_selects?_groupSteps hc, filterMap_selects?_groupSteps hr]

theorem outcome_disabled_eq_error_iff_steps : (disabled workspace).outcome = .error e ↔
    First (Step.Passes workspace) (Step.Fails workspace · e) (steps workspace) := by
  rw [outcome_disabled_eq_error_iff, Fault, steps, first_flatMap]
  simp only [passes_groupSteps_iff, first_groupSteps_iff]

/-! ### What the scan looks at -/

/-- Of the workspace manifest the rules of a group need no more than its path. -/
theorem scan_congr {other : Manifest} (h : other.path = workspace.path) (group : String)
    (entries : Toml.Table) : scan other group entries = scan workspace group entries := by
  induction entries with
  | nil => rfl
  | cons entry entries ih =>
    have hlevel : levelOf other group entry.1 entry.2 =
        levelOf workspace group entry.1 entry.2 := by
      unfold levelOf
      rw [h]
    rw [scan, scan, hlevel, ih]

theorem disabled_congr {other : Manifest} (h : other.path = workspace.path)
    (htables : ∀ group ∈ groups,
      other.requireTable (groupKeys group) = workspace.requireTable (groupKeys group)) :
    disabled other = disabled workspace := by
  have hgroup : ∀ group ∈ groups, ofGroup other group = ofGroup workspace group := by
    intro group hmem
    rw [ofGroup, ofGroup, htables group hmem]
    exact congrArg _ (funext fun entries => scan_congr h group entries)
  rw [groups, List.forall_mem_cons, List.forall_mem_singleton] at hgroup
  simp only [disabled, groups, Traced.each, hgroup.1, hgroup.2]

/-- **The disabled lints are the scan.** They are there if every step passes, and then they are
what the steps select, in order; if a step fails, the error is that of the first one. Two
manifests at the same path with the same tables for the groups, or with the same errors in the
place of tables, have the same disabled lints, by the same events. -/
theorem disabled_eq_scan (workspace : Manifest) :
    (∀ lints, (disabled workspace).outcome = .ok lints ↔
      (∀ step ∈ steps workspace, ∀ e, ¬step.Fails workspace e) ∧
        lints = (steps workspace).filterMap Step.selects?) ∧
    (∀ e, (disabled workspace).outcome = .error e ↔
      First (fun step => ∀ e, ¬step.Fails workspace e) (Step.Fails workspace · e)
        (steps workspace)) ∧
    ∀ other : Manifest, other.path = workspace.path →
      (∀ group ∈ groups,
        other.requireTable (groupKeys group) = workspace.requireTable (groupKeys group)) →
      disabled other = disabled workspace :=
  ⟨fun _ => outcome_disabled_eq_ok_iff_steps, fun _ => outcome_disabled_eq_error_iff_steps,
    fun _ => disabled_congr⟩

/-- A workspace with a rule that has no level, and without any rules of the second group. -/
def halfSet : Manifest where
  path := .ofString "Cargo.toml"
  table := [("workspace", .table [("lints", .table [("clippy", .table
    [("a", .scalar (.string "allow")), ("b", .table [("priority", .scalar (.integer 1))])])])])]

/-- The rule without a level is met before the group that is missing, and it makes no difference
what else is in the manifest. -/
theorem disabled_halfSet :
    (disabled halfSet).outcome = .error (.missingField (.ofString "Cargo.toml")
        ["workspace", "lints", "clippy", "b", "level"]) ∧
      disabled ⟨halfSet.path, halfSet.table ++ [("package", .table [])]⟩ = disabled halfSet := by
  obtain ⟨-, failure, frame⟩ := disabled_eq_scan halfSet
  refine ⟨(failure _).2 ?_, frame ⟨halfSet.path, _⟩ rfl fun group hmem => ?_⟩
  · refine ⟨[.table "clippy", .entry "clippy" "a" (.scalar (.string "allow"))],
      .entry "clippy" "b" (.table [("priority", .scalar (.integer 1))]), [.table "rust"], rfl, ?_,
      .level rfl⟩
    rw [List.forall_mem_cons, List.forall_mem_singleton]
    exact ⟨passes_table_iff.2 rfl, passes_entry_iff.2 nofun⟩
  · rw [groups, List.mem_cons, List.mem_singleton] at hmem
    rcases hmem with rfl | rfl <;> rfl

/-! ### No lint twice -/

/-- The rules that are selected from a group stand in the order of its entries. -/
theorem sublist_keys_selected (group : String) (entries : Toml.Table) :
    ((selected group entries).map DisabledLint.rule).Sublist (Entries.keys entries) := by
  rw [selected, List.map_map]
  exact List.filter_sublist.map Prod.fst

theorem nodup_selected (group : String) (h : (Entries.keys entries).Nodup) :
    (selected group entries).Nodup :=
  List.Nodup.of_map DisabledLint.rule ((sublist_keys_selected group entries).nodup h)

theorem mem_selected_iff {lint : DisabledLint} : lint ∈ selected group entries ↔
    lint.group = group ∧ ∃ value, (lint.rule, value) ∈ entries ∧ disables value = true := by
  rw [selected, List.mem_map]
  constructor
  · rintro ⟨⟨rule, value⟩, hmem, rfl⟩
    obtain ⟨hmem, hd⟩ := List.mem_filter.1 hmem
    exact ⟨rfl, value, hmem, hd⟩
  · rintro ⟨rfl, value, hmem, hd⟩
    exact ⟨(lint.rule, value), List.mem_filter.2 ⟨hmem, hd⟩, rfl⟩

/-- The selections from two groups have no lint in common, and none of their own twice. -/
theorem nodup_disabled {lints : List DisabledLint} (h : (disabled workspace).outcome = .ok lints)
    (hd : (Toml.Value.table workspace.table).Distinct) : lints.Nodup := by
  obtain ⟨clippy, rust, hc, hr, rfl⟩ := outcome_disabled_eq_ok_iff.1 h
  refine List.nodup_append.2 ⟨nodup_selected _ (hc.1.distinct hd).nodup,
    nodup_selected _ (hr.1.distinct hd).nodup, ?_⟩
  rintro lint hmem _ hmem' rfl
  have hgroup := (mem_selected_iff.1 hmem).1.symm.trans (mem_selected_iff.1 hmem').1
  exact absurd hgroup (by decide)

/-- A disabled lint comes from the entry that its key path leads to. -/
theorem require_of_mem_selected {lint : DisabledLint} (h : Sets workspace.table group entries)
    (hd : (Toml.Value.table workspace.table).Distinct) (hmem : lint ∈ selected group entries) :
    ∃ entries value, workspace.requireTable (groupKeys lint.group) = .ok entries ∧
      (lint.rule, value) ∈ entries ∧ disables value = true ∧
      workspace.require (groupKeys lint.group ++ [lint.rule]) = .ok value := by
  obtain ⟨rfl, value, hvalue, hdis⟩ := mem_selected_iff.1 hmem
  refine ⟨entries, value, Manifest.requireTable_eq_ok_iff.2 h.1, hvalue, hdis, ?_⟩
  have hg : Entries.get? entries lint.rule = some value :=
    Entries.get?_of_mem (h.1.distinct hd).nodup hvalue
  exact Manifest.require_eq_ok_iff.2 (h.1.append (Toml.Table.holds_singleton.2 hg))

end Lint

/-- **No key is ever held twice, and no lint is reported twice.** The keys of every table in an
accepted manifest are distinct, at every depth. So no rule of a group comes up twice among its
disabled lints, and each of them is the entry that a look-up of the rule finds. -/
theorem Manifest.parse_holds_keys_once {path : Path} {text : String} {m : Manifest}
    (h : parse path text = .ok m) :
    (Toml.Value.table m.table).Distinct ∧
      ∀ lints, (Lint.disabled m).outcome = .ok lints → lints.Nodup ∧
        ∀ lint ∈ lints, ∃ entries value,
          m.requireTable (Lint.groupKeys lint.group) = .ok entries ∧
          (lint.rule, value) ∈ entries ∧ Lint.disables value = true ∧
          m.require (Lint.groupKeys lint.group ++ [lint.rule]) = .ok value := by
  have hd := Toml.Document.distinct_of_parse? (parse_eq_ok_iff.1 h).2
  refine ⟨hd, fun lints hlints => ⟨Lint.nodup_disabled hlints hd, fun lint hmem => ?_⟩⟩
  obtain ⟨clippy, rust, hc, hr, rfl⟩ := Lint.outcome_disabled_eq_ok_iff.1 hlints
  rcases List.mem_append.1 hmem with hmem | hmem
  · exact Lint.require_of_mem_selected hc hd hmem
  · exact Lint.require_of_mem_selected hr hd hmem

/-- A rule of the same name in both groups is reported once for each of them. -/
theorem Manifest.parse_holds_keys_once_dotted :
    ∃ m, parse ⟨[]⟩ "[workspace.lints]\nrust.a.level = 'allow'\nclippy = \x7b a = 'allow' \x7d\n" =
        .ok m ∧ (Toml.Value.table m.table).Distinct ∧
      (Lint.disabled m).outcome = .ok [⟨"clippy", "a"⟩, ⟨"rust", "a"⟩] ∧
      ∃ value, m.require ["workspace", "lints", "rust", "a"] = .ok value ∧
        Lint.disables value = true := by
  have hs : Toml.Statement.ofText?
      "[workspace.lints]\nrust.a.level = 'allow'\nclippy = \x7b a = 'allow' \x7d\n".toList =
      some [.header ["workspace", "lints"],
        .entry ["rust", "a", "level"] (.scalar (.string "allow")),
        .entry ["clippy"] (.table [(["a"], .scalar (.string "allow"))])] := by
    with_unfolding_all rfl
  obtain ⟨m, hm, hlints⟩ : ∃ m, parse ⟨[]⟩
      "[workspace.lints]\nrust.a.level = 'allow'\nclippy = \x7b a = 'allow' \x7d\n" = .ok m ∧
      (Lint.disabled m).outcome = .ok [⟨"clippy", "a"⟩, ⟨"rust", "a"⟩] := by
    rw [parse, Toml.Document.parse?, hs]
    exact ⟨_, rfl, rfl⟩
  obtain ⟨hd, once⟩ := parse_holds_keys_once hm
  obtain ⟨-, value, -, -, hdis, hr⟩ := (once _ hlints).2 ⟨"rust", "a"⟩ (by decide)
  exact ⟨m, hm, hd, hlints, value, hr, hdis⟩

end WorkspaceFacts
