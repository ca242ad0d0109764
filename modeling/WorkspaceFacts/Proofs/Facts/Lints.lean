import WorkspaceFacts.Lint
import WorkspaceFacts.Proofs.Lookup
import WorkspaceFacts.Proofs.Outcome

/-!
# Which lints are disabled

The entries of a group are gone through one by one, and a selection of them is returned.
This file says which selection (`WorkspaceFacts.Lint.selected`), and when there is one:
both groups have to be tables, and every rule that is given as a table must have a level
(`WorkspaceFacts.Lint.outcome_disabled_eq_ok_iff`).
-/

namespace WorkspaceFacts

namespace Lint

open Toml.Table (Holds)

/-- Whether a rule with this value is disabled: the value is the string `allow`, or it is
a table whose level is that string. -/
def disables : Toml.Value → Bool
  | .scalar (.string name) => name = "allow"
  | .table entries => (Entries.get? entries "level").bind Toml.Value.string? = some "allow"
  | _ => false

/-- **The selection** from the entries of a group: the disabled rules, in order. -/
def selected (group : String) (entries : Toml.Table) : List DisabledLint :=
  (entries.filter (disables ·.2)).map (⟨group, ·.1⟩)

/-- A rule that is given as a table has a level. -/
def HasLevel (value : Toml.Value) : Prop :=
  ∀ inner, value = .table inner → ∃ level, Entries.get? inner "level" = some level

/-- Every rule of a group that is given as a table has a level. -/
def Levelled (entries : Toml.Table) : Prop := ∀ entry ∈ entries, HasLevel entry.2

/-- A workspace sets the levels of a group of lints by a table. -/
def Sets (workspace : Toml.Table) (group : String) (entries : Toml.Table) : Prop :=
  Holds workspace (groupKeys group) (.table entries) ∧ Levelled entries

/-! ### One rule -/

theorem isAllow_ofName (name : String) :
    (LintLevel.ofName name).isAllow = decide (name = "allow") := by
  unfold LintLevel.ofName LintLevel.isAllow
  repeat' split
  all_goals simp_all

/-- The level of a rule says whether the rule is disabled. -/
theorem exists_levelOf (workspace : Manifest) (group rule : String) {value : Toml.Value}
    (h : HasLevel value) : ∃ level, levelOf workspace group rule value = .ok level ∧
      level.any LintLevel.isAllow = disables value := by
  unfold levelOf
  split
  · next name => exact ⟨_, rfl, by simp [disables, isAllow_ofName]⟩
  · next entries =>
    obtain ⟨level, hl⟩ := h entries rfl
    rw [disables, hl]
    split
    · next name heq =>
      obtain rfl := Option.some.inj heq
      exact ⟨_, rfl, by simp [Toml.Value.string?, isAllow_ofName]⟩
    · next v hv heq =>
      obtain rfl := Option.some.inj heq
      exact ⟨_, rfl, by simp [Toml.Value.string?]⟩
    · next heq => cases heq
  · next hs ht =>
    -- Neither a string nor a table: no level, and nothing is disabled.
    refine ⟨_, rfl, ?_⟩
    unfold disables
    split <;> simp_all

/-- A table without a level is an error. -/
theorem levelOf_eq_error (workspace : Manifest) (group rule : String) {value : Toml.Value}
    (h : ¬HasLevel value) : levelOf workspace group rule value =
      .error (.missingField workspace.path (groupKeys group ++ [rule, "level"])) := by
  simp only [HasLevel, not_forall, exists_prop, not_exists] at h
  obtain ⟨inner, rfl, hl⟩ := h
  rw [levelOf, Option.eq_none_iff_forall_ne_some.2 hl]

/-! ### All rules of a group -/

theorem levelled_cons {entry : String × Toml.Value} {entries : Toml.Table} :
    Levelled (entry :: entries) ↔ HasLevel entry.2 ∧ Levelled entries :=
  List.forall_mem_cons

theorem selected_cons (group rule : String) (value : Toml.Value) (entries : Toml.Table) :
    selected group ((rule, value) :: entries) =
      if disables value then ⟨group, rule⟩ :: selected group entries
      else selected group entries := by
  unfold selected
  rw [List.filter_cons]
  split <;> rfl

/-- **The entries of a group yield their selection**, and only where no level is
missing. -/
theorem outcome_scan_eq_ok_iff {workspace : Manifest} {group : String} {entries : Toml.Table}
    {lints : List DisabledLint} : (scan workspace group entries).outcome = .ok lints ↔
      Levelled entries ∧ lints = selected group entries := by
  induction entries generalizing lints with
  | nil =>
    refine ⟨fun h => ⟨List.forall_mem_nil _, (Except.ok.inj h).symm⟩, ?_⟩
    rintro ⟨-, rfl⟩
    rfl
  | cons entry entries ih =>
    obtain ⟨rule, value⟩ := entry
    rw [scan, Traced.outcome_of_bind, levelled_cons, selected_cons]
    by_cases hv : HasLevel value
    · obtain ⟨level, hl, hd⟩ := exists_levelOf workspace group rule hv
      rw [hl, Except.bind, hd]
      by_cases hdis : disables value = true
      · rw [if_pos hdis, if_pos hdis, Traced.outcome_tell_bind,
          Traced.outcome_bind_eq_ok_iff]
        constructor
        · rintro ⟨rest, hrest, h⟩
          obtain ⟨hlev, rfl⟩ := ih.1 hrest
          exact ⟨⟨hv, hlev⟩, (Except.ok.inj h).symm⟩
        · rintro ⟨⟨-, hlev⟩, rfl⟩
          exact ⟨_, ih.2 ⟨hlev, rfl⟩, rfl⟩
      · rw [if_neg hdis, if_neg hdis, Traced.outcome_tell_bind, ih]
        simp [hv]
    · rw [levelOf_eq_error workspace group rule hv]
      exact iff_of_false (by simp [Except.bind]) fun h => hv h.1.1

/-! ### All groups -/

theorem outcome_ofGroup_eq_ok_iff {workspace : Manifest} {group : String}
    {lints : List DisabledLint} : (ofGroup workspace group).outcome = .ok lints ↔
      ∃ entries, Sets workspace.table group entries ∧ lints = selected group entries := by
  simp only [ofGroup, Traced.outcome_bind_eq_ok_iff, Traced.outcome_of,
    Manifest.requireTable_eq_ok_iff, outcome_scan_eq_ok_iff, Sets, and_assoc]

/-- **The disabled lints of a workspace** are the selections from its two groups, one
after the other. -/
theorem outcome_disabled_eq_ok_iff {workspace : Manifest} {lints : List DisabledLint} :
    (disabled workspace).outcome = .ok lints ↔
      ∃ clippy rust, Sets workspace.table "clippy" clippy ∧ Sets workspace.table "rust" rust ∧
        lints = selected "clippy" clippy ++ selected "rust" rust := by
  rw [disabled, Traced.outcome_bind_eq_ok_iff]
  constructor
  · rintro ⟨perGroup, hg, h⟩
    rw [Traced.outcome_each_eq_ok_iff, groups, List.forall₂_cons_left_iff] at hg
    obtain ⟨lints₁, tail, h₁, htail, rfl⟩ := hg
    rw [List.forall₂_cons_left_iff] at htail
    obtain ⟨lints₂, rest, h₂, hrest, rfl⟩ := htail
    obtain rfl := List.forall₂_nil_left_iff.1 hrest
    obtain ⟨clippy, hc, rfl⟩ := outcome_ofGroup_eq_ok_iff.1 h₁
    obtain ⟨rust, hr, rfl⟩ := outcome_ofGroup_eq_ok_iff.1 h₂
    refine ⟨clippy, rust, hc, hr, ?_⟩
    simpa using (Except.ok.inj h).symm
  · rintro ⟨clippy, rust, hc, hr, rfl⟩
    refine ⟨[selected "clippy" clippy, selected "rust" rust], ?_, by simp⟩
    rw [Traced.outcome_each_eq_ok_iff]
    exact .cons (outcome_ofGroup_eq_ok_iff.2 ⟨clippy, hc, rfl⟩)
      (.cons (outcome_ofGroup_eq_ok_iff.2 ⟨rust, hr, rfl⟩) .nil)

end Lint

end WorkspaceFacts
