import WorkspaceFacts.Proofs.Facts.ScanEvents
import WorkspaceFacts.Proofs.Toml.KeyOrder

/-!
# The order of the scan

While the rules of a group are gone through, one event is told for every rule that the scan gets
past. So the events say in which order that is: it is the order of the keys in the table of the
group, as far as the scan comes, and by that the order of their positions in the text
(`WorkspaceFacts.Manifest.parse_keeps_key_order`), however its statements are spelled
(`WorkspaceFacts.Manifest.goesBy_of_allSpelled`).
-/

namespace WorkspaceFacts

/-! ### What events tell -/

namespace Lint

/-- The rule of a group that an event tells of. -/
def toldRule? (group : String) : Event → Option String
  | .lintDisabled other rule => if other = group then some rule else none
  | .lintKept other rule _ => if other = group then some rule else none
  | _ => none

/-- The rules of a group that events tell of, in their order. -/
def told (group : String) (events : List Event) : List String :=
  events.filterMap (toldRule? group)

/-- **The rules of a group that the scan gets past**, in order. -/
def scanned (workspace : Manifest) (group : String) : List String :=
  told group (disabled workspace).events

end Lint

namespace Traced

/-- **The work tells of the rules of a group in order**: of all of them if it has a result, and
of the first ones if it fails. -/
def TellsOf {α : Type} (group : String) (rules : List String) (work : Traced α) : Prop :=
  Lint.told group work.events <+: rules ∧
    ∀ a, work.outcome = .ok a → Lint.told group work.events = rules

end Traced

namespace Lint

variable {workspace : Manifest} {group : String} {entries : Toml.Table}

/-! ### What the scan tells -/

/-- The rules that a group adds to those of the group that is listened to. -/
def heard (group other : String) (entries : Toml.Table) : List String :=
  if other = group then Entries.keys entries else []

/-- The rule of a group that a step looks at. -/
def Step.rule? (group : String) : Step → Option String
  | .table _ => none
  | .entry other rule _ => if other = group then some rule else none

theorem flatMap_rule?_groupSteps (workspace : Manifest) (group other : String) :
    ((groupSteps workspace other).flatMap fun step => (step.rule? group).toList) =
      heard group other (rules workspace other) := by
  rw [groupSteps, ruleSteps, List.flatMap_cons, List.flatMap_map, heard]
  by_cases he : other = group
  · simp [Step.rule?, he, Entries.keys, ← List.map_eq_flatMap]
  · simp [Step.rule?, he]

theorem told_of_passes {step : Step} (h : step.Passes workspace) :
    told group step.told = (step.rule? group).toList := by
  cases step with
  | table other => rfl
  | entry other rule value =>
    have hrule : toldRule? group (eventOf other rule value) =
        Step.rule? group (.entry other rule value) := by
      rw [eventOf]
      split <;> rfl
    rw [Step.told, if_pos (passes_entry_iff.1 h), told, List.filterMap_cons, hrule]
    cases Step.rule? group (.entry other rule value) <;> rfl

/-- **The scan gets past the rules of a group in the order of its table.** -/
theorem tellsOf_disabled (workspace : Manifest) (h : group ∈ groups) :
    (disabled workspace).TellsOf group (Entries.keys (rules workspace group)) := by
  have hgroups : (steps workspace).flatMap (fun step => (step.rule? group).toList) =
      Entries.keys (rules workspace group) := by
    rw [steps, List.flatMap_assoc]
    simp only [flatMap_rule?_groupSteps]
    rw [groups, List.mem_cons, List.mem_singleton] at h
    rcases h with rfl | rfl <;> simp [groups, heard]
  rw [← hgroups]
  refine (follows_disabled workspace).filterMap_events (fun step => told_of_passes) ?_
  intro step hstep
  rw [Step.told_of_not_passes hstep]
  exact List.nil_prefix

theorem filter_selected (group other : String) (entries : Toml.Table) :
    (selected other entries).filter (fun lint => lint.group = group) =
      if other = group then selected other entries else [] := by
  split
  · next he =>
    refine List.filter_eq_self.2 fun lint hmem => ?_
    rw [(mem_selected_iff.1 hmem).1, decide_eq_true he]
  · next hne =>
    refine List.filter_eq_nil_iff.2 fun lint hmem => ?_
    rw [(mem_selected_iff.1 hmem).1, decide_eq_false hne]
    exact Bool.false_ne_true

/-- The disabled lints of a group stand in the order of its table. -/
theorem sublist_keys_of_outcome {lints : List DisabledLint}
    (h : (disabled workspace).outcome = .ok lints) (hg : group ∈ groups)
    (ht : workspace.requireTable (groupKeys group) = .ok entries) :
    ((lints.filter fun lint => lint.group = group).map DisabledLint.rule).Sublist
      (Entries.keys entries) := by
  obtain ⟨clippy, rust, hc, hr, rfl⟩ := outcome_disabled_eq_ok_iff.1 h
  have hlints : (selected "clippy" clippy ++ selected "rust" rust).filter
      (fun lint => lint.group = group) = selected group entries := by
    have hc' := Manifest.requireTable_eq_ok_iff.2 hc.1
    have hr' := Manifest.requireTable_eq_ok_iff.2 hr.1
    rw [groups, List.mem_cons, List.mem_singleton] at hg
    rw [List.filter_append, filter_selected, filter_selected]
    rcases hg with rfl | rfl
    · obtain rfl := Except.ok.inj (ht.symm.trans hc')
      rw [if_pos rfl, if_neg (by decide), List.append_nil]
    · obtain rfl := Except.ok.inj (ht.symm.trans hr')
      rw [if_neg (by decide), if_pos rfl, List.nil_append]
  rw [hlints]
  exact sublist_keys_selected group entries

end Lint

/-- **A manifest goes by the order of statements**: the keys of its tables do, at every depth, and
in this order the rules of a group are gone through: all of them if the disabled lints can be had,
and otherwise those before the first one that has no level. -/
structure Manifest.GoesBy (m : Manifest) (statements : List Toml.Statement) : Prop where
  keys : (Toml.Value.table m.table).InOrder (Toml.Outline.of statements).mentions
  rules : ∀ group ∈ Lint.groups, ∀ entries,
    m.requireTable (Lint.groupKeys group) = .ok entries →
    Toml.InKeyOrder (Toml.withinAll ((Lint.groupKeys group).map .key)
        (Toml.Outline.of statements).mentions) (Entries.keys entries) ∧
      Lint.scanned m group <+: Entries.keys entries ∧
      ∀ lints, (Lint.disabled m).outcome = .ok lints →
        Lint.scanned m group = Entries.keys entries ∧
        ((lints.filter fun lint => lint.group = group).map DisabledLint.rule).Sublist
          (Entries.keys entries)

/-- The scan goes by the order that the tables are in. -/
theorem Manifest.goesBy_of_inOrder {m : Manifest} {statements : List Toml.Statement}
    (ho : (Toml.Value.table m.table).InOrder (Toml.Outline.of statements).mentions) :
    m.GoesBy statements := by
  refine ⟨ho, fun group hgroup entries ht => ?_⟩
  obtain ⟨hp, hall⟩ := Lint.tellsOf_disabled m hgroup
  rw [Lint.rules_of_requireTable ht] at hp hall
  exact ⟨((requireTable_eq_ok_iff.1 ht).inOrder ho).inKeyOrder, hp, fun lints hlints =>
    ⟨hall lints hlints, Lint.sublist_keys_of_outcome hlints hgroup ht⟩⟩

/-- **An accepted manifest goes by the order of its text**, however the statements are spelled in
it. -/
theorem Manifest.goesBy_of_allSpelled {path : Path} {text : String} {m : Manifest}
    {statements : List Toml.Statement} (h : parse path text = .ok m)
    (hs : Toml.AllSpelled .any statements text.toList) : m.GoesBy statements :=
  goesBy_of_inOrder (Toml.Document.inOrder_of_allSpelled (parse_eq_ok_iff.1 h).2 hs)

/-- **The keys of an accepted manifest stand in the order of the document**, at every depth, and
in this order the rules of a group are gone through: all of them if the disabled lints can be had,
and otherwise those before the first one that has no level. -/
theorem Manifest.parse_keeps_key_order {path : Path} {text : String} {m : Manifest}
    (h : parse path text = .ok m) :
    ∃ statements, Toml.Statement.ofText? text.toList = some statements ∧
      (Toml.Value.table m.table).InOrder (Toml.Outline.of statements).mentions ∧
      ∀ group ∈ Lint.groups, ∀ entries,
        m.requireTable (Lint.groupKeys group) = .ok entries →
        Toml.InKeyOrder (Toml.withinAll ((Lint.groupKeys group).map .key)
            (Toml.Outline.of statements).mentions) (Entries.keys entries) ∧
          Lint.scanned m group <+: Entries.keys entries ∧
          ∀ lints, (Lint.disabled m).outcome = .ok lints →
            Lint.scanned m group = Entries.keys entries ∧
            ((lints.filter fun lint => lint.group = group).map DisabledLint.rule).Sublist
              (Entries.keys entries) := by
  obtain ⟨statements, hs, ho⟩ := Toml.Document.inOrder_of_parse? (parse_eq_ok_iff.1 h).2
  exact ⟨statements, hs, ho, (goesBy_of_inOrder ho).rules⟩

/-- A manifest in which a rule is there before it has a header of its own. -/
def Manifest.lateHeader : String :=
  "[workspace.lints.clippy.b.x]\n[workspace.lints.clippy]\nc = 'allow'\n" ++
    "[workspace.lints.clippy.b]\nlevel = 'allow'\n[workspace.lints.rust]\n"

set_option maxRecDepth 2000 in
/-- The rule goes behind those that come before its header. -/
theorem Manifest.parse_keeps_key_order_lateHeader :
    ∃ m, parse ⟨[]⟩ lateHeader = .ok m ∧ Lint.scanned m "clippy" = ["c", "b"] := by
  have hs : Toml.Statement.ofText? lateHeader.toList =
      some [.header ["workspace", "lints", "clippy", "b", "x"],
        .header ["workspace", "lints", "clippy"], .entry ["c"] (.scalar (.string "allow")),
        .header ["workspace", "lints", "clippy", "b"],
        .entry ["level"] (.scalar (.string "allow")), .header ["workspace", "lints", "rust"]] := by
    with_unfolding_all rfl
  obtain ⟨m, hm, clippy, ht, hkeys, lints, hlints⟩ : ∃ m, parse ⟨[]⟩ lateHeader = .ok m ∧
      ∃ clippy, m.requireTable (Lint.groupKeys "clippy") = .ok clippy ∧
        Entries.keys clippy = ["c", "b"] ∧ ∃ lints, (Lint.disabled m).outcome = .ok lints := by
    rw [parse, Toml.Document.parse?, hs]
    exact ⟨_, rfl, _, rfl, rfl, _, rfl⟩
  obtain ⟨_, _, _, order⟩ := parse_keeps_key_order hm
  obtain ⟨-, -, all⟩ := order "clippy" (by decide) clippy ht
  exact ⟨m, hm, (all lints hlints).1.trans hkeys⟩

end WorkspaceFacts
