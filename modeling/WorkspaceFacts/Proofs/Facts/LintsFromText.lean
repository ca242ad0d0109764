import WorkspaceFacts.Proofs.Facts.LintSpelling
import WorkspaceFacts.Proofs.Facts.Lints
import WorkspaceFacts.Proofs.Toml.Reading.Statements

/-!
# The disabled lints of a text

In whatever way the levels of the lints are written
(`WorkspaceFacts.Lint.Arrangement`), the disabled lints of the text are the rules whose
level is `allow`: those of the clippy group and then those of the rust group, each in the
order in which they are written, none left out and none added
(`WorkspaceFacts.Lint.disabled_of_written`).
-/

namespace WorkspaceFacts.Lint

open Toml Toml.Node

/-! ### What the tables hold -/

/-- The settings of a rule in a document. -/
def Setting.table (s : Setting) : Table := s.entries.map fun (key, value) => (key, .scalar value)

theorem Setting.value?_nodes (s : Setting) (origin : Origin) :
    (Node.table origin s.nodes).value? = some (.table s.table) := by
  refine value?_table (entries?_map fun entry _ => rfl) ?_
  rw [nodes, Entries.keys_map]
  exact s.clean

/-- A rule in a document. -/
def Spelling.value : Spelling → Value
  | plain level => .scalar (.string level)
  | dotted level => .table [("level", .scalar (.string level))]
  | inline setting => .table setting.table

theorem Spelling.value?_node (spelling : Spelling) :
    spelling.node.value? = some spelling.value := by
  cases spelling with
  | plain level => rfl
  | dotted level => exact value?_table rfl (by simp [dateTimeKey])
  | inline setting => exact setting.value?_nodes .inline

/-- The rules of a group in a document. -/
def Group.table (g : Group) : Table :=
  g.rules.map (fun (name, spelling) => (name, spelling.value)) ++
    g.sections.map fun (name, setting) => (name, .table setting.table)

theorem Group.value?_nodes (g : Group) (origin : Origin) :
    (Node.table origin g.nodes).value? = some (.table g.table) := by
  refine value?_table (entries?_append ?_ ?_) ?_
  · exact entries?_map fun rule _ => rule.2.value?_node
  · exact entries?_map fun rule _ => rule.2.value?_nodes .header
  · rw [nodes, Entries.keys_append, keys_ruleNodes,
      Entries.keys_map fun setting : Setting => Node.table .header setting.nodes]
    exact g.clean

/-- The tables of both groups have values, which are found under their names. -/
theorem Made.exists_table {first second : String × Group} {made : Node.Entries}
    (h : Made first second made) : ∃ table, Node.entries? made = some table ∧
      Entries.get? table first.1 = some (.table first.2.table) ∧
      Entries.get? table second.1 = some (.table second.2.table) := by
  obtain ⟨origin, ho⟩ := h.first
  obtain ⟨origin', ho'⟩ := h.second
  -- There are no other tables whose values might be missing.
  have hvalues : ∀ key n, (key, n) ∈ made → ∃ v, n.value? = some v := by
    intro key n hmem
    have hget := Entries.get?_of_mem h.nodup hmem
    rcases h.only key (Entries.mem_keys_of_get? hget) with rfl | rfl
    · obtain rfl := Option.some.inj (hget.symm.trans ho)
      exact ⟨_, first.2.value?_nodes origin⟩
    · obtain rfl := Option.some.inj (hget.symm.trans ho')
      exact ⟨_, second.2.value?_nodes origin'⟩
  obtain ⟨table, htable⟩ := exists_entries? hvalues
  obtain ⟨v, hv, hfirst⟩ := get?_of_entries? htable ho
  obtain ⟨v', hv', hsecond⟩ := get?_of_entries? htable ho'
  obtain rfl := Option.some.inj ((first.2.value?_nodes origin).symm.trans hv)
  obtain rfl := Option.some.inj ((second.2.value?_nodes origin').symm.trans hv')
  exact ⟨table, htable, hfirst, hsecond⟩

/-! ### Which rules are selected -/

/-- A table of settings has its level. -/
theorem Setting.get?_level (s : Setting) :
    Entries.get? s.table "level" = some (.scalar (.string s.level)) := by
  refine Entries.get?_of_mem ?_ ?_
  · rw [table, Entries.keys_map]
    exact s.nodup
  · refine List.mem_map.2 ⟨("level", .string s.level), ?_, rfl⟩
    exact List.mem_append_right _ List.mem_cons_self

/-- Whatever else is set for a rule, it has a level. -/
theorem Setting.hasLevel (s : Setting) : HasLevel (.table s.table) := by
  rintro inner ⟨⟩
  exact ⟨_, s.get?_level⟩

theorem Setting.disables_table (s : Setting) :
    disables (.table s.table) = decide (s.level = "allow") := by
  rw [disables, s.get?_level]
  simp [Value.string?]

theorem Spelling.hasLevel (spelling : Spelling) : HasLevel spelling.value := by
  cases spelling with
  | plain level => exact nofun
  | dotted level =>
    rintro inner ⟨⟩
    exact ⟨_, rfl⟩
  | inline setting => exact setting.hasLevel

theorem Spelling.disables_value (spelling : Spelling) :
    disables spelling.value = decide (spelling.level = "allow") := by
  cases spelling with
  | plain level => rfl
  | dotted level =>
    have hget : Entries.get? [("level", Value.scalar (.string level))] "level" =
        some (.scalar (.string level)) := rfl
    show _ = decide (level = "allow")
    rw [value, disables, hget]
    simp [Value.string?]
  | inline setting => exact setting.disables_table

/-- All rules of a group have a level. -/
theorem Group.levelled (g : Group) : Levelled g.table := by
  intro entry hentry
  rcases List.mem_append.1 hentry with h | h
  · obtain ⟨rule, -, rfl⟩ := List.mem_map.1 h
    exact rule.2.hasLevel
  · obtain ⟨rule, -, rfl⟩ := List.mem_map.1 h
    exact rule.2.hasLevel

/-- The rules are selected one by one. -/
theorem selected_append (name : String) (table table' : Table) :
    selected name (table ++ table') = selected name table ++ selected name table' := by
  rw [selected, List.filter_append, List.map_append]
  rfl

/-- What is selected of a list of rules is what their levels say. -/
theorem selected_map {α : Type} {value : α → Value} {level : α → String}
    (h : ∀ a, disables (value a) = decide (level a = "allow")) (name : String)
    (all : List (String × α)) :
    selected name (all.map fun (rule, a) => (rule, value a)) =
      (((all.map fun (rule, a) => (rule, level a)).filter (·.2 = "allow")).map (·.1)).map
        (⟨name, ·⟩) := by
  induction all with
  | nil => rfl
  | cons a all ih =>
    rw [List.map_cons, selected_cons, ih, List.map_cons, List.filter_cons, h]
    split <;> simp_all

/-- **The rules that are selected** are those that are written with the level `allow`. -/
theorem Group.selected_table (g : Group) (name : String) :
    selected name g.table = g.allowed.map (⟨name, ·⟩) := by
  rw [table, selected_append, allowed, levels, List.filter_append, List.map_append,
    List.map_append]
  exact congrArg₂ (· ++ ·) (selected_map Spelling.disables_value name g.rules)
    (selected_map Setting.disables_table name g.sections)

/-! ### How deep it goes -/

/-- All assigned terms go down at most some number of levels. -/
def DepthLe (limit : Nat) (assigned : List (List String × Term)) : Prop :=
  ∀ a ∈ assigned, a.2.depth ≤ limit

theorem DepthLe.table {limit : Nat} {assigned : List (List String × Term)}
    (h : DepthLe limit assigned) : (TermOf.table assigned).depth ≤ limit + 1 := by
  have hmax : TermOf.assignmentsDepth assigned ≤ limit := by
    induction assigned with
    | nil => exact Nat.zero_le _
    | cons a assigned ih =>
      have ha : a.2.depth ≤ limit := h a List.mem_cons_self
      have hrest := ih fun b hb => h b (List.mem_cons_of_mem _ hb)
      exact Nat.max_le.2 ⟨ha, hrest⟩
  rw [TermOf.depth]
  omega

theorem DepthLe.mono {limit limit' : Nat} {assigned : List (List String × Term)}
    (h : DepthLe limit assigned) (hle : limit ≤ limit') : DepthLe limit' assigned :=
  fun a ha => Nat.le_trans (h a ha) hle

theorem DepthLe.cons_path {limit : Nat} {assigned : List (List String × Term)}
    (h : DepthLe limit assigned) (path' : List String) :
    DepthLe limit (assigned.map fun (path, t) => (path' ++ path, t)) := by
  intro a ha
  obtain ⟨b, hb, rfl⟩ := List.mem_map.1 ha
  exact h b hb

theorem DepthLe.statements {limit : Nat} {assigned : List (List String × Term)}
    (h : DepthLe limit assigned) :
    ∀ statement ∈ Draft.assignments assigned, statement.depth ≤ limit := by
  intro statement hs
  obtain ⟨a, ha, rfl⟩ := List.mem_map.1 hs
  exact h a ha

theorem Setting.depthLe (s : Setting) : DepthLe 0 s.assigned := by
  intro a ha
  obtain ⟨entry, -, rfl⟩ := List.mem_map.1 ha
  exact Nat.le_refl _

theorem Group.depthLe (g : Group) : DepthLe 1 g.assigned := by
  intro a ha
  obtain ⟨⟨name, spelling⟩, -, rfl⟩ := List.mem_map.1 ha
  cases spelling with
  | plain level => exact Nat.zero_le _
  | dotted level => exact Nat.zero_le _
  | inline setting => exact setting.depthLe.table

theorem Group.depth_inlined (g : Group) (name : String) : (g.inlined name).2.depth ≤ 2 :=
  g.depthLe.table

theorem Group.depthLe_dotted (g : Group) (name : String) : DepthLe 2 (g.dotted name) := by
  rw [dotted]
  split
  · intro a ha
    obtain rfl := List.mem_singleton.1 ha
    exact g.depth_inlined name
  · exact (g.depthLe.mono (by decide)).cons_path [name]

theorem Group.depth_blocks (g : Group) (name : String) :
    ∀ block ∈ g.blocks name, ∀ statement ∈ block, statement.depth ≤ 1 := by
  have hblock : ∀ {assigned path}, DepthLe 1 assigned →
      ∀ statement ∈ StatementOf.header path :: Draft.assignments assigned, statement.depth ≤ 1 :=
    fun h => List.forall_mem_cons.2 ⟨Nat.zero_le _, h.statements⟩
  intro block hb
  rcases List.mem_cons.1 hb with rfl | hb
  · exact hblock g.depthLe
  · obtain ⟨⟨rule, setting⟩, -, rfl⟩ := List.mem_map.1 hb
    exact hblock (setting.depthLe.mono (by decide))

theorem Scope.depth_statements {assigned : List (List String × Term)} {limit : Nat}
    (h : DepthLe limit assigned) (scope : Scope) :
    ∀ statement ∈ scope.statements assigned, statement.depth ≤ limit := by
  cases scope with
  | lints => exact List.forall_mem_cons.2 ⟨Nat.zero_le _, h.statements⟩
  | workspace => exact List.forall_mem_cons.2 ⟨Nat.zero_le _, (h.cons_path ["lints"]).statements⟩
  | top => exact (h.cons_path ["workspace", "lints"]).statements

theorem depthLe_inlined (first second : String × Group) :
    DepthLe 2 [first.2.inlined first.1, second.2.inlined second.1] := by
  intro a ha
  rcases List.mem_pair.1 ha with rfl | rfl
  · exact first.2.depth_inlined first.1
  · exact second.2.depth_inlined second.1

/-- No arrangement goes down further than the nesting limit. -/
theorem Arrangement.depth_le (a : Arrangement) :
    ∀ statement ∈ a.statements, statement.depth ≤ nestingLimit := by
  have hthree : ∀ statement ∈ a.statements, statement.depth ≤ 3 := by
    rw [statements]
    cases a.placement with
    | sections schedule =>
      intro statement hs
      obtain ⟨block, hb, hs⟩ := List.mem_flatten.1 hs
      have hone : statement.depth ≤ 1 := by
        rcases (interleaves_merge schedule _ _).mem hb with hb | hb
        · exact a.first.2.depth_blocks _ block hb statement hs
        · exact a.second.2.depth_blocks _ block hb statement hs
      omega
    | dotted scope =>
      refine Scope.depth_statements (DepthLe.mono (fun b hb => ?_) (show 2 ≤ 3 by decide)) scope
      rcases List.mem_append.1 hb with hb | hb
      · exact a.first.2.depthLe_dotted _ b hb
      · exact a.second.2.depthLe_dotted _ b hb
    | inline scope =>
      exact Scope.depth_statements ((depthLe_inlined a.first a.second).mono (by decide)) scope
    | nested =>
      refine List.forall_mem_cons.2 ⟨Nat.zero_le _, DepthLe.statements fun b hb => ?_⟩
      obtain rfl := List.mem_singleton.1 hb
      exact (depthLe_inlined a.first a.second).table
  intro statement hs
  exact Nat.le_trans (hthree statement hs) (by decide)

/-! ### From a text to its disabled lints -/

/-- The statements of an arrangement make a document with the tables of both groups in
it. -/
theorem Arrangement.exists_table (a : Arrangement) : ∃ table,
    Document.ofStatements? a.statements = some table ∧
      Sets table "clippy" a.clippy.table ∧ Sets table "rust" a.rust.table := by
  obtain ⟨target, outer, inner, made, hadd, hm⟩ := a.exists_draft
  obtain ⟨groups, hgroups, hfirst, hsecond⟩ := hm.exists_table
  have hclean : dateTimeKey ∉ Entries.keys made := by
    intro hmem
    rcases hm.only _ hmem with h | h
    · rw [first] at h
      split at h <;> simp [dateTimeKey] at h
    · rw [second] at h
      split at h <;> simp [dateTimeKey] at h
  have hlints : (Node.table inner made).value? = some (.table groups) := value?_table hgroups hclean
  have hroot : (Node.table outer [("lints", .table inner made)]).value? =
      some (.table [("lints", .table groups)]) :=
    value?_table (entries?_cons_eq_some_iff.2 ⟨_, [], hlints, rfl, rfl⟩) (by simp [dateTimeKey])
  refine ⟨[("workspace", .table [("lints", .table groups)])], ?_, ?_⟩
  · rw [Document.ofStatements?, hadd, Option.bind_some]
    exact entries?_cons_eq_some_iff.2 ⟨_, [], hroot, rfl, rfl⟩
  have hsets : ∀ name (g : Group), Entries.get? groups name = some (.table g.table) →
      Sets [("workspace", .table [("lints", .table groups)])] name g.table :=
    fun name g hget => ⟨.through rfl (.through rfl (.last hget)), g.levelled⟩
  -- The look-up goes by names, so it does not matter which group comes first.
  rw [first] at hfirst
  rw [second] at hsecond
  split at hfirst
  · next h =>
    rw [if_pos h] at hsecond
    exact ⟨hsets _ _ hsecond, hsets _ _ hfirst⟩
  · next h =>
    rw [if_neg h] at hsecond
    exact ⟨hsets _ _ hfirst, hsets _ _ hsecond⟩

/-- **The disabled lints of a text.** However the levels are written, the text is a document
and its disabled lints are the rules with the level `allow`, those of clippy first, each
group in its order; they are shown with their prefix and with commas between them. -/
theorem disabled_of_written (a : Arrangement) (path : Path) {text : List Char}
    (h : AllSpelled .any a.statements text) :
    ∃ m, Manifest.parse path (String.ofList text) = .ok m ∧
      ∃ lints, (disabled m).outcome = .ok lints ∧
        lints = a.clippy.allowed.map (⟨"clippy", ·⟩) ++ a.rust.allowed.map (⟨"rust", ·⟩) ∧
        DisabledLint.displayAll lints =
          ",".intercalate ((a.clippy.allowed ++ a.rust.allowed).map ("clippy::" ++ ·)) := by
  have hread := Statement.ofText?_of_allSpelled h
  rw [if_pos a.depth_le] at hread
  obtain ⟨table, htable, hclippy, hrust⟩ := a.exists_table
  have hparse : Document.parse? (String.ofList text) = some table := by
    rw [Document.parse?, String.toList_ofList, hread, Option.bind_some, htable]
  refine ⟨⟨path, table⟩, Manifest.parse_eq_ok_iff.2 ⟨rfl, hparse⟩, _, ?_, rfl, ?_⟩
  · refine outcome_disabled_eq_ok_iff.2 ⟨_, _, hclippy, hrust, ?_⟩
    rw [Group.selected_table, Group.selected_table]
  · rw [DisabledLint.displayAll, List.map_append, List.map_map, List.map_map, List.map_append]
    rfl

/-- Both groups by dotted keys under `[workspace]`, that of rust first. -/
def dottedArrangement : Arrangement where
  placement := .dotted .workspace
  rustFirst := true
  clippy := ⟨[("c", .plain "allow"), ("d", .plain "deny")], [], by decide, by decide⟩
  rust := ⟨[("a b", .dotted "allow")], [], by decide, by decide⟩
  sections := .inr ⟨rfl, rfl⟩

/-- The rules of `dottedArrangement` that are allowed, although clippy comes second and a key
is quoted. -/
theorem disabled_of_written_dotted :
    ∃ m, Manifest.parse ⟨[]⟩ ("[workspace]\nlints.rust.\"a b\".level = \"allow\"\n" ++
          "lints.clippy.c = \"allow\"\nlints.clippy.d = \"deny\"\n") = .ok m ∧
      (disabled m).outcome = .ok [⟨"clippy", "c"⟩, ⟨"rust", "a b"⟩] := by
  have hno := isBlankText_nil
  have hone := isBlankText_space
  have hbare : ∀ key : String, key.toList ≠ [] → key.toList.all isBareKeyChar →
      KeySpelled key key.toList := fun key => keySpelled_bare
  have hstring : ∀ text, Scalar.Spelled (.string text) (Quotation.quote text) := fun text =>
    .string (.line (Quotation.lineSpelled_quote text))
  have hlints := hbare "lints" (by decide) rfl
  have hclippy := hbare "clippy" (by decide) rfl
  have hworkspace : ShortPathSpelled ["workspace"] "workspace".toList :=
    ⟨.last hno (hbare "workspace" (by decide) rfl) hno, by decide⟩
  have hlevel : ShortPathSpelled ["lints", "rust", "a b", "level"]
      "lints.rust.\"a b\".level ".toList :=
    ⟨.cons hno hlints hno (.cons hno (hbare "rust" (by decide) rfl) hno
      (.cons hno (.quoted (Quotation.lineSpelled_quote "a b")) hno
        (.last hno (hbare "level" (by decide) rfl) hone))), by decide⟩
  have hrule : ∀ key : String, key.toList ≠ [] → key.toList.all isBareKeyChar →
      ShortPathSpelled ["lints", "clippy", key]
        ("lints.clippy.".toList ++ ([] ++ key.toList ++ [' '])) :=
    fun key hne hc => ⟨.cons hno hlints hno (.cons hno hclippy hno
      (.last hno (hbare key hne hc) hone)), by simp [keyLimit]⟩
  have hentry : ∀ {keys text} (level : String), ShortPathSpelled keys text →
      StatementOf.Spelled .any (.entry keys (.scalar (.string level)))
        (text ++ '=' :: ([' '] ++ Quotation.quote level)) := fun level h =>
    .entry h hone (.scalar (hstring level))
  have hheader : StatementOf.Spelled .any (.header ["workspace"]) _ := .header hworkspace
  have hend : EndsLine [] := .blanks hno
  have hall : AllSpelled .any dottedArrangement.statements _ :=
    .cons .nil hheader hend (.cons .nil (hentry "allow" hlevel) hend
      (.cons .nil (hentry "allow" (hrule "c" (by decide) rfl)) hend
        (.cons .nil (hentry "deny" (hrule "d" (by decide) rfl)) hend (.nil .nil hend))))
  obtain ⟨m, hm, lints, hlints, rfl, -⟩ := disabled_of_written dottedArrangement ⟨[]⟩ hall
  exact ⟨m, hm, hlints⟩

end WorkspaceFacts.Lint
