import WorkspaceFacts.Lint
import WorkspaceFacts.Proofs.Toml.Assembling

/-!
# The ways of writing the levels of lints

The same levels can be written in many ways: a rule by its level alone, by an inline table,
by a dotted key or by a section of its own, a group by a section, by dotted keys or by an
inline table, and these under headers of different length or under none. This file has
these ways as data (`WorkspaceFacts.Lint.Arrangement`) with the statements that each comes
to, and the draft that the statements put together. Only how the tables of a draft came
about depends on the way; what is in them does not
(`WorkspaceFacts.Lint.Arrangement.exists_draft`).
-/

namespace WorkspaceFacts.Lint

open Toml Toml.Node

/-! ### One rule -/

/-- The level of a rule among other settings of that rule. -/
structure Setting where
  before : List (String × Scalar)
  level : String
  after : List (String × Scalar)
  /-- The keys are distinct. -/
  nodup : (Entries.keys (before ++ ("level", .string level) :: after)).Nodup
  /-- No key makes the table stand for a date-time. -/
  clean : dateTimeKey ∉ Entries.keys (before ++ ("level", .string level) :: after)

/-- The settings of a rule, the level included. -/
def Setting.entries (s : Setting) : List (String × Scalar) :=
  s.before ++ ("level", .string s.level) :: s.after

/-- **The ways of writing a rule** within the section or the table of its group. -/
inductive Spelling
  /-- `name = "level"` -/
  | plain (level : String)
  /-- `name.level = "level"` -/
  | dotted (level : String)
  /-- `name = {…, level = "level", …}` -/
  | inline (setting : Setting)

namespace Spelling

/-- The level that is written. -/
def level : Spelling → String
  | plain level => level
  | dotted level => level
  | inline setting => setting.level

end Spelling

/-- Settings as assignments. -/
def Setting.assigned (s : Setting) : List (List String × Term) :=
  s.entries.map fun (key, value) => ([key], .scalar value)

/-- The assignment that a rule is written as. -/
def Spelling.assigned (name : String) : Spelling → List String × Term
  | plain level => ([name], .scalar (.string level))
  | dotted level => ([name, "level"], .scalar (.string level))
  | inline setting => ([name], .table setting.assigned)

/-! ### One group -/

/-- **The rules of a group**: those that are written within its section or table, and those
with a section of their own. -/
structure Group where
  rules : List (String × Spelling)
  sections : List (String × Setting)
  /-- The names are distinct. -/
  nodup : (Entries.keys rules ++ Entries.keys sections).Nodup
  /-- No name makes the table stand for a date-time. -/
  clean : dateTimeKey ∉ Entries.keys rules ++ Entries.keys sections

namespace Group

/-- The rules of a group with their levels, in order. -/
def levels (g : Group) : List (String × String) :=
  g.rules.map (fun (name, spelling) => (name, spelling.level)) ++
    g.sections.map fun (name, setting) => (name, setting.level)

/-- The rules of a group that are allowed, in order. -/
def allowed (g : Group) : List String := (g.levels.filter (·.2 = "allow")).map (·.1)

/-- The assignments to the table of a group. -/
def assigned (g : Group) : List (List String × Term) :=
  g.rules.map fun (name, spelling) => spelling.assigned name

/-- A group as one inline table. -/
def inlined (name : String) (g : Group) : List String × Term := ([name], .table g.assigned)

/-- A group by dotted keys, an empty one by an empty table. -/
def dotted (name : String) (g : Group) : List (List String × Term) :=
  if g.rules = [] then [g.inlined name]
  else g.assigned.map fun (path, t) => (name :: path, t)

/-- A group by sections: one for the group and one for each of the rules that have their
own. -/
def blocks (name : String) (g : Group) : List (List Statement) :=
  (.header ["workspace", "lints", name] :: Draft.assignments g.assigned) ::
    g.sections.map fun (rule, setting) =>
      .header ["workspace", "lints", name, rule] :: Draft.assignments setting.assigned

end Group

/-! ### Both groups -/

/-- The header that the groups stand under; the rest of the way is in their keys. -/
inductive Scope
  /-- `[workspace.lints]` -/
  | lints
  /-- `[workspace]` -/
  | workspace
  /-- No header. -/
  | top

/-- **Where the groups are written.** -/
inductive Placement
  /-- Sections. Those of the two groups may alternate, as the schedule says. -/
  | sections (schedule : List Bool)
  /-- Dotted keys. -/
  | dotted (scope : Scope)
  /-- An inline table for each group. -/
  | inline (scope : Scope)
  /-- One inline table for both, under `[workspace]`. -/
  | nested

/-- The assignments of a scope: those to the table of the lints, with the header before
them and with what the header leaves of the way in front of their paths. -/
def Scope.statements (assigned : List (List String × Term)) : Scope → List Statement
  | lints => .header ["workspace", "lints"] :: Draft.assignments assigned
  | workspace => .header ["workspace"] ::
      Draft.assignments (assigned.map fun (path, t) => ("lints" :: path, t))
  | top => Draft.assignments (assigned.map fun (path, t) => ("workspace" :: "lints" :: path, t))

/-- Two lists merged into one. The schedule says for one item after the other whether it
comes from the second list; where it ends, the rest of the first list comes first. -/
def merge {α : Type} : List Bool → List α → List α → List α
  | [], first, second => first ++ second
  | false :: schedule, a :: first, second => a :: merge schedule first second
  | true :: schedule, first, b :: second => b :: merge schedule first second
  | _ :: schedule, first, second => merge schedule first second

/-- The statements for two groups that are written in some place. -/
def Placement.statements (first second : String × Group) : Placement → List Statement
  | sections schedule =>
    (merge schedule (first.2.blocks first.1) (second.2.blocks second.1)).flatten
  | dotted scope => scope.statements (first.2.dotted first.1 ++ second.2.dotted second.1)
  | inline scope => scope.statements [first.2.inlined first.1, second.2.inlined second.1]
  | nested => .header ["workspace"] :: Draft.assignments
      [(["lints"], .table [first.2.inlined first.1, second.2.inlined second.1])]

/-- **A way of writing the levels of both groups.** Only a group with a section of its own
can have sections for its rules. -/
structure Arrangement where
  placement : Placement
  /-- Whether the rust group comes first. -/
  rustFirst : Bool
  clippy : Group
  rust : Group
  sections : (∃ schedule, placement = .sections schedule) ∨
    clippy.sections = [] ∧ rust.sections = []

namespace Arrangement

/-- The group that is written first, with its name. -/
def first (a : Arrangement) : String × Group :=
  if a.rustFirst then ("rust", a.rust) else ("clippy", a.clippy)

/-- The group that is written second, with its name. -/
def second (a : Arrangement) : String × Group :=
  if a.rustFirst then ("clippy", a.clippy) else ("rust", a.rust)

/-- The statements of an arrangement. -/
def statements (a : Arrangement) : List Statement := a.placement.statements a.first a.second

end Arrangement

/-! ### What a group puts together -/

/-- The settings of a rule in a draft. -/
def Setting.nodes (s : Setting) : Node.Entries :=
  s.entries.map fun (key, value) => (key, .scalar value)

theorem Setting.assignedNodes?_assigned (s : Setting) :
    Term.assignedNodes? s.assigned = some (singles s.nodes) := by
  rw [Setting.assigned, Setting.nodes]
  induction s.entries with
  | nil => rfl
  | cons entry entries ih =>
    rw [List.map_cons, Term.assignedNodes?, ih]
    rfl

theorem Setting.assignAll_nodes (s : Setting) : assignAll (singles s.nodes) [] = some s.nodes := by
  refine assignAll_singles ?_
  rw [nodes, Entries.keys_map]
  exact s.nodup

theorem Setting.node?_table (s : Setting) :
    Term.node? (.table s.assigned) = some (.table .inline s.nodes) := by
  rw [Term.node?, s.assignedNodes?_assigned, Option.bind_some, s.assignAll_nodes, Option.map_some]

/-- A rule in a draft. -/
def Spelling.node : Spelling → Node
  | plain level => .scalar (.string level)
  | dotted level => .table .dotted [("level", .scalar (.string level))]
  | inline setting => .table .inline setting.nodes

/-- The assignment of a rule, with its node. -/
def Spelling.assignedNode (name : String) : Spelling → List String × Node
  | plain level => ([name], .scalar (.string level))
  | dotted level => ([name, "level"], .scalar (.string level))
  | inline setting => ([name], .table .inline setting.nodes)

namespace Group

/-- The rules within the section or the table of a group, in a draft. -/
def ruleNodes (g : Group) : Node.Entries :=
  g.rules.map fun (name, spelling) => (name, spelling.node)

/-- All rules of a group in a draft. -/
def nodes (g : Group) : Node.Entries :=
  g.ruleNodes ++ g.sections.map fun (name, setting) => (name, .table .header setting.nodes)

/-- The assignments to the table of a group, with their nodes. -/
def assignedNodes (g : Group) : List (List String × Node) :=
  g.rules.map fun (name, spelling) => spelling.assignedNode name

theorem assignedNodes?_assigned (g : Group) :
    Term.assignedNodes? g.assigned = some g.assignedNodes := by
  rw [assigned, assignedNodes]
  induction g.rules with
  | nil => rfl
  | cons rule rules ih =>
    obtain ⟨name, spelling⟩ := rule
    cases spelling with
    | plain level => exact assignedNodes?_cons rfl ih
    | dotted level => exact assignedNodes?_cons rfl ih
    | inline setting => exact assignedNodes?_cons setting.node?_table ih

theorem madeAll_assignedNodes (g : Group) : madeAll g.assignedNodes = g.ruleNodes := by
  rw [assignedNodes, ruleNodes]
  induction g.rules with
  | nil => rfl
  | cons rule rules ih =>
    obtain ⟨name, spelling⟩ := rule
    rw [List.map_cons, List.map_cons, ← ih]
    cases spelling <;> rfl

theorem ne_nil_of_mem_assignedNodes (g : Group) : ∀ a ∈ g.assignedNodes, a.1 ≠ [] := by
  intro a ha
  obtain ⟨⟨name, spelling⟩, -, rfl⟩ := List.mem_map.1 ha
  cases spelling <;> exact List.cons_ne_nil _ _

theorem keys_ruleNodes (g : Group) : Entries.keys g.ruleNodes = Entries.keys g.rules := by
  rw [ruleNodes, Entries.keys_map]

/-- **The rules of a group** make the entries of its table, each where it is written. -/
theorem assignAll_assignedNodes (g : Group) : assignAll g.assignedNodes [] = some g.ruleNodes := by
  rw [assignAll_new g.ne_nil_of_mem_assignedNodes, madeAll_assignedNodes, List.nil_append]
  rw [madeAll_assignedNodes, List.nil_append, keys_ruleNodes]
  exact (List.nodup_append.1 g.nodup).1

theorem node?_inlined (g : Group) (name : String) :
    (g.inlined name).2.node? = some (.table .inline g.ruleNodes) := by
  rw [inlined, Term.node?, assignedNodes?_assigned, Option.bind_some, assignAll_assignedNodes,
    Option.map_some]

end Group

/-! ### What both groups put together -/

/-- **The tables of both groups**, of whatever origin, and nothing else. -/
structure Made (first second : String × Group) (made : Node.Entries) : Prop where
  nodup : (Entries.keys made).Nodup
  only : ∀ key ∈ Entries.keys made, key = first.1 ∨ key = second.1
  first : ∃ origin, Entries.get? made first.1 = some (.table origin first.2.nodes)
  second : ∃ origin, Entries.get? made second.1 = some (.table origin second.2.nodes)

section Pairs

variable {first second : String × Group} {made : Node.Entries}

theorem Made.ne_nil (h : Made first second made) : made ≠ [] := by
  rintro rfl
  obtain ⟨origin, ho⟩ := h.first
  cases ho

/-- The tables of both groups, one after the other. -/
theorem made_pair (hne : first.1 ≠ second.1) (origin origin' : Origin) :
    Made first second [(first.1, .table origin first.2.nodes),
      (second.1, .table origin' second.2.nodes)] where
  nodup := by simpa using hne
  only key hkey := by simpa using hkey
  first := ⟨origin, if_pos rfl⟩
  second := ⟨origin', by rw [Entries.get?_cons, if_neg hne]; exact if_pos rfl⟩

theorem Group.nodes_of_sections_eq_nil {g : Group} (h : g.sections = []) :
    g.nodes = g.ruleNodes := by
  rw [nodes, h, List.map_nil, List.append_nil]

/-- A group by dotted keys adds its table. -/
theorem Group.exists_dotted (g : Group) (name : String) (hs : g.sections = []) :
    ∃ nodes origin, Term.assignedNodes? (g.dotted name) = some nodes ∧
      (∀ a ∈ nodes, a.1 ≠ []) ∧ ∀ made, Entries.get? made name = none →
        assignAll nodes made = some (made ++ [(name, .table origin g.nodes)]) := by
  rw [nodes_of_sections_eq_nil hs, dotted]
  split
  · refine ⟨_, .inline, assignedNodes?_cons (g.node?_inlined name) rfl, by simp, ?_⟩
    intro made hnew
    rw [assignAll, assign_new hnew]
    rfl
  · next hr =>
    refine ⟨_, .dotted, assignedNodes?_under name g.assignedNodes?_assigned,
      ne_nil_of_mem_under, fun made hnew => ?_⟩
    have hnil : g.assignedNodes ≠ [] := by simpa [assignedNodes] using hr
    rw [assignAll_under hnil g.ne_nil_of_mem_assignedNodes hnew, g.assignAll_assignedNodes,
      Option.map_some]

/-- Both groups by dotted keys. -/
theorem exists_made_dotted (hne : first.1 ≠ second.1) (hf : first.2.sections = [])
    (hs : second.2.sections = []) : ∃ nodes made,
      Term.assignedNodes? (first.2.dotted first.1 ++ second.2.dotted second.1) = some nodes ∧
        (∀ a ∈ nodes, a.1 ≠ []) ∧ assignAll nodes [] = some made ∧ Made first second made := by
  obtain ⟨nodes, origin, hnodes, hpaths, hfirst⟩ := first.2.exists_dotted first.1 hf
  obtain ⟨nodes', origin', hnodes', hpaths', hsecond⟩ := second.2.exists_dotted second.1 hs
  refine ⟨nodes ++ nodes', _, assignedNodes?_append hnodes hnodes', ?_, ?_,
    made_pair hne origin origin'⟩
  · intro a ha
    rcases List.mem_append.1 ha with ha | ha
    · exact hpaths a ha
    · exact hpaths' a ha
  · have hnew : Entries.get? ([] ++ [(first.1, Node.table origin first.2.nodes)]) second.1 = none :=
      if_neg hne
    rw [assignAll_append, hfirst [] rfl, Option.bind_some, hsecond _ hnew]
    rfl

/-- Both groups by inline tables. -/
theorem exists_made_inlined (hne : first.1 ≠ second.1) (hf : first.2.sections = [])
    (hs : second.2.sections = []) : ∃ made,
      Term.assignedNodes? [first.2.inlined first.1, second.2.inlined second.1] =
        some (singles made) ∧ assignAll (singles made) [] = some made ∧
          Made first second made := by
  have hm := made_pair hne .inline .inline
  refine ⟨_, ?_, assignAll_singles hm.nodup, hm⟩
  rw [Group.nodes_of_sections_eq_nil hf, Group.nodes_of_sections_eq_nil hs]
  exact assignedNodes?_cons (first.2.node?_inlined first.1)
    (assignedNodes?_cons (second.2.node?_inlined second.1) rfl)

end Pairs

/-! ### What all statements put together -/

/-- The draft of a document that has nothing but the groups. -/
def rootOf (outer inner : Origin) (made : Node.Entries) : Node.Entries :=
  [("workspace", .table outer [("lints", .table inner made)])]

/-- A change of the only table. -/
theorem change_only {f : Node.Entries → Option Node.Entries} {key : String} {origin : Origin}
    {inner : Node.Entries} (ho : origin ≠ .inline) :
    change f key [(key, .table origin inner)] =
      (f inner).map fun inner => [(key, .table origin inner)] := by
  rw [← List.nil_append [(key, Node.table origin inner)], change_last ho rfl]
  rfl

theorem changeAt_rootOf {f : Node.Entries → Option Node.Entries} {outer inner : Origin}
    {made : Node.Entries} (ho : outer ≠ .inline) (hi : inner ≠ .inline) (path : List String) :
    changeAt f ("workspace" :: "lints" :: path) (rootOf outer inner made) =
      (changeAt f path made).map (rootOf outer inner) := by
  rw [changeAt, rootOf, change_only ho, changeAt, change_only hi]
  cases changeAt f path made <;> rfl

/-- Groups that are written in a scope. -/
theorem Scope.exists_draft (scope : Scope) {assigned : List (List String × Term)}
    {nodes : List (List String × Node)} {made : Node.Entries}
    (ha : Term.assignedNodes? assigned = some nodes) (hne : ∀ a ∈ nodes, a.1 ≠ [])
    (h : assignAll nodes [] = some made) (hmade : made ≠ []) : ∃ target outer inner,
      Draft.addAll (scope.statements assigned) .empty = some ⟨rootOf outer inner made, target⟩ := by
  have hnodes : nodes ≠ [] := by
    rintro rfl
    exact hmade (Option.some.inj h).symm
  have hn : assigned ≠ [] := by
    rintro rfl
    exact hnodes (Option.some.inj ha).symm
  have hlints : assignAll (under "lints" nodes) [] = some [("lints", .table .dotted made)] := by
    rw [assignAll_under hnodes hne rfl, h]
    rfl
  have hunder : under "lints" nodes ≠ [] := by simpa [under] using hnodes
  cases scope with
  | lints =>
    refine ⟨["workspace", "lints"], .implied, .header, ?_⟩
    show Draft.addAll (Draft.assignments assigned)
      ⟨rootOf .implied .header [], ["workspace", "lints"]⟩ = _
    refine Draft.addAll_assignments_last hn ha ?_
    rw [changeAt_rootOf (by decide) (by decide), changeAt, h, Option.map_some]
  | workspace =>
    refine ⟨["workspace"], .header, .dotted, ?_⟩
    show Draft.addAll (Draft.assignments (assigned.map fun (path, t) => ("lints" :: path, t)))
      ⟨[("workspace", .table .header [])], ["workspace"]⟩ = _
    refine Draft.addAll_assignments_last (by simpa using hn) (assignedNodes?_under "lints" ha) ?_
    rw [changeAt, change_only (by decide), changeAt, hlints, Option.map_some]
    rfl
  | top =>
    -- The two keys in front are put there one after the other.
    refine ⟨[], .dotted, .dotted, ?_⟩
    have hmap : assigned.map (fun (path, t) => ("workspace" :: "lints" :: path, t)) =
        (assigned.map fun (path, t) => ("lints" :: path, t)).map
          fun (path, t) => ("workspace" :: path, t) := by
      rw [List.map_map]
      rfl
    show Draft.addAll (Draft.assignments (assigned.map fun (path, t) =>
      ("workspace" :: "lints" :: path, t))) ⟨[], []⟩ = _
    rw [hmap]
    refine Draft.addAll_assignments_last (by simpa using hn)
      (assignedNodes?_under "workspace" (assignedNodes?_under "lints" ha)) ?_
    rw [changeAt, assignAll_under hunder ne_nil_of_mem_under rfl, hlints]
    rfl

/-! ### Sections -/

/-- **A block of statements advances a group.** Whatever else has been put together, it
takes the table of the group from one state to another (`none` before the table is there)
and leaves the other tables alone. -/
def Advances (name : String) (acc : Option Node.Entries) (block : List Statement)
    (acc' : Option Node.Entries) : Prop :=
  ∀ (made : Node.Entries) (rest : List Statement) (target : List String),
    (Entries.keys made).Nodup → Entries.get? made name = acc.map (.table .header) →
    ∃ made' target',
      Draft.addAll (block ++ rest) ⟨rootOf .implied .implied made, target⟩ =
        Draft.addAll rest ⟨rootOf .implied .implied made', target'⟩ ∧
      (Entries.keys made').Nodup ∧
      (∀ key ∈ Entries.keys made', key = name ∨ key ∈ Entries.keys made) ∧
      Entries.get? made' name = acc'.map (.table .header) ∧
      ∀ other, name ≠ other → Entries.get? made' other = Entries.get? made other

variable {name rule : String} {acc : Node.Entries}

/-- The section of the group itself makes its table. -/
theorem Group.advances (g : Group) : Advances name none
    (.header ["workspace", "lints", name] :: Draft.assignments g.assigned) (some g.ruleNodes) := by
  intro made rest target hd hnew
  have hnew : Entries.get? made name = none := hnew
  have hpath : declare ["workspace", "lints", name] =
      changeAt (declare [name]) ["workspace", "lints"] :=
    @declare_append ["workspace", "lints"] [name] (List.cons_ne_nil _ _)
  have hheader : Draft.add ⟨rootOf .implied .implied made, target⟩
      (.header ["workspace", "lints", name]) =
      some ⟨rootOf .implied .implied (made ++ [(name, .table .header [])]),
        ["workspace", "lints", name]⟩ := by
    rw [Draft.add, hpath, changeAt_rootOf (by decide) (by decide), changeAt, declare, hnew]
    rfl
  have hrules : Draft.addAll (Draft.assignments g.assigned ++ rest)
      ⟨rootOf .implied .implied (made ++ [(name, .table .header [])]),
        ["workspace", "lints", name]⟩ =
      Draft.addAll rest ⟨rootOf .implied .implied (made ++ [(name, .table .header g.ruleNodes)]),
        ["workspace", "lints", name]⟩ := by
    -- Without rules nothing is assigned, and the table stays empty.
    by_cases hr : g.rules = []
    · rw [assigned, ruleNodes, hr]
      rfl
    · rw [Draft.addAll_assignments (by simpa [assigned] using hr) g.assignedNodes?_assigned,
        changeAt_rootOf (by decide) (by decide), changeAt, change_last (by decide) hnew, changeAt,
        g.assignAll_assignedNodes]
      rfl
  refine ⟨made ++ [(name, .table .header g.ruleNodes)], ["workspace", "lints", name], ?_, ?_, ?_,
    Entries.get?_append_self hnew, fun other => Entries.get?_append_of_ne⟩
  · rw [List.cons_append, Draft.addAll, hheader, Option.bind_some, hrules]
  · rw [Entries.keys_append, List.nodup_append]
    refine ⟨hd, List.nodup_singleton _, fun a ha b hb => ?_⟩
    obtain rfl := List.mem_singleton.1 hb
    exact fun he => Entries.get?_eq_none_iff.1 hnew (he ▸ ha)
  · intro key hkey
    rw [Entries.keys_append, List.mem_append] at hkey
    rcases hkey with hkey | hkey
    · exact .inr hkey
    · exact .inl (List.mem_singleton.1 hkey)

/-- The section of a rule adds a table to that of the group. -/
theorem Setting.advances (s : Setting) (hrule : Entries.get? acc rule = none) :
    Advances name (some acc)
      (.header ["workspace", "lints", name, rule] :: Draft.assignments s.assigned)
      (some (acc ++ [(rule, .table .header s.nodes)])) := by
  intro made rest target hd hget
  have hget : Entries.get? made name = some (.table .header acc) := hget
  have hpath : declare ["workspace", "lints", name, rule] =
      changeAt (declare [rule]) ["workspace", "lints", name] :=
    @declare_append ["workspace", "lints", name] [rule] (List.cons_ne_nil _ _)
  have hheader : Draft.add ⟨rootOf .implied .implied made, target⟩
      (.header ["workspace", "lints", name, rule]) =
      some ⟨rootOf .implied .implied (Entries.put made name
        (.table .header (acc ++ [(rule, .table .header [])]))),
        ["workspace", "lints", name, rule]⟩ := by
    rw [Draft.add, hpath, changeAt_rootOf (by decide) (by decide), changeAt,
      change_table (by decide) hget, changeAt, declare, hrule]
    rfl
  have hsettings : Draft.addAll (Draft.assignments s.assigned ++ rest)
      ⟨rootOf .implied .implied (Entries.put made name
        (.table .header (acc ++ [(rule, .table .header [])]))),
        ["workspace", "lints", name, rule]⟩ =
      Draft.addAll rest ⟨rootOf .implied .implied (Entries.put made name
        (.table .header (acc ++ [(rule, .table .header s.nodes)]))),
        ["workspace", "lints", name, rule]⟩ := by
    rw [Draft.addAll_assignments (by simp [assigned, entries]) s.assignedNodes?_assigned,
      changeAt_rootOf (by decide) (by decide), changeAt,
      change_table (by decide) Entries.get?_put_self, changeAt, change_last (by decide) hrule,
      changeAt, s.assignAll_nodes]
    simp only [Option.map_some, Option.bind_some, Entries.put_put]
  refine ⟨_, ["workspace", "lints", name, rule], ?_, ?_, ?_, Entries.get?_put_self,
    fun other => Entries.get?_put_of_ne⟩
  · rw [List.cons_append, Draft.addAll, hheader, Option.bind_some, hsettings]
  · rw [Entries.keys_put hget]
    exact hd
  · intro key hkey
    rw [Entries.keys_put hget] at hkey
    exact .inr hkey

/-- Blocks of statements that advance a group, one after the other. -/
inductive AdvancesAll (name : String) :
    Option Node.Entries → List (List Statement) → Option Node.Entries → Prop
  | nil (acc : Option Node.Entries) : AdvancesAll name acc [] acc
  | cons {acc acc' acc'' : Option Node.Entries} {block : List Statement}
      {blocks : List (List Statement)} (h : Advances name acc block acc')
      (hb : AdvancesAll name acc' blocks acc'') : AdvancesAll name acc (block :: blocks) acc''

theorem advancesAll_sections {sections : List (String × Setting)}
    (hd : (Entries.keys acc ++ Entries.keys sections).Nodup) :
    AdvancesAll name (some acc) (sections.map fun (rule, setting) =>
        .header ["workspace", "lints", name, rule] :: Draft.assignments setting.assigned)
      (some (acc ++ sections.map fun (rule, setting) => (rule, .table .header setting.nodes))) := by
  induction sections generalizing acc with
  | nil =>
    rw [List.map_nil, List.map_nil, List.append_nil]
    exact .nil _
  | cons s sections ih =>
    obtain ⟨rule, setting⟩ := s
    rw [Entries.keys_cons, List.append_cons] at hd
    have hrule : Entries.get? acc rule = none := by
      rw [Entries.get?_eq_none_iff]
      intro hmem
      have hd' := (List.nodup_append.1 (List.nodup_append.1 hd).1).2.2
      exact hd' rule hmem rule (List.mem_singleton_self _) rfl
    rw [List.map_cons, List.map_cons, List.append_cons]
    exact .cons (setting.advances hrule) (ih (by rwa [Entries.keys_append]))

/-- **The blocks of a group** advance it from nothing to all its rules, in order. -/
theorem Group.advancesAll (g : Group) : AdvancesAll name none (g.blocks name) (some g.nodes) := by
  refine .cons g.advances (advancesAll_sections ?_)
  rw [keys_ruleNodes]
  exact g.nodup

/-- A list is made of two others, each in its order. -/
inductive Interleaves {α : Type} : List α → List α → List α → Prop
  | nil : Interleaves [] [] []
  | left {a : α} {first second all : List α} (h : Interleaves first second all) :
      Interleaves (a :: first) second (a :: all)
  | right {a : α} {first second all : List α} (h : Interleaves first second all) :
      Interleaves first (a :: second) (a :: all)

/-- What comes from two lists is in one of them. -/
theorem Interleaves.mem {α : Type} {a : α} {first second all : List α}
    (h : Interleaves first second all) (ha : a ∈ all) : a ∈ first ∨ a ∈ second := by
  induction h with
  | nil => cases ha
  | left _ ih =>
    rcases List.mem_cons.1 ha with rfl | ha
    · exact .inl List.mem_cons_self
    · exact (ih ha).imp_left (List.mem_cons_of_mem _)
  | right _ ih =>
    rcases List.mem_cons.1 ha with rfl | ha
    · exact .inr List.mem_cons_self
    · exact (ih ha).imp_right (List.mem_cons_of_mem _)

theorem interleaves_append {α : Type} (first second : List α) :
    Interleaves first second (first ++ second) := by
  induction first with
  | nil =>
    induction second with
    | nil => exact .nil
    | cons a second ih => exact .right ih
  | cons a first ih => exact .left ih

theorem interleaves_merge {α : Type} (schedule : List Bool) (first second : List α) :
    Interleaves first second (merge schedule first second) := by
  fun_induction merge schedule first second with
  | case1 first second => exact interleaves_append first second
  | case2 second schedule a first ih => exact .left ih
  | case3 schedule first b second ih => exact .right ih
  | case4 turn schedule first second _ _ ih => exact ih

variable {first second : String × Group} {blocks blocks' all : List (List Statement)}

/-- **Blocks of two groups do not get in each other's way**, however they alternate. -/
theorem Interleaves.addAll (h : Interleaves blocks blocks' all) (hne : first.1 ≠ second.1)
    {acc acc' : Option Node.Entries} (hf : AdvancesAll first.1 acc blocks (some first.2.nodes))
    (hs : AdvancesAll second.1 acc' blocks' (some second.2.nodes)) (made : Node.Entries)
    (target : List String) (hd : (Entries.keys made).Nodup)
    (ho : ∀ key ∈ Entries.keys made, key = first.1 ∨ key = second.1)
    (hget : Entries.get? made first.1 = acc.map (.table .header))
    (hget' : Entries.get? made second.1 = acc'.map (.table .header)) :
    ∃ made' target', Draft.addAll all.flatten ⟨rootOf .implied .implied made, target⟩ =
      some ⟨rootOf .implied .implied made', target'⟩ ∧ Made first second made' := by
  -- Each block is one of the first group or of the second; the other group stands as before.
  induction h generalizing acc acc' made target with
  | nil =>
    cases hf
    cases hs
    exact ⟨made, target, rfl, hd, ho, ⟨.header, hget⟩, ⟨.header, hget'⟩⟩
  | @left block blocks blocks' all _ ih =>
    rcases hf with _ | ⟨hadv, hf⟩
    obtain ⟨next, target', hadd, hd', honly, hnext, hother⟩ := hadv made all.flatten target hd hget
    rw [List.flatten_cons, hadd]
    refine ih hf hs next target' hd' (fun key hkey => ?_) hnext ((hother _ hne).trans hget')
    rcases honly key hkey with hk | hk
    · exact .inl hk
    · exact ho key hk
  | @right block blocks blocks' all _ ih =>
    rcases hs with _ | ⟨hadv, hs⟩
    obtain ⟨next, target', hadd, hd', honly, hnext, hother⟩ := hadv made all.flatten target hd hget'
    rw [List.flatten_cons, hadd]
    refine ih hf hs next target' hd' (fun key hkey => ?_) ((hother _ hne.symm).trans hget) hnext
    rcases honly key hkey with hk | hk
    · exact .inr hk
    · exact ho key hk

/-- Before the first section there is no table yet; its header makes the tables on the
way. -/
theorem addAll_first_section (name : String) (rest : List Statement) :
    Draft.addAll (.header ["workspace", "lints", name] :: rest) .empty =
      Draft.addAll (.header ["workspace", "lints", name] :: rest)
        ⟨rootOf .implied .implied [], []⟩ := rfl

/-- Both groups by sections. -/
theorem exists_made_sections (hne : first.1 ≠ second.1) (schedule : List Bool) :
    ∃ made target, Draft.addAll
        (merge schedule (first.2.blocks first.1) (second.2.blocks second.1)).flatten .empty =
      some ⟨rootOf .implied .implied made, target⟩ ∧ Made first second made := by
  have hall := interleaves_merge schedule (first.2.blocks first.1) (second.2.blocks second.1)
  obtain ⟨made, target, hadd, hm⟩ := hall.addAll hne first.2.advancesAll second.2.advancesAll
    [] [] List.nodup_nil (by simp) rfl rfl
  refine ⟨made, target, ?_, hm⟩
  rw [← hadd]
  -- The first block is that of a section of a group, whichever group it is.
  generalize merge schedule (first.2.blocks first.1) (second.2.blocks second.1) = all at hall
  cases hall with
  | left h => exact addAll_first_section first.1 _
  | right h => exact addAll_first_section second.1 _

/-! ### Arrangements -/

namespace Arrangement

variable (a : Arrangement)

theorem first_ne_second : a.first.1 ≠ a.second.1 := by
  rw [first, second]
  split <;> simp

theorem sections_eq_nil (h : ∀ schedule, a.placement ≠ .sections schedule) :
    a.first.2.sections = [] ∧ a.second.2.sections = [] := by
  rcases a.sections with ⟨schedule, hp⟩ | ⟨hc, hr⟩
  · exact absurd hp (h schedule)
  · rw [first, second]
    split
    · exact ⟨hr, hc⟩
    · exact ⟨hc, hr⟩

/-- **Whatever the arrangement is**, its statements put together the same tables with the
same entries in the same order. -/
theorem exists_draft : ∃ target outer inner made,
    Draft.addAll a.statements .empty = some ⟨rootOf outer inner made, target⟩ ∧
      Made a.first a.second made := by
  rw [statements]
  cases hp : a.placement with
  | sections schedule =>
    obtain ⟨made, target, hadd, hm⟩ := exists_made_sections a.first_ne_second schedule
    exact ⟨target, .implied, .implied, made, hadd, hm⟩
  | dotted scope =>
    obtain ⟨hf, hs⟩ := a.sections_eq_nil (by simp [hp])
    obtain ⟨nodes, made, hnodes, hne, hmade, hm⟩ := exists_made_dotted a.first_ne_second hf hs
    obtain ⟨target, outer, inner, hadd⟩ := scope.exists_draft hnodes hne hmade hm.ne_nil
    exact ⟨target, outer, inner, made, hadd, hm⟩
  | inline scope =>
    obtain ⟨hf, hs⟩ := a.sections_eq_nil (by simp [hp])
    obtain ⟨made, hnodes, hmade, hm⟩ := exists_made_inlined a.first_ne_second hf hs
    obtain ⟨target, outer, inner, hadd⟩ :=
      scope.exists_draft hnodes ne_nil_of_mem_singles hmade hm.ne_nil
    exact ⟨target, outer, inner, made, hadd, hm⟩
  | nested =>
    obtain ⟨hf, hs⟩ := a.sections_eq_nil (by simp [hp])
    obtain ⟨made, hnodes, hmade, hm⟩ := exists_made_inlined a.first_ne_second hf hs
    have hnode :
        Term.node? (.table [a.first.2.inlined a.first.1, a.second.2.inlined a.second.1]) =
        some (.table .inline made) := by
      rw [Term.node?, hnodes, Option.bind_some, hmade, Option.map_some]
    refine ⟨["workspace"], .header, .inline, made, ?_, hm⟩
    show Draft.addAll (Draft.assignments [(["lints"], _)])
      ⟨[("workspace", .table .header [])], ["workspace"]⟩ = _
    refine Draft.addAll_assignments_last (List.cons_ne_nil _ _) (assignedNodes?_cons hnode rfl) ?_
    rw [changeAt, change_only (by decide)]
    rfl

end Arrangement

end WorkspaceFacts.Lint
