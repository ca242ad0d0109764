import Mathlib.Data.List.Induction
import WorkspaceFacts.Proofs.Toml.Drafting
import WorkspaceFacts.Proofs.Toml.Reading.Statements

/-!
# An accepted document loses nothing

Tables can be taken up again, in other places and by other kinds of statements, so it is
not plain that an assignment is still in force at the end of a document. It is: of the
assignments that have been made, a draft keeps every single one where it stands
(`WorkspaceFacts.Toml.Draft.Faithful`), and a statement that would touch one of them is
refused. What a document assigns is therefore what a look-up finds
(`WorkspaceFacts.Manifest.parse_preserves_assignments`), however its statements are spelled
(`WorkspaceFacts.Manifest.preserves_of_allSpelled`).
-/

namespace WorkspaceFacts.Toml

/-! ### What the statements of a document say -/

namespace Statement

/-- The path that a statement names, relative to the section it stands in. -/
def path : Statement → List String
  | .header path => path
  | .arrayHeader path => path
  | .entry path _ => path

/-- The section after a statement: `none` inside the element of an array of tables, to
which no path leads. -/
def enter (current : Option (List String)) : Statement → Option (List String)
  | .header path => some path
  | .arrayHeader _ => none
  | .entry _ _ => current

/-- The section in which a statement stands that comes after the given ones. -/
def sectionAfter (statements : List Statement) : Option (List String) :=
  statements.foldl enter (some [])

/-- **An assignment**: the `i`-th statement is an assignment of `value`, and `full` is the
key path from the top of the document, that of the section included. -/
def Assigns (statements : List Statement) (i : Nat) (full : List String) (value : Term) : Prop :=
  ∃ keys current, statements[i]? = some (.entry keys value) ∧
    sectionAfter (statements.take i) = some current ∧ full = current ++ keys

/-- No array of tables stands on the way along a path. -/
def Outside (statements : List Statement) (full : List String) : Prop :=
  ∀ path, .arrayHeader path ∈ statements → ¬path <+: full

variable {statements before : List Statement} {i j : Nat} {full : List String} {value : Term}

theorem sectionAfter_append (statement : Statement) :
    sectionAfter (before ++ [statement]) = enter (sectionAfter before) statement := by
  rw [sectionAfter, List.foldl_append]
  rfl

/-- An assignment is already there when a later statement comes. -/
theorem Assigns.take (h : Assigns statements i full value) (hij : i < j) :
    Assigns (statements.take j) i full value := by
  obtain ⟨keys, current, hi, hsection, rfl⟩ := h
  refine ⟨keys, current, ?_, ?_, rfl⟩
  · rwa [List.getElem?_take_of_lt hij]
  · rwa [List.take_take, Nat.min_eq_left (Nat.le_of_lt hij)]

theorem Assigns.of_append {statement : Statement}
    (h : Assigns (before ++ [statement]) i full value) : Assigns before i full value ∨
      ∃ keys current, statement = .entry keys value ∧ sectionAfter before = some current ∧
        full = current ++ keys := by
  obtain ⟨keys, current, hi, hsection, rfl⟩ := h
  -- The assignment is one of those before, or the last statement, or not there at all.
  rcases Nat.lt_trichotomy i before.length with hlt | rfl | hgt
  · rw [List.getElem?_append_left hlt] at hi
    rw [List.take_append_of_le_length (Nat.le_of_lt hlt)] at hsection
    exact .inl ⟨keys, current, hi, hsection, rfl⟩
  · rw [List.getElem?_concat_length] at hi
    rw [List.take_left] at hsection
    exact .inr ⟨keys, current, Option.some.inj hi, hsection, rfl⟩
  · rw [List.getElem?_eq_none (by simp; omega)] at hi
    cases hi

end Statement

/-! ### The value of a term -/

/-- The value that a term stands for. -/
def Term.value? (t : Term) : Option Value := t.node?.bind Node.value?

theorem Term.isComplete_of_node? {t : Term} {node : Node} (h : t.node? = some node) :
    node.IsComplete := by
  cases t with
  | scalar s =>
    obtain rfl := Option.some.inj h
    exact .scalar s
  | array items =>
    obtain ⟨nodes, -, rfl⟩ := Option.map_eq_some_iff.1 h
    exact .array nodes
  | table assignments =>
    obtain ⟨entries, -, rfl⟩ := Option.map_eq_some_iff.1 h
    exact .inline entries

theorem Term.exists_assignedNode {assignments : List (List String × Term)}
    {nodes : List (List String × Node)} (h : Term.assignedNodes? assignments = some nodes) :
    (∀ keys node, (keys, node) ∈ nodes → ∃ t, (keys, t) ∈ assignments ∧ t.node? = some node) ∧
      ∀ keys t, (keys, t) ∈ assignments → ∃ node, t.node? = some node ∧ (keys, node) ∈ nodes := by
  induction assignments generalizing nodes with
  | nil =>
    obtain rfl := Option.some.inj h
    exact ⟨nofun, nofun⟩
  | cons assignment assignments ih =>
    obtain ⟨path, t⟩ := assignment
    rw [Term.assignedNodes?] at h
    split at h
    · next node rest hn hrest =>
      obtain rfl := Option.some.inj h
      obtain ⟨back, forth⟩ := ih hrest
      constructor
      · intro keys n hmem
        rcases List.mem_cons.1 hmem with he | hmem
        · cases he
          exact ⟨t, List.mem_cons_self, hn⟩
        · obtain ⟨u, hu, hnu⟩ := back keys n hmem
          exact ⟨u, List.mem_cons_of_mem _ hu, hnu⟩
      · intro keys u hmem
        rcases List.mem_cons.1 hmem with he | hmem
        · cases he
          exact ⟨node, hn, List.mem_cons_self⟩
        · obtain ⟨n, hnu, hmem⟩ := forth keys u hmem
          exact ⟨n, hnu, List.mem_cons_of_mem _ hmem⟩
    · cases h

/-- All assignments to a table stand where they are made. -/
theorem Node.at_of_assignAll {assigned : List (List String × Node)}
    {entries entries' : Node.Entries} (h : Node.assignAll assigned entries = some entries')
    (hs : Node.Sound (fun _ => False) [] entries)
    (hk : ∀ keys node, (keys, node) ∈ assigned → dateTimeKey ∉ keys ∧ node.IsComplete) :
    Node.Sound (fun _ => False) [] entries' ∧
      (∀ node q, node.IsComplete → Node.At node entries q → Node.At node entries' q) ∧
      ∀ keys node, (keys, node) ∈ assigned → Node.At node entries' keys := by
  induction assigned generalizing entries with
  | nil =>
    obtain rfl := Option.some.inj h
    exact ⟨hs, fun _ _ _ => id, nofun⟩
  | cons first assigned ih =>
    obtain ⟨path, node⟩ := first
    obtain ⟨middle, hm, h⟩ := Option.bind_eq_some_iff.1 h
    obtain ⟨hpath, hnode⟩ := hk path node List.mem_cons_self
    obtain ⟨hsm, hstay⟩ := Node.keeps_assign hpath hnode hm hs
    obtain ⟨hs', hstay', hat⟩ := ih h hsm fun keys n hmem => hk keys n (List.mem_cons_of_mem _ hmem)
    refine ⟨hs', fun n q hn hq => hstay' n q hn (hstay n q hn hq), fun keys n hmem => ?_⟩
    rcases List.mem_cons.1 hmem with he | hmem
    · cases he
      exact hstay' node path hnode (Node.at_of_assign hm hs fun _ _ _ => id)
    · exact hat keys n hmem

/-- **An inline table loses nothing either**: it holds what it assigns. -/
theorem Term.holds_of_mem {assignments : List (List String × Term)} {value : Value}
    (h : Term.value? (.table assignments) = some value)
    (hk : ∀ keys t, (keys, t) ∈ assignments → dateTimeKey ∉ keys) :
    ∃ entries, value = .table entries ∧ ∀ keys t, (keys, t) ∈ assignments →
      ∃ v, t.value? = some v ∧ Table.Holds entries keys v := by
  obtain ⟨node, hnode, hv⟩ := Option.bind_eq_some_iff.1 h
  obtain ⟨drafted, hd, rfl⟩ := Option.map_eq_some_iff.1 hnode
  obtain ⟨assigned, ha, hd⟩ := Option.bind_eq_some_iff.1 hd
  obtain ⟨back, forth⟩ := Term.exists_assignedNode ha
  obtain ⟨hs, -, hat⟩ := Node.at_of_assignAll hd Node.sound_nil fun keys n hmem => by
    obtain ⟨t, ht, hn⟩ := back keys n hmem
    exact ⟨hk keys t ht, Term.isComplete_of_node? hn⟩
  rw [Node.value?, hs.tableValue?] at hv
  obtain ⟨entries, he, rfl⟩ := Option.map_eq_some_iff.1 hv
  refine ⟨entries, rfl, fun keys t hmem => ?_⟩
  obtain ⟨n, hn, hmem⟩ := forth keys t hmem
  obtain ⟨v, hnv, hold⟩ := (hat keys n hmem).holds hs he
  exact ⟨v, by rw [Term.value?, hn, Option.bind_some, hnv], hold⟩

/-! ### Drafts -/

namespace Draft

open Statement Node

variable {arrays : List String → Prop} {before statements : List Statement} {draft draft' : Draft}

theorem addAll_append (later : List Statement) :
    addAll (before ++ later) draft = (addAll before draft).bind (addAll later) := by
  induction before generalizing draft with
  | nil => rfl
  | cons statement before ih =>
    rw [List.cons_append, addAll, addAll]
    cases draft.add statement with
    | none => rfl
    | some next => exact ih

/-- **A draft is faithful** to the statements it is made from: it is sound, it has its
target where these statements leave it, and whatever they assign outside the arrays of
tables stands where they assign it. -/
structure Faithful (arrays : List String → Prop) (before : List Statement) (draft : Draft) :
    Prop where
  sound : Sound arrays [] draft.root
  clean : dateTimeKey ∉ draft.target
  target : ∀ current, sectionAfter before = some current → draft.target = current
  stands : ∀ i full value, Assigns before i full value → (∀ path, arrays path → ¬path <+: full) →
    ∃ node, value.node? = some node ∧ At node draft.root full

theorem faithful_empty : Faithful arrays [] empty where
  sound := sound_nil
  clean := List.not_mem_nil
  target _ h := Option.some.inj h
  stands := by
    rintro i full value ⟨keys, current, hi, -⟩
    cases hi

/-- **One more statement** leaves the draft faithful. -/
theorem Faithful.add {statement : Statement} (hd : Faithful arrays before draft)
    (hk : dateTimeKey ∉ statement.path) (ha : ∀ path, statement = .arrayHeader path → arrays path)
    (h : draft.add statement = some draft') : Faithful arrays (before ++ [statement]) draft' := by
  -- Headers assign nothing, so all that has to stand stood before.
  have headers : ∀ {change : Entries → Option Entries} {root path}, Keeps arrays [] change →
      change draft.root = some root → dateTimeKey ∉ path → (∀ keys v, statement ≠ .entry keys v) →
      (∀ current, sectionAfter (before ++ [statement]) = some current → path = current) →
      Faithful arrays (before ++ [statement]) ⟨root, path⟩ := by
    intro change root path hkeep hroot hpath hne htarget
    obtain ⟨hsound, hstay⟩ := hkeep hroot hd.sound
    refine ⟨hsound, hpath, htarget, fun i full value has hout => ?_⟩
    rcases has.of_append with has | ⟨keys, current, rfl, -⟩
    · obtain ⟨node, hnode, hat⟩ := hd.stands i full value has hout
      exact ⟨node, hnode, hstay node full (Term.isComplete_of_node? hnode) hat⟩
    · exact absurd rfl (hne keys value)
  cases statement with
  | header path =>
    obtain ⟨root, hroot, rfl⟩ := Option.map_eq_some_iff.1 h
    refine headers (keeps_declare hk) hroot hk nofun fun current hc => ?_
    rw [sectionAfter_append] at hc
    exact Option.some.inj hc
  | arrayHeader path =>
    obtain ⟨root, hroot, rfl⟩ := Option.map_eq_some_iff.1 h
    refine headers (keeps_addElement hk (ha path rfl)) hroot hk nofun fun current hc => ?_
    rw [sectionAfter_append] at hc
    cases hc
  | entry keys value =>
    obtain ⟨node, hnode, h⟩ := Option.bind_eq_some_iff.1 h
    obtain ⟨root, hroot, rfl⟩ := Option.map_eq_some_iff.1 h
    have hn := Term.isComplete_of_node? hnode
    obtain ⟨hsound, hstay⟩ := keeps_changeAt hd.clean (keeps_assign hk hn) hroot hd.sound
    refine ⟨hsound, hd.clean, fun current hc => ?_, fun i full v has hout => ?_⟩
    · rw [sectionAfter_append] at hc
      exact hd.target current hc
    · rcases has.of_append with has | ⟨_, current, heq, hc, rfl⟩
      · obtain ⟨old, hold, hat⟩ := hd.stands i full v has hout
        exact ⟨old, hold, hstay old full (Term.isComplete_of_node? hold) hat⟩
      · cases heq
        obtain rfl := hd.target current hc
        refine ⟨node, hnode, at_of_changeAt hroot hd.sound (fun r hr _ ha => ?_) ?_⟩
        · exact hout r ha (hr.trans (List.prefix_append _ _))
        · intro inner inner' hs hassign
          refine at_of_assign hassign hs fun q hq _ ha => ?_
          exact hout _ ha ((List.prefix_append_right_inj _).2 hq)

/-- **All statements** of a document make a faithful draft. -/
theorem faithful_of_addAll (h : addAll statements empty = some draft)
    (hk : ∀ statement ∈ statements, dateTimeKey ∉ statement.path)
    (ha : ∀ path, .arrayHeader path ∈ statements → arrays path) :
    Faithful arrays statements draft := by
  -- The induction takes off the last statement, so that the draft before it is a draft too.
  induction statements using List.reverseRecOn generalizing draft with
  | nil =>
    obtain rfl := Option.some.inj h
    exact faithful_empty
  | append_singleton before statement ih =>
    rw [addAll_append] at h
    obtain ⟨middle, hm, h⟩ := Option.bind_eq_some_iff.1 h
    obtain ⟨last, hl, h⟩ := Option.bind_eq_some_iff.1 h
    obtain rfl := Option.some.inj h
    have hmiddle := ih hm (fun s hs => hk s (List.mem_append_left _ hs))
      fun path hp => ha path (List.mem_append_left _ hp)
    refine hmiddle.add (hk statement (by simp)) (fun path he => ha path ?_) hl
    exact List.mem_append_right _ (he ▸ List.mem_singleton_self _)

/-- A faithful draft refuses a statement that would touch what is assigned. -/
theorem Faithful.untouched {i : Nat} {full : List String} {value : Term} {statement : Statement}
    (hd : Faithful arrays before draft) (has : Assigns before i full value)
    (hout : ∀ path, arrays path → ¬path <+: full) (h : draft.add statement = some draft') :
    (∀ path, statement = .header path ∨ statement = .arrayHeader path → ¬full <+: path) ∧
      ∀ keys v current, statement = .entry keys v → sectionAfter before = some current →
        ¬Overlap full (current ++ keys) := by
  obtain ⟨node, hnode, hat⟩ := hd.stands i full value has hout
  have hn := Term.isComplete_of_node? hnode
  constructor
  · rintro path (rfl | rfl)
    · obtain ⟨root, hroot, -⟩ := Option.map_eq_some_iff.1 h
      exact hat.not_prefix_declare hn hroot
    · obtain ⟨root, hroot, -⟩ := Option.map_eq_some_iff.1 h
      exact hat.not_prefix_addElement hn hroot
  · rintro keys v current rfl hc
    obtain ⟨other, -, h⟩ := Option.bind_eq_some_iff.1 h
    obtain ⟨root, hroot, -⟩ := Option.map_eq_some_iff.1 h
    obtain rfl := hd.target current hc
    exact hat.not_overlap_entry hn hroot

/-- A statement of a document meets a draft that is faithful to the statements before
it. -/
theorem exists_faithful_take {j : Nat} {statement : Statement}
    (h : addAll statements empty = some draft) (hj : statements[j]? = some statement)
    (hk : ∀ statement ∈ statements, dateTimeKey ∉ statement.path)
    (ha : ∀ path, .arrayHeader path ∈ statements → arrays path) :
    ∃ middle next, Faithful arrays (statements.take j) middle ∧
      middle.add statement = some next := by
  obtain ⟨hlt, rfl⟩ := List.getElem?_eq_some_iff.1 hj
  rw [← List.take_append_drop j statements, List.drop_eq_getElem_cons hlt, addAll_append] at h
  obtain ⟨middle, hm, h⟩ := Option.bind_eq_some_iff.1 h
  obtain ⟨next, hnext, -⟩ := Option.bind_eq_some_iff.1 h
  refine ⟨middle, next, faithful_of_addAll hm (fun s hs => ?_) (fun p hp => ?_), hnext⟩
  · exact hk s (List.mem_of_mem_take hs)
  · exact ha p (List.mem_of_mem_take hp)

end Draft

/-- The table that statements describe holds what they assign. -/
theorem Document.holds_of_assigns {statements : List Statement} {table : Table} {i : Nat}
    {full : List String} {value : Term} (h : Document.ofStatements? statements = some table)
    (hk : ∀ statement ∈ statements, dateTimeKey ∉ statement.path)
    (has : Statement.Assigns statements i full value) (hout : Statement.Outside statements full) :
    ∃ v, value.value? = some v ∧ Table.Holds table full v := by
  obtain ⟨draft, hd, hv⟩ := Option.bind_eq_some_iff.1 h
  have hf := Draft.faithful_of_addAll hd hk fun _ => id
  obtain ⟨node, hnode, hat⟩ := hf.stands i full value has hout
  obtain ⟨v, hnv, hold⟩ := hat.holds hf.sound hv
  exact ⟨v, by rw [Term.value?, hnode, Option.bind_some, hnv], hold⟩

end WorkspaceFacts.Toml

namespace WorkspaceFacts.Manifest

open Toml Toml.Statement Toml.Node

/-- **A manifest preserves what statements assign** outside of their arrays of tables. -/
structure Preserves (m : Manifest) (statements : List Statement) : Prop where
  /-- What is assigned is found at its key path, from the top of the document. -/
  found : ∀ i full value, Assigns statements i full value → Outside statements full →
    ∃ v, value.value? = some v ∧ m.require full = .ok v
  /-- No two of these key paths are the same, and none goes on where another one ends. -/
  apart : ∀ i j full full' value value', Assigns statements i full value →
    Outside statements full → Assigns statements j full' value' → Outside statements full' →
    i ≠ j → ¬full <+: full'
  /-- No header comes back to one of them, or goes through it, later on. -/
  closed : ∀ i j full value header, Assigns statements i full value → Outside statements full →
    i < j → (statements[j]? = some (.header header) ∨
      statements[j]? = some (.arrayHeader header)) → ¬full <+: header

theorem preserves_of_parse {path : Path} {text : String} {m : Manifest}
    {statements : List Statement} (h : parse path text = .ok m)
    (hs : Statement.ofText? text.toList = some statements)
    (hk : ∀ statement ∈ statements, dateTimeKey ∉ statement.path) : m.Preserves statements := by
  obtain ⟨-, hp⟩ := parse_eq_ok_iff.1 h
  rw [Document.parse?, hs, Option.bind_some] at hp
  obtain ⟨draft, hd, -⟩ := Option.bind_eq_some_iff.1 hp
  -- Wherever two assignments meet, the later one is refused.
  have later : ∀ {i j full full' value value'}, Assigns statements i full value →
      Outside statements full → Assigns statements j full' value' → i < j →
      ¬Overlap full full' := by
    rintro i j full _ value value' has hout ⟨keys, current, hj, hc, rfl⟩ hij
    obtain ⟨middle, next, hm, hnext⟩ := Draft.exists_faithful_take hd hj hk fun _ => id
    exact (hm.untouched (has.take hij) hout hnext).2 keys value' current rfl hc
  refine ⟨fun i full value has hout => ?_, ?_, ?_⟩
  · obtain ⟨v, hv, hold⟩ := Document.holds_of_assigns hp hk has hout
    exact ⟨v, hv, require_eq_ok_iff.2 hold⟩
  · intro i j full full' value value' has hout has' hout' hij hp
    rcases Nat.lt_or_gt_of_ne hij with hlt | hgt
    · exact later has hout has' hlt (.inl hp)
    · exact later has' hout' has hgt (.inr hp)
  · intro i j full value header has hout hij hj
    rcases hj with hj | hj
    · obtain ⟨middle, next, hm, hnext⟩ := Draft.exists_faithful_take hd hj hk fun _ => id
      exact (hm.untouched (has.take hij) hout hnext).1 header (.inl rfl)
    · obtain ⟨middle, next, hm, hnext⟩ := Draft.exists_faithful_take hd hj hk fun _ => id
      exact (hm.untouched (has.take hij) hout hnext).1 header (.inr rfl)

/-- **It preserves what its text assigns**, however the statements are spelled in it. -/
theorem preserves_of_allSpelled {path : Path} {text : String} {m : Manifest}
    {statements : List Statement} (h : parse path text = .ok m)
    (hs : AllSpelled .any statements text.toList)
    (hk : ∀ statement ∈ statements, dateTimeKey ∉ statement.path) : m.Preserves statements :=
  preserves_of_parse h (Statement.ofText?_of_parse? (parse_eq_ok_iff.1 h).2 hs) hk

/-- **An accepted manifest loses and overrides nothing.** What an assignment outside the
arrays of tables assigns is found at its key path, from the top of the document; no two of
these key paths are the same, and none of them goes on where another one ends; and no
header comes back to one of them, or goes through it, later on. -/
theorem parse_preserves_assignments {path : Path} {text : String} {m : Manifest}
    {statements : List Statement} (h : parse path text = .ok m)
    (hs : Statement.ofText? text.toList = some statements)
    (hk : ∀ statement ∈ statements, dateTimeKey ∉ statement.path) :
    (∀ i full value, Assigns statements i full value → Outside statements full →
      ∃ v, value.value? = some v ∧ m.require full = .ok v) ∧
    (∀ i j full full' value value', Assigns statements i full value → Outside statements full →
      Assigns statements j full' value' → Outside statements full' → i ≠ j → ¬full <+: full') ∧
    (∀ i j full value header, Assigns statements i full value → Outside statements full →
      i < j → (statements[j]? = some (.header header) ∨
        statements[j]? = some (.arrayHeader header)) → ¬full <+: header) := by
  have hpreserves := preserves_of_parse h hs hk
  exact ⟨hpreserves.found, hpreserves.apart, hpreserves.closed⟩

/-- The assignment below `[a.b]` is found, although another header takes up the table
around it later. -/
theorem parse_preserves_reopened :
    ∃ m, parse ⟨[]⟩ "[a.b]\nc = 1\n[[d]]\n[a]\ne.f = 2\n" = .ok m ∧
      m.require ["a", "b", "c"] = .ok (.scalar (.integer 1)) := by
  have hs : Statement.ofText? "[a.b]\nc = 1\n[[d]]\n[a]\ne.f = 2\n".toList =
      some [.header ["a", "b"], .entry ["c"] (.scalar (.integer 1)), .arrayHeader ["d"],
        .header ["a"], .entry ["e", "f"] (.scalar (.integer 2))] := by
    with_unfolding_all rfl
  obtain ⟨m, hm⟩ : ∃ m, parse ⟨[]⟩ "[a.b]\nc = 1\n[[d]]\n[a]\ne.f = 2\n" = .ok m := by
    rw [parse, Document.parse?, hs]
    exact ⟨_, rfl⟩
  obtain ⟨found, -, -⟩ := parse_preserves_assignments hm hs (by decide)
  obtain ⟨v, hv, hr⟩ := found 1 ["a", "b", "c"] (.scalar (.integer 1))
    ⟨["c"], ["a", "b"], rfl, rfl, rfl⟩ (by simp [Outside])
  obtain rfl := Option.some.inj hv
  exact ⟨m, hm, hr⟩

end WorkspaceFacts.Manifest
