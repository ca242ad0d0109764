import WorkspaceFacts.Proofs.Toml.Drafting

/-!
# No key is held twice

In every table of a document, however deep it lies and whatever made it, the keys are
distinct (`WorkspaceFacts.Toml.Document.distinct_of_parse?`). A statement adds an entry only
where there is none, and changes or moves those that are there; so the keys of a draft stay
distinct, and turning the draft into values keeps its keys.
-/

namespace WorkspaceFacts.Toml

/-- **The keys of every table in a value are distinct**, at every depth. -/
inductive Value.Distinct : Value → Prop
  | scalar (s : Scalar) : Distinct (.scalar s)
  | array {items : List Value} (h : ∀ v ∈ items, Distinct v) : Distinct (.array items)
  | table {entries : Table} (nodup : (Entries.keys entries).Nodup)
      (h : ∀ entry ∈ entries, Distinct entry.2) : Distinct (.table entries)

namespace Node

/-- The keys of every table in a node are distinct, at every depth. -/
inductive Distinct : Node → Prop
  | scalar (s : Scalar) : Distinct (.scalar s)
  | array {items : List Node} (h : ∀ n ∈ items, Distinct n) : Distinct (.array items)
  | table {origin : Origin} {entries : Entries} (nodup : (Entries.keys entries).Nodup)
      (h : ∀ entry ∈ entries, Distinct entry.2) : Distinct (.table origin entries)
  | tables {earlier : List Entries} {last : Entries}
      (nodup : ∀ entries ∈ earlier ++ [last], (Entries.keys entries).Nodup)
      (h : ∀ entries ∈ earlier ++ [last], ∀ entry ∈ entries, Distinct entry.2) :
      Distinct (.tables earlier last)

/-- The entries of a table with distinct keys, at every depth. -/
structure DistinctEntries (entries : Entries) : Prop where
  nodup : (Entries.keys entries).Nodup
  nodes : ∀ entry ∈ entries, Distinct entry.2

variable {node old : Node} {key : String} {entries entries' : Entries}

/-! ### Changes under one key -/

theorem distinctEntries_nil : DistinctEntries [] := ⟨List.nodup_nil, List.forall_mem_nil _⟩

theorem DistinctEntries.get? (h : DistinctEntries entries)
    (hg : Entries.get? entries key = some node) : node.Distinct :=
  h.nodes _ (Entries.mem_of_get? hg)

theorem DistinctEntries.append (h : DistinctEntries entries)
    (hg : Entries.get? entries key = none) (hn : node.Distinct) :
    DistinctEntries (entries ++ [(key, node)]) := by
  refine ⟨?_, fun entry he => ?_⟩
  · rw [Entries.keys_append, List.nodup_append]
    refine ⟨h.nodup, List.nodup_singleton _, fun a ha b hb he => ?_⟩
    obtain rfl := List.mem_singleton.1 hb
    exact Entries.get?_eq_none_iff.1 hg (he ▸ ha)
  · rcases List.mem_append.1 he with he | he
    · exact h.nodes entry he
    · obtain rfl := List.mem_singleton.1 he
      exact hn

theorem DistinctEntries.put (h : DistinctEntries entries)
    (hg : Entries.get? entries key = some old) (hn : node.Distinct) :
    DistinctEntries (Entries.put entries key node) := by
  refine ⟨?_, fun entry he => ?_⟩
  · rw [Entries.keys_put hg]
    exact h.nodup
  · rcases Entries.mem_put he with he | rfl
    · exact h.nodes entry he
    · exact hn

theorem DistinctEntries.erase (h : DistinctEntries entries) (key : String) :
    DistinctEntries (Entries.erase entries key) := by
  refine ⟨?_, fun entry he => h.nodes entry (Entries.mem_of_mem_erase he)⟩
  rw [Entries.keys_erase]
  exact h.nodup.erase key

theorem distinct_table_iff {origin : Origin} :
    (Node.table origin entries).Distinct ↔ DistinctEntries entries := by
  constructor
  · rintro (_ | _ | ⟨nodup, h⟩)
    exact ⟨nodup, h⟩
  · rintro ⟨nodup, h⟩
    exact .table nodup h

theorem distinct_tables_iff {earlier : List Entries} {last : Entries} :
    (Node.tables earlier last).Distinct ↔
      (∀ entries ∈ earlier, DistinctEntries entries) ∧ DistinctEntries last := by
  rw [← List.forall_mem_singleton (p := DistinctEntries), ← List.forall_mem_append]
  constructor
  · rintro (_ | _ | _ | ⟨nodup, h⟩)
    exact fun entries he => ⟨nodup entries he, h entries he⟩
  · exact fun h => .tables (fun entries he => (h entries he).nodup)
      fun entries he => (h entries he).nodes

/-! ### Walks -/

/-- A change of entries that keeps keys distinct. -/
def KeepsDistinct (f : Entries → Option Entries) : Prop :=
  ∀ ⦃entries entries'⦄, f entries = some entries' → DistinctEntries entries →
    DistinctEntries entries'

variable {f : Entries → Option Entries}

/-- A step down keeps keys distinct if the change below does. -/
theorem KeepsDistinct.descend (hf : KeepsDistinct f) (hd : Descend f key entries entries')
    (h : DistinctEntries entries) : DistinctEntries entries' := by
  rcases hd with ⟨hg, -, hfe, rfl⟩ | ⟨hg, -, hfe, rfl⟩ | ⟨hg, hfe, rfl⟩
  · exact h.append hg (distinct_table_iff.2 (hf hfe distinctEntries_nil))
  · exact h.put hg (distinct_table_iff.2 (hf hfe (distinct_table_iff.1 (h.get? hg))))
  · obtain ⟨hearlier, hlast⟩ := distinct_tables_iff.1 (h.get? hg)
    exact h.put hg (distinct_tables_iff.2 ⟨hearlier, hf hfe hlast⟩)

theorem keepsDistinct_changeAt {keys : List String} (hf : KeepsDistinct f) :
    KeepsDistinct (changeAt f keys) := by
  induction keys with
  | nil => exact hf
  | cons key keys ih => exact fun _ _ h => ih.descend (descend_of_change h)

/-- A walk keeps keys distinct if its last step does. -/
theorem IsWalk.keepsDistinct {walk : List String → Entries → Option Entries} (hw : IsWalk walk)
    (last : ∀ key, KeepsDistinct (walk [key])) (keys : List String) :
    KeepsDistinct (walk keys) := by
  induction keys with
  | nil =>
    intro entries entries' h
    rw [hw.nil] at h
    cases h
  | cons key keys ih =>
    rcases keys with _ | ⟨next, keys⟩
    · exact last key
    · exact fun _ _ h => ih.descend (hw.descend h)

theorem keepsDistinct_assign (hn : node.Distinct) (keys : List String) :
    KeepsDistinct (assign node keys) := by
  refine (isWalk_assign node).keepsDistinct (fun key entries entries' h hd => ?_) keys
  simp only [assign] at h
  split at h
  · next hg =>
    obtain rfl := Option.some.inj h
    exact hd.append hg hn
  · cases h

theorem keepsDistinct_declare (keys : List String) : KeepsDistinct (declare keys) := by
  refine isWalk_declare.keepsDistinct (fun key entries entries' h hd => ?_) keys
  simp only [declare] at h
  split at h
  · next hg =>
    obtain rfl := Option.some.inj h
    exact hd.append hg (distinct_table_iff.2 distinctEntries_nil)
  · next inner hg =>
    obtain rfl := Option.some.inj h
    exact (hd.erase key).append (Entries.get?_erase_self hd.nodup)
      (distinct_table_iff.2 (distinct_table_iff.1 (hd.get? hg)))
  · cases h

theorem keepsDistinct_addElement (keys : List String) : KeepsDistinct (addElement keys) := by
  refine isWalk_addElement.keepsDistinct (fun key entries entries' h hd => ?_) keys
  simp only [addElement] at h
  split at h
  · next hg =>
    obtain rfl := Option.some.inj h
    exact hd.append hg (distinct_tables_iff.2 ⟨List.forall_mem_nil _, distinctEntries_nil⟩)
  · next earlier last hg =>
    obtain rfl := Option.some.inj h
    refine hd.put hg (distinct_tables_iff.2 ⟨?_, distinctEntries_nil⟩)
    obtain ⟨hearlier, hlast⟩ := distinct_tables_iff.1 (hd.get? hg)
    exact List.forall_mem_append.2 ⟨hearlier, List.forall_mem_singleton.2 hlast⟩
  · cases h

theorem keepsDistinct_assignAll {assigned : List (List String × Node)}
    (h : ∀ a ∈ assigned, a.2.Distinct) : KeepsDistinct (assignAll assigned) := by
  induction assigned with
  | nil =>
    intro entries entries' he hd
    obtain rfl := Option.some.inj he
    exact hd
  | cons a assigned ih =>
    obtain ⟨ha, hrest⟩ := List.forall_mem_cons.1 h
    intro entries entries' he hd
    obtain ⟨next, hnext, he⟩ := Option.bind_eq_some_iff.1 he
    exact ih hrest he (keepsDistinct_assign ha _ hnext hd)

end Node

/-! ### Terms -/

mutual

/-- What a term stands for has distinct keys. -/
theorem Term.distinct_of_node? (t : Term) {n : Node} (h : t.node? = some n) : n.Distinct := by
  cases t with
  | scalar s =>
    obtain rfl := Option.some.inj h
    exact .scalar s
  | array items =>
    obtain ⟨nodes, hnodes, rfl⟩ := Option.map_eq_some_iff.1 h
    exact .array (Term.distinct_of_nodes? items hnodes)
  | table assignments =>
    obtain ⟨entries, hentries, rfl⟩ := Option.map_eq_some_iff.1 h
    obtain ⟨nodes, hnodes, he⟩ := Option.bind_eq_some_iff.1 hentries
    exact Node.distinct_table_iff.2 (Node.keepsDistinct_assignAll
      (Term.distinct_of_assignedNodes? assignments hnodes) he Node.distinctEntries_nil)

theorem Term.distinct_of_nodes? (ts : List Term) {ns : List Node}
    (h : Term.nodes? ts = some ns) : ∀ n ∈ ns, n.Distinct := by
  cases ts with
  | nil =>
    obtain rfl := Option.some.inj h
    exact List.forall_mem_nil _
  | cons t ts =>
    rw [Term.nodes?] at h
    split at h
    · next n ns hn hns =>
      obtain rfl := Option.some.inj h
      exact List.forall_mem_cons.2 ⟨Term.distinct_of_node? t hn, Term.distinct_of_nodes? ts hns⟩
    · cases h

theorem Term.distinct_of_assignedNodes? (assignments : List (List String × Term))
    {nodes : List (List String × Node)} (h : Term.assignedNodes? assignments = some nodes) :
    ∀ a ∈ nodes, a.2.Distinct := by
  cases assignments with
  | nil =>
    obtain rfl := Option.some.inj h
    exact List.forall_mem_nil _
  | cons assignment assignments =>
    obtain ⟨path, t⟩ := assignment
    rw [Term.assignedNodes?] at h
    split at h
    · next n ns hn hns =>
      obtain rfl := Option.some.inj h
      exact List.forall_mem_cons.2 ⟨Term.distinct_of_node? t hn,
        Term.distinct_of_assignedNodes? assignments hns⟩
    · cases h

end

/-! ### Drafts -/

/-- A statement keeps the keys of a draft distinct. -/
theorem Draft.distinct_of_add {draft draft' : Draft} {statement : Statement}
    (h : draft.add statement = some draft') (hd : Node.DistinctEntries draft.root) :
    Node.DistinctEntries draft'.root := by
  cases statement with
  | header path =>
    obtain ⟨root, hroot, rfl⟩ := Option.map_eq_some_iff.1 h
    exact Node.keepsDistinct_declare path hroot hd
  | arrayHeader path =>
    obtain ⟨root, hroot, rfl⟩ := Option.map_eq_some_iff.1 h
    exact Node.keepsDistinct_addElement path hroot hd
  | entry path value =>
    obtain ⟨node, hnode, h⟩ := Option.bind_eq_some_iff.1 h
    obtain ⟨root, hroot, rfl⟩ := Option.map_eq_some_iff.1 h
    have hn := Term.distinct_of_node? value hnode
    exact Node.keepsDistinct_changeAt (Node.keepsDistinct_assign hn path) hroot hd

/-- A run of statements keeps the keys of a draft distinct. -/
theorem Draft.distinct_of_addAll {statements : List Statement} {draft draft' : Draft}
    (h : Draft.addAll statements draft = some draft') (hd : Node.DistinctEntries draft.root) :
    Node.DistinctEntries draft'.root := by
  induction statements generalizing draft with
  | nil =>
    obtain rfl := Option.some.inj h
    exact hd
  | cons statement statements ih =>
    obtain ⟨next, hnext, h⟩ := Option.bind_eq_some_iff.1 h
    exact ih h (Draft.distinct_of_add hnext hd)

/-! ### Values -/

namespace Node

variable {entries : Entries}

/-- The values of a list of nodes, by their places. -/
theorem exists_of_getElem?_values? {ns : List Node} {vs : List Value}
    (h : Node.values? ns = some vs) {i : Nat} {v : Value} (hv : vs[i]? = some v) :
    ∃ n, ns[i]? = some n ∧ n.value? = some v := by
  induction ns generalizing vs i with
  | nil =>
    obtain rfl := Option.some.inj h
    simp at hv
  | cons n ns ih =>
    rw [Node.values?] at h
    split at h
    · next w ws hw hws =>
      obtain rfl := Option.some.inj h
      cases i with
      | zero =>
        obtain rfl := Option.some.inj hv
        exact ⟨n, rfl, hw⟩
      | succ i => exact ih hws hv
    · cases h

theorem exists_of_getElem?_elements? {elements : List Entries} {vs : List Value}
    (h : Node.elements? elements = some vs) {i : Nat} {v : Value} (hv : vs[i]? = some v) :
    ∃ entries, elements[i]? = some entries ∧ Node.tableValue? entries = some v := by
  induction elements generalizing vs i with
  | nil =>
    obtain rfl := Option.some.inj h
    simp at hv
  | cons entries elements ih =>
    rw [Node.elements?] at h
    split at h
    · next w ws hw hws =>
      obtain rfl := Option.some.inj h
      cases i with
      | zero =>
        obtain rfl := Option.some.inj hv
        exact ⟨entries, rfl, hw⟩
      | succ i => exact ih hws hv
    · cases h

theorem elements?_concat (earlier : List Entries) (last : Entries) :
    Node.elements? (earlier ++ [last]) = (Node.elements? earlier).bind fun vs =>
      (Node.tableValue? last).map fun v => vs ++ [v] := by
  induction earlier with
  | nil =>
    rw [List.nil_append, Node.elements?, Node.elements?]
    cases Node.tableValue? last <;> rfl
  | cons entries earlier ih =>
    rw [List.cons_append, Node.elements?, Node.elements?, ih]
    cases Node.tableValue? entries <;> cases Node.elements? earlier <;>
      cases Node.tableValue? last <;> rfl

/-- An array of tables stands for the array of its elements, the last one included. -/
theorem value?_tables (earlier : List Entries) (last : Entries) :
    (Node.tables earlier last).value? = (Node.elements? (earlier ++ [last])).map .array := by
  rw [Node.value?, elements?_concat]
  cases Node.elements? earlier <;> cases Node.tableValue? last <;> rfl

theorem exists_of_mem_entries? {table : Table} (h : Node.entries? entries = some table) :
    ∀ entry ∈ table, ∃ n, (entry.1, n) ∈ entries ∧ n.value? = some entry.2 := by
  induction entries generalizing table with
  | nil =>
    obtain rfl := Option.some.inj h
    exact List.forall_mem_nil _
  | cons first entries ih =>
    obtain ⟨v, rest, hv, hrest, rfl⟩ := entries?_cons_eq_some_iff.1 h
    refine List.forall_mem_cons.2 ⟨⟨first.2, List.mem_cons_self, hv⟩, fun entry he => ?_⟩
    obtain ⟨n, hn, hnv⟩ := ih hrest entry he
    exact ⟨n, List.mem_cons_of_mem _ hn, hnv⟩

/-- A table stands for a date-time or for a table. -/
theorem tableValue?_cases {v : Value} (h : Node.tableValue? entries = some v) :
    (∃ d, v = .scalar (.dateTime d)) ∨
      ∃ table, Node.entries? entries = some table ∧ v = .table table := by
  by_cases hk : (Entries.keys entries).head? = some dateTimeKey
  · rcases entries with _ | ⟨⟨key, n⟩, entries⟩
    · cases hk
    · obtain rfl : key = dateTimeKey := Option.some.inj hk
      unfold Node.tableValue? at h
      rw [if_pos rfl] at h
      split at h
      · obtain ⟨d, -, rfl⟩ := Option.map_eq_some_iff.1 h
        exact .inl ⟨d, rfl⟩
      · cases h
  · rw [tableValue?_of_head?_ne hk] at h
    obtain ⟨table, ht, rfl⟩ := Option.map_eq_some_iff.1 h
    exact .inr ⟨table, ht, rfl⟩

/-- Entries with distinct keys become a table with distinct keys. -/
theorem distinct_of_entries? (nodup : (Entries.keys entries).Nodup)
    (ih : ∀ entry ∈ entries, ∀ v, entry.2.value? = some v → v.Distinct) {table : Table}
    (h : Node.entries? entries = some table) : (Value.table table).Distinct := by
  refine .table ?_ fun entry he => ?_
  · rw [keys_of_entries? h]
    exact nodup
  · obtain ⟨n, hn, hv⟩ := exists_of_mem_entries? h entry he
    exact ih _ hn _ hv

theorem distinct_of_tableValue? (nodup : (Entries.keys entries).Nodup)
    (ih : ∀ entry ∈ entries, ∀ v, entry.2.value? = some v → v.Distinct) {v : Value}
    (h : Node.tableValue? entries = some v) : v.Distinct := by
  rcases tableValue?_cases h with ⟨d, rfl⟩ | ⟨table, ht, rfl⟩
  · exact .scalar _
  · exact distinct_of_entries? nodup ih ht

/-- The value of a node with distinct keys has distinct keys. -/
theorem Distinct.value {n : Node} (hd : n.Distinct) {v : Value} (h : n.value? = some v) :
    v.Distinct := by
  induction hd generalizing v with
  | scalar s =>
    obtain rfl := Option.some.inj h
    exact .scalar s
  | array _ ih =>
    obtain ⟨values, hvalues, rfl⟩ := Option.map_eq_some_iff.1 h
    refine .array fun v hv => ?_
    obtain ⟨i, hi⟩ := List.getElem?_of_mem hv
    obtain ⟨n, hn, hnv⟩ := exists_of_getElem?_values? hvalues hi
    exact ih n (List.mem_of_getElem? hn) hnv
  | table nodup _ ih => exact distinct_of_tableValue? nodup (fun entry he v => ih entry he) h
  | @tables earlier last nodup _ ih =>
    rw [value?_tables] at h
    obtain ⟨values, hvalues, rfl⟩ := Option.map_eq_some_iff.1 h
    refine .array fun v hv => ?_
    obtain ⟨i, hi⟩ := List.getElem?_of_mem hv
    obtain ⟨entries, he, hev⟩ := exists_of_getElem?_elements? hvalues hi
    have hmem := List.mem_of_getElem? he
    exact distinct_of_tableValue? (nodup entries hmem)
      (fun entry hm v => ih entries hmem entry hm) hev

end Node

/-- **No key is held twice**: the keys of every table in a document are distinct. -/
theorem Document.distinct_of_parse? {text : String} {table : Table}
    (h : Document.parse? text = some table) : (Value.table table).Distinct := by
  obtain ⟨statements, -, h⟩ := Option.bind_eq_some_iff.1 h
  obtain ⟨draft, hdraft, h⟩ := Option.bind_eq_some_iff.1 h
  have hd := Draft.distinct_of_addAll hdraft Node.distinctEntries_nil
  exact Node.distinct_of_entries? hd.nodup (fun entry he v => (hd.nodes entry he).value) h

/-- A table that is held by one with distinct keys has distinct keys. -/
theorem Table.Holds.distinct {entries : Table} {keys : List String} {v : Value}
    (hold : Table.Holds entries keys v) (h : (Value.table entries).Distinct) : v.Distinct := by
  induction hold with
  | last hg =>
    obtain _ | _ | ⟨-, hentries⟩ := h
    exact hentries _ (Entries.mem_of_get? hg)
  | through hg _ ih =>
    obtain _ | _ | ⟨-, hentries⟩ := h
    exact ih (hentries _ (Entries.mem_of_get? hg))

theorem Value.Distinct.nodup {entries : Table} (h : (Value.table entries).Distinct) :
    (Entries.keys entries).Nodup := by
  obtain _ | _ | ⟨nodup, -⟩ := h
  exact nodup

end WorkspaceFacts.Toml
