import WorkspaceFacts.Proofs.Toml.Ordering
import WorkspaceFacts.Proofs.Toml.Reading.Statements

/-!
# The order of keys

The keys of every table of a document stand in the order of their positions
(`WorkspaceFacts.Toml.Document.inOrder_of_parse?`), however its statements are spelled
(`WorkspaceFacts.Toml.Document.inOrder_of_allSpelled`). A term that is assigned is in order by
itself, as its assignments only ever add keys at the end. A draft and the outline of the same
statements then go together, statement by statement (`WorkspaceFacts.Toml.Draft.KeepsTo`), and to
turn a draft into values changes nothing about its keys.
-/

namespace WorkspaceFacts.Toml

variable {m : Mention} {mentions : List Mention} {keys : List String}

/-! ### Terms -/

/-- Mentions of assignments, in the order of the document. -/
structure Assignments (mentions : List Mention) : Prop where
  assigned : Assigned mentions
  sorted : mentions.Pairwise (·.position < ·.position)

theorem assignments_map_below {above : Address} :
    Assignments (mentions.map (Mention.below above)) ↔ Assignments mentions := by
  constructor
  · rintro ⟨assigned, sorted⟩
    exact ⟨assigned_map_below.1 assigned, (List.pairwise_map (f := Mention.below above)).1 sorted⟩
  · rintro ⟨assigned, sorted⟩
    exact ⟨assigned_map_below.2 assigned, (List.pairwise_map (f := Mention.below above)).2 sorted⟩

theorem assignments_append {more : List Mention} : Assignments (mentions ++ more) ↔
    Assignments mentions ∧ Assignments more ∧ Follows mentions more := by
  constructor
  · rintro ⟨assigned, sorted⟩
    obtain ⟨ha, ha'⟩ := List.forall_mem_append.1 assigned
    obtain ⟨hs, hs', hf⟩ := List.pairwise_append.1 sorted
    exact ⟨⟨ha, hs⟩, ⟨ha', hs'⟩, hf⟩
  · rintro ⟨h, h', hf⟩
    exact ⟨List.forall_mem_append.2 ⟨h.assigned, h'.assigned⟩,
      List.pairwise_append.2 ⟨h.sorted, h'.sorted, hf⟩⟩

theorem Assignments.tail (h : Assignments (m :: mentions)) : Assignments mentions :=
  ⟨(List.forall_mem_cons.1 h.assigned).2, (List.pairwise_cons.1 h.sorted).2⟩

theorem Term.addresses_eq_cons (t : Term) : ∃ rest, t.addresses = [] :: rest := by
  cases t <;> exact ⟨_, rfl⟩

/-- The items from one on do not mention those before it. -/
theorem Term.within_itemAddresses {ts : List Term} {index : Nat}
    (h : mentions.map Mention.address = Term.itemAddresses index ts) {i : Nat} (hi : i < index) :
    within (.item i) mentions = [] := by
  induction ts generalizing index mentions with
  | nil =>
    obtain rfl := List.map_eq_nil_iff.1 h
    rfl
  | cons t ts ih =>
    obtain ⟨first, rest, rfl, hfirst, hrest⟩ := List.map_eq_append_iff.1 h
    obtain ⟨seen, rfl, -⟩ := exists_map_below [.item index] hfirst
    rw [within_append, ih hrest (Nat.lt_succ_of_lt hi), List.append_nil]
    exact within_map_below_of_ne (fun he => absurd (Step.item.inj he) (Nat.ne_of_gt hi)) _ _

mutual

/-- What a term stands for is in order. -/
theorem Term.inOrder_of_node? (t : Term) {n : Node} (h : t.node? = some n)
    {mentions : List Mention} (ht : mentions.map Mention.address = t.addresses)
    (ha : Assignments mentions) : n.InOrder mentions := by
  cases t with
  | scalar s =>
    obtain rfl := Option.some.inj h
    exact .scalar _ s
  | array items =>
    obtain ⟨nodes, hnodes, rfl⟩ := Option.map_eq_some_iff.1 h
    obtain ⟨self, rest, rfl, hself, hrest⟩ := List.map_eq_cons_iff.1 ht
    refine .array fun i n hn => ?_
    rw [within_self_cons hself]
    have hitem := Term.inOrder_of_nodes? items hnodes hrest ha.tail i n hn
    rwa [Nat.zero_add] at hitem
  | table assignments =>
    obtain ⟨entries, hentries, rfl⟩ := Option.map_eq_some_iff.1 h
    obtain ⟨nodes, hnodes, he⟩ := Option.bind_eq_some_iff.1 hentries
    obtain ⟨self, rest, rfl, hself, hrest⟩ := List.map_eq_cons_iff.1 ht
    refine Node.inOrder_table_iff.2 ⟨Node.stage_of_settled (by decide) ha.assigned.settled,
      ha.assigned.elements_eq_zero, ?_⟩
    have hself' : Node.InOrderEntries [self] [] :=
      Node.inOrderEntries_nil fun key => within_self_cons hself _ _
    exact Term.inOrder_of_assignedNodes? assignments hnodes hrest ha hself' he

theorem Term.inOrder_of_nodes? (ts : List Term) {ns : List Node} (h : Term.nodes? ts = some ns)
    {index : Nat} {mentions : List Mention}
    (ht : mentions.map Mention.address = Term.itemAddresses index ts)
    (ha : Assignments mentions) :
    ∀ (i : Nat) (n : Node), ns[i]? = some n → n.InOrder (within (.item (index + i)) mentions) := by
  cases ts with
  | nil =>
    obtain rfl := Option.some.inj h
    intro i n hn
    simp at hn
  | cons t ts =>
    rw [Term.nodes?] at h
    split at h
    · next n ns hn hns =>
      obtain rfl := Option.some.inj h
      obtain ⟨first, rest, rfl, hfirst, hrest⟩ := List.map_eq_append_iff.1 ht
      obtain ⟨seen, rfl, hseen⟩ := exists_map_below [.item index] hfirst
      obtain ⟨hs, hr, -⟩ := assignments_append.1 ha
      intro i n' hi
      rw [within_append]
      cases i with
      | zero =>
        obtain rfl := Option.some.inj hi
        rw [Nat.add_zero, within_map_below_self, map_below_nil,
          Term.within_itemAddresses hrest (Nat.lt_succ_self index), List.append_nil]
        exact Term.inOrder_of_node? t hn hseen (assignments_map_below.1 hs)
      | succ i =>
        have hne : Step.item index ≠ .item (index + (i + 1)) := fun he => by
          have := Step.item.inj he
          omega
        rw [within_map_below_of_ne hne, List.nil_append, Nat.add_comm i 1, ← Nat.add_assoc]
        exact Term.inOrder_of_nodes? ts hns hrest hr i n' hi
    · cases h

/-- Assignments after others keep the order, and make what they assign. -/
theorem Term.inOrder_of_assignedNodes? (assignments : List (List String × Term))
    {nodes : List (List String × Node)} (h : Term.assignedNodes? assignments = some nodes)
    {mentions more : List Mention}
    (ht : more.map Mention.address = Term.assignedAddresses assignments)
    (ha : Assignments (mentions ++ more)) {entries entries' : Node.Entries}
    (ho : Node.InOrderEntries mentions entries)
    (he : Node.assignAll nodes entries = some entries') :
    Node.InOrderEntries (mentions ++ more) entries' := by
  cases assignments with
  | nil =>
    obtain rfl := Option.some.inj h
    obtain rfl := Option.some.inj he
    obtain rfl := List.map_eq_nil_iff.1 ht
    rwa [List.append_nil]
  | cons assignment assignments =>
    obtain ⟨path, t⟩ := assignment
    rw [Term.assignedNodes?] at h
    split at h
    · next n ns hn hns =>
      obtain rfl := Option.some.inj h
      obtain ⟨next, hnext, he⟩ := Option.bind_eq_some_iff.1 he
      obtain ⟨first, rest, rfl, hfirst, hrest⟩ := List.map_eq_append_iff.1 ht
      obtain ⟨seen, rfl, hseen⟩ := exists_map_below (path.map .key) hfirst
      rw [← List.append_assoc] at ha ⊢
      obtain ⟨ha', -, -⟩ := assignments_append.1 ha
      obtain ⟨hm, hs, hf⟩ := assignments_append.1 ha'
      have hs := assignments_map_below.1 hs
      obtain ⟨_, haddr⟩ := t.addresses_eq_cons
      have hne : seen ≠ [] := fun hnil => by simp [hnil, haddr] at hseen
      have hstep := Node.inOrderEntries_assign hnext ho ((follows_map_below _).1 hf) hne hs.assigned
        (Term.inOrder_of_node? t hn hseen hs)
      rw [hm.assigned.address_eq] at hstep
      exact Term.inOrder_of_assignedNodes? assignments hns hrest ha hstep he
    · cases h

end

/-! ### Drafts -/

/-- **The draft goes by the outline**: its tables are in the order of the mentions, and the
mentions lead to the table that assignments go into. -/
structure Draft.KeepsTo (draft : Draft) (outline : Outline) : Prop where
  root : Node.InOrderEntries outline.mentions draft.root
  current : outline.current = draft.target
  leads : Leads draft.target outline.mentions
  numbered : ∀ m ∈ outline.mentions, m.position < outline.mentions.length

theorem Draft.keepsTo_empty : Draft.empty.KeepsTo ⟨[], []⟩ :=
  ⟨Node.inOrderEntries_nil fun _ => rfl, rfl, trivial, List.forall_mem_nil _⟩

variable {outline : Outline} {draft draft' : Draft} {statement : Statement}

/-- Further mentions are numbered on from those there are. -/
theorem Draft.KeepsTo.follows (hd : draft.KeepsTo outline) (kind : Mention.Kind)
    (addresses : List Address) :
    Follows outline.mentions (mentionsFrom outline.mentions.length kind addresses) :=
  fun m hm _ hm' => Nat.lt_of_lt_of_le (hd.numbered m hm) (position_of_mem_mentionsFrom hm').1

theorem Draft.KeepsTo.numbered_append (hd : draft.KeepsTo outline) (kind : Mention.Kind)
    (addresses : List Address) :
    ∀ m ∈ outline.mentions ++ mentionsFrom outline.mentions.length kind addresses,
      m.position < (outline.mentions ++
        mentionsFrom outline.mentions.length kind addresses).length := by
  rw [List.length_append, length_mentionsFrom, List.forall_mem_append]
  exact ⟨fun m hm => Nat.lt_add_right _ (hd.numbered m hm),
    fun m hm => (position_of_mem_mentionsFrom hm).2⟩

/-- **A statement keeps to the outline.** -/
theorem Draft.KeepsTo.add (hd : draft.KeepsTo outline) (h : draft.add statement = some draft') :
    draft'.KeepsTo (outline.add statement) := by
  cases statement with
  | header path =>
    obtain ⟨root, hroot, rfl⟩ := Option.map_eq_some_iff.1 h
    exact ⟨Node.inOrderEntries_declare hroot hd.root (hd.follows .header [[]]), rfl,
      leads_header _ .header toPart path outline.mentions, hd.numbered_append _ _⟩
  | arrayHeader path =>
    obtain ⟨root, hroot, rfl⟩ := Option.map_eq_some_iff.1 h
    exact ⟨Node.inOrderEntries_addElement hroot hd.root (hd.follows .arrayHeader [[]]), rfl,
      leads_header _ .arrayHeader toNewElement path outline.mentions, hd.numbered_append _ _⟩
  | entry path value =>
    obtain ⟨node, hnode, h⟩ := Option.bind_eq_some_iff.1 h
    obtain ⟨root, hroot, rfl⟩ := Option.map_eq_some_iff.1 h
    have htold : Assignments
        (mentionsFrom outline.mentions.length .assignment (Term.addresses value)) :=
      ⟨fun m => kind_of_mem_mentionsFrom, pairwise_mentionsFrom _ _⟩
    have hne : mentionsFrom outline.mentions.length .assignment (Term.addresses value) ≠ [] := by
      obtain ⟨rest, haddr⟩ := Term.addresses_eq_cons value
      rw [haddr]
      exact List.cons_ne_nil _ _
    have hn := Term.inOrder_of_node? value hnode (map_address_mentionsFrom _ _) htold
    have hroot' := Node.inOrderEntries_changeAt hroot hd.root hd.leads
      (hd.follows .assignment (Term.addresses value)) hne htold.assigned hn
    rw [← hd.current, ← mentionsFrom_map_append] at hroot'
    refine ⟨hroot', hd.current, hd.leads.append ?_, hd.numbered_append _ _⟩
    exact fun m => kind_of_mem_mentionsFrom

/-- A run of statements keeps to the outline. -/
theorem Draft.KeepsTo.addAll {statements : List Statement} (hd : draft.KeepsTo outline)
    (h : Draft.addAll statements draft = some draft') :
    draft'.KeepsTo (statements.foldl Outline.add outline) := by
  induction statements generalizing draft outline with
  | nil =>
    obtain rfl := Option.some.inj h
    exact hd
  | cons statement statements ih =>
    obtain ⟨next, hnext, h⟩ := Option.bind_eq_some_iff.1 h
    exact ih (hd.add hnext) h

/-! ### Values -/

namespace Node

variable {entries : Entries}

/-- Entries in order become a table in order. -/
theorem inOrder_of_entries? (keys : InKeyOrder mentions (Entries.keys entries))
    (ih : ∀ key n, Entries.get? entries key = some n → ∀ v, n.value? = some v →
      v.InOrder (within (.key key) mentions)) {table : Table}
    (h : Node.entries? entries = some table) : (Value.table table).InOrder mentions := by
  refine .table ?_ fun entry he => ?_
  · rwa [keys_of_entries? h]
  · obtain ⟨n, hn, hv⟩ := exists_of_mem_entries? h entry he
    exact ih entry.1 n (Entries.get?_of_mem keys.nodup hn) entry.2 hv

theorem inOrder_of_tableValue? (keys : InKeyOrder mentions (Entries.keys entries))
    (ih : ∀ key n, Entries.get? entries key = some n → ∀ v, n.value? = some v →
      v.InOrder (within (.key key) mentions)) {v : Value}
    (h : Node.tableValue? entries = some v) : v.InOrder mentions := by
  rcases tableValue?_cases h with ⟨d, rfl⟩ | ⟨table, ht, rfl⟩
  · exact .scalar _ _
  · exact inOrder_of_entries? keys ih ht

/-- The value of a node in order is in order. -/
theorem InOrder.value {n : Node} (ho : n.InOrder mentions) {v : Value} (h : n.value? = some v) :
    v.InOrder mentions := by
  induction ho generalizing v with
  | scalar mentions s =>
    obtain rfl := Option.some.inj h
    exact .scalar _ s
  | array _ ih =>
    obtain ⟨values, hvalues, rfl⟩ := Option.map_eq_some_iff.1 h
    refine .array fun i v hv => ?_
    obtain ⟨n, hn, hnv⟩ := exists_of_getElem?_values? hvalues hv
    exact ih i n hn hnv
  | table _ _ keys _ ih =>
    exact inOrder_of_tableValue? keys (fun key n hg v => ih key n hg) h
  | tables _ _ _ keys _ ih =>
    rw [value?_tables] at h
    obtain ⟨values, hvalues, rfl⟩ := Option.map_eq_some_iff.1 h
    refine .array fun i v hv => ?_
    obtain ⟨entries, he, hev⟩ := exists_of_getElem?_elements? hvalues hv
    exact inOrder_of_tableValue? (keys i entries he)
      (fun key n hg v => ih i entries he key n hg) hev

end Node

/-- **The keys of a document stand in the order of their positions.** -/
theorem Document.inOrder_of_parse? {text : String} {table : Table}
    (h : Document.parse? text = some table) : ∃ statements,
      Statement.ofText? text.toList = some statements ∧
        (Value.table table).InOrder (Outline.of statements).mentions := by
  obtain ⟨statements, hs, h⟩ := Option.bind_eq_some_iff.1 h
  obtain ⟨draft, hdraft, h⟩ := Option.bind_eq_some_iff.1 h
  have ho := (Draft.keepsTo_empty.addAll hdraft).root
  exact ⟨statements, hs,
    Node.inOrder_of_entries? ho.keys (fun key n hg v => (ho.nodes key n hg).value) h⟩

/-- The keys stand in the order of the statements, however these are spelled. -/
theorem Document.inOrder_of_allSpelled {text : String} {table : Table}
    {statements : List Statement} (h : Document.parse? text = some table)
    (hs : AllSpelled .any statements text.toList) :
    (Value.table table).InOrder (Outline.of statements).mentions := by
  obtain ⟨read, hread, ho⟩ := inOrder_of_parse? h
  obtain rfl := Option.some.inj (hread.symm.trans (Statement.ofText?_of_parse? h hs))
  exact ho

/-- A table that is implied comes behind one that is declared before its own header. -/
example : (["a", "b"].map fun key => position (withinAll [.key "w", .key key]
    (Outline.of [.header ["w", "a", "q"], .header ["w", "b"], .header ["w", "a"]]).mentions)) =
    [2, 1] := by decide

/-- A table that is held by one in order is in order. -/
theorem Table.Holds.inOrder {entries : Table} {v : Value} (hold : Table.Holds entries keys v)
    (h : (Value.table entries).InOrder mentions) :
    v.InOrder (withinAll (keys.map .key) mentions) := by
  induction hold generalizing mentions with
  | last hg =>
    obtain _ | _ | ⟨-, hentries⟩ := h
    exact hentries _ (Entries.mem_of_get? hg)
  | through hg _ ih =>
    obtain _ | _ | ⟨-, hentries⟩ := h
    exact ih (hentries _ (Entries.mem_of_get? hg))

theorem Value.InOrder.inKeyOrder {entries : Table} (h : (Value.table entries).InOrder mentions) :
    InKeyOrder mentions (Entries.keys entries) := by
  obtain _ | _ | ⟨keys, -⟩ := h
  exact keys

end WorkspaceFacts.Toml
