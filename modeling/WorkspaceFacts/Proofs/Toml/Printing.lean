import WorkspaceFacts.Proofs.Toml.Assembling
import WorkspaceFacts.Proofs.Toml.Reading.Scalars
import WorkspaceFacts.Proofs.Toml.Reading.Statements

/-!
# Reading undoes printing

A table is printed with one line for every entry (`WorkspaceFacts.Toml.Table.text`): the
key as a basic string, an equals sign and the value, whose arrays and inner tables stand in
brackets and braces on the same line. Reading such a text gives back the table that was
printed, with its entries and items in their order, exactly if no value goes down further
than the nesting limit (`WorkspaceFacts.Manifest.parse_text`).

Only depth matters, not size: the room of the reader is the same for all the parts of an
array or a table, however many there are.
-/

namespace WorkspaceFacts.Toml

/-! ### The printer -/

/-- A scalar as it is printed. A floating-point number has no printed form here. -/
def Scalar.text : Scalar → List Char
  | .string text => Quotation.quote text
  | .integer n => integerText n
  | .float _ => []
  | .boolean b => if b then ['t', 'r', 'u', 'e'] else ['f', 'a', 'l', 's', 'e']
  | .dateTime d => d.text

/-- A key as it is printed, with the blank behind it. -/
def printedKey (key : String) : List Char := Quotation.quote key ++ [' ']

mutual

/-- **A value as it is printed.** -/
def Value.text : Value → List Char
  | .scalar s => s.text
  | .array items => '[' :: Value.itemsText items
  | .table entries => '\x7b' :: Value.entriesText entries

/-- The items of an array and its closing bracket. -/
def Value.itemsText : List Value → List Char
  | [] => [']']
  | [v] => v.text ++ [']']
  | v :: w :: rest => v.text ++ ',' :: ' ' :: Value.itemsText (w :: rest)

/-- The entries of a table and its closing brace. -/
def Value.entriesText : List (String × Value) → List Char
  | [] => ['\x7d']
  | [(key, v)] => printedKey key ++ '=' :: ' ' :: (v.text ++ ['\x7d'])
  | (key, v) :: entry :: rest =>
    printedKey key ++ '=' :: ' ' :: (v.text ++ ',' :: ' ' :: Value.entriesText (entry :: rest))

end

/-- **A table as it is printed**, with every entry on a line of its own. -/
def Table.text : Table → List Char
  | [] => []
  | (key, v) :: rest => printedKey key ++ '=' :: ' ' :: (v.text ++ '\n' :: Table.text rest)

mutual

/-- How many levels of arrays and tables a value goes down. -/
def Value.depth : Value → Nat
  | .scalar _ => 0
  | .array items => Value.itemsDepth items + 1
  | .table entries => Value.entriesDepth entries + 1

/-- The depth of the deepest of the items. -/
def Value.itemsDepth : List Value → Nat
  | [] => 0
  | v :: rest => max v.depth (Value.itemsDepth rest)

/-- The depth of the deepest of the entries. -/
def Value.entriesDepth : List (String × Value) → Nat
  | [] => 0
  | (_, v) :: rest => max v.depth (Value.entriesDepth rest)

end

/-! ### What can be printed -/

/-- The scalars that have a printed form. -/
def Scalar.Fits : Scalar → Prop
  | .string _ => True
  | .integer n => leastInteger ≤ n ∧ n ≤ greatestInteger
  | .float _ => False
  | .boolean _ => True
  | .dateTime d => d.Fits

/-- **The values that have a printed form**: they hold no floating-point numbers, the keys
of every table are distinct, and no table stands for a date-time. -/
inductive Value.Fits : Value → Prop
  | scalar {s : Scalar} (h : s.Fits) : Fits (.scalar s)
  | array {items : List Value} (h : ∀ v ∈ items, Fits v) : Fits (.array items)
  | table {entries : Table} (nodup : (Entries.keys entries).Nodup)
      (first : (Entries.keys entries).head? ≠ some dateTimeKey)
      (h : ∀ key v, (key, v) ∈ entries → Fits v) : Fits (.table entries)

/-! ### What is printed is spelled for a term -/

mutual

/-- The term that a value is printed as. -/
def Value.term : Value → Term
  | .scalar s => .scalar s
  | .array items => .array (Value.terms items)
  | .table entries => .table (Value.assignments entries)

/-- The terms that values are printed as. -/
def Value.terms : List Value → List Term
  | [] => []
  | v :: rest => v.term :: Value.terms rest

/-- The assignments that entries are printed as. -/
def Value.assignments : List (String × Value) → List (List String × Term)
  | [] => []
  | (key, v) :: rest => ([key], v.term) :: Value.assignments rest

end

/-- The statements that a table is printed as. -/
def Table.statements (table : Table) : List Statement :=
  Draft.assignments (Value.assignments table)

theorem Scalar.Fits.spelled {s : Scalar} (h : s.Fits) : s.Spelled s.text := by
  cases s with
  | string text => exact .string (.line (Quotation.lineSpelled_quote text))
  | integer n => exact .lexeme (fun c => isLexemeChar_of_mem_integerText) (scalarOf?_integerText h)
  | float x => cases h
  | boolean b =>
    cases b with
    | false => exact .lexeme (List.all_eq_true.1 rfl) rfl
    | true => exact .lexeme (List.all_eq_true.1 rfl) rfl
  | dateTime d =>
    exact .lexeme (fun c => DateTime.isLexemeChar_of_mem_text) (scalarOf?_dateTime h)

/-- A single key is a short path. -/
theorem shortPathSpelled_printedKey (key : String) {blanks : List Char} (hb : IsBlankText blanks) :
    ShortPathSpelled [key] (blanks ++ printedKey key) := by
  rw [printedKey, ← List.append_assoc]
  exact ⟨.last hb (.quoted (Quotation.lineSpelled_quote key)) isBlankText_space,
    by simp [keyLimit]⟩

theorem spelled_items {items : List Value}
    (h : ∀ v ∈ items, (Part.term v.term).Spelled .any v.text) {blanks : List Char}
    (hb : IsBlankText blanks) :
    (Part.items (Value.terms items)).Spelled .any (blanks ++ Value.itemsText items) := by
  induction items generalizing blanks with
  | nil => exact .noItem hb.isTrivia
  | cons v items ih =>
    have hv := h v List.mem_cons_self
    cases items with
    | nil => exact .lastItem hb.isTrivia hv .nil
    | cons w items =>
      have hrest := ih (fun w hw => h w (List.mem_cons_of_mem _ hw)) isBlankText_space
      exact .item hb.isTrivia hv .nil hrest

theorem spelled_entries {entries : Table} (hne : entries ≠ [])
    (h : ∀ key v, (key, v) ∈ entries → (Part.term v.term).Spelled .any v.text)
    {blanks : List Char} (hb : IsBlankText blanks) :
    (Part.assignments (Value.assignments entries)).Spelled .any
      (blanks ++ Value.entriesText entries) := by
  induction entries generalizing blanks with
  | nil => exact absurd rfl hne
  | cons entry entries ih =>
    obtain ⟨key, v⟩ := entry
    have hp := shortPathSpelled_printedKey key hb
    have hv := h key v List.mem_cons_self
    cases entries with
    | nil =>
      rw [Value.entriesText, ← List.append_assoc]
      exact .lastAssignment hp isBlankText_space hv isBlankText_nil
    | cons next entries =>
      have hrest := ih (by simp) (fun k w hw => h k w (List.mem_cons_of_mem _ hw)) isBlankText_space
      rw [Value.entriesText, ← List.append_assoc]
      exact .assignment hp isBlankText_space hv isBlankText_nil hrest

/-- **What is printed is spelled for the term of the value.** -/
theorem Value.Fits.spelled {v : Value} (h : v.Fits) : (Part.term v.term).Spelled .any v.text := by
  induction h with
  | scalar h => exact .scalar h.spelled
  | array _ ih => exact .array (spelled_items ih isBlankText_nil)
  | @table entries _ _ _ ih =>
    cases entries with
    | nil => exact .emptyTable isBlankText_nil
    | cons entry entries => exact .table (spelled_entries (by simp) ih isBlankText_nil)

/-- Every entry is spelled as a statement on a line of its own. -/
theorem allSpelled_text {table : Table} (h : ∀ key v, (key, v) ∈ table → v.Fits) :
    AllSpelled .any (Table.statements table) (Table.text table) := by
  induction table with
  | nil => exact .nil .nil (.blanks isBlankText_nil)
  | cons entry table ih =>
    obtain ⟨key, v⟩ := entry
    have hv := (h key v List.mem_cons_self).spelled
    have hp := shortPathSpelled_printedKey key isBlankText_nil
    have hrest := ih fun k w hw => h k w (List.mem_cons_of_mem _ hw)
    have hs : (StatementOf.entry [key] v.term).Spelled .any
        (printedKey key ++ '=' :: ([' '] ++ v.text)) := .entry hp isBlankText_space hv
    have hall := AllSpelled.cons .nil hs (.blanks isBlankText_nil) hrest
    rw [List.append_assoc] at hall
    exact hall

/-! ### How deep it goes -/

mutual

theorem Value.depth_term (v : Value) : v.term.depth = v.depth := by
  cases v with
  | scalar s => rfl
  | array items => rw [Value.term, TermOf.depth, Value.depth, Value.itemsDepth_terms items]
  | table entries =>
    rw [Value.term, TermOf.depth, Value.depth, Value.assignmentsDepth_assignments entries]

theorem Value.itemsDepth_terms (items : List Value) :
    TermOf.itemsDepth (Value.terms items) = Value.itemsDepth items := by
  cases items with
  | nil => rfl
  | cons v rest =>
    rw [Value.terms, TermOf.itemsDepth, Value.itemsDepth, Value.depth_term v,
      Value.itemsDepth_terms rest]

theorem Value.assignmentsDepth_assignments (entries : List (String × Value)) :
    TermOf.assignmentsDepth (Value.assignments entries) = Value.entriesDepth entries := by
  cases entries with
  | nil => rfl
  | cons entry rest =>
    obtain ⟨key, v⟩ := entry
    rw [Value.assignments, TermOf.assignmentsDepth, Value.entriesDepth, Value.depth_term v,
      Value.assignmentsDepth_assignments rest]

end

theorem Table.mem_statements {table : Table} {statement : Statement} :
    statement ∈ Table.statements table ↔
      ∃ entry ∈ table, statement = .entry [entry.1] entry.2.term := by
  induction table with
  | nil => simp [Table.statements, Value.assignments, Draft.assignments]
  | cons entry table ih =>
    have hcons : Table.statements (entry :: table) =
        .entry [entry.1] entry.2.term :: Table.statements table := rfl
    rw [hcons, List.mem_cons, ih]
    simp

/-- The statements of a table go down as far as its values do. -/
theorem forall_depth_statements {table : Table} {limit : Nat} :
    (∀ statement ∈ Table.statements table, statement.depth ≤ limit) ↔
      ∀ entry ∈ table, entry.2.depth ≤ limit := by
  constructor
  · intro h entry hmem
    have hd := h _ (Table.mem_statements.2 ⟨entry, hmem, rfl⟩)
    rwa [StatementOf.depth, Value.depth_term] at hd
  · intro h statement hmem
    obtain ⟨entry, hentry, rfl⟩ := Table.mem_statements.1 hmem
    rw [StatementOf.depth, Value.depth_term]
    exact h entry hentry

/-! ### What the terms stand for -/

/-- A value comes back from the node that its term stands for. -/
def Value.ComesBack (v : Value) : Prop := ∃ node, v.term.node? = some node ∧ node.value? = some v

theorem exists_nodes {items : List Value} (h : ∀ v ∈ items, v.ComesBack) :
    ∃ nodes, Term.nodes? (Value.terms items) = some nodes ∧ Node.values? nodes = some items := by
  induction items with
  | nil => exact ⟨[], rfl, rfl⟩
  | cons v items ih =>
    obtain ⟨node, hnode, hv⟩ := h v List.mem_cons_self
    obtain ⟨nodes, hnodes, hvs⟩ := ih fun w hw => h w (List.mem_cons_of_mem _ hw)
    refine ⟨node :: nodes, ?_, ?_⟩
    · rw [Value.terms, Term.nodes?, hnode, hnodes]
    · rw [Node.values?, hv, hvs]

theorem exists_entries {entries : Table} (h : ∀ key v, (key, v) ∈ entries → v.ComesBack) :
    ∃ nodes, Term.assignedNodes? (Value.assignments entries) = some (Node.singles nodes) ∧
      Node.entries? nodes = some entries := by
  induction entries with
  | nil => exact ⟨[], rfl, rfl⟩
  | cons entry entries ih =>
    obtain ⟨key, v⟩ := entry
    obtain ⟨node, hnode, hv⟩ := h key v List.mem_cons_self
    obtain ⟨nodes, hnodes, hvs⟩ := ih fun k w hw => h k w (List.mem_cons_of_mem _ hw)
    refine ⟨(key, node) :: nodes, ?_, ?_⟩
    · rw [Value.assignments, Term.assignedNodes?, hnode, hnodes]
      rfl
    · rw [Node.entries?, hv, hvs]

theorem Value.Fits.comesBack {v : Value} (h : v.Fits) : v.ComesBack := by
  induction h with
  | @scalar s h => exact ⟨.scalar s, rfl, rfl⟩
  | array _ ih =>
    obtain ⟨nodes, hnodes, hvs⟩ := exists_nodes ih
    refine ⟨.array nodes, ?_, ?_⟩
    · rw [Value.term, Term.node?, hnodes, Option.map_some]
    · rw [Node.value?, hvs, Option.map_some]
  | table nodup first _ ih =>
    obtain ⟨nodes, hnodes, hvs⟩ := exists_entries ih
    rw [Node.keys_of_entries? hvs] at nodup first
    refine ⟨.table .inline nodes, ?_, ?_⟩
    · rw [Value.term, Term.node?, hnodes, Option.bind_some, Node.assignAll_singles nodup,
        Option.map_some]
    · rw [Node.value?, Node.tableValue?_of_head?_ne first, hvs, Option.map_some]

theorem ofStatements?_statements {table : Table} (nodup : (Entries.keys table).Nodup)
    (h : ∀ key v, (key, v) ∈ table → v.Fits) :
    Document.ofStatements? (Table.statements table) = some table := by
  obtain ⟨nodes, hnodes, hvs⟩ := exists_entries fun key v hmem => (h key v hmem).comesBack
  rw [Node.keys_of_entries? hvs] at nodup
  have hdraft : Draft.addAll (Table.statements table) .empty = some ⟨nodes, []⟩ := by
    -- Without entries there are no statements, and the draft stays as it was.
    cases table with
    | nil =>
      obtain rfl : nodes = [] := by
        cases nodes with
        | nil => rfl
        | cons entry nodes =>
          obtain ⟨v, rest, -, -, h⟩ := Node.entries?_cons_eq_some_iff.1 hvs
          cases h
      rfl
    | cons entry table =>
      have hne : Value.assignments (entry :: table) ≠ [] := List.cons_ne_nil _ _
      exact Draft.addAll_assignments_last hne hnodes (Node.assignAll_singles nodup)
  rw [Document.ofStatements?, hdraft, Option.bind_some, hvs]

end WorkspaceFacts.Toml

namespace WorkspaceFacts.Manifest

open Toml

/-- **Reading a manifest undoes printing it**, up to the nesting limit and not further: the
table that was printed is found again, with the values under all of its key paths, if none
of its values goes down more than 79 levels, and the text is no document otherwise. -/
theorem parse_text (path : Path) {table : Table} (nodup : (Entries.keys table).Nodup)
    (h : ∀ key v, (key, v) ∈ table → v.Fits) :
    ((∀ entry ∈ table, entry.2.depth ≤ 79) →
      parse path (String.ofList (Table.text table)) = .ok ⟨path, table⟩ ∧
        ∀ keys v, Table.Holds table keys v → require ⟨path, table⟩ keys = .ok v) ∧
    ((∃ entry ∈ table, 80 ≤ entry.2.depth) →
      parse path (String.ofList (Table.text table)) = .error (.parse path)) := by
  have hread := Statement.ofText?_of_allSpelled (allSpelled_text h)
  constructor
  · intro hd
    have hall : ∀ statement ∈ Table.statements table, statement.depth ≤ nestingLimit :=
      forall_depth_statements.2 hd
    rw [if_pos hall] at hread
    have hparse : Document.parse? (String.ofList (Table.text table)) = some table := by
      rw [Document.parse?, String.toList_ofList, hread, Option.bind_some,
        ofStatements?_statements nodup h]
    refine ⟨parse_eq_ok_iff.2 ⟨rfl, hparse⟩, fun keys v hold => ?_⟩
    exact require_eq_ok_iff.2 hold
  · rintro ⟨entry, hmem, hd⟩
    have hdeep : ¬∀ statement ∈ Table.statements table, statement.depth ≤ nestingLimit := by
      intro hall
      have := forall_depth_statements.1 hall entry hmem
      rw [nestingLimit] at this
      omega
    rw [if_neg hdeep] at hread
    rw [parse, Document.parse?, String.toList_ofList, hread, Option.bind_none]

/-- A table in a table, and an array that goes down one level too many. -/
theorem parse_text_nested :
    (∃ m, parse ⟨[]⟩ (String.ofList (Table.text
        [("a b", .table [("c", .scalar (.integer (-7)))])])) = .ok m ∧
      m.require ["a b", "c"] = .ok (.scalar (.integer (-7)))) ∧
    parse ⟨[]⟩ (String.ofList (Table.text
      [("d", Nat.repeat (fun v => .array [v]) 80 (.scalar (.boolean true)))])) =
        .error (.parse ⟨[]⟩) := by
  constructor
  · have hfits : ∀ key v, (key, v) ∈ ([("a b", .table [("c", .scalar (.integer (-7)))])] : Table) →
        v.Fits := by
      intro key v hmem
      obtain ⟨rfl, rfl⟩ := Prod.mk.inj (List.mem_singleton.1 hmem)
      refine .table (by decide) (by decide) fun key v hmem => ?_
      obtain ⟨rfl, rfl⟩ := Prod.mk.inj (List.mem_singleton.1 hmem)
      exact .scalar ⟨by decide, by decide⟩
    obtain ⟨hm, hfound⟩ := (parse_text ⟨[]⟩ (by decide) hfits).1 (by decide)
    exact ⟨_, hm, hfound _ _ (.through rfl (.last rfl))⟩
  · have hfits : ∀ n, (Nat.repeat (fun v => Value.array [v]) n (.scalar (.boolean true))).Fits ∧
        (Nat.repeat (fun v => Value.array [v]) n (.scalar (.boolean true))).depth = n := by
      intro n
      induction n with
      | zero => exact ⟨.scalar trivial, rfl⟩
      | succ n ih =>
        refine ⟨.array fun v hv => List.mem_singleton.1 hv ▸ ih.1, ?_⟩
        rw [Nat.repeat, Value.depth, Value.itemsDepth, Value.itemsDepth, ih.2, Nat.max_zero]
    -- The depth is a variable, lest it be counted out.
    generalize hn : 80 = n
    have hnodup : ∀ v : Value, (Entries.keys [("d", v)]).Nodup := fun v => List.nodup_singleton _
    refine (parse_text ⟨[]⟩ (hnodup _) fun key v hmem => ?_).2 ⟨_, List.mem_singleton_self _, ?_⟩
    · obtain ⟨rfl, rfl⟩ := Prod.mk.inj (List.mem_singleton.1 hmem)
      exact (hfits n).1
    · rw [(hfits n).2, hn]

end WorkspaceFacts.Manifest
