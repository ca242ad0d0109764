import WorkspaceFacts.Proofs.Toml.Preservation
import WorkspaceFacts.Proofs.Toml.Reading.Statements

/-!
# What statements describe, and how it is spelled

Statements describe a table, or they do not (`WorkspaceFacts.Toml.Statement.Describe`), and that
does not depend on how they are spelled: every text for statements that describe a table is read
as that table (`WorkspaceFacts.Toml.Statement.Describe.parse`). What they give a key path, by an
assignment or from inside the inline table of one (`WorkspaceFacts.Toml.Statement.Give`), the
table holds there.
-/

namespace WorkspaceFacts.Toml

/-! ### Tables from statements -/

/-- **The statements describe the table.** None of them names the key that makes a table stand
for a date-time. -/
structure Statement.Describe (statements : List Statement) (table : Table) : Prop where
  depth : ∀ statement ∈ statements, statement.depth ≤ nestingLimit
  clean : ∀ statement ∈ statements, dateTimeKey ∉ statement.path
  describes : Document.ofStatements? statements = some table

/-- **However the statements are spelled**, the text is the document that they describe. -/
theorem Statement.Describe.parse {statements : List Statement} {table : Table} {text : List Char}
    (h : Describe statements table) (hs : AllSpelled .any statements text) (path : Path) :
    Manifest.parse path (String.ofList text) = .ok ⟨path, table⟩ := by
  refine Manifest.parse_eq_ok_iff.2 ⟨rfl, ?_⟩
  rw [Document.parse?, String.toList_ofList, ofText?_of_allSpelled hs, if_pos h.depth,
    Option.bind_some, h.describes]

/-! ### Terms at key paths -/

/-- **A term gives a term at a key path**: itself at the empty one, and what its assignments give
if it is an inline table. -/
inductive Term.Gives : Term → List String → Term → Prop
  | itself (t : Term) : Gives t [] t
  | within {assignments : List (List String × Term)} {keys path : List String} {t value : Term}
      (hk : ∀ assignment ∈ assignments, dateTimeKey ∉ assignment.1)
      (hmem : (keys, t) ∈ assignments) (h : Gives t path value) :
      Gives (.table assignments) (keys ++ path) value

/-- What a term gives is in its value. -/
theorem Term.Gives.holds {t value : Term} {path : List String} (h : t.Gives path value)
    {v : Value} (hv : t.value? = some v) : ∃ w, value.value? = some w ∧
      ((path = [] ∧ v = w) ∨ ∃ entries, v = .table entries ∧ Table.Holds entries path w) := by
  induction h generalizing v with
  | itself t => exact ⟨v, hv, .inl ⟨rfl, rfl⟩⟩
  | within hk hmem _ ih =>
    obtain ⟨entries, rfl, hold⟩ := holds_of_mem hv fun keys u hmem => hk (keys, u) hmem
    obtain ⟨u, hu, hat⟩ := hold _ _ hmem
    obtain ⟨w, hw, ⟨rfl, rfl⟩ | ⟨inner, rfl, hin⟩⟩ := ih hu
    · exact ⟨u, hw, .inr ⟨entries, rfl, by rwa [List.append_nil]⟩⟩
    · exact ⟨w, hw, .inr ⟨entries, rfl, hat.append hin⟩⟩

/-- **The statements give a term at a full key path**, by an assignment that no array of tables
stands on the way to. -/
inductive Statement.Give (statements : List Statement) : List String → Term → Prop
  | mk {i : Nat} {full path : List String} {t value : Term} (ha : Assigns statements i full t)
      (ho : Outside statements full) (h : t.Gives path value) :
      Give statements (full ++ path) value

/-- **A table holds what its statements give.** -/
theorem Statement.Describe.holds {statements : List Statement} {table : Table}
    {full : List String} {value : Term} (h : Describe statements table)
    (hg : Give statements full value) :
    ∃ v, value.value? = some v ∧ Table.Holds table full v := by
  obtain ⟨ha, ho, hgives⟩ := hg
  obtain ⟨v, hv, hold⟩ := Document.holds_of_assigns h.describes h.clean ha ho
  obtain ⟨w, hw, ⟨rfl, rfl⟩ | ⟨inner, rfl, hin⟩⟩ := hgives.holds hv
  · exact ⟨v, hw, by rwa [List.append_nil]⟩
  · exact ⟨w, hw, hold.append hin⟩

end WorkspaceFacts.Toml
