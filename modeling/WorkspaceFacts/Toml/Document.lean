import WorkspaceFacts.Toml.Draft

/-!
# Documents

The table that a text describes: its statements are read, put together to a draft, and
the draft is turned into values.

One thing is decided only at that last step. A table inside a document whose first key is
`WorkspaceFacts.Toml.dateTimeKey` stands for the date-time that the string under that key
spells; what else such a table holds is not looked at. At the top of a document, or
behind another key, the key is like any other.
-/

namespace WorkspaceFacts.Toml

/-- The key that makes a table stand for a date-time. -/
def dateTimeKey : String := "$__toml_private_datetime"

mutual

/-- The value that a node stands for. -/
def Node.value? : Node → Option Value
  | .scalar s => some (.scalar s)
  | .array items => (Node.values? items).map .array
  | .table _ entries => Node.tableValue? entries
  | .tables earlier last =>
    match Node.elements? earlier, Node.tableValue? last with
    | some vs, some v => some (.array (vs ++ [v]))
    | _, _ => none

/-- The values that nodes stand for. -/
def Node.values? : List Node → Option (List Value)
  | [] => some []
  | n :: ns =>
    match n.value?, Node.values? ns with
    | some v, some vs => some (v :: vs)
    | _, _ => none

/-- The value that a table inside a document stands for. -/
def Node.tableValue? : List (String × Node) → Option Value
  | [] => some (.table [])
  | (key, n) :: rest =>
    if key = dateTimeKey then
      match n with
      | .scalar (.string text) =>
        (DateTime.ofText? text.toList).map fun d => .scalar (.dateTime d)
      | _ => none
    else
      match n.value?, Node.entries? rest with
      | some v, some vs => some (.table ((key, v) :: vs))
      | _, _ => none

/-- The values that the elements of an array of tables stand for. -/
def Node.elements? : List (List (String × Node)) → Option (List Value)
  | [] => some []
  | entries :: rest =>
    match Node.tableValue? entries, Node.elements? rest with
    | some v, some vs => some (v :: vs)
    | _, _ => none

/-- The values that nodes under keys stand for. -/
def Node.entries? : List (String × Node) → Option (List (String × Value))
  | [] => some []
  | (key, n) :: rest =>
    match n.value?, Node.entries? rest with
    | some v, some vs => some ((key, v) :: vs)
    | _, _ => none

end

/-- The table that a list of statements describes. -/
def Document.ofStatements? (statements : List Statement) : Option Table :=
  (Draft.addAll statements .empty).bind fun draft => Node.entries? draft.root

/-- **The table that a text describes**, if the text is a document. -/
def Document.parse? (text : String) : Option Table :=
  (Statement.ofText? text.toList).bind Document.ofStatements?

end WorkspaceFacts.Toml
