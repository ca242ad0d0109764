import WorkspaceFacts.Toml.Statement

/-!
# Drafts: a document while it is put together

The statements of a document build up a tree of tables. While it grows, a table has to
remember how it came about, because that decides what later statements may do with it:

* a table that a **header** declared takes assignments from its own section only;
* a table that is only **implied** by a longer header can still be declared, once, by a
  header of its own, and dotted keys may pass through it;
* a table that **dotted keys** made can be added to by dotted keys of the same section,
  and headers may add tables below it;
* an **inline** table is complete where it stands.

The elements of an array of tables are added one after the other, and only the last one
can grow.

Keys keep the order in which they were first used, with one exception: an implied table
that is declared later takes its place at that moment. It leaves the entries of its
parent and comes back at their end.
-/

namespace WorkspaceFacts.Toml

/-- How a table of a draft came about. -/
inductive Origin
  | header
  | implied
  | dotted
  | inline
  deriving DecidableEq

/-- A part of a draft. -/
inductive Node
  | scalar (s : Scalar)
  | array (items : List Node)
  | table (origin : Origin) (entries : List (String × Node))
  /-- An array of tables: the complete elements and the last one. -/
  | tables (earlier : List (List (String × Node))) (last : List (String × Node))

namespace Node

/-- The entries of a table of a draft. -/
abbrev Entries := List (String × Node)

/-! ### Assignments -/

/-- Assigns a node to a key path. The key at its end must be new. The tables on the way
are made as needed; those that exist already must be open to dotted keys, and the last of
them must itself come from dotted keys. -/
def assign (node : Node) : List String → Entries → Option Entries
  | [], _ => none
  | [key], entries =>
    match Entries.get? entries key with
    | none => some (entries ++ [(key, node)])
    | some _ => none
  | key :: next :: keys, entries =>
    match Entries.get? entries key with
    | none =>
      (assign node (next :: keys) []).map fun inner => entries ++ [(key, .table .dotted inner)]
    | some (.table .dotted inner) =>
      (assign node (next :: keys) inner).map fun inner =>
        Entries.put entries key (.table .dotted inner)
    | some (.table .implied inner) =>
      if keys.isEmpty then none
      else (assign node (next :: keys) inner).map fun inner =>
        Entries.put entries key (.table .implied inner)
    | some (.tables earlier last) =>
      if keys.isEmpty then none
      else (assign node (next :: keys) last).map fun last =>
        Entries.put entries key (.tables earlier last)
    | some _ => none

/-- Makes all assignments, in order. -/
def assignAll : List (List String × Node) → Entries → Option Entries
  | [], entries => some entries
  | (path, node) :: rest, entries => (assign node path entries).bind (assignAll rest)

/-! ### Headers -/

/-- Changes the table under a key by `f`. A table that is not there yet is implied; of an
array of tables it is the last element; what is complete cannot be changed. -/
def change (f : Entries → Option Entries) (key : String) (entries : Entries) : Option Entries :=
  match Entries.get? entries key with
  | none => (f []).map fun inner => entries ++ [(key, .table .implied inner)]
  | some (.table .inline _) => none
  | some (.table origin inner) =>
    (f inner).map fun inner => Entries.put entries key (.table origin inner)
  | some (.tables earlier last) =>
    (f last).map fun last => Entries.put entries key (.tables earlier last)
  | some _ => none

/-- Changes the table at the end of a path by `f`. -/
def changeAt (f : Entries → Option Entries) : List String → Entries → Option Entries
  | [], entries => f entries
  | key :: keys, entries => change (changeAt f keys) key entries

/-- Declares the table at a path. It must be new or implied; an implied table moves to
the end of the entries around it. -/
def declare : List String → Entries → Option Entries
  | [], _ => none
  | [key], entries =>
    match Entries.get? entries key with
    | none => some (entries ++ [(key, .table .header [])])
    | some (.table .implied inner) =>
      some (Entries.erase entries key ++ [(key, .table .header inner)])
    | some _ => none
  | key :: next :: keys, entries => change (declare (next :: keys)) key entries

/-- Adds an element to the array of tables at a path, which is made as needed. -/
def addElement : List String → Entries → Option Entries
  | [], _ => none
  | [key], entries =>
    match Entries.get? entries key with
    | none => some (entries ++ [(key, .tables [] [])])
    | some (.tables earlier last) => some (Entries.put entries key (.tables (earlier ++ [last]) []))
    | some _ => none
  | key :: next :: keys, entries => change (addElement (next :: keys)) key entries

end Node

/-! ### From terms to nodes -/

mutual

/-- The node that a term stands for, if the assignments of its inline tables agree with
each other. -/
def Term.node? : Term → Option Node
  | .scalar s => some (.scalar s)
  | .array items => (Term.nodes? items).map .array
  | .table assignments =>
    ((Term.assignedNodes? assignments).bind (Node.assignAll · [])).map (.table .inline)

/-- The nodes that terms stand for. -/
def Term.nodes? : List Term → Option (List Node)
  | [] => some []
  | t :: ts =>
    match t.node?, Term.nodes? ts with
    | some n, some ns => some (n :: ns)
    | _, _ => none

/-- The nodes that assigned terms stand for, with their key paths. -/
def Term.assignedNodes? : List (List String × Term) → Option (List (List String × Node))
  | [] => some []
  | (path, t) :: rest =>
    match t.node?, Term.assignedNodes? rest with
    | some n, some ns => some ((path, n) :: ns)
    | _, _ => none

end

/-! ### Statement by statement -/

/-- A document under construction. -/
structure Draft where
  /-- The entries of the whole document so far. -/
  root : Node.Entries
  /-- The path of the table that assignments go into; empty before the first header. -/
  target : List String

namespace Draft

/-- The draft of a document without statements. -/
def empty : Draft := ⟨[], []⟩

/-- The draft after one more statement, if the statement is admissible. -/
def add (draft : Draft) : Statement → Option Draft
  | .header path => (Node.declare path draft.root).map (⟨·, path⟩)
  | .arrayHeader path => (Node.addElement path draft.root).map (⟨·, path⟩)
  | .entry path value =>
    (Term.node? value).bind fun node =>
      (Node.changeAt (Node.assign node path) draft.target draft.root).map (⟨·, draft.target⟩)

/-- The draft after further statements, if all of them are admissible. -/
def addAll : List Statement → Draft → Option Draft
  | [], draft => some draft
  | statement :: rest, draft => (draft.add statement).bind (addAll rest)

end Draft

end WorkspaceFacts.Toml
