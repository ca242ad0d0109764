import WorkspaceFacts.Binary64
import WorkspaceFacts.Toml.DateTime

/-!
# Values and tables

What a document says once it is read: strings, numbers, truth values and date-times,
arrays of values, and tables.

A table is a list of entries that keep the order in which their keys came. The two changes
of such a list keep that order: `WorkspaceFacts.Entries.put` changes an entry where it
stands or adds one at the end, and `WorkspaceFacts.Entries.erase` takes one out and leaves
the others in place.
-/

namespace WorkspaceFacts.Entries

variable {α : Type}

/-- The keys, in order. -/
def keys (entries : List (String × α)) : List String := entries.map (·.1)

/-- The value of the first entry under a key. -/
def get? (entries : List (String × α)) (key : String) : Option α :=
  match entries with
  | [] => none
  | (k, v) :: rest => if k = key then some v else get? rest key

/-- Gives a key a value: in the place of its entry, or at the end if it has none. -/
def put (entries : List (String × α)) (key : String) (value : α) : List (String × α) :=
  match entries with
  | [] => [(key, value)]
  | (k, v) :: rest => if k = key then (k, value) :: rest else (k, v) :: put rest key value

/-- Takes out the first entry under a key. -/
def erase (entries : List (String × α)) (key : String) : List (String × α) :=
  match entries with
  | [] => []
  | (k, v) :: rest => if k = key then rest else (k, v) :: erase rest key

end WorkspaceFacts.Entries

namespace WorkspaceFacts.Toml

/-- A value without parts. -/
inductive Scalar
  | string (text : String)
  /-- An integer; a document can only write those of 64 bits. -/
  | integer (n : Int)
  | float (x : Binary64)
  | boolean (b : Bool)
  | dateTime (d : DateTime)
  deriving DecidableEq

/-- A value of a document. -/
inductive Value
  | scalar (s : Scalar)
  | array (items : List Value)
  | table (entries : List (String × Value))

/-- A table: values under keys, in the order of the document. -/
abbrev Table := List (String × Value)

namespace Value

/-- The text of a string. -/
def string? : Value → Option String
  | .scalar (.string text) => some text
  | _ => none

/-- The truth value of a boolean. -/
def boolean? : Value → Option Bool
  | .scalar (.boolean b) => some b
  | _ => none

/-- The entries of a table. -/
def table? : Value → Option Table
  | .table entries => some entries
  | _ => none

end Value

end WorkspaceFacts.Toml
