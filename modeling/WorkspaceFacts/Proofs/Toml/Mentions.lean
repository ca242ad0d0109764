import WorkspaceFacts.Toml.Statement

/-!
# Where a document mentions its parts

Every header and every key path of a document **mentions** the parts it leads to and those it
passes through, and every item of an array and every assignment of an inline table mentions
them once more. The mentions of a document, in the order of the text, are told from its
statements alone (`WorkspaceFacts.Toml.Outline.of`). What one statement mentions depends on
those before it in one way only: a path that comes to an array of tables goes on in the last
element, and which one that is depends on how many of them have been opened.

The mentions give every part its **position** (`WorkspaceFacts.Toml.position`). That is the
place of the first mention, unless this is a header that goes on to something inside the part,
so that the part is there without having been declared; the position of such a part is that of
its own header, if there is one later on. A table is in order if its keys stand in the order of
their positions, and so do those of all tables in it (`WorkspaceFacts.Toml.Value.InOrder`).
-/

namespace WorkspaceFacts.Toml

/-! ### Mentions -/

/-- A step into a value. -/
inductive Step
  /-- To what stands under a key of a table. -/
  | key (key : String)
  /-- To an item of an array. -/
  | item (index : Nat)
  deriving DecidableEq

/-- The way to a part of a value. -/
abbrev Address := List Step

/-- What mentions a part. -/
inductive Mention.Kind
  | header
  | arrayHeader
  | assignment
  deriving DecidableEq

/-- A place in a document that leads to a part. -/
structure Mention where
  /-- How many mentions come before it in the document. -/
  position : Nat
  kind : Mention.Kind
  /-- The part, as seen from the value that is looked at. -/
  address : Address
  deriving DecidableEq

namespace Mention

/-- The mention as seen from behind a step, if it leads there. -/
def within? (step : Step) (m : Mention) : Option Mention :=
  match m.address with
  | [] => none
  | first :: rest => if first = step then some { m with address := rest } else none

/-- The mention as seen from further above. -/
def below (above : Address) (m : Mention) : Mention := { m with address := above ++ m.address }

/-- A header that goes on to something inside the table. -/
def implies (m : Mention) : Bool :=
  match m.kind, m.address with
  | .header, .key _ :: _ | .arrayHeader, .key _ :: _ => true
  | _, _ => false

/-- The header of the table itself. -/
def declares (m : Mention) : Bool :=
  match m.kind, m.address with
  | .header, [] => true
  | _, _ => false

/-- The header of an element of the array itself. -/
def opens (m : Mention) : Bool :=
  match m.kind, m.address with
  | .arrayHeader, [.item _] => true
  | _, _ => false

end Mention

/-- The mentions of what lies behind a step. -/
def within (step : Step) (mentions : List Mention) : List Mention :=
  mentions.filterMap (Mention.within? step)

/-- The mentions of what lies at the end of a way. -/
def withinAll (address : Address) (mentions : List Mention) : List Mention :=
  address.foldl (fun mentions step => within step mentions) mentions

/-- **The position of a part**: where it is mentioned first. A table that is there because a
longer header goes through it takes the position of its own header once there is one. -/
def position : List Mention → Nat
  | [] => 0
  | first :: later =>
    if first.implies then ((later.find? Mention.declares).getD first).position
    else first.position

/-! ### Order -/

/-- **The keys of a table stand in the order of their positions**, and they are the keys that
are mentioned. -/
structure InKeyOrder (mentions : List Mention) (keys : List String) : Prop where
  mentioned (key : String) : key ∈ keys ↔ within (.key key) mentions ≠ []
  increasing : keys.Pairwise fun a b =>
    position (within (.key a) mentions) < position (within (.key b) mentions)

/-- **The keys of every table in a value stand in the order of their positions**, at every
depth. -/
inductive Value.InOrder : List Mention → Value → Prop
  | scalar (mentions : List Mention) (s : Scalar) : InOrder mentions (.scalar s)
  | array {mentions : List Mention} {items : List Value}
      (h : ∀ i v, items[i]? = some v → InOrder (within (.item i) mentions) v) :
      InOrder mentions (.array items)
  | table {mentions : List Mention} {entries : Table}
      (keys : InKeyOrder mentions (Entries.keys entries))
      (h : ∀ entry ∈ entries, InOrder (within (.key entry.1) mentions) entry.2) :
      InOrder mentions (.table entries)

/-! ### What a term mentions -/

mutual

/-- The parts of a term, in the order of the text, and the term itself before them. -/
def Term.addresses : Term → List Address
  | .scalar _ => [[]]
  | .array items => [] :: Term.itemAddresses 0 items
  | .table assignments => [] :: Term.assignedAddresses assignments

/-- The parts of the items of an array from one of them on. -/
def Term.itemAddresses (index : Nat) : List Term → List Address
  | [] => []
  | t :: ts => t.addresses.map (.item index :: ·) ++ Term.itemAddresses (index + 1) ts

/-- The parts of what is assigned in an inline table. -/
def Term.assignedAddresses : List (List String × Term) → List Address
  | [] => []
  | (path, t) :: rest =>
    t.addresses.map (path.map .key ++ ·) ++ Term.assignedAddresses rest

end

/-! ### What a document mentions -/

/-- How many elements of an array of tables have been opened. -/
def elements (mentions : List Mention) : Nat := mentions.countP Mention.opens

/-- The way from under a key to the table that is meant there. In an array of tables that is
the last element. -/
def entering (mentions : List Mention) : Address :=
  match elements mentions with
  | 0 => []
  | n + 1 => [.item n]

/-- The mentions of the table that is meant where these are the mentions under a key. -/
def enter (mentions : List Mention) : List Mention := withinAll (entering mentions) mentions

/-- Where a key path leads after some mentions. The way on from under its last key is given by
the mentions there. -/
def address (last : List Mention → Address) : List String → List Mention → Address
  | [], _ => []
  | [key], mentions => .key key :: last (within (.key key) mentions)
  | key :: next :: keys, mentions =>
    .key key :: (entering (within (.key key) mentions) ++
      address last (next :: keys) (enter (within (.key key) mentions)))

/-- The key path of an assignment leads to the value, and that of a header to the table. -/
def toPart (_ : List Mention) : Address := []

/-- The key path of a header in double brackets leads to an element after those there are. -/
def toNewElement (mentions : List Mention) : Address := [.item (elements mentions)]

/-- Mentions of the same kind, one after the other. -/
def mentionsFrom (start : Nat) (kind : Mention.Kind) : List Address → List Mention
  | [] => []
  | address :: rest => ⟨start, kind, address⟩ :: mentionsFrom (start + 1) kind rest

/-- What a part of a document mentions, and the table that assignments go into. -/
structure Outline where
  mentions : List Mention
  current : List String

namespace Outline

/-- The mentions of a further statement. -/
def told (outline : Outline) : Statement → List Mention
  | .header path =>
    mentionsFrom outline.mentions.length .header [address toPart path outline.mentions]
  | .arrayHeader path =>
    mentionsFrom outline.mentions.length .arrayHeader [address toNewElement path outline.mentions]
  | .entry path value =>
    mentionsFrom outline.mentions.length .assignment
      ((Term.addresses value).map (address toPart (outline.current ++ path) outline.mentions ++ ·))

/-- The outline with a further statement. -/
def add (outline : Outline) (statement : Statement) : Outline where
  mentions := outline.mentions ++ outline.told statement
  current :=
    match statement with
    | .header path | .arrayHeader path => path
    | .entry _ _ => outline.current

/-- **The outline of a document.** -/
def of (statements : List Statement) : Outline := statements.foldl add ⟨[], []⟩

end Outline

end WorkspaceFacts.Toml
