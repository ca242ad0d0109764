import WorkspaceFacts.Text.Alphanumeric

/-!
# JSON texts

Values of JSON and their two written forms: **compact**, without any white space, and
**indented**, with every member and item on a line of its own, two spaces deeper than the
brackets around it. An empty array or object is written as its two brackets in both.

In a string only the quote, the backslash and the control characters below the space are
escaped; the short escapes are used where there are any.
-/

namespace WorkspaceFacts

/-- A value of JSON. -/
inductive Json
  | null
  | boolean (b : Bool)
  /-- A number, as it is written. -/
  | number (text : String)
  | string (text : String)
  | array (items : List Json)
  /-- An object, with its members in order. -/
  | object (members : List (String × Json))
  deriving Inhabited

namespace Json

/-! ### Strings -/

/-- How a character is written inside a string. -/
def escape (c : Char) : List Char :=
  if c = '"' then ['\\', '"']
  else if c = '\\' then ['\\', '\\']
  else if c = '\x08' then ['\\', 'b']
  else if c = '\x0c' then ['\\', 'f']
  else if c = '\n' then ['\\', 'n']
  else if c = '\r' then ['\\', 'r']
  else if c = '\t' then ['\\', 't']
  else if c.toNat < 0x20 then
    ['\\', 'u', '0', '0', Digits.hexDigit (c.toNat / 16), Digits.hexDigit (c.toNat % 16)]
  else [c]

/-- A string between quotes. -/
def quoted (text : String) : List Char := '"' :: text.toList.flatMap escape ++ ['"']

/-! ### Values -/

/-- What stands between brackets and items: nothing in the compact form, and otherwise a
line end and two spaces for every level. -/
def lineBreak : Option Nat → List Char
  | none => []
  | some depth => '\n' :: List.replicate (2 * depth) ' '

/-- One level deeper, if there are levels. -/
def deeper (depth : Option Nat) : Option Nat := depth.map (· + 1)

/-- A key of an object with its colon. -/
def keyText (depth : Option Nat) (key : String) : List Char :=
  quoted key ++ if depth.isSome then [':', ' '] else [':']

mutual

/-- The written form of a value whose brackets stand at the given level; without a level
it is compact. -/
def print (depth : Option Nat) : Json → List Char
  | .null => ['n', 'u', 'l', 'l']
  | .boolean true => ['t', 'r', 'u', 'e']
  | .boolean false => ['f', 'a', 'l', 's', 'e']
  | .number text => text.toList
  | .string text => quoted text
  | .array [] => ['[', ']']
  | .array (item :: items) =>
    '[' :: lineBreak (deeper depth) ++ print (deeper depth) item ++ printItems (deeper depth) items
      ++ lineBreak depth ++ [']']
  | .object [] => ['{', '}']
  | .object ((key, value) :: members) =>
    '{' :: lineBreak (deeper depth) ++ keyText depth key ++ print (deeper depth) value
      ++ printMembers (deeper depth) members ++ lineBreak depth ++ ['}']

/-- The written form of the items after the first. -/
def printItems (depth : Option Nat) : List Json → List Char
  | [] => []
  | item :: items => ',' :: lineBreak depth ++ print depth item ++ printItems depth items

/-- The written form of the members after the first. -/
def printMembers (depth : Option Nat) : List (String × Json) → List Char
  | [] => []
  | (key, value) :: members =>
    ',' :: lineBreak depth ++ keyText depth key ++ print depth value ++ printMembers depth members

end

/-- The **compact** form of a value. -/
def compact (value : Json) : String := String.ofList (print none value)

/-- The **indented** form of a value. -/
def indented (value : Json) : String := String.ofList (print (some 0) value)

end Json

end WorkspaceFacts
