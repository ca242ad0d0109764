import Mathlib.Computability.RegularExpressions
import WorkspaceFacts.Json

/-!
# The grammar of JSON

The grammar of RFC 8259, given as relations between what is meant and a text that stands for
it. Unlike the printer, which has one text for a value, the grammar has many: white space may
stand around every value and every name, every character of a string may be written by its
code units, and `/` has an escape of its own.

The grammar is strict. Nothing stands behind the last item of an array but white space, a
control character never stands for itself, and one half of a surrogate pair alone stands for
no character.
-/

namespace WorkspaceFacts.Json

/-! ### White space -/

/-- The characters of white space. -/
def isSpace (c : Char) : Bool := c = ' ' || c = '\t' || c = '\n' || c = '\r'

/-- Text that consists of white space. -/
def IsSpaceText (text : List Char) : Prop := ∀ c ∈ text, isSpace c

/-! ### Strings -/

/-- Whether a character may stand for itself in a string. -/
def isUnescaped (c : Char) : Bool := 0x20 ≤ c.toNat && c ≠ '"' && c ≠ '\\'

/-- The character that a short escape stands for. -/
def shortEscape? : Char → Option Char
  | '"' => some '"'
  | '\\' => some '\\'
  | '/' => some '/'
  | 'b' => some '\x08'
  | 'f' => some '\x0c'
  | 'n' => some '\n'
  | 'r' => some '\r'
  | 't' => some '\t'
  | _ => none

/-- The number that hexadecimal digits of either case stand for. -/
def unit? (text : List Char) : Option Nat :=
  (text.mapM (Digits.value? 16)).map (Digits.toNat 16)

/-- The code unit is written as the text: by four hexadecimal digits. -/
structure UnitWritten (unit : Nat) (text : List Char) : Prop where
  length : text.length = 4
  digits : unit? text = some unit

/-- The code units that stand first in a surrogate pair. -/
def isHighHalf (unit : Nat) : Bool := 0xD800 ≤ unit && unit < 0xDC00

/-- The code units that stand second in a surrogate pair. -/
def isLowHalf (unit : Nat) : Bool := 0xDC00 ≤ unit && unit < 0xE000

/-- The code point of a surrogate pair. -/
def ofHalves (high low : Nat) : Nat := (high - 0xD800) * 0x400 + (low - 0xDC00) + 0x10000

/-- **The character is written as the text**, inside a string. -/
inductive CharWritten (c : Char) : List Char → Prop
  | unescaped (h : isUnescaped c) : CharWritten c [c]
  | short {e : Char} (h : shortEscape? e = some c) : CharWritten c ['\\', e]
  | unit {text : List Char} (h : UnitWritten c.toNat text) : CharWritten c ('\\' :: 'u' :: text)
  | pair {high low : Nat} {first second : List Char} (hh : isHighHalf high) (hl : isLowHalf low)
      (h₁ : UnitWritten high first) (h₂ : UnitWritten low second)
      (h : ofHalves high low = c.toNat) :
      CharWritten c ('\\' :: 'u' :: (first ++ '\\' :: 'u' :: second))

/-- The characters are written as the text, one after the other. -/
inductive CharsWritten : List Char → List Char → Prop
  | nil : CharsWritten [] []
  | cons {c : Char} {cs text more : List Char} (h : CharWritten c text)
      (hm : CharsWritten cs more) :
      CharsWritten (c :: cs) (text ++ more)

/-- **The string is written as the text**, with its quotes. -/
def StringWritten (value : String) (text : List Char) : Prop :=
  ∃ inner, CharsWritten value.toList inner ∧ text = '"' :: (inner ++ ['"'])

/-! ### Numbers -/

section Numbers

open RegularExpression

/-- One of the characters. -/
def oneOf (chars : String) : RegularExpression Char :=
  (chars.toList.map char).foldr (· + ·) 0

/-- What may also be left out. -/
def optional (form : RegularExpression Char) : RegularExpression Char := 1 + form

/-- One digit or more. -/
def digitsForm : RegularExpression Char := oneOf "0123456789" * star (oneOf "0123456789")

/-- The integer part of a number, which has no zero in front. -/
def integerForm : RegularExpression Char :=
  char '0' + oneOf "123456789" * star (oneOf "0123456789")

/-- The form of a number: a sign, an integer, a fraction and an exponent. -/
def numberForm : RegularExpression Char :=
  optional (char '-') * integerForm * optional (char '.' * digitsForm) *
    optional (oneOf "eE" * optional (oneOf "+-") * digitsForm)

/-- The text is a number. -/
def IsNumber (text : List Char) : Prop := text ∈ numberForm.matches'

end Numbers

/-! ### Values -/

/-- What can stand in a text on the level of values: a value, the items of an array with the
bracket that closes it, and the members of an object with its brace. -/
inductive Part
  | value (v : Json)
  | items (items : List Json)
  | members (members : List (String × Json))

/-- The name of a member is written as the text, with its colon and the white space around
both. -/
inductive NameWritten (name : String) : List Char → Prop
  | mk {before text between after : List Char} (hb : IsSpaceText before)
      (h : StringWritten name text) (hw : IsSpaceText between) (ha : IsSpaceText after) :
      NameWritten name (before ++ (text ++ (between ++ ':' :: after)))

/-- **The part of a JSON text is written as the text.** -/
inductive Part.Written : Part → List Char → Prop
  | null : Written (.value .null) ['n', 'u', 'l', 'l']
  | true : Written (.value (.boolean Bool.true)) ['t', 'r', 'u', 'e']
  | false : Written (.value (.boolean Bool.false)) ['f', 'a', 'l', 's', 'e']
  | number {text : String} (h : IsNumber text.toList) : Written (.value (.number text)) text.toList
  | string {value : String} {text : List Char} (h : StringWritten value text) :
      Written (.value (.string value)) text
  | emptyArray {spaces : List Char} (hs : IsSpaceText spaces) :
      Written (.value (.array [])) ('[' :: (spaces ++ [']']))
  | array {items : List Json} {text : List Char} (h : Written (.items items) text) :
      Written (.value (.array items)) ('[' :: text)
  | emptyObject {spaces : List Char} (hs : IsSpaceText spaces) :
      Written (.value (.object [])) ('\x7b' :: (spaces ++ ['\x7d']))
  | object {members : List (String × Json)} {text : List Char}
      (h : Written (.members members) text) : Written (.value (.object members)) ('\x7b' :: text)
  | lastItem {v : Json} {before text after : List Char} (hb : IsSpaceText before)
      (h : Written (.value v) text) (ha : IsSpaceText after) :
      Written (.items [v]) (before ++ (text ++ (after ++ [']'])))
  | item {v : Json} {items : List Json} {before text after more : List Char}
      (hb : IsSpaceText before) (h : Written (.value v) text) (ha : IsSpaceText after)
      (hm : Written (.items items) more) :
      Written (.items (v :: items)) (before ++ (text ++ (after ++ ',' :: more)))
  | lastMember {name : String} {v : Json} {before text after : List Char}
      (hb : NameWritten name before) (h : Written (.value v) text) (ha : IsSpaceText after) :
      Written (.members [(name, v)]) (before ++ (text ++ (after ++ ['\x7d'])))
  | member {name : String} {v : Json} {members : List (String × Json)}
      {before text after more : List Char} (hb : NameWritten name before)
      (h : Written (.value v) text) (ha : IsSpaceText after)
      (hm : Written (.members members) more) :
      Written (.members ((name, v) :: members)) (before ++ (text ++ (after ++ ',' :: more)))

/-- **The value is written as the whole text**, with white space around it. -/
def TextWritten (v : Json) (text : List Char) : Prop :=
  ∃ before inner after, IsSpaceText before ∧ Part.Written (.value v) inner ∧ IsSpaceText after ∧
    text = before ++ (inner ++ after)

end WorkspaceFacts.Json
