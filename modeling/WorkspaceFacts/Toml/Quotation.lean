import WorkspaceFacts.Text.Alphanumeric
import WorkspaceFacts.Toml.Phrase

/-!
# Quoted strings

The four ways to quote a string. In a **basic** string, between double quotes, a
backslash starts an escape; a **literal** string, between single quotes, has no escapes.
Both have a form between three quotes that may go over several lines. Each reader starts
after the opening quotes and returns the text of the string with what follows the closing
quotes.

The readers go through the text character by character. What a character means to the
reader of a basic string depends on where it stands, at a place of its own or inside an
escape, and that is the reader's `WorkspaceFacts.Toml.Quotation.Place`.

Line ends inside a string are kept as they are: by the time a document is read its lines
end in single line feeds (`WorkspaceFacts.Toml.unifyLines`).
-/

namespace WorkspaceFacts.Toml

namespace Quotation

/-- The text of a string together with what follows it, with one more character in
front. -/
def push (c : Char) : Option (List Char × List Char) → Option (List Char × List Char)
  | some (text, rest) => some (c :: text, rest)
  | none => none

/-- Whether a text starts with two quotes. -/
def startsWithTwo (quote : Char) : List Char → Bool
  | c :: d :: _ => c == quote && d == quote
  | _ => false

/-- The end of a string between three quotes, after the three: up to two quotes more
belong to the text, since the closing quotes are the last three of their run. -/
def closing (quote : Char) : List Char → List Char × List Char
  | c :: d :: rest =>
    if c = quote then if d = quote then ([quote, quote], rest) else ([quote], d :: rest)
    else ([], c :: d :: rest)
  | [c] => if c = quote then ([quote], []) else ([], [c])
  | [] => ([], [])

/-- Whether a character may stand for itself in a string. -/
def isTextChar (multiline : Bool) (c : Char) : Bool := isLineChar c || (multiline && c == '\n')

/-! ### Literal strings -/

/-- Reads a literal string. -/
def literal (multiline : Bool) : List Char → Option (List Char × List Char)
  | [] => none
  | c :: rest =>
    if c = '\'' && ! multiline then some ([], rest)
    else if c = '\'' && startsWithTwo '\'' rest then some (closing '\'' (rest.drop 2))
    else if isTextChar multiline c then push c (literal multiline rest)
    else none

/-! ### Basic strings -/

/-- The character that a letter stands for after a backslash. -/
def escape? : Char → Option Char
  | 'b' => some '\x08'
  | 't' => some '\t'
  | 'n' => some '\n'
  | 'f' => some '\x0c'
  | 'r' => some '\r'
  | '"' => some '"'
  | '\\' => some '\\'
  | _ => none

/-- Where the reader of a basic string is. -/
inductive Place
  /-- At a character that stands for itself or starts something. -/
  | plain
  /-- After a backslash. -/
  | escape
  /-- At a hexadecimal digit of a numeric escape, with `left` more digits to come; those
  before it amount to `value`. -/
  | hex (left value : Nat)
  /-- After a backslash that ends its line, before the end of the line. -/
  | opened
  /-- After such a line end, where blanks and line ends are left out. -/
  | closed
  deriving DecidableEq

/-- Whether the character is a blank or a line end. -/
def isSpace (c : Char) : Bool := isBlank c || c == '\n'

/-- Reads a basic string from the given place on. A numeric escape names the scalar value
of a character: a surrogate, or a value above `10FFFF`, is that of none. -/
def basic (multiline : Bool) (place : Place) : List Char → Option (List Char × List Char)
  | [] => none
  | c :: rest =>
    match place with
    | .escape =>
      if c = 'u' then basic multiline (.hex 3 0) rest
      else if c = 'U' then basic multiline (.hex 7 0) rest
      else if multiline && c == '\n' then basic multiline .closed rest
      else if multiline && isBlank c then basic multiline .opened rest
      else match escape? c with
        | some e => push e (basic multiline .plain rest)
        | none => none
    | .hex left value =>
      match Digits.value? 16 c, left with
      | some d, left + 1 => basic multiline (.hex left (value * 16 + d)) rest
      | some d, 0 =>
        if (value * 16 + d).isValidChar then
          push (Char.ofNat (value * 16 + d)) (basic multiline .plain rest)
        else none
      | none, _ => none
    | .opened =>
      if isBlank c then basic multiline .opened rest
      else if c = '\n' then basic multiline .closed rest
      else none
    | place =>
      if place = .closed && isSpace c then basic multiline .closed rest
      else if c = '"' && ! multiline then some ([], rest)
      else if c = '"' && startsWithTwo '"' rest then some (closing '"' (rest.drop 2))
      else if c = '\\' then basic multiline .escape rest
      else if isTextChar multiline c then push c (basic multiline .plain rest)
      else none

/-! ### All four forms -/

/-- A line end right after the opening quotes is not part of the text. -/
def dropLineEnd : List Char → List Char
  | '\n' :: rest => rest
  | s => s

/-- Reads a quoted string on one line, in either form. -/
def readLine : List Char → Option (List Char × List Char)
  | '"' :: rest => basic false .plain rest
  | '\'' :: rest => literal false rest
  | _ => none

/-- Reads a quoted string in any of the four forms. -/
def read : List Char → Option (List Char × List Char)
  | '"' :: '"' :: '"' :: rest => basic true .plain (dropLineEnd rest)
  | '\'' :: '\'' :: '\'' :: rest => literal true (dropLineEnd rest)
  | s => readLine s

/-! ### Each reader leaves less than it got -/

theorem push_eq_some {c : Char} {r : Option (List Char × List Char)} {text rest : List Char} :
    push c r = some (text, rest) ↔ ∃ t, r = some (t, rest) ∧ text = c :: t := by
  cases r with
  | none => simp [push]
  | some p => cases p; simp [push]; grind

theorem closing_length_le (quote : Char) (s : List Char) :
    (closing quote s).2.length ≤ s.length := by
  unfold closing
  split
  · split
    · split
      · simp
        omega
      · simp
    · simp
  · split <;> simp
  · simp

theorem closing_drop_length_le {quote : Char} {s text rest : List Char}
    (h : closing quote (s.drop 2) = (text, rest)) : rest.length ≤ s.length := by
  have := closing_length_le quote (s.drop 2)
  rw [h] at this
  simp at this
  omega

theorem dropLineEnd_length_le (s : List Char) : (dropLineEnd s).length ≤ s.length := by
  unfold dropLineEnd
  split <;> simp

theorem literal_shorter {multiline : Bool} {s text rest : List Char}
    (h : literal multiline s = some (text, rest)) : rest.length < s.length := by
  induction s generalizing text with
  | nil => simp [literal] at h
  | cons c s ih =>
    simp only [literal] at h
    split at h
    · simp at h; simp [← h.2]
    · split at h
      · have := closing_drop_length_le (Option.some.inj h)
        simp; omega
      · split at h
        · obtain ⟨t, ht, -⟩ := push_eq_some.1 h
          have := ih ht
          simp; omega
        · simp at h

/-- The closing quote is taken off the text, in whatever place of an escape the reader is. -/
theorem basic_shorter {multiline : Bool} {place : Place} {s text rest : List Char}
    (h : basic multiline place s = some (text, rest)) : rest.length < s.length := by
  induction s generalizing text place with
  | nil => simp [basic] at h
  | cons c s ih =>
    have skip : ∀ {p t}, basic multiline p s = some (t, rest) → rest.length < (c :: s).length :=
      fun h => Nat.lt_trans (ih h) (Nat.lt_succ_self _)
    have keep : ∀ {d p t}, push d (basic multiline p s) = some (t, rest) →
        rest.length < (c :: s).length := fun h => by
      obtain ⟨_, ht, -⟩ := push_eq_some.1 h
      exact skip ht
    simp only [basic] at h
    split at h
    · repeat' split at h
      all_goals first | exact skip h | exact keep h | cases h
    · repeat' split at h
      all_goals first | exact skip h | exact keep h | cases h
    · repeat' split at h
      all_goals first | exact skip h | cases h
    · split at h
      · exact skip h
      · split at h
        · simp at h; simp [← h.2]
        · split at h
          · have := closing_drop_length_le (Option.some.inj h)
            simp; omega
          · repeat' split at h
            all_goals first | exact skip h | exact keep h | cases h

theorem readLine_shorter {s text rest : List Char} (h : readLine s = some (text, rest)) :
    rest.length < s.length := by
  unfold readLine at h
  split at h
  · have := basic_shorter h; simp; omega
  · have := literal_shorter h; simp; omega
  · simp at h

theorem read_shorter {s text rest : List Char} (h : read s = some (text, rest)) :
    rest.length < s.length := by
  unfold read at h
  split at h
  · next r =>
    have := basic_shorter h
    have := dropLineEnd_length_le r
    simp; omega
  · next r =>
    have := literal_shorter h
    have := dropLineEnd_length_le r
    simp; omega
  · exact readLine_shorter h

end Quotation

end WorkspaceFacts.Toml
