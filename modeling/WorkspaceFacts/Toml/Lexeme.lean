import WorkspaceFacts.Toml.Value

/-!
# Unquoted scalars

A scalar that is not a string is written as a run of letters, digits and the signs
`+ - _ . :`, its **lexeme**. Nothing that may follow a value is such a character, so a
value ends where the run ends, and the run as a whole decides what it stands for: the
written forms of truth values, date-times, floating-point numbers and integers have no
lexeme in common.

There is one exception. A date may be parted from its time by a space; a date followed
by one space and a digit can only go on that way, so the lexeme then takes in the space
and the run after it.
-/

namespace WorkspaceFacts.Toml

/-! ### Where a lexeme ends -/

/-- The characters of which lexemes are made. -/
def isLexemeChar (c : Char) : Bool :=
  c.isAlphanum || c == '+' || c == '-' || c == '_' || c == '.' || c == ':'

/-- Whether a lexeme is a date and nothing more. -/
def isDateLexeme (s : List Char) : Bool :=
  match Date.read s with
  | some (_, []) => true
  | _ => false

/-- Cuts the lexeme off the front of a text. -/
def cutLexeme (s : List Char) : List Char × List Char :=
  let run := s.takeWhile isLexemeChar
  match s.dropWhile isLexemeChar with
  | ' ' :: d :: rest =>
    if d.isDigit && isDateLexeme run then
      (run ++ ' ' :: (d :: rest).takeWhile isLexemeChar, (d :: rest).dropWhile isLexemeChar)
    else (run, ' ' :: d :: rest)
  | rest => (run, rest)

/-! ### Numbers -/

/-- The values of a run of digits, with single underscores between digits. -/
def digits? (base : Nat) : List Char → Option (List Nat)
  | [] => none
  | [c] => (Digits.value? base c).map ([·])
  | c :: '_' :: rest =>
    match Digits.value? base c, digits? base rest with
    | some d, some ds => some (d :: ds)
    | _, _ => none
  | c :: rest =>
    match Digits.value? base c, digits? base rest with
    | some d, some ds => some (d :: ds)
    | _, _ => none

/-- The values of a run of decimal digits that starts with a zero only if it is zero. -/
def wholeDigits? (s : List Char) : Option (List Nat) :=
  match digits? 10 s with
  | some (0 :: _ :: _) => none
  | ds => ds

/-- Takes an optional sign off a number; the sign is negative for `-`. -/
def cutSign : List Char → Bool × List Char
  | '+' :: s => (false, s)
  | '-' :: s => (true, s)
  | s => (false, s)

/-- The negative of a number, if asked for. -/
def withSign (negative : Bool) (n : Nat) : Int := if negative then -(n : Int) else n

/-- The least integer of 64 bits. -/
def leastInteger : Int := -9223372036854775808

/-- The greatest integer of 64 bits. -/
def greatestInteger : Int := 9223372036854775807

/-- An integer, if 64 bits hold it. -/
def integer? (n : Int) : Option Scalar :=
  if leastInteger ≤ n ∧ n ≤ greatestInteger then some (.integer n) else none

/-- The integer that a lexeme stands for: decimal with an optional sign, or, without a
sign, hexadecimal, octal or binary behind a prefix. -/
def integerOf? : List Char → Option Scalar
  | '0' :: 'x' :: s => (digits? 16 s).bind fun ds => integer? (Digits.toNat 16 ds)
  | '0' :: 'o' :: s => (digits? 8 s).bind fun ds => integer? (Digits.toNat 8 ds)
  | '0' :: 'b' :: s => (digits? 2 s).bind fun ds => integer? (Digits.toNat 2 ds)
  | s =>
    let (negative, magnitude) := cutSign s
    (wholeDigits? magnitude).bind fun ds => integer? (withSign negative (Digits.toNat 10 ds))

/-- Splits a text at the first character with a property; the character goes with
neither part. -/
def splitAt? (p : Char → Bool) (s : List Char) : List Char × Option (List Char) :=
  match s.dropWhile (! p ·) with
  | [] => (s, none)
  | _ :: rest => (s.takeWhile (! p ·), some rest)

/-- The number that an exponent stands for: zero where there is none. -/
def exponent? : Option (List Char) → Option Int
  | none => some 0
  | some s =>
    let (negative, magnitude) := cutSign s
    (digits? 10 magnitude).map fun ds => withSign negative (Digits.toNat 10 ds)

/-- The digits of a fraction: none where there is no fraction. -/
def fraction? : Option (List Char) → Option (List Nat)
  | none => some []
  | some s => digits? 10 s

/-- The floating-point number of a sign and a lexeme without one that has a fraction, an
exponent or both. One that is out of range above is refused, one out of range below is
infinite. -/
def decimalFloat? (negative : Bool) (s : List Char) : Option Scalar :=
  let (mantissa, exponentPart) := splitAt? (fun c => c == 'e' || c == 'E') s
  let (wholePart, fractionPart) := splitAt? (· == '.') mantissa
  if exponentPart.isNone && fractionPart.isNone then none
  else
    match wholeDigits? wholePart, fraction? fractionPart, exponent? exponentPart with
    | some whole, some fraction, some exponent =>
      let magnitude := Binary64.ofDecimal (Digits.toNat 10 (whole ++ fraction))
        (exponent - fraction.length)
      if magnitude = Binary64.infinityBits ∧ negative = false then none
      else some (.float (Binary64.ofMagnitude negative magnitude))
    | _, _, _ => none

/-- The floating-point number that a lexeme stands for. -/
def floatOf? (s : List Char) : Option Scalar :=
  let (negative, magnitude) := cutSign s
  if magnitude = ['i', 'n', 'f'] then some (.float (Binary64.infinity negative))
  else if magnitude = ['n', 'a', 'n'] then some (.float Binary64.nan)
  else decimalFloat? negative magnitude

/-- The truth value that a lexeme stands for. -/
def booleanOf? (s : List Char) : Option Scalar :=
  if s = ['t', 'r', 'u', 'e'] then some (.boolean true)
  else if s = ['f', 'a', 'l', 's', 'e'] then some (.boolean false)
  else none

/-- **What a lexeme stands for.** -/
def scalarOf? (s : List Char) : Option Scalar :=
  booleanOf? s
    <|> (DateTime.ofText? s).map .dateTime
    <|> floatOf? s
    <|> integerOf? s

end WorkspaceFacts.Toml
