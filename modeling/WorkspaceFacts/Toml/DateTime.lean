import WorkspaceFacts.Text.Alphanumeric

/-!
# Dates and times

A date-time is made of a calendar date, a time of day and an offset from universal
time, any of which may be absent. This file has their written form
(`WorkspaceFacts.Toml.DateTime.text`) and the reading of it
(`WorkspaceFacts.Toml.DateTime.ofText?`), which uses the whole text: a date, a time, or
both with an optional offset. The same reading serves a date-time that stands unquoted
in a document and a string that stands for one.
-/

namespace WorkspaceFacts.Toml

/-- A day of the calendar. -/
structure Date where
  year : Nat
  month : Nat
  day : Nat
  deriving DecidableEq

/-- A time of day. -/
structure Time where
  hour : Nat
  minute : Nat
  second : Nat
  nanosecond : Nat
  deriving DecidableEq

/-- How far a time is from universal time. -/
inductive Offset
  /-- Universal time itself, written as a letter. -/
  | universal
  /-- A number of minutes to the east of it; to the west if negative. -/
  | east (minutes : Int)
  deriving DecidableEq

/-- A date, a time and an offset, as far as they are given. -/
structure DateTime where
  date : Option Date
  time : Option Time
  offset : Option Offset
  deriving DecidableEq

/-! ### The calendar -/

/-- Whether February has 29 days in the year. -/
def Date.isLeap (year : Nat) : Bool := year % 4 = 0 ∧ (year % 100 ≠ 0 ∨ year % 400 = 0)

/-- The number of days in a month. -/
def Date.daysIn (year month : Nat) : Nat :=
  if month = 2 then (if Date.isLeap year then 29 else 28)
  else if month = 4 ∨ month = 6 ∨ month = 9 ∨ month = 11 then 30
  else 31

/-- Whether the calendar has the day. The year zero is one of its years. -/
def Date.isValid (d : Date) : Bool :=
  1 ≤ d.month ∧ d.month ≤ 12 ∧ 1 ≤ d.day ∧ d.day ≤ Date.daysIn d.year d.month

/-! ### The written form -/

/-- The date as `YYYY-MM-DD`. -/
def Date.text (d : Date) : List Char :=
  Digits.padded 4 d.year ++ '-' :: Digits.padded 2 d.month ++ '-' :: Digits.padded 2 d.day

/-- The fraction of a second after its point, without zeros at the end; nothing if it is
zero. -/
def Time.fraction (nanosecond : Nat) : List Char :=
  if nanosecond = 0 then []
  else '.' :: ((Digits.padded 9 nanosecond).reverse.dropWhile (· == '0')).reverse

/-- The time as `HH:MM:SS` with its fraction. -/
def Time.text (t : Time) : List Char :=
  Digits.padded 2 t.hour ++ ':' :: Digits.padded 2 t.minute ++ ':' :: Digits.padded 2 t.second
    ++ Time.fraction t.nanosecond

/-- The offset as a letter or as hours and minutes. -/
def Offset.text : Offset → List Char
  | .universal => ['Z']
  | .east m =>
    (if m < 0 then '-' else '+') :: Digits.padded 2 (m.natAbs / 60)
      ++ ':' :: Digits.padded 2 (m.natAbs % 60)

/-- The parts that are given, with a `T` between a date and a time. -/
def DateTime.text (d : DateTime) : List Char :=
  (d.date.elim [] Date.text) ++
    (d.time.elim [] fun t => if d.date.isSome then 'T' :: t.text else t.text) ++
    (d.offset.elim [] Offset.text)

/-! ### Reading the parts -/

/-- A decimal digit and its value. -/
def decimal? (c : Char) : Option Nat := Digits.value? 10 c

/-- Reads two digits. -/
def readTwo : List Char → Option (Nat × List Char)
  | a :: b :: rest =>
    match decimal? a, decimal? b with
    | some a, some b => some (a * 10 + b, rest)
    | _, _ => none
  | _ => none

/-- Reads `YYYY-MM-DD`, a day of the calendar. -/
def Date.read (s : List Char) : Option (Date × List Char) :=
  match readTwo s with
  | some (century, s) =>
    match readTwo s with
    | some (year, '-' :: s) =>
      match readTwo s with
      | some (month, '-' :: s) =>
        match readTwo s with
        | some (day, s) =>
          let date : Date := ⟨century * 100 + year, month, day⟩
          if date.isValid then some (date, s) else none
        | none => none
      | _ => none
    | _ => none
  | none => none

/-- The nanoseconds that the digits after the point amount to; digits after the ninth
are dropped. -/
def Time.nanoseconds (digits : List Char) : Nat :=
  Digits.toNat 10 (((digits ++ List.replicate 9 '0').take 9).filterMap decimal?)

/-- Reads the fraction of a second: a point and at least one digit, or nothing. -/
def Time.readFraction : List Char → Option (Nat × List Char)
  | '.' :: s =>
    match s.takeWhile Char.isDigit with
    | [] => none
    | digits => some (Time.nanoseconds digits, s.dropWhile Char.isDigit)
  | s => some (0, s)

/-- Reads `HH:MM:SS` with an optional fraction. A minute may have a second 60. -/
def Time.read (s : List Char) : Option (Time × List Char) :=
  match readTwo s with
  | some (hour, ':' :: s) =>
    match readTwo s with
    | some (minute, ':' :: s) =>
      match readTwo s with
      | some (second, s) =>
        match Time.readFraction s with
        | some (nanosecond, s) =>
          if hour ≤ 23 ∧ minute ≤ 59 ∧ second ≤ 60 then
            some (⟨hour, minute, second, nanosecond⟩, s)
          else none
        | none => none
      | none => none
    | _ => none
  | _ => none

/-- Reads `HH:MM`, as minutes. -/
def Offset.readMinutes (s : List Char) : Option (Nat × List Char) :=
  match readTwo s with
  | some (hours, ':' :: s) =>
    match readTwo s with
    | some (minutes, s) =>
      if hours ≤ 23 ∧ minutes ≤ 59 then some (hours * 60 + minutes, s) else none
    | none => none
  | _ => none

/-- Reads an offset: the letter, or a sign with hours and minutes. -/
def Offset.read : List Char → Option (Offset × List Char)
  | 'Z' :: s => some (.universal, s)
  | 'z' :: s => some (.universal, s)
  | '+' :: s => (Offset.readMinutes s).map fun (m, s) => (.east m, s)
  | '-' :: s => (Offset.readMinutes s).map fun (m, s) => (.east (-m), s)
  | _ => none

/-- Reads an offset that makes up all that is left, or nothing where nothing is left. -/
def Offset.readEnd : List Char → Option (Option Offset)
  | [] => some none
  | s =>
    match Offset.read s with
    | some (offset, []) => some (some offset)
    | _ => none

/-- Whether the character separates a date from a time. -/
def isDateSeparator (c : Char) : Bool := c == 'T' || c == 't' || c == ' '

/-! ### Reading a date-time -/

/-- **The date-time that a text stands for**: a date, a time of day, or both with an
optional offset. -/
def DateTime.ofText? (s : List Char) : Option DateTime :=
  match Date.read s with
  | some (date, []) => some ⟨some date, none, none⟩
  | some (date, c :: s) =>
    if isDateSeparator c then
      match Time.read s with
      | some (time, s) => (Offset.readEnd s).map fun offset => ⟨some date, some time, offset⟩
      | none => none
    else none
  | none =>
    match Time.read s with
    | some (time, []) => some ⟨none, some time, none⟩
    | _ => none

end WorkspaceFacts.Toml
