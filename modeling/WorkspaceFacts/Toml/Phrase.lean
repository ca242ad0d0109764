/-!
# Reading phrases off the front of a text

A **phrase** is a reader for one kind of thing that can stand at the front of a text: a
key, a value, a statement. It returns what the thing means together with the text after
it, and it always takes something away, so that a list of phrases can be read until
nothing is left: the recursion ends because the text gets shorter.

The file also holds what stands between phrases: blanks, line ends and comments.
-/

namespace WorkspaceFacts.Toml

/-- A reader that takes a nonempty part off the front of a text. -/
structure Phrase (α : Type) where
  /-- The meaning of what stands at the front, and the text after it. -/
  read : List Char → Option (α × List Char)
  /-- Something has been taken away. -/
  shorter : ∀ {s a rest}, read s = some (a, rest) → rest.length < s.length

/-! ### Characters -/

/-- Spaces and tabs, which separate without ending a line. -/
def isBlank (c : Char) : Bool := c == ' ' || c == '\t'

/-- The characters that may stand in a comment or in a string on one line: all but the
control characters, the tab excepted. -/
def isLineChar (c : Char) : Bool := c == '\t' || (0x20 ≤ c.toNat && c.toNat != 0x7F)

/-! ### What stands between phrases -/

/-- Leaves out the blanks at the front. -/
def skipBlanks (s : List Char) : List Char := s.dropWhile isBlank

/-- Leaves out blanks, line ends and comments at the front; `inComment` says whether the
text starts inside a comment. There is no result if a comment has a character that may
not stand in it. -/
def skipTrivia (inComment : Bool) : List Char → Option (List Char)
  | [] => some []
  | c :: rest =>
    if inComment then
      if c = '\n' then skipTrivia false rest
      else if isLineChar c then skipTrivia true rest
      else none
    else if c = '#' then skipTrivia true rest
    else if isBlank c || c == '\n' then skipTrivia false rest
    else some (c :: rest)

/-- Leaves out the rest of a comment, up to the end of its line. -/
def skipComment : List Char → Option (List Char)
  | [] => some []
  | c :: rest =>
    if c = '\n' then some rest
    else if isLineChar c then skipComment rest
    else none

/-- Leaves out the rest of a line on which nothing but blanks and a comment may follow. -/
def skipLineEnd (s : List Char) : Option (List Char) :=
  match skipBlanks s with
  | [] => some []
  | '\n' :: rest => some rest
  | '#' :: rest => skipComment rest
  | _ => none

theorem skipBlanks_length_le (s : List Char) : (skipBlanks s).length ≤ s.length :=
  (List.dropWhile_sublist isBlank).length_le

/-- Trivia are only ever taken off, so a reader behind them still gets shorter texts. -/
theorem skipTrivia_length_le {s rest : List Char} {inComment : Bool}
    (h : skipTrivia inComment s = some rest) : rest.length ≤ s.length := by
  induction s generalizing inComment with
  | nil => simp_all [skipTrivia]
  | cons c s ih =>
    simp only [skipTrivia] at h
    have step : ∀ {b}, skipTrivia b s = some rest → rest.length ≤ (c :: s).length :=
      fun h => Nat.le_trans (ih h) (Nat.le_succ _)
    split at h
    · split at h
      · exact step h
      · split at h
        · exact step h
        · simp at h
    · split at h
      · exact step h
      · split at h
        · exact step h
        · simp at h
          simp [← h]

theorem skipComment_length_le {s rest : List Char} (h : skipComment s = some rest) :
    rest.length ≤ s.length := by
  induction s with
  | nil => simp_all [skipComment]
  | cons c s ih =>
    simp only [skipComment] at h
    split at h
    · simp at h; simp [← h]
    · split at h
      · exact Nat.le_trans (ih h) (Nat.le_succ _)
      · simp at h

theorem skipLineEnd_length_le {s rest : List Char} (h : skipLineEnd s = some rest) :
    rest.length ≤ s.length := by
  have blanks := skipBlanks_length_le s
  unfold skipLineEnd at h
  split at h
  · simp_all
  · simp_all; omega
  · next eq =>
    have := skipComment_length_le h
    simp_all; omega
  · simp at h

end WorkspaceFacts.Toml
