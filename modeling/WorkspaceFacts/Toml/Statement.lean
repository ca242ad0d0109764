import WorkspaceFacts.Toml.Term

/-!
# Statements: what a document consists of

A document is a sequence of statements, each on lines of its own: headers, which say
where the assignments after them go, and assignments. Blank lines, comments and blanks
around statements carry no meaning, and they are gone once a text has been read as a
list of statements (`WorkspaceFacts.Toml.Statement.ofText?`).

Two things about the text as a whole are settled before any statement is read. A mark
that tells the byte order may stand in front of it. And its lines may end in a line feed
or in a carriage return and a line feed; a carriage return stands nowhere else.
-/

namespace WorkspaceFacts.Toml

/-- A statement of a document, over `π` for its key paths and `σ` for its scalars. -/
inductive StatementOf (π σ : Type)
  /-- A table in brackets: what follows goes into it. -/
  | header (path : π)
  /-- A table in double brackets: what follows goes into a new element of an array of
  tables. -/
  | arrayHeader (path : π)
  /-- An assignment. -/
  | entry (path : π) (value : TermOf π σ)

/-- A statement of a document, once it is read. -/
abbrev Statement := StatementOf (List String) Scalar

/-! ### The lines of a text -/

/-- Makes every line end a single line feed. There is no result if a carriage return
stands anywhere else. -/
def unifyLines : List Char → Option (List Char)
  | [] => some []
  | '\r' :: '\n' :: rest => (unifyLines rest).map ('\n' :: ·)
  | c :: rest => if c = '\r' then none else (unifyLines rest).map (c :: ·)

/-- Leaves out a byte-order mark at the front. -/
def dropMark : List Char → List Char
  | '\uFEFF' :: rest => rest
  | s => s

/-! ### Reading statements -/

/-- Reads a statement. Two opening brackets side by side always start the header of an
array of tables. -/
def readStatement (s : List Char) : Option (Statement × List Char) :=
  match s with
  | '[' :: '[' :: s₁ =>
    match keyPath.read s₁ with
    | some (path, ']' :: ']' :: rest) => some (.arrayHeader path, rest)
    | _ => none
  | '[' :: s₁ =>
    match keyPath.read s₁ with
    | some (path, ']' :: rest) => some (.header path, rest)
    | _ => none
  | s =>
    match (assignment (termPhrase nestingLimit)).read s with
    | some ((path, value), rest) => some (.entry path value, rest)
    | none => none

theorem readStatement_shorter {s rest : List Char} {a : Statement}
    (h : readStatement s = some (a, rest)) : rest.length < s.length := by
  unfold readStatement at h
  split at h
  · split at h
    · next hp =>
      have := keyPath.shorter hp
      simp at h this
      rw [← h.2]
      simp
      omega
    · simp at h
  · split at h
    · next hp =>
      have := keyPath.shorter hp
      simp at h this
      rw [← h.2]
      simp
      omega
    · simp at h
  · split at h
    · next ha =>
      simp at h
      exact h.2 ▸ (assignment (termPhrase nestingLimit)).shorter ha
    · simp at h

/-- Reads all statements of a text. Each of them ends its line. -/
def readStatements (s : List Char) : Option (List Statement) :=
  match _ht : skipTrivia false s with
  | none => none
  | some [] => some []
  | some (c :: s₁) =>
    match _hs : readStatement (c :: s₁) with
    | none => none
    | some (statement, s₂) =>
      match _he : skipLineEnd s₂ with
      | none => none
      | some s₃ => (readStatements s₃).map (statement :: ·)
termination_by s.length
decreasing_by
  have := skipTrivia_length_le _ht
  have := readStatement_shorter _hs
  have := skipLineEnd_length_le _he
  omega

/-- **The statements of a text**, if it is made of statements. -/
def Statement.ofText? (text : List Char) : Option (List Statement) :=
  (unifyLines (dropMark text)).bind readStatements

end WorkspaceFacts.Toml
