import WorkspaceFacts.Toml.Key
import WorkspaceFacts.Toml.Lexeme

/-!
# Terms: values as they are written

A term is the written form of a value: a scalar, an array of terms, or an inline table,
which assigns terms to key paths. What the assignments amount to, and whether they agree
with each other, is not yet decided (`WorkspaceFacts.Toml.Term.node?`). Nothing in the form
depends on what the key paths and the scalars are, so these are left open
(`WorkspaceFacts.Toml.TermOf`): a term may as well be one over the words that are typed for
them.

Arrays and inline tables may stand inside each other up to a limit. The limit is also
what the reader recurs on: `WorkspaceFacts.Toml.termPhrase room` reads the terms that go
down at most `room` levels, by means of the phrase for one level less.
-/

namespace WorkspaceFacts.Toml

/-- The written form of a value, over `π` for its key paths and `σ` for its scalars. -/
inductive TermOf (π σ : Type)
  | scalar (s : σ)
  | array (items : List (TermOf π σ))
  /-- An inline table, with its assignments in order. -/
  | table (assignments : List (π × TermOf π σ))

/-- The written form of a value, once it is read: its key paths are lists of keys. -/
abbrev Term := TermOf (List String) Scalar

/-! ### Assignments -/

/-- Reads `path = value` and the blanks after it. -/
def readAssignment {α : Type} (value : Phrase α) (s : List Char) :
    Option ((List String × α) × List Char) :=
  match keyPath.read s with
  | some (path, '=' :: s₁) =>
    match value.read (skipBlanks s₁) with
    | some (a, rest) => some ((path, a), skipBlanks rest)
    | none => none
  | _ => none

/-- An assignment takes something off the text, if only its equals sign. -/
theorem readAssignment_shorter {α : Type} {value : Phrase α} {s rest : List Char}
    {a : List String × α} (h : readAssignment value s = some (a, rest)) :
    rest.length < s.length := by
  unfold readAssignment at h
  split at h
  · next path s₁ hp =>
    split at h
    · next b r hv =>
      have := keyPath.shorter hp
      have := value.shorter hv
      have := skipBlanks_length_le s₁
      have := skipBlanks_length_le r
      simp at h this
      rw [← h.2]
      simp_all
      omega
    · simp at h
  · simp at h

/-- **An assignment** of a value to a key path. -/
def assignment {α : Type} (value : Phrase α) : Phrase (List String × α) where
  read := readAssignment value
  shorter := readAssignment_shorter

/-! ### Lists in brackets -/

/-- Reads the items of an array up to its closing bracket. A comma may stand after the
last item. -/
def readItems {α : Type} (item : Phrase α) (s : List Char) : Option (List α × List Char) :=
  match _ht : skipTrivia false s with
  | none => none
  | some (']' :: rest) => some ([], rest)
  | some s₁ =>
    match _hi : item.read s₁ with
    | none => none
    | some (a, s₂) =>
      match _hs : skipTrivia false s₂ with
      | some (',' :: s₃) =>
        match readItems item s₃ with
        | some (items, rest) => some (a :: items, rest)
        | none => none
      | some (']' :: rest) => some ([a], rest)
      | _ => none
termination_by s.length
decreasing_by
  have := skipTrivia_length_le _ht
  have := item.shorter _hi
  have := skipTrivia_length_le _hs
  simp at this
  omega

/-- Reads the assignments of an inline table, of which there is at least one, up to its
closing brace. -/
def readAssignments {α : Type} (value : Phrase α) (s : List Char) :
    Option (List (List String × α) × List Char) :=
  match _ha : (assignment value).read s with
  | some (a, ',' :: s₁) =>
    match readAssignments value s₁ with
    | some (assignments, rest) => some (a :: assignments, rest)
    | none => none
  | some (a, '}' :: rest) => some ([a], rest)
  | _ => none
termination_by s.length
decreasing_by
  have := (assignment value).shorter _ha
  simp at this
  omega

theorem readItems_length_le {α : Type} {item : Phrase α} {s rest : List Char} {items : List α}
    (h : readItems item s = some (items, rest)) : rest.length ≤ s.length := by
  fun_induction readItems item s generalizing items with
  | case1 => simp at h
  | case2 s _ ht =>
    have := skipTrivia_length_le ht
    simp at h this
    rw [← h.2]
    omega
  | case3 => simp at h
  | case4 s s₁ _ ht a s₂ hi s₃ hs items' rest' hr ih =>
    simp only [Option.some.injEq, Prod.mk.injEq] at h
    have := ih (h.2 ▸ hr)
    have := skipTrivia_length_le ht
    have := item.shorter hi
    have := skipTrivia_length_le hs
    simp at this
    omega
  | case5 => simp at h
  | case6 s s₁ _ ht a s₂ hi s₃ hs =>
    have := skipTrivia_length_le ht
    have := item.shorter hi
    have := skipTrivia_length_le hs
    simp at h this
    rw [← h.2]
    omega
  | case7 => simp at h

theorem readAssignments_length_le {α : Type} {value : Phrase α} {s rest : List Char}
    {assignments : List (List String × α)}
    (h : readAssignments value s = some (assignments, rest)) : rest.length ≤ s.length := by
  fun_induction readAssignments value s generalizing assignments with
  | case1 s a s₁ ha as rest' hr ih =>
    simp only [Option.some.injEq, Prod.mk.injEq] at h
    have := ih (h.2 ▸ hr)
    have := (assignment value).shorter ha
    simp at this
    omega
  | case2 => simp at h
  | case3 s a rest' ha =>
    have := (assignment value).shorter ha
    simp at h this
    rw [← h.2]
    omega
  | case4 => simp at h

/-- Reads the rest of an inline table after its opening brace. -/
def readInlineTable {α : Type} (value : Phrase α) (s : List Char) :
    Option (List (List String × α) × List Char) :=
  match skipBlanks s with
  | '}' :: rest => some ([], rest)
  | s => readAssignments value s

theorem readInlineTable_length_le {α : Type} {value : Phrase α} {s rest : List Char}
    {assignments : List (List String × α)}
    (h : readInlineTable value s = some (assignments, rest)) : rest.length ≤ s.length := by
  have := skipBlanks_length_le s
  unfold readInlineTable at h
  split at h
  · simp_all
    omega
  · have := readAssignments_length_le h
    omega

/-! ### Scalars -/

/-- A lexeme is cut off the front of the text. -/
theorem cutLexeme_append (s : List Char) : (cutLexeme s).1 ++ (cutLexeme s).2 = s := by
  unfold cutLexeme
  simp only
  split
  · next d rest h =>
    split
    · rw [List.append_assoc, List.cons_append, List.takeWhile_append_dropWhile, ← h,
        List.takeWhile_append_dropWhile]
    · rw [← h, List.takeWhile_append_dropWhile]
  · exact List.takeWhile_append_dropWhile

/-- Reads a scalar, quoted or not. -/
def readScalar (s : List Char) : Option (Scalar × List Char) :=
  let quoted := (Quotation.read s).map fun (text, rest) => (.string (String.ofList text), rest)
  match s with
  | '"' :: _ => quoted
  | '\'' :: _ => quoted
  | _ => (scalarOf? (cutLexeme s).1).map (·, (cutLexeme s).2)

theorem readScalar_shorter {s rest : List Char} {a : Scalar}
    (h : readScalar s = some (a, rest)) : rest.length < s.length := by
  have quoted : ∀ {b}, ((Quotation.read s).map fun (text, rest) =>
      ((.string (String.ofList text) : Scalar), rest)) = some (b, rest) →
      rest.length < s.length := fun h => by
    obtain ⟨⟨text, r⟩, hq, heq⟩ := Option.map_eq_some_iff.1 h
    simp at heq
    exact heq.2 ▸ Quotation.read_shorter hq
  unfold readScalar at h
  split at h
  · exact quoted h
  · exact quoted h
  · obtain ⟨b, hl, heq⟩ := Option.map_eq_some_iff.1 h
    simp only [Prod.mk.injEq] at heq
    have whole := congrArg List.length (cutLexeme_append s)
    rw [List.length_append, heq.2] at whole
    cases hc : (cutLexeme s).1 with
    | nil =>
      rw [hc] at hl
      exact absurd hl (by simp [show scalarOf? [] = none from rfl])
    | cons =>
      rw [hc] at whole
      simp at whole
      omega

/-! ### Terms -/

/-- Reads a term, with `inner` for what stands inside brackets and braces; without it
there may be none. -/
def readTerm (inner : Option (Phrase Term)) (s : List Char) : Option (Term × List Char) :=
  match s, inner with
  | '[' :: rest, some item => (readItems item rest).map fun (items, rest) => (.array items, rest)
  | '{' :: rest, some value =>
    (readInlineTable value rest).map fun (assignments, rest) => (.table assignments, rest)
  | s, _ => (readScalar s).map fun (a, rest) => (.scalar a, rest)

/-- **A term takes something off the text**, whatever reads the terms inside of it. -/
theorem readTerm_shorter {inner : Option (Phrase Term)} {s rest : List Char} {t : Term}
    (h : readTerm inner s = some (t, rest)) : rest.length < s.length := by
  unfold readTerm at h
  split at h
  · obtain ⟨⟨items, r⟩, hr, heq⟩ := Option.map_eq_some_iff.1 h
    obtain ⟨-, rfl⟩ := Prod.mk.inj heq
    exact Nat.lt_succ_of_le (readItems_length_le hr)
  · obtain ⟨⟨assignments, r⟩, hr, heq⟩ := Option.map_eq_some_iff.1 h
    obtain ⟨-, rfl⟩ := Prod.mk.inj heq
    exact Nat.lt_succ_of_le (readInlineTable_length_le hr)
  · obtain ⟨⟨a, r⟩, hr, heq⟩ := Option.map_eq_some_iff.1 h
    obtain ⟨-, rfl⟩ := Prod.mk.inj heq
    exact readScalar_shorter hr

/-- **A term** in which arrays and inline tables go down at most `room` levels. -/
def termPhrase : (room : Nat) → Phrase Term
  | 0 => ⟨readTerm none, readTerm_shorter⟩
  | room + 1 => ⟨readTerm (some (termPhrase room)), readTerm_shorter⟩

/-- Arrays and inline tables go down at most this many levels. -/
def nestingLimit : Nat := 79

end WorkspaceFacts.Toml
