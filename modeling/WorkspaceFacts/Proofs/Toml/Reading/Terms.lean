import WorkspaceFacts.Proofs.Toml.Reading.Words

/-!
# Terms are read as what they mean

What a term over words means is told from the words alone
(`WorkspaceFacts.Toml.Meaning.term?`), and every spelling of the term is read as just that
(`WorkspaceFacts.Toml.Part.Spelled.reads`). The proof follows the grammar; the room of the
reader goes down with the brackets and braces, and it is the same again for what stands
next to them. A term over keys and scalars means itself if it does not go down further than the
reader does, and nothing if it does (`WorkspaceFacts.Toml.Part.Spelled.meansItself`).

What the readers do at brackets, commas and equals signs does not depend on what is read between
them. So these steps are stated for any phrase and for any text that it reads as something
(`WorkspaceFacts.Toml.Phrase.ReadsAs`).
-/

namespace WorkspaceFacts.Toml

variable {keys : List String} {text rest : List Char}

/-! ### The steps through brackets and braces -/

section Steps

variable {α : Type} {item : Phrase α} {a : α} {s s₁ s₂ s₃ : List Char}

theorem readItems_close (h : skipTrivia false s = some (']' :: rest)) :
    readItems item s = some ([], rest) := by
  rw [readItems]
  split
  all_goals simp_all

theorem readItems_none {c : Char} (h : skipTrivia false s = some (c :: s₁)) (hc : c ≠ ']')
    (hi : item.read (c :: s₁) = none) : readItems item s = none := by
  rw [readItems]
  split
  · rfl
  · next heq => exact absurd (List.cons.inj (Option.some.inj (h.symm.trans heq))).1 hc
  · next heq =>
    obtain rfl := Option.some.inj (h.symm.trans heq)
    split
    · rfl
    · next hi' => cases hi.symm.trans hi'

theorem readItems_last {c : Char} (h : skipTrivia false s = some (c :: s₁)) (hc : c ≠ ']')
    (hi : item.read (c :: s₁) = some (a, s₂)) (hs : skipTrivia false s₂ = some (']' :: rest)) :
    readItems item s = some ([a], rest) := by
  rw [readItems]
  split
  · next heq => cases h.symm.trans heq
  · next heq => exact absurd (List.cons.inj (Option.some.inj (h.symm.trans heq))).1 hc
  · next heq =>
    obtain rfl := Option.some.inj (h.symm.trans heq)
    split
    · next hi' => cases hi.symm.trans hi'
    · next hi' =>
      obtain ⟨rfl, rfl⟩ := Prod.mk.inj (Option.some.inj (hi.symm.trans hi'))
      split
      all_goals simp_all

theorem readItems_item {c : Char} (h : skipTrivia false s = some (c :: s₁)) (hc : c ≠ ']')
    (hi : item.read (c :: s₁) = some (a, s₂)) (hs : skipTrivia false s₂ = some (',' :: s₃)) :
    readItems item s = (readItems item s₃).map fun (items, rest) => (a :: items, rest) := by
  rw [readItems]
  split
  · next heq => cases h.symm.trans heq
  · next heq => exact absurd (List.cons.inj (Option.some.inj (h.symm.trans heq))).1 hc
  · next heq =>
    obtain rfl := Option.some.inj (h.symm.trans heq)
    split
    · next hi' => cases hi.symm.trans hi'
    · next hi' =>
      obtain ⟨rfl, rfl⟩ := Prod.mk.inj (Option.some.inj (hi.symm.trans hi'))
      split
      · next hs' =>
        obtain rfl := (List.cons.inj (Option.some.inj (hs.symm.trans hs'))).2
        cases readItems item s₃ <;> rfl
      all_goals simp_all

variable {value : Phrase α} {assigned : List String × α}

theorem readAssignments_none (h : (assignment value).read s = none) :
    readAssignments value s = none := by
  rw [readAssignments]
  split
  all_goals simp_all

theorem readAssignments_last (h : (assignment value).read s = some (assigned, '\x7d' :: rest)) :
    readAssignments value s = some ([assigned], rest) := by
  rw [readAssignments]
  split
  all_goals simp_all

theorem readAssignments_more (h : (assignment value).read s = some (assigned, ',' :: s₁)) :
    readAssignments value s =
      (readAssignments value s₁).map fun (all, rest) => (assigned :: all, rest) := by
  rw [readAssignments]
  split
  · next heq =>
    obtain ⟨rfl, hs⟩ := Prod.mk.inj (Option.some.inj (h.symm.trans heq))
    obtain rfl := (List.cons.inj hs).2
    cases readAssignments value s₁ <;> rfl
  all_goals simp_all

/-- An assignment may stand behind blanks: its key path may. -/
theorem read_assignment_skipBlanks (value : Phrase α) (s : List Char) :
    (assignment value).read (skipBlanks s) = (assignment value).read s := by
  show readAssignment value _ = readAssignment value _
  simp only [readAssignment, keyPath, readPath_skipBlanks]

theorem readAssignments_skipBlanks (value : Phrase α) (s : List Char) :
    readAssignments value (skipBlanks s) = readAssignments value s := by
  conv => lhs; rw [readAssignments]
  conv => rhs; rw [readAssignments]
  rw [read_assignment_skipBlanks]

end Steps

/-! ### What is read as something -/

/-- The characters with which a term can start. -/
def StartsTerm (c : Char) : Prop := c = '[' ∨ c = '\x7b' ∨ StartsScalar c

theorem StartsTerm.not_skipped {c : Char} (h : StartsTerm c) :
    isBlank c = false ∧ c ≠ '\n' ∧ c ≠ '#' ∧ c ≠ ']' := by
  rcases h with rfl | rfl | (rfl | rfl) | h
  · decide
  · decide
  · decide
  · decide
  · refine ⟨?_, ne_of_holds h rfl, ne_of_holds h rfl, ne_of_holds h rfl⟩
    rw [Bool.eq_false_iff]
    intro hb
    rcases isBlank_iff.1 hb with rfl | rfl <;> cases h

/-- The text starts as a term does. -/
def BeginsTerm (text : List Char) : Prop := ∃ c s, text = c :: s ∧ StartsTerm c

theorem BeginsTerm.notFirst_isBlank (h : BeginsTerm text) : NotFirst isBlank (text ++ rest) := by
  obtain ⟨c, s, rfl, hc⟩ := h
  exact notFirst_cons hc.not_skipped.1

/-- The item in front of an array is what is read first. -/
theorem BeginsTerm.skipTrivia {before : List Char} (h : BeginsTerm text) (hb : IsTrivia before)
    (rest : List Char) : ∃ c s, skipTrivia false (before ++ (text ++ rest)) = some (c :: s) ∧
      c ≠ ']' ∧ c :: s = text ++ rest := by
  obtain ⟨c, s, rfl, hc⟩ := h
  obtain ⟨hblank, hline, hcomment, hclose⟩ := hc.not_skipped
  refine ⟨c, s ++ rest, ?_, hclose, rfl⟩
  rw [skipTrivia_append hb, List.cons_append, skipTrivia_cons hblank hline hcomment]

/-- What can stand behind an item of an array: trivia may start with a blank, with the end of a
line or with a comment. -/
theorem IsTrivia.endsTerm {trivia : List Char} {c : Char} (h : IsTrivia trivia)
    (hc : EndsTermChar c) : EndsTerm (trivia ++ c :: rest) := by
  induction h with
  | nil => exact hc.endsTerm
  | @blank b more hb _ ih =>
    rw [List.cons_append]
    generalize more ++ c :: rest = tail at ih ⊢
    have hcons : ∀ {blanks}, IsBlankText blanks → IsBlankText (b :: blanks) := fun h =>
      List.forall_mem_cons.2 ⟨hb, h⟩
    cases ih with
    | char hblanks hd =>
      rw [← List.cons_append]
      exact .char (hcons hblanks) hd
    | nothing hblanks => exact .nothing (hcons hblanks)
  | lineEnd => exact EndsTermChar.endsTerm (by decide)
  | comment => exact EndsTermChar.endsTerm (by decide)

/-- **The phrase reads the text as `a`**, whatever can end a term stands behind it. Where there
is no `a` nothing is read. -/
def Phrase.ReadsAs {α : Type} (phrase : Phrase α) (text : List Char) (a : Option α) : Prop :=
  ∀ rest, EndsTerm rest → phrase.read (text ++ rest) = a.map (·, rest)

/-- What an assignment of `a` to the key path means: nothing if the path has too many keys. -/
def assigned? {α : Type} (keys : List String) (a : Option α) : Option (List String × α) :=
  if keys.length < keyLimit then a.map (keys, ·) else none

section ReadsAs

variable {α : Type} {phrase : Phrase α} {a : Option α} {path before after more : List Char}

theorem readItems_noItem {trivia : List Char} (ht : IsTrivia trivia) :
    readItems phrase (trivia ++ ']' :: rest) = some ([], rest) := by
  refine readItems_close ?_
  rw [skipTrivia_append ht]
  rfl

/-- The last item of an array, with no comma behind it. -/
theorem Phrase.ReadsAs.lastItem (h : phrase.ReadsAs text a) (ht : BeginsTerm text)
    (hb : IsTrivia before) (ha : IsTrivia after) :
    readItems phrase (before ++ (text ++ (after ++ ']' :: rest))) = a.map fun a => ([a], rest) := by
  obtain ⟨c, s, hs, hclose, he⟩ := ht.skipTrivia hb (after ++ ']' :: rest)
  have hread := h (after ++ ']' :: rest) (ha.endsTerm (by decide))
  rw [← he] at hread
  cases a with
  | none => exact readItems_none hs hclose hread
  | some a =>
    refine readItems_last hs hclose hread ?_
    rw [skipTrivia_append ha]
    rfl

/-- An item of an array with a comma behind it. -/
theorem Phrase.ReadsAs.item (h : phrase.ReadsAs text a) (ht : BeginsTerm text)
    (hb : IsTrivia before) (ha : IsTrivia after) :
    readItems phrase (before ++ (text ++ (after ++ ',' :: more))) =
      a.bind fun a => (readItems phrase more).map fun (items, rest) => (a :: items, rest) := by
  obtain ⟨c, s, hs, hclose, he⟩ := ht.skipTrivia hb (after ++ ',' :: more)
  have hread := h (after ++ ',' :: more) (ha.endsTerm (by decide))
  rw [← he] at hread
  cases a with
  | none => exact readItems_none hs hclose hread
  | some a =>
    refine readItems_item hs hclose hread ?_
    rw [skipTrivia_append ha]
    rfl

/-- An assignment is read as its value is, up to the blanks behind it. -/
theorem Phrase.ReadsAs.assignment {tail : List Char} (h : phrase.ReadsAs text a)
    (ht : BeginsTerm text) (hp : PathSpelled KeySpelled keys path) (hb : IsBlankText before)
    (he : EndsTerm tail) :
    (assignment phrase).read (path ++ '=' :: (before ++ (text ++ tail))) =
      (assigned? keys a).map (·, skipBlanks tail) := by
  show readAssignment phrase _ = _
  have hvalue : skipBlanks (before ++ (text ++ tail)) = text ++ tail := by
    rw [skipBlanks_append hb, skipBlanks_of_notFirst ht.notFirst_isBlank]
  rw [readAssignment, hp.read_eq (.inl rfl), assigned?]
  by_cases short : keys.length < keyLimit
  · simp only [if_pos short, hvalue, h tail he]
    cases a <;> rfl
  · simp only [if_neg short, Option.map_none]

/-- The last assignment of an inline table. -/
theorem Phrase.ReadsAs.lastAssignment (h : phrase.ReadsAs text a) (ht : BeginsTerm text)
    (hp : PathSpelled KeySpelled keys path) (hb : IsBlankText before) (ha : IsBlankText after) :
    readAssignments phrase (path ++ '=' :: (before ++ (text ++ (after ++ '\x7d' :: rest)))) =
      (assigned? keys a).map fun a => ([a], rest) := by
  have hread := h.assignment ht hp hb (.char ha (by decide) : EndsTerm (after ++ '\x7d' :: rest))
  rw [skipBlanks_append_cons ha rfl] at hread
  generalize assigned? keys a = assigned at hread ⊢
  cases assigned with
  | none => exact readAssignments_none hread
  | some a => exact readAssignments_last hread

/-- An assignment of an inline table with a comma behind it. -/
theorem Phrase.ReadsAs.moreAssignments (h : phrase.ReadsAs text a) (ht : BeginsTerm text)
    (hp : PathSpelled KeySpelled keys path) (hb : IsBlankText before) (ha : IsBlankText after) :
    readAssignments phrase (path ++ '=' :: (before ++ (text ++ (after ++ ',' :: more)))) =
      (assigned? keys a).bind fun a =>
        (readAssignments phrase more).map fun (all, rest) => (a :: all, rest) := by
  have hread := h.assignment ht hp hb (.char ha (by decide) : EndsTerm (after ++ ',' :: more))
  rw [skipBlanks_append_cons ha rfl] at hread
  generalize assigned? keys a = assigned at hread ⊢
  cases assigned with
  | none => exact readAssignments_none hread
  | some a => exact readAssignments_more hread

/-- Behind the blanks in front of a key path stands the first character of a key. -/
theorem PathSpelled.exists_cons (h : PathSpelled KeySpelled keys text) (rest : List Char) :
    ∃ c s, skipBlanks (text ++ rest) = c :: s ∧ StartsKey c := by
  obtain ⟨before, key, word, more, hb, hk, he⟩ := h.exists_key rest
  obtain ⟨c, s, rfl, hc⟩ := hk.exists_cons
  refine ⟨c, s ++ more, ?_, hc⟩
  rw [he, List.cons_append, skipBlanks_append_cons hb hc.isBlank_eq_false]

/-- An inline table with assignments is read by reading these. -/
theorem PathSpelled.readInlineTable (h : PathSpelled KeySpelled keys text) (phrase : Phrase α) :
    readInlineTable phrase (text ++ rest) = readAssignments phrase (text ++ rest) := by
  obtain ⟨c, s, hs, hc⟩ := h.exists_cons rest
  rw [← readAssignments_skipBlanks, hs, Toml.readInlineTable, hs]
  split
  · next heq =>
    -- The brace that closes a table without assignments does not start a key.
    obtain rfl := (List.cons.inj heq).1
    exact absurd hc (by decide)
  · rfl

theorem readInlineTable_empty {blanks : List Char} (hb : IsBlankText blanks) :
    readInlineTable phrase (blanks ++ '\x7d' :: rest) = some ([], rest) := by
  rw [readInlineTable, skipBlanks_append hb]
  rfl

end ReadsAs

/-! ### Terms -/

/-- The reader of terms, whatever room there is, reads a scalar where no bracket or brace
stands. -/
theorem read_termPhrase_scalar (room : Nat) {c : Char} {s : List Char} (h : StartsScalar c) :
    (termPhrase room).read (c :: s) =
      (readScalar (c :: s)).map fun (a, rest) => (.scalar a, rest) := by
  have hc : c ≠ '[' ∧ c ≠ '\x7b' := by
    rcases h with (rfl | rfl) | h
    · decide
    · decide
    · exact (ne_of_isLexemeChar h).2.2
  cases room with
  | zero => simp [termPhrase, readTerm]
  | succ room => simp [termPhrase, readTerm, hc.1, hc.2]

theorem read_termPhrase_succ_array (room : Nat) (s : List Char) :
    (termPhrase (room + 1)).read ('[' :: s) =
      (readItems (termPhrase room) s).map fun (items, rest) => (.array items, rest) := rfl

theorem read_termPhrase_succ_table (room : Nat) (s : List Char) :
    (termPhrase (room + 1)).read ('\x7b' :: s) = (readInlineTable (termPhrase room) s).map
      fun (assignments, rest) => (.table assignments, rest) := rfl

/-! ### What terms mean -/

section Meaning

variable {π σ : Type}

mutual

/-- **The term that a term over words means** where arrays and inline tables may go down `room`
levels. It may mean none: a word may be no scalar, or a key path may have too many keys. -/
def Meaning.term? (M : Meaning π σ) : TermOf π σ → (room : Nat) → Option Term
  | .scalar s, _ => (M.scalar? s).map .scalar
  | .array _, 0 => none
  | .array items, room + 1 => (M.items? items room).map .array
  | .table _, 0 => none
  | .table assignments, room + 1 => (M.assignments? assignments room).map .table

/-- The items of an array, if each of them means a term. -/
def Meaning.items? (M : Meaning π σ) : List (TermOf π σ) → (room : Nat) → Option (List Term)
  | [], _ => some []
  | t :: items, room => (M.term? t room).bind fun a => (M.items? items room).map (a :: ·)

/-- The assignments of an inline table, if each of them means one. -/
def Meaning.assignments? (M : Meaning π σ) :
    List (π × TermOf π σ) → (room : Nat) → Option (List (List String × Term))
  | [], _ => some []
  | (path, t) :: assignments, room =>
    (assigned? (M.keys path) (M.term? t room)).bind fun a =>
      (M.assignments? assignments room).map (a :: ·)

end

variable {W : Words π σ} {M : Meaning π σ} {room : Nat} {t : TermOf π σ}
  {items : List (TermOf π σ)} {assignments : List (π × TermOf π σ)}

theorem Part.Spelled.beginsTerm (hW : W.ReadAs M) (h : (Part.term t).Spelled W text) :
    BeginsTerm text := by
  cases h with
  | scalar h =>
    obtain ⟨c, s, hc, hs⟩ := hW.starts h
    exact ⟨c, s, hc, .inr (.inr hs)⟩
  | array => exact ⟨_, _, rfl, .inl rfl⟩
  | emptyTable => exact ⟨_, _, rfl, .inr (.inl rfl)⟩
  | table => exact ⟨_, _, rfl, .inr (.inl rfl)⟩

/-- Assignments start with a key path. -/
theorem Part.Spelled.readInlineTable (hW : W.ReadAs M)
    (h : (Part.assignments assignments).Spelled W text) (phrase : Phrase Term) :
    readInlineTable phrase (text ++ rest) = readAssignments phrase (text ++ rest) := by
  cases h with
  | lastAssignment hp =>
    rw [List.append_assoc]
    exact (hW.path hp).readInlineTable _
  | assignment hp =>
    rw [List.append_assoc]
    exact (hW.path hp).readInlineTable _

/-! ### Terms -/

/-- What reading a part of a document with some room comes to: what the part means with that
room. -/
def Part.Reads (M : Meaning π σ) (room : Nat) : Part π σ → List Char → Prop
  | .term t, text => (termPhrase room).ReadsAs text (M.term? t room)
  | .items items, text => ∀ rest,
      readItems (termPhrase room) (text ++ rest) = (M.items? items room).map (·, rest)
  | .assignments assignments, text => ∀ rest,
      readAssignments (termPhrase room) (text ++ rest) =
        (M.assignments? assignments room).map (·, rest)

theorem reads_scalar (hW : W.ReadAs M) {s : σ} (h : W.scalar s text) :
    (Part.term (.scalar s) : Part π σ).Reads M room text := by
  intro rest hr
  obtain ⟨c, t, hc, hs⟩ := hW.starts h
  have hread := hW.read h hr
  rw [hc, List.cons_append] at hread ⊢
  rw [read_termPhrase_scalar room hs, hread, Meaning.term?, Option.map_map, Option.map_map]
  rfl

theorem reads_array (h : ∀ room, (Part.items items).Reads M room text) :
    (Part.term (.array items)).Reads M room ('[' :: text) := by
  intro rest _
  cases room with
  | zero => rfl
  | succ room =>
    -- The bracket takes one level of the room.
    rw [List.cons_append, read_termPhrase_succ_array, h room rest, Meaning.term?, Option.map_map,
      Option.map_map]
    rfl

theorem reads_emptyTable {blanks : List Char} (hb : IsBlankText blanks) :
    (Part.term (.table []) : Part π σ).Reads M room ('\x7b' :: (blanks ++ ['\x7d'])) := by
  intro rest _
  cases room with
  | zero => rfl
  | succ room =>
    rw [List.cons_append, List.append_assoc, read_termPhrase_succ_table, List.singleton_append,
      readInlineTable_empty hb]
    rfl

theorem reads_table (hW : W.ReadAs M) (hs : (Part.assignments assignments).Spelled W text)
    (h : ∀ room, (Part.assignments assignments).Reads M room text) :
    (Part.term (.table assignments)).Reads M room ('\x7b' :: text) := by
  intro rest _
  cases room with
  | zero => rfl
  | succ room =>
    rw [List.cons_append, read_termPhrase_succ_table, hs.readInlineTable hW, h room rest,
      Meaning.term?, Option.map_map, Option.map_map]
    rfl

theorem reads_lastItem {before after : List Char} (hb : IsTrivia before) (ht : BeginsTerm text)
    (ha : IsTrivia after) (h : (Part.term t).Reads M room text) :
    (Part.items [t]).Reads M room (before ++ (text ++ (after ++ [']']))) := by
  intro rest
  rw [List.append_assoc, List.append_assoc, List.append_assoc, List.singleton_append,
    Phrase.ReadsAs.lastItem h ht hb ha, Meaning.items?, Meaning.items?]
  cases M.term? t room <;> rfl

theorem reads_item {before after more : List Char} (hb : IsTrivia before) (ht : BeginsTerm text)
    (ha : IsTrivia after) (h : (Part.term t).Reads M room text)
    (hm : (Part.items items).Reads M room more) :
    (Part.items (t :: items)).Reads M room (before ++ (text ++ (after ++ ',' :: more))) := by
  intro rest
  rw [List.append_assoc, List.append_assoc, List.append_assoc, List.cons_append,
    Phrase.ReadsAs.item h ht hb ha, hm rest, Meaning.items?]
  cases M.term? t room with
  | none => rfl
  | some a => cases M.items? items room <;> rfl

theorem reads_lastAssignment {path : π} {keys before after : List Char}
    (hp : PathSpelled KeySpelled (M.keys path) keys) (hb : IsBlankText before)
    (ht : BeginsTerm text) (ha : IsBlankText after) (h : (Part.term t).Reads M room text) :
    (Part.assignments [(path, t)]).Reads M room
      (keys ++ '=' :: (before ++ (text ++ (after ++ ['\x7d'])))) := by
  intro rest
  rw [List.append_assoc, List.cons_append, List.append_assoc, List.append_assoc,
    List.append_assoc, List.singleton_append, Phrase.ReadsAs.lastAssignment h ht hp hb ha,
    Meaning.assignments?, Meaning.assignments?]
  cases assigned? (M.keys path) (M.term? t room) <;> rfl

theorem reads_assignment {path : π} {keys before after more : List Char}
    (hp : PathSpelled KeySpelled (M.keys path) keys) (hb : IsBlankText before)
    (ht : BeginsTerm text) (ha : IsBlankText after) (h : (Part.term t).Reads M room text)
    (hm : (Part.assignments assignments).Reads M room more) :
    (Part.assignments ((path, t) :: assignments)).Reads M room
      (keys ++ '=' :: (before ++ (text ++ (after ++ ',' :: more)))) := by
  intro rest
  rw [List.append_assoc, List.cons_append, List.append_assoc, List.append_assoc,
    List.append_assoc, List.cons_append, Phrase.ReadsAs.moreAssignments h ht hp hb ha, hm rest,
    Meaning.assignments?]
  cases assigned? (M.keys path) (M.term? t room) with
  | none => rfl
  | some a => cases M.assignments? assignments room <;> rfl

/-- **A part of a document is read as what it means**, with whatever room there is. -/
theorem Part.Spelled.reads (hW : W.ReadAs M) {part : Part π σ} (h : part.Spelled W text)
    (room : Nat) : part.Reads M room text := by
  -- By the grammar. The room is left open, as there is less of it inside brackets.
  induction h generalizing room with
  | scalar h => exact reads_scalar hW h
  | array _ ih => exact reads_array ih
  | emptyTable hb => exact reads_emptyTable hb
  | table h ih => exact reads_table hW h ih
  | noItem ht =>
    intro rest
    rw [List.append_assoc, List.singleton_append, readItems_noItem ht]
    rfl
  | lastItem hb h ha ih => exact reads_lastItem hb (h.beginsTerm hW) ha (ih room)
  | item hb h ha _ ih ihm => exact reads_item hb (h.beginsTerm hW) ha (ih room) (ihm room)
  | lastAssignment hp hb h ha ih =>
    exact reads_lastAssignment (hW.path hp) hb (h.beginsTerm hW) ha (ih room)
  | assignment hp hb h ha _ ih ihm =>
    exact reads_assignment (hW.path hp) hb (h.beginsTerm hW) ha (ih room) (ihm room)

end Meaning

/-! ### Terms that mean themselves -/

/-- What a part of a document whose key paths are short should mean: itself where the room is
enough for it, and nothing where it is not. -/
def Part.MeansItself (room : Nat) : Part (List String) Scalar → Prop
  | .term t => Meaning.itself.term? t room = if t.depth ≤ room then some t else none
  | .items list => Meaning.itself.items? list room =
      if TermOf.itemsDepth list ≤ room then some list else none
  | .assignments list => Meaning.itself.assignments? list room =
      if TermOf.assignmentsDepth list ≤ room then some list else none

section MeansItself

variable {room : Nat} {t : Term} {items : List Term} {assignments : List (List String × Term)}

theorem meansItself_array (h : ∀ room, (Part.items items).MeansItself room) :
    (Part.term (.array items)).MeansItself room := by
  show Meaning.itself.term? (.array items) room =
    if TermOf.itemsDepth items + 1 ≤ room then some (.array items) else none
  cases room with
  | zero => rfl
  | succ room =>
    -- The bracket takes one level of the room, and one of the depth.
    have hitems : Meaning.itself.items? items room = _ := h room
    rw [Meaning.term?, hitems, Option.map_if]
    simp only [Nat.add_le_add_iff_right]

theorem meansItself_table (h : ∀ room, (Part.assignments assignments).MeansItself room) :
    (Part.term (.table assignments)).MeansItself room := by
  show Meaning.itself.term? (.table assignments) room =
    if TermOf.assignmentsDepth assignments + 1 ≤ room then some (.table assignments) else none
  cases room with
  | zero => rfl
  | succ room =>
    have hassignments : Meaning.itself.assignments? assignments room = _ := h room
    rw [Meaning.term?, hassignments, Option.map_if]
    simp only [Nat.add_le_add_iff_right]

theorem meansItself_items_cons (h : (Part.term t).MeansItself room)
    (hm : (Part.items items).MeansItself room) : (Part.items (t :: items)).MeansItself room := by
  have ht : Meaning.itself.term? t room = _ := h
  have hitems : Meaning.itself.items? items room = _ := hm
  show Meaning.itself.items? (t :: items) room =
    if max t.depth (TermOf.itemsDepth items) ≤ room then some (t :: items) else none
  rw [Meaning.items?, ht, hitems]
  by_cases hd : t.depth ≤ room
  · simp only [Nat.max_le, hd, true_and, if_true, Option.bind_some, Option.map_if]
  · simp only [Nat.max_le, hd, false_and, if_false, Option.bind_none]

theorem meansItself_assignments_cons (short : keys.length < keyLimit)
    (h : (Part.term t).MeansItself room) (hm : (Part.assignments assignments).MeansItself room) :
    (Part.assignments ((keys, t) :: assignments)).MeansItself room := by
  have ht : Meaning.itself.term? t room = _ := h
  have hassignments : Meaning.itself.assignments? assignments room = _ := hm
  have hassigned : assigned? (Meaning.itself.keys keys) (Meaning.itself.term? t room) =
      if t.depth ≤ room then some (keys, t) else none := by
    show assigned? keys (Meaning.itself.term? t room) = _
    rw [assigned?, if_pos short, ht, Option.map_if]
  show Meaning.itself.assignments? ((keys, t) :: assignments) room =
    if max t.depth (TermOf.assignmentsDepth assignments) ≤ room then
      some ((keys, t) :: assignments)
    else none
  rw [Meaning.assignments?, hassigned, hassignments]
  by_cases hd : t.depth ≤ room
  · simp only [Nat.max_le, hd, true_and, if_true, Option.bind_some, Option.map_if]
  · simp only [Nat.max_le, hd, false_and, if_false, Option.bind_none]

end MeansItself

/-- **What is spelled for keys and scalars means itself** where the room is enough for it, and
nothing where it is not. -/
theorem Part.Spelled.meansItself {part : Part (List String) Scalar} (h : part.Spelled .any text)
    (room : Nat) : part.MeansItself room := by
  induction h generalizing room with
  | scalar => rfl
  | array _ ih => exact meansItself_array ih
  | emptyTable => exact meansItself_table fun _ => rfl
  | table _ ih => exact meansItself_table ih
  | noItem => rfl
  | lastItem _ _ _ ih => exact meansItself_items_cons (ih room) rfl
  | item _ _ _ _ ih ihm => exact meansItself_items_cons (ih room) (ihm room)
  | lastAssignment hp _ _ _ ih => exact meansItself_assignments_cons hp.short (ih room) rfl
  | assignment hp _ _ _ _ ih ihm =>
    exact meansItself_assignments_cons hp.short (ih room) (ihm room)

end WorkspaceFacts.Toml
