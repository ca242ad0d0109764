import Mathlib.Data.List.DropRight
import WorkspaceFacts.Proofs.Toml.Reading.Quotes

/-!
# Words are read back

Reading a text that was spelled for something, with more text behind it, gives back what
it was spelled for and leaves the text behind it. This file has that for the parts without
inner structure: keys and key paths, and scalars. What may stand behind them is what the
language lets stand there: behind a key path an equals sign or a bracket, behind a scalar
blanks and then a comma, a bracket, a brace, a comment, the end of the line or that of the
text (`WorkspaceFacts.Toml.EndsTerm`).
-/

namespace WorkspaceFacts.Toml

/-! ### Blanks -/

theorem isBlankText_nil : IsBlankText [] := nofun

theorem isBlankText_space : IsBlankText [' '] := by
  simp [IsBlankText, isBlank]

theorem isBlank_iff {c : Char} : isBlank c = true ↔ c = ' ' ∨ c = '\t' := by
  simp [isBlank]

theorem skipBlanks_append {blanks rest : List Char} (h : IsBlankText blanks) :
    skipBlanks (blanks ++ rest) = skipBlanks rest :=
  List.dropWhile_append_of_pos h

theorem skipBlanks_of_notFirst {text : List Char} (h : NotFirst isBlank text) :
    skipBlanks text = text := by
  cases text with
  | nil => rfl
  | cons c text => simp [skipBlanks, h c text rfl]

/-- Blanks end where something else stands. -/
theorem skipBlanks_append_cons {blanks rest : List Char} {c : Char} (h : IsBlankText blanks)
    (hc : isBlank c = false) : skipBlanks (blanks ++ c :: rest) = c :: rest := by
  rw [skipBlanks_append h, skipBlanks_of_notFirst (notFirst_cons hc)]

theorem skipBlanks_skipBlanks (s : List Char) : skipBlanks (skipBlanks s) = skipBlanks s :=
  List.dropWhile_idempotent isBlank s

theorem IsBlankText.isTrivia {blanks : List Char} (h : IsBlankText blanks) : IsTrivia blanks := by
  induction blanks with
  | nil => exact .nil
  | cons c blanks ih =>
    exact .blank (h c List.mem_cons_self) (ih fun d hd => h d (List.mem_cons_of_mem _ hd))

theorem IsTrivia.append {trivia more : List Char} (h : IsTrivia trivia) (hm : IsTrivia more) :
    IsTrivia (trivia ++ more) := by
  induction h with
  | nil => exact hm
  | blank hc _ ih => exact .blank hc ih
  | lineEnd _ ih => exact .lineEnd ih
  | comment ht _ ih =>
    rw [List.cons_append, List.append_assoc]
    exact .comment ht ih

/-- A comment goes on to the end of its line. -/
theorem skipTrivia_comment {text : List Char} (h : IsComment text) (rest : List Char) :
    skipTrivia true (text ++ rest) = skipTrivia true rest := by
  induction text with
  | nil => rfl
  | cons c text ih =>
    have hc : isLineChar c = true := isLineChar_iff.2 (h c List.mem_cons_self)
    have hne : c ≠ '\n' := ne_of_holds hc rfl
    rw [List.cons_append, skipTrivia, if_pos rfl, if_neg hne, if_pos hc]
    exact ih fun d hd => h d (List.mem_cons_of_mem _ hd)

theorem skipTrivia_append {trivia rest : List Char} (h : IsTrivia trivia) :
    skipTrivia false (trivia ++ rest) = skipTrivia false rest := by
  induction h with
  | nil => rfl
  | @blank c more hc _ ih =>
    have hne : c ≠ '#' := by
      rintro rfl
      cases hc
    rw [List.cons_append, skipTrivia, if_neg (by simp), if_neg hne, hc]
    exact ih
  | lineEnd _ ih => exact ih
  | comment ht _ ih =>
    rw [List.cons_append, List.append_assoc, skipTrivia, if_neg (by simp), if_pos rfl,
      skipTrivia_comment ht]
    exact ih

/-- A character that is no blank and starts no comment or line ends what carries no
meaning. -/
theorem skipTrivia_cons {c : Char} {rest : List Char} (hb : isBlank c = false) (hl : c ≠ '\n')
    (hc : c ≠ '#') : skipTrivia false (c :: rest) = some (c :: rest) := by
  simp [skipTrivia, hb, hl, hc]

/-! ### Keys and key paths -/

theorem isBareKeyChar_of_isBlank {c : Char} (h : isBlank c = true) : isBareKeyChar c = false := by
  rcases isBlank_iff.1 h with rfl | rfl <;> rfl

theorem ne_quote_of_isBareKeyChar {c : Char} (h : isBareKeyChar c = true) :
    c ≠ '"' ∧ c ≠ '\'' ∧ isBlank c = false := by
  refine ⟨ne_of_holds h rfl, ne_of_holds h rfl, ?_⟩
  rw [Bool.eq_false_iff]
  intro hb
  rw [isBareKeyChar_of_isBlank hb] at h
  cases h

/-- The characters with which a key can start. -/
def StartsKey (c : Char) : Prop := (c = '"' ∨ c = '\'') ∨ isBareKeyChar c = true

instance (c : Char) : Decidable (StartsKey c) := inferInstanceAs (Decidable (_ ∨ _))

theorem StartsKey.ne {c d : Char} (h : StartsKey c) (hd : ¬StartsKey d) : c ≠ d := by
  rintro rfl
  exact hd h

theorem StartsKey.isBlank_eq_false {c : Char} (h : StartsKey c) : isBlank c = false := by
  rcases h with (rfl | rfl) | h
  · rfl
  · rfl
  · exact (ne_quote_of_isBareKeyChar h).2.2

variable {key : String} {keys : List String} {text rest : List Char}

theorem KeySpelled.exists_cons (h : KeySpelled key text) :
    ∃ c s, text = c :: s ∧ StartsKey c := by
  cases h with
  | bare nonempty chars =>
    obtain ⟨c, s, hc⟩ := List.exists_cons_of_ne_nil nonempty
    exact ⟨c, s, hc, .inr (chars c (hc ▸ List.mem_cons_self))⟩
  | quoted h =>
    obtain ⟨c, t, hc, hq⟩ := h.exists_cons
    exact ⟨c, t, hc, .inl hq⟩

/-- A key without other characters is spelled bare. -/
theorem keySpelled_bare {key : String} (nonempty : key.toList ≠ [])
    (chars : key.toList.all isBareKeyChar) : KeySpelled key key.toList :=
  .bare nonempty (List.all_eq_true.1 chars)

/-- **A key is read back.** -/
theorem KeySpelled.read (h : KeySpelled key text) (hr : NotFirst isBareKeyChar rest) :
    readKey (text ++ rest) = some (key.toList, rest) := by
  cases h with
  | bare nonempty chars =>
    obtain ⟨c, s, hc⟩ := List.exists_cons_of_ne_nil nonempty
    obtain ⟨hq, hq', -⟩ := ne_quote_of_isBareKeyChar (chars c (hc ▸ List.mem_cons_self))
    have hbare : readKey (key.toList ++ rest) = readBareKey (key.toList ++ rest) := by
      rw [hc, List.cons_append]
      unfold readKey
      simp [hq, hq']
    rw [hbare, readBareKey, takeWhile_append_self chars hr, dropWhile_append_self chars hr]
    split
    · next h => exact absurd h nonempty
    · rfl
  | quoted h =>
    rw [← h.readLine]
    obtain ⟨c, t, rfl, rfl | rfl⟩ := h.exists_cons
    · rfl
    · rfl

/-- The two characters that can stand behind a key path. -/
def EndsPath (c : Char) : Prop := c = '=' ∨ c = ']'

theorem readPath_skipBlanks (s : List Char) : readPath (skipBlanks s) = readPath s := by
  conv => lhs; rw [readPath]
  conv => rhs; rw [readPath]
  rw [skipBlanks_skipBlanks]

/-- A key is read back behind blanks, and with blanks behind it. -/
theorem KeySpelled.read_blanks {before after : List Char} {c : Char} (h : KeySpelled key text)
    (hb : IsBlankText before) (ha : IsBlankText after) (hc : isBareKeyChar c = false) :
    readKey (skipBlanks (before ++ text ++ after ++ c :: rest)) =
      some (key.toList, after ++ c :: rest) := by
  have hend : NotFirst isBareKeyChar (after ++ c :: rest) :=
    notFirst_append (fun d hd => isBareKeyChar_of_isBlank (ha d hd)) (notFirst_cons hc)
  obtain ⟨d, s, rfl, hd⟩ := h.exists_cons
  rw [List.append_assoc, List.append_assoc, List.cons_append,
    skipBlanks_append_cons hb hd.isBlank_eq_false, ← List.cons_append, h.read hend]

theorem readPath_last {before after : List Char} {c : Char} (hb : IsBlankText before)
    (h : KeySpelled key text) (ha : IsBlankText after) (hc : EndsPath c) :
    readPath (before ++ text ++ after ++ c :: rest) = some ([key], c :: rest) := by
  obtain ⟨hbare, hblank, hdot⟩ : isBareKeyChar c = false ∧ isBlank c = false ∧ c ≠ '.' := by
    rcases hc with rfl | rfl <;> decide
  have hrest : skipBlanks (after ++ c :: rest) = c :: rest := skipBlanks_append_cons ha hblank
  have hkey : readKey (skipBlanks (before ++ text ++ after ++ c :: rest)) =
      some (key.toList, after ++ c :: rest) := h.read_blanks hb ha hbare
  rw [readPath]
  split
  · next heq => cases hkey.symm.trans heq
  · next heq =>
    obtain ⟨rfl, rfl⟩ := Prod.mk.inj (Option.some.inj (hkey.symm.trans heq))
    split
    · next heq' => exact absurd (List.cons.inj (hrest.symm.trans heq')).1 hdot
    · rw [hrest, String.ofList_toList]

theorem readPath_cons {before after more : List Char} (hb : IsBlankText before)
    (h : KeySpelled key text) (ha : IsBlankText after) (hm : readPath more = some (keys, rest)) :
    readPath (before ++ text ++ after ++ '.' :: more) = some (key :: keys, rest) := by
  have hrest : skipBlanks (after ++ '.' :: more) = '.' :: more := skipBlanks_append_cons ha rfl
  have hkey : readKey (skipBlanks (before ++ text ++ after ++ '.' :: more)) =
      some (key.toList, after ++ '.' :: more) := h.read_blanks hb ha rfl
  rw [readPath]
  split
  · next heq => cases hkey.symm.trans heq
  · next heq =>
    obtain ⟨rfl, rfl⟩ := Prod.mk.inj (Option.some.inj (hkey.symm.trans heq))
    split
    · next heq' =>
      obtain rfl := (List.cons.inj (hrest.symm.trans heq')).2
      rw [hm, String.ofList_toList]
    · next hno => exact absurd hrest (hno more)

/-- A key path starts with a key, behind blanks. -/
theorem PathSpelled.exists_key (h : PathSpelled KeySpelled keys text) (rest : List Char) :
    ∃ before key word more, IsBlankText before ∧ KeySpelled key word ∧
      text ++ rest = before ++ (word ++ more) := by
  cases h with
  | last hb h ha =>
    rw [List.append_assoc, List.append_assoc]
    exact ⟨_, _, _, _, hb, h, rfl⟩
  | cons hb h ha hm =>
    rw [List.append_assoc, List.append_assoc, List.append_assoc]
    exact ⟨_, _, _, _, hb, h, rfl⟩

theorem PathSpelled.readPath_eq {c : Char} (h : PathSpelled KeySpelled keys text)
    (hc : EndsPath c) :
    readPath (text ++ c :: rest) = some (keys, c :: rest) := by
  induction h with
  | last hb h ha => exact readPath_last hb h ha hc
  | cons hb h ha hm ih =>
    rw [List.append_assoc, List.cons_append]
    exact readPath_cons hb h ha ih

/-- **A key path is read back** if it has fewer keys than the limit, and nothing is read if it
has not. -/
theorem PathSpelled.read_eq {c : Char} (h : PathSpelled KeySpelled keys text) (hc : EndsPath c) :
    keyPath.read (text ++ c :: rest) =
      if keys.length < keyLimit then some (keys, c :: rest) else none := by
  simp only [keyPath, h.readPath_eq hc]

/-! ### Scalars -/

/-- The characters that can stand behind a term, behind blanks. -/
def EndsTermChar (c : Char) : Prop :=
  c = ',' ∨ c = ']' ∨ c = '\x7d' ∨ c = '\n' ∨ c = '#'

/-- What can stand behind a term. -/
inductive EndsTerm : List Char → Prop
  | char {blanks : List Char} {c : Char} {rest : List Char} (hb : IsBlankText blanks)
      (hc : EndsTermChar c) : EndsTerm (blanks ++ c :: rest)
  | nothing {blanks : List Char} (hb : IsBlankText blanks) : EndsTerm blanks

instance (c : Char) : Decidable (EndsTermChar c) := inferInstanceAs (Decidable (_ ∨ _))

theorem EndsTermChar.endsTerm {c : Char} (h : EndsTermChar c) : EndsTerm (c :: rest) :=
  .char isBlankText_nil h

/-- A property that neither blanks have nor the characters behind them. -/
theorem EndsTerm.notFirst {p : Char → Bool} (h : EndsTerm rest)
    (hp : [' ', '\t', ',', ']', '\x7d', '\n', '#'].any p = false) : NotFirst p rest := by
  have hnot : ∀ c ∈ [' ', '\t', ',', ']', '\x7d', '\n', '#'], p c = false :=
    fun c hc => Bool.eq_false_iff.2 (List.any_eq_false.1 hp c hc)
  have hblank : ∀ c, isBlank c = true → p c = false := fun c hc => by
    rcases isBlank_iff.1 hc with rfl | rfl <;> exact hnot _ (by decide)
  cases h with
  | char hb hc =>
    refine notFirst_append (fun d hd => hblank d (hb d hd)) (notFirst_cons ?_)
    rcases hc with rfl | rfl | rfl | rfl | rfl <;> exact hnot _ (by decide)
  | nothing hb => exact fun d s hd => hblank d (hb d (hd ▸ List.mem_cons_self))

/-- Neither kind of quote stands behind a term. -/
theorem EndsTerm.notFirst_quote {quote : Char} (h : EndsTerm rest)
    (hq : quote = '"' ∨ quote = '\'') : NotFirst (· == quote) rest := by
  rcases hq with rfl | rfl
  · exact h.notFirst rfl
  · exact h.notFirst rfl

/-- Behind the first blank behind a term stands no digit, so a date is not taken for the start
of a longer lexeme. -/
theorem EndsTerm.not_digit {d : Char} {s : List Char} (h : EndsTerm (' ' :: d :: s)) :
    d.isDigit = false := by
  -- Without its first blank the text still ends a term.
  have htail : EndsTerm (d :: s) := by
    generalize he : ' ' :: d :: s = text at h
    cases h with
    | @char blanks c rest hb hc =>
      cases blanks with
      | nil =>
        obtain rfl := (List.cons.inj he).1
        exact absurd hc (by decide)
      | cons b blanks =>
        rw [(List.cons.inj he).2]
        exact .char (fun x hx => hb x (List.mem_cons_of_mem _ hx)) hc
    | nothing hb => exact .nothing fun x hx => hb x (he ▸ List.mem_cons_of_mem _ hx)
  exact htail.notFirst rfl d s rfl

theorem cutLexeme_append_self (chars : ∀ c ∈ text, isLexemeChar c = true) (hr : EndsTerm rest) :
    cutLexeme (text ++ rest) = (text, rest) := by
  have hend : NotFirst isLexemeChar rest := hr.notFirst rfl
  rw [cutLexeme, takeWhile_append_self chars hend, dropWhile_append_self chars hend]
  split
  · next d s => rw [hr.not_digit, Bool.false_and, if_neg (by simp)]
  · rfl

/-- Brackets, braces and quotes are no part of a lexeme. -/
theorem ne_of_isLexemeChar {c : Char} (h : isLexemeChar c = true) :
    c ≠ '"' ∧ c ≠ '\'' ∧ c ≠ '[' ∧ c ≠ '\x7b' :=
  ⟨ne_of_holds h rfl, ne_of_holds h rfl, ne_of_holds h rfl, ne_of_holds h rfl⟩

/-- The characters with which a scalar can start. -/
def StartsScalar (c : Char) : Prop := (c = '"' ∨ c = '\'') ∨ isLexemeChar c = true

/-- What starts with a quote is read as a string. -/
theorem readScalar_of_quote {c : Char} {t : List Char} (h : c = '"' ∨ c = '\'') :
    readScalar (c :: t) =
      (Quotation.read (c :: t)).map fun read => (.string (String.ofList read.1), read.2) := by
  rcases h with rfl | rfl
  · rfl
  · rfl

/-- **A quoted string is read as the scalar that it is.** -/
theorem Quotation.Quotes.readScalar {s : List Char} (h : Quotes s text) (hr : EndsTerm rest) :
    readScalar (text ++ rest) = some (.string (String.ofList s), rest) := by
  have hread := h.read (hr.notFirst_quote (.inl rfl)) (hr.notFirst_quote (.inr rfl))
  obtain ⟨c, t, rfl, hc⟩ := h.exists_cons
  rw [List.cons_append] at hread ⊢
  rw [readScalar_of_quote hc, hread]
  rfl

/-- **What starts as a lexeme and is cut off as one** is read as what the lexeme stands for. -/
theorem readScalar_of_cutLexeme {c : Char} {t : List Char} (hc : isLexemeChar c = true)
    (hcut : cutLexeme (c :: t ++ rest) = (c :: t, rest)) :
    readScalar (c :: t ++ rest) = (scalarOf? (c :: t)).map (·, rest) := by
  obtain ⟨hq, hq', -⟩ := ne_of_isLexemeChar hc
  unfold readScalar
  rw [hcut]
  split
  · next heq => exact absurd (List.cons.inj heq).1 hq
  · next heq => exact absurd (List.cons.inj heq).1 hq'
  · rfl

namespace Scalar.Spelled

variable {s : Scalar}

theorem exists_cons (h : s.Spelled text) : ∃ c t, text = c :: t ∧ StartsScalar c := by
  cases h with
  | string h =>
    obtain ⟨c, t, hc, hq⟩ := h.exists_cons
    exact ⟨c, t, hc, .inl hq⟩
  | lexeme chars h =>
    cases text with
    | nil => cases h
    | cons c t => exact ⟨c, t, rfl, .inr (chars c List.mem_cons_self)⟩

/-- **A scalar is read back.** -/
theorem read (h : s.Spelled text) (hr : EndsTerm rest) :
    readScalar (text ++ rest) = some (s, rest) := by
  cases h with
  | string h => rw [h.readScalar hr, String.ofList_toList]
  | lexeme chars h =>
    cases text with
    | nil => cases h
    | cons c t =>
      rw [readScalar_of_cutLexeme (chars c List.mem_cons_self) (cutLexeme_append_self chars hr), h]
      rfl

theorem not_mem (h : s.Spelled text) : '\r' ∉ text := by
  cases h with
  | string h => exact h.not_mem
  | lexeme chars => exact fun hmem => absurd (chars _ hmem) (by decide)

end Scalar.Spelled

/-! ### What words mean -/

variable {π σ : Type}

/-- **What the words of a document mean**: the keys of its key paths, and its scalars. A word
may look like a scalar and mean none. -/
structure Meaning (π σ : Type) where
  keys : π → List String
  scalar? : σ → Option Scalar

/-- Keys and scalars mean themselves. -/
def Meaning.itself : Meaning (List String) Scalar where
  keys := id
  scalar? := some

/-- **Words that are spelled in this way are read as what they mean.** That is asked of words, for
terms and statements over them to be read. -/
structure Words.ReadAs (W : Words π σ) (M : Meaning π σ) : Prop where
  path {path : π} {text : List Char} (h : W.path path text) :
    PathSpelled KeySpelled (M.keys path) text
  read {s : σ} {text rest : List Char} (h : W.scalar s text) (hr : EndsTerm rest) :
    readScalar (text ++ rest) = (M.scalar? s).map (·, rest)
  starts {s : σ} {text : List Char} (h : W.scalar s text) : ∃ c t, text = c :: t ∧ StartsScalar c
  noReturn {s : σ} {text : List Char} (h : W.scalar s text) : '\r' ∉ text

/-- Keys and scalars are read back however they are spelled. -/
theorem Words.readAs_any : Words.any.ReadAs .itself where
  path h := h.spelled
  read h hr := h.read hr
  starts h := h.exists_cons
  noReturn h := h.not_mem

end WorkspaceFacts.Toml
