import WorkspaceFacts.Proofs.Toml.Reading.Strings

/-!
# Strings in all their forms are read back

Between three quotes a string has more forms than on one line: quotes stand for themselves as
long as there are not three of them, and in a basic string a line can be joined to what comes
after it. Whatever the form, the reader gives the string back and stops behind the closing quotes
(`WorkspaceFacts.Toml.Quotation.Quotes.read`).

What closes such a string are the last three quotes of a run, so it matters what stands behind
them: another quote would be taken for a part of the string.
-/

namespace WorkspaceFacts.Toml

namespace Quotation

variable {s text more rest : List Char}

/-! ### Runs of quotes -/

theorem startsWithTwo_iff {quote : Char} : startsWithTwo quote s = true ↔ [quote, quote] <+: s := by
  unfold startsWithTwo
  split
  · simp only [Bool.and_eq_true, beq_iff_eq, List.cons_prefix_cons, List.nil_prefix, and_true]
    exact and_congr eq_comm eq_comm
  · next hno =>
    refine iff_of_false Bool.false_ne_true ?_
    rintro ⟨t, rfl⟩
    exact hno _ _ _ rfl

/-- Two quotes in front of a text and something behind it stand in front of the text. -/
theorem startsWithTwo_append {quote : Char} (h : ¬[quote, quote] <+: more)
    (hl : 2 ≤ more.length) : startsWithTwo quote (more ++ rest) = false := by
  rw [Bool.eq_false_iff, Ne, startsWithTwo_iff]
  exact fun hp => h (List.prefix_of_prefix_length_le hp (List.prefix_append _ _) hl)

/-- The last three quotes of a run close the string. -/
theorem closing_replicate {quote : Char} {k : Nat} (hk : k ≤ 2)
    (hr : NotFirst (· == quote) rest) :
    closing quote (.replicate k quote ++ rest) = (.replicate k quote, rest) := by
  match k, hk with
  | 0, _ => exact closing_eq hr
  | 1, _ =>
    cases rest with
    | nil => simp [closing]
    | cons c rest =>
      have hc : c ≠ quote := by simpa using hr _ _ rfl
      simp [closing, hc]
  | 2, _ => simp [closing, List.replicate]

/-! ### Basic strings -/

theorem basic_close_run {k : Nat} (hk : k ≤ 2) (hr : NotFirst (· == '"') rest) :
    basic true .plain (.replicate (k + 3) '"' ++ rest) = some (.replicate k '"', rest) := by
  have hclose := closing_replicate hk hr
  simp [List.replicate_succ, basic, startsWithTwo, hclose]

theorem basic_quote (h : startsWithTwo '"' rest = false) :
    basic true .plain ('"' :: rest) = push '"' (basic true .plain rest) := by
  have htext : isTextChar true '"' = true := rfl
  simp [basic, h, htext]

/-- Behind a backslash at the end of a line blanks are left out up to the line end. -/
theorem basic_opened {blanks : List Char} (hb : IsBlankText blanks) (rest : List Char) :
    basic true .opened (blanks ++ '\n' :: rest) = basic true .closed rest := by
  induction blanks with
  | nil => simp [basic, isBlank]
  | cons c blanks ih =>
    have hc : isBlank c = true := hb c List.mem_cons_self
    rw [List.cons_append, basic, if_pos hc]
    exact ih fun d hd => hb d (List.mem_cons_of_mem _ hd)

/-- From that line end on everything is left out up to the first character that shows. -/
theorem basic_closed {spaces : List Char} (hs : ∀ c ∈ spaces, isSpace c)
    (hn : NotFirst isSpace rest) :
    basic true .closed (spaces ++ rest) = basic true .plain rest := by
  induction spaces with
  | nil =>
    cases rest with
    | nil => rfl
    | cons c rest => simp [basic, hn c rest rfl]
  | cons c spaces ih =>
    have hc : isSpace c = true := hs c List.mem_cons_self
    have hstep : basic true .closed (c :: (spaces ++ rest)) =
        basic true .closed (spaces ++ rest) := by simp [basic, hc]
    rw [List.cons_append, hstep]
    exact ih fun d hd => hs d (List.mem_cons_of_mem _ hd)

theorem basic_joined {blanks spaces : List Char} (hb : IsBlankText blanks)
    (hs : ∀ c ∈ spaces, isSpace c) (hn : NotFirst isSpace rest) :
    basic true .plain ('\\' :: (blanks ++ '\n' :: (spaces ++ rest))) =
      basic true .plain rest := by
  have hstart : ∀ t, basic true .plain ('\\' :: t) = basic true .escape t := fun t => by
    simp [basic]
  rw [hstart, ← basic_closed hs hn]
  cases blanks with
  | nil => simp [basic]
  | cons c blanks =>
    have hopen : basic true .escape (c :: (blanks ++ '\n' :: (spaces ++ rest))) =
        basic true .opened (blanks ++ '\n' :: (spaces ++ rest)) := by
      have hc : isBlank c = true := hb c List.mem_cons_self
      rcases (by simpa [isBlank] using hc : c = ' ' ∨ c = '\t') with rfl | rfl
      · simp [basic, isBlank]
      · simp [basic, isBlank]
    rw [List.cons_append, hopen]
    exact basic_opened (fun d hd => hb d (List.mem_cons_of_mem _ hd)) _

/-- No text is shorter than the closing quotes. -/
theorem BasicLines.length_le (h : BasicLines s text) : 3 ≤ text.length := by
  induction h with
  | close => simp
  | char _ _ ih => rw [List.length_append]; omega
  | quote _ _ ih => rw [List.length_cons]; omega
  | joined _ _ _ _ ih =>
    simp only [List.length_cons, List.length_append]
    omega

theorem BasicLines.read (h : BasicLines s text) (hr : NotFirst (· == '"') rest) :
    Quotation.basic true .plain (text ++ rest) = some (s, rest) := by
  induction h with
  | close hk => exact basic_close_run hk hr
  | char h _ ih =>
    rw [List.append_assoc, h.basic, ih]
    rfl
  | quote hq hm ih =>
    have htwo : startsWithTwo '"' (_ ++ rest) = false :=
      startsWithTwo_append hq (Nat.le_of_succ_le hm.length_le)
    rw [List.cons_append, basic_quote htwo, ih]
    rfl
  | @joined s blanks spaces more hb hs hn hm ih =>
    have hrest : NotFirst isSpace (more ++ rest) := by
      obtain ⟨c, t, rfl⟩ := List.exists_cons_of_length_pos
        (Nat.lt_of_lt_of_le (by decide) hm.length_le)
      exact notFirst_cons (hn c t rfl)
    rw [List.cons_append, List.append_assoc, List.cons_append, List.append_assoc,
      basic_joined hb hs hrest, ih]

/-! ### Literal strings -/

theorem literal_close_run {k : Nat} (hk : k ≤ 2) (hr : NotFirst (· == '\'') rest) :
    literal true (.replicate (k + 3) '\'' ++ rest) = some (.replicate k '\'', rest) := by
  have hclose := closing_replicate hk hr
  simp [List.replicate_succ, literal, startsWithTwo, hclose]

theorem literal_quote (h : startsWithTwo '\'' rest = false) :
    literal true ('\'' :: rest) = push '\'' (literal true rest) := by
  have htext : isTextChar true '\'' = true := rfl
  simp [literal, h, htext]

theorem LiteralLines.length_le (h : LiteralLines s text) : 3 ≤ text.length := by
  induction h with
  | close => simp
  | char _ _ _ ih => rw [List.length_cons]; omega
  | quote _ _ ih => rw [List.length_cons]; omega

theorem LiteralLines.read (h : LiteralLines s text) (hr : NotFirst (· == '\'') rest) :
    literal true (text ++ rest) = some (s, rest) := by
  induction h with
  | close hk => exact literal_close_run hk hr
  | char h hq _ ih => simp [literal, hq, isTextChar_iff.2 h, ih, push]
  | quote hq hm ih =>
    have htwo : startsWithTwo '\'' (_ ++ rest) = false :=
      startsWithTwo_append hq (Nat.le_of_succ_le hm.length_le)
    rw [List.cons_append, literal_quote htwo, ih]
    rfl

/-! ### All four forms -/

theorem dropLineEnd_of_notFirst (h : NotFirst (· == '\n') text) : dropLineEnd text = text := by
  unfold dropLineEnd
  split
  · next t => exact absurd (h _ _ rfl) (by decide)
  · rfl

/-- A text that is not empty shows with its first character whether it starts with a line
end. -/
theorem dropLineEnd_append (h : NotFirst (· == '\n') text) (hl : 3 ≤ text.length) :
    dropLineEnd (text ++ rest) = text ++ rest := by
  obtain ⟨c, t, rfl⟩ := List.exists_cons_of_length_pos (Nat.lt_of_lt_of_le (by decide) hl)
  exact dropLineEnd_of_notFirst (notFirst_cons (h c t rfl))

/-- **A quoted string is read back.** -/
theorem Quotes.read (h : Quotes s text) (hq : NotFirst (· == '"') rest)
    (hq' : NotFirst (· == '\'') rest) : read (text ++ rest) = some (s, rest) := by
  cases h with
  | line h => exact h.read hq hq'
  | @basic text h hn =>
    show Quotation.basic true .plain (dropLineEnd (text ++ rest)) = _
    rw [dropLineEnd_append hn h.length_le, h.read hq]
  | @basicBelow text h =>
    show Quotation.basic true .plain (text ++ rest) = _
    exact h.read hq
  | @literal text h hn =>
    show Quotation.literal true (dropLineEnd (text ++ rest)) = _
    rw [dropLineEnd_append hn h.length_le, h.read hq']
  | @literalBelow text h =>
    show Quotation.literal true (text ++ rest) = _
    exact h.read hq'

theorem Quotes.exists_cons (h : Quotes s text) :
    ∃ c t, text = c :: t ∧ (c = '"' ∨ c = '\'') := by
  cases h with
  | line h => exact h.exists_cons
  | basic => exact ⟨_, _, rfl, .inl rfl⟩
  | basicBelow => exact ⟨_, _, rfl, .inl rfl⟩
  | literal => exact ⟨_, _, rfl, .inr rfl⟩
  | literalBelow => exact ⟨_, _, rfl, .inr rfl⟩

/-! ### No carriage return -/

theorem BasicLines.not_mem (h : BasicLines s text) : '\r' ∉ text := by
  induction h with
  | close => simp
  | char h _ ih => simp [h.not_mem, ih]
  | quote _ _ ih => simp [ih]
  | joined hb hs _ _ ih =>
    have hblanks : '\r' ∉ _ := fun hmem => absurd (hb _ hmem) (by decide)
    have hspaces : '\r' ∉ _ := fun hmem => absurd (hs _ hmem) (by decide)
    simp [hblanks, hspaces, ih]

theorem LiteralLines.not_mem (h : LiteralLines s text) : '\r' ∉ text := by
  induction h with
  | close => simp
  | char h _ _ ih => simp [h.ne_return.symm, ih]
  | quote _ _ ih => simp [ih]

theorem Quotes.not_mem (h : Quotes s text) : '\r' ∉ text := by
  cases h with
  | line h => exact h.not_mem
  | basic h => simp [h.not_mem]
  | basicBelow h => simp [h.not_mem]
  | literal h => simp [h.not_mem]
  | literalBelow h => simp [h.not_mem]

end Quotation

end WorkspaceFacts.Toml
