import WorkspaceFacts.Proofs.Text.Numerals
import WorkspaceFacts.Proofs.Toml.Spelled

/-!
# Strings on one line are read back

However a string is spelled on one line, its reader gives it back and stops right behind the
closing quotes (`WorkspaceFacts.Toml.Quotation.LineSpelled.readLine`). The reader of strings in
all their forms does so too if no other quotes follow, since two quotes side by side could be the
start of three (`WorkspaceFacts.Toml.Quotation.LineSpelled.read`).

Every string has such a spelling (`WorkspaceFacts.Toml.Quotation.quote`).
-/

namespace WorkspaceFacts.Toml

theorem isLineChar_iff {c : Char} : isLineChar c = true ↔ StaysOnLine c := by
  have htab : c = '\t' ↔ c.toNat = 9 := by rw [← Char.toNat_inj]; rfl
  simp only [isLineChar, StaysOnLine, IsControl, htab, Bool.or_eq_true, Bool.and_eq_true,
    beq_iff_eq, decide_eq_true_eq, bne_iff_ne]
  omega

namespace Quotation

variable {multiline : Bool} {c : Char} {s cs text rest digits : List Char}

theorem isTextChar_iff : isTextChar multiline c = true ↔ StandsForItself multiline c := by
  rw [isTextChar, Bool.or_eq_true, isLineChar_iff, Bool.and_eq_true, beq_iff_eq, StandsForItself]

/-! ### Escapes -/

theorem value?_of_isHexDigit {d : Nat} (h : IsHexDigit d c) : Digits.value? 16 c = some d := by
  have hlt : d < 16 := by
    rcases h with h | h <;> exact (List.getElem?_eq_some_iff.1 h).1
  have lower : ∀ d < 16, "0123456789abcdef".toList[d]?.bind (Digits.value? 16) = some d := by
    decide
  have upper : ∀ d < 16, "0123456789ABCDEF".toList[d]?.bind (Digits.value? 16) = some d := by
    decide
  rcases h with h | h
  · rw [← lower d hlt, h, Option.bind_some]
  · rw [← upper d hlt, h, Option.bind_some]

/-- The digits of a numeric escape, from any of them on. -/
theorem basic_hex {left value : Nat} {ds : List Nat} (h : List.Forall₂ IsHexDigit ds digits)
    (hl : digits.length = left + 1) (hv : ds.foldl (fun n d => n * 16 + d) value = c.toNat)
    (rest : List Char) :
    basic multiline (.hex left value) (digits ++ rest) =
      push c (basic multiline .plain rest) := by
  induction h generalizing left value with
  | nil => cases hl
  | @cons d x ds digits hd hds ih =>
    rw [List.length_cons, Nat.add_right_cancel_iff] at hl
    simp only [List.cons_append, basic, value?_of_isHexDigit hd]
    cases left with
    | zero =>
      obtain rfl := List.eq_nil_of_length_eq_zero hl
      cases hds
      have hvalue : value * 16 + d = c.toNat := hv
      have hvalid : (value * 16 + d).isValidChar := hvalue ▸ c.valid
      dsimp only
      rw [if_pos hvalid, hvalue, Char.ofNat_toNat, List.nil_append]
    | succ left => exact ih hl hv

/-- Every escape by a letter is read as its character. -/
theorem basic_letter {e : Char} (h : (e, c) ∈ letters) (rest : List Char) :
    basic multiline .plain ('\\' :: e :: rest) = push c (basic multiline .plain rest) := by
  simp only [letters, List.mem_cons, Prod.mk.injEq, List.not_mem_nil, or_false] at h
  rcases h with ⟨rfl, rfl⟩ | ⟨rfl, rfl⟩ | ⟨rfl, rfl⟩ | ⟨rfl, rfl⟩ | ⟨rfl, rfl⟩ | ⟨rfl, rfl⟩ |
    ⟨rfl, rfl⟩
  all_goals simp [basic, escape?, isBlank]

/-- **A character of a basic string is read back**, however it is spelled. -/
theorem CharSpelled.basic (h : CharSpelled multiline c text) (rest : List Char) :
    basic multiline .plain (text ++ rest) = push c (basic multiline .plain rest) := by
  cases h with
  | itself h hq hb => simp [Quotation.basic, hq, hb, isTextChar_iff.2 h]
  | letter h => exact basic_letter h rest
  | @four digits h hl =>
    obtain ⟨ds, hds, hv⟩ := h
    show Quotation.basic multiline (.hex 3 0) (digits ++ rest) = _
    exact basic_hex hds hl hv rest
  | @eight digits h hl =>
    obtain ⟨ds, hds, hv⟩ := h
    show Quotation.basic multiline (.hex 7 0) (digits ++ rest) = _
    exact basic_hex hds hl hv rest

/-! ### Strings of characters -/

/-- Characters in front of the end of a string are read back. -/
theorem CharsSpelled.basic {tail : List Char} (h : CharsSpelled cs text)
    (ht : basic false .plain tail = some ([], rest)) :
    basic false .plain (text ++ tail) = some (cs, rest) := by
  induction h with
  | nil => exact ht
  | cons h _ ih =>
    rw [List.append_assoc, h.basic, ih]
    rfl

/-- Between single quotes every character stands for itself. -/
theorem literal_append {tail : List Char} (h : ∀ c ∈ s, StandsForItself false c ∧ c ≠ '\'')
    (ht : literal false tail = some ([], rest)) :
    literal false (s ++ tail) = some (s, rest) := by
  induction s with
  | nil => exact ht
  | cons c s ih =>
    obtain ⟨hc, hq⟩ := h c List.mem_cons_self
    have hs := ih fun d hd => h d (List.mem_cons_of_mem _ hd)
    simp [literal, hq, isTextChar_iff.2 hc, hs, push]

/-! ### Closing quotes -/

/-- Three closing quotes are all of them if no fourth one follows. -/
theorem closing_eq {quote : Char} (h : NotFirst (· == quote) rest) :
    closing quote rest = ([], rest) := by
  unfold closing
  split
  · next d _ => rw [if_neg (by simpa using h _ _ rfl)]
  · rw [if_neg (by simpa using h _ _ rfl)]
  · rfl

theorem basic_close (rest : List Char) : basic false .plain ('"' :: rest) = some ([], rest) := by
  simp [basic]

theorem literal_close (rest : List Char) : literal false ('\'' :: rest) = some ([], rest) := by
  simp [literal]

/-! ### On one line -/

/-- A string on one line is read back. -/
theorem LineSpelled.readLine (h : LineSpelled s text) (rest : List Char) :
    readLine (text ++ rest) = some (s, rest) := by
  cases h with
  | basic h =>
    rw [List.cons_append, List.append_assoc]
    exact h.basic (basic_close rest)
  | literal h =>
    rw [List.cons_append, List.append_assoc]
    exact literal_append h (literal_close rest)

theorem LineSpelled.exists_cons (h : LineSpelled s text) :
    ∃ c t, text = c :: t ∧ (c = '"' ∨ c = '\'') := by
  cases h with
  | basic => exact ⟨_, _, rfl, .inl rfl⟩
  | literal => exact ⟨_, _, rfl, .inr rfl⟩

/-- No character is spelled with a quote in front. -/
theorem CharSpelled.ne_quote (h : CharSpelled multiline c text) (t rest : List Char) :
    text ++ rest ≠ '"' :: t := by
  intro he
  cases h with
  | itself _ hq => exact hq (List.cons.inj he).1
  | letter => cases he
  | four => cases he
  | eight => cases he

/-- A string on one line does not start with three quotes, unless a quote follows it. -/
theorem LineSpelled.read (h : LineSpelled s text) (hq : NotFirst (· == '"') rest)
    (hq' : NotFirst (· == '\'') rest) : read (text ++ rest) = some (s, rest) := by
  rw [← h.readLine]
  cases h with
  | basic h =>
    rw [List.cons_append, List.append_assoc]
    unfold Quotation.read
    split
    · next r heq =>
      have heq := (List.cons.inj heq).2
      cases h with
      | nil =>
        have hquote := hq _ _ (List.cons.inj heq).2
        simp at hquote
      | cons h _ =>
        rw [List.append_assoc] at heq
        exact absurd heq (h.ne_quote _ _)
    · next heq => cases heq
    · rfl
  | literal h =>
    rw [List.cons_append, List.append_assoc]
    unfold Quotation.read
    split
    · next heq => cases heq
    · next r heq =>
      have heq := (List.cons.inj heq).2
      cases s with
      | nil =>
        have hquote := hq' _ _ (List.cons.inj heq).2
        simp at hquote
      | cons c s =>
        exact absurd (List.cons.inj heq).1 (h c List.mem_cons_self).2
    · rfl

/-! ### No carriage return -/

theorem StandsForItself.ne_return (h : StandsForItself multiline c) : c ≠ '\r' := by
  rintro rfl
  rcases h with h | ⟨-, h⟩
  · exact absurd (h (.inl (by decide))) (by decide)
  · cases h

theorem not_mem_of_isHexDigit {ds : List Nat} (h : List.Forall₂ IsHexDigit ds digits) :
    '\r' ∉ digits := by
  induction h with
  | nil => exact List.not_mem_nil
  | cons hd _ ih =>
    rw [List.mem_cons, not_or]
    refine ⟨?_, ih⟩
    rintro rfl
    cases value?_of_isHexDigit hd

theorem CharSpelled.not_mem (h : CharSpelled multiline c text) : '\r' ∉ text := by
  cases h with
  | itself h =>
    rw [List.mem_singleton]
    exact Ne.symm h.ne_return
  | letter h =>
    simp only [letters, List.mem_cons, Prod.mk.injEq, List.not_mem_nil, or_false] at h
    rcases h with ⟨rfl, -⟩ | ⟨rfl, -⟩ | ⟨rfl, -⟩ | ⟨rfl, -⟩ | ⟨rfl, -⟩ | ⟨rfl, -⟩ | ⟨rfl, -⟩
    all_goals decide
  | four h => simp [not_mem_of_isHexDigit h.choose_spec.1]
  | eight h => simp [not_mem_of_isHexDigit h.choose_spec.1]

theorem CharsSpelled.not_mem (h : CharsSpelled cs text) : '\r' ∉ text := by
  induction h with
  | nil => exact List.not_mem_nil
  | cons h _ ih => simp [h.not_mem, ih]

theorem not_mem_of_standsForItself (h : ∀ c ∈ s, StandsForItself false c ∧ c ≠ '\'') :
    '\r' ∉ s :=
  fun hmem => (h _ hmem).1.ne_return rfl

theorem LineSpelled.not_mem (h : LineSpelled s text) : '\r' ∉ text := by
  cases h with
  | basic h => simp [h.not_mem]
  | literal h => simp [not_mem_of_standsForItself h]

/-! ### The shortest spelling -/

/-- A character with the shortest escape: by a letter or by digits, and only where it has to be. -/
def escape (c : Char) : List Char :=
  match letters.find? (·.2 == c) with
  | some (letter, _) => ['\\', letter]
  | none =>
    if isLineChar c then [c]
    else
      ['\\', 'u', '0', '0', Digits.hexDigit (c.toNat / 16), Digits.hexDigit (c.toNat % 16)]

/-- **A text as a basic string** with the shortest escapes. -/
def quote (text : String) : List Char :=
  '"' :: text.toList.flatMap escape ++ ['"']

theorem isHexDigit_hexDigit : ∀ d < 16, IsHexDigit d (Digits.hexDigit d) := by decide

/-- The shortest escape of a character is one of its spellings. -/
theorem charSpelled_escape (c : Char) : CharSpelled false c (escape c) := by
  unfold escape
  split
  · next letter d h =>
    have hmem : (letter, d) ∈ letters := List.mem_of_find?_eq_some h
    obtain rfl : d = c := by simpa using List.find?_some h
    exact .letter hmem
  · next h =>
    have hne : ∀ entry ∈ letters, entry.2 ≠ c := by simpa using h
    split
    · next hl =>
      exact .itself (.inl (isLineChar_iff.1 hl)) (hne ('"', '"') (by decide)).symm
        (hne ('\\', '\\') (by decide)).symm
    · next hl =>
      -- A control character is below 128, so the two digits have room for it.
      have hlt : c.toNat < 128 := by
        simp [isLineChar] at hl
        omega
      refine .four ⟨[0, 0, c.toNat / 16, c.toNat % 16], ?_, ?_⟩ rfl
      · exact .cons (.inl rfl) (.cons (.inl rfl) (.cons (isHexDigit_hexDigit _ (by omega))
          (.cons (isHexDigit_hexDigit _ (by omega)) .nil)))
      · simp only [Digits.toNat, List.foldl_cons, List.foldl_nil]
        omega

/-- Every string can be spelled on one line. -/
theorem lineSpelled_quote (s : String) : LineSpelled s.toList (quote s) := by
  rw [quote, List.cons_append]
  refine .basic ?_
  induction s.toList with
  | nil => exact .nil
  | cons c cs ih => exact .cons (charSpelled_escape c) ih

end Quotation

end WorkspaceFacts.Toml
