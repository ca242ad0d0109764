import WorkspaceFacts.Proofs.Json.Grammar
import WorkspaceFacts.Proofs.Text.Encoding
import WorkspaceFacts.Proofs.Text.Numerals

/-!
# Strings and words of JSON are read

A reader takes something from the front of a text and gives back what is behind it. Code
units, characters and strings carry their own end, so their readers take exactly what the
grammar writes, whatever is behind (`WorkspaceFacts.Json.Reads`). A number or the name of a
constant ends where its characters end, and there the text behind it has to be told apart.
-/

namespace WorkspaceFacts.Json

/-- **The reader takes exactly what is written** from the front of a text. -/
def Reads {α : Type} (read : List Char → Option (α × List Char)) (Written : α → List Char → Prop) :
    Prop :=
  ∀ s a rest, read s = some (a, rest) ↔ ∃ text, s = text ++ rest ∧ Written a text

variable {c : Char} {s text rest : List Char}

section Reads

variable {α : Type} {a : α} {read : List Char → Option (α × List Char)}
  {Written : α → List Char → Prop}

theorem Reads.exists_text (h : Reads read Written) (hr : read s = some (a, rest)) :
    ∃ text, s = text ++ rest ∧ Written a text := (h s a rest).1 hr

theorem Reads.append (h : Reads read Written) (hw : Written a text) :
    read (text ++ rest) = some (a, rest) := (h _ a rest).2 ⟨text, rfl, hw⟩

end Reads

/-! ### Code units -/

/-- Each of the characters is a hexadecimal digit. -/
theorem digits_of_mapM {digits : List Nat} (h : text.mapM (Digits.value? 16) = some digits) :
    digits.length = text.length ∧ ∀ d ∈ digits, d < 16 := by
  induction text generalizing digits with
  | nil =>
    obtain rfl : [] = digits := by simpa using h
    exact ⟨rfl, nofun⟩
  | cons c text ih =>
    obtain ⟨d, hd, ds, hds, rfl⟩ : ∃ d, Digits.value? 16 c = some d ∧
        ∃ ds, text.mapM (Digits.value? 16) = some ds ∧ d :: ds = digits := by
      simpa [List.mapM_cons, Option.bind_eq_some_iff] using h
    obtain ⟨hlen, hlt⟩ := ih hds
    exact ⟨congrArg (· + 1) hlen, List.forall_mem_cons.2 ⟨Digits.lt_of_value? hd, hlt⟩⟩

/-- Four digits write sixteen bits. -/
theorem UnitWritten.lt {unit : Nat} (h : UnitWritten unit text) : unit < 0x10000 := by
  obtain ⟨digits, hd, rfl⟩ := Option.map_eq_some_iff.1 h.digits
  obtain ⟨hlen, hlt⟩ := digits_of_mapM hd
  have := Digits.toNat_lt hlt
  rwa [hlen, h.length] at this

/-- The reader of a code unit. -/
def readUnit (s : List Char) : Option (Nat × List Char) :=
  if 4 ≤ s.length then (unit? (s.take 4)).map (·, s.drop 4) else none

theorem reads_readUnit : Reads readUnit UnitWritten := by
  intro s unit rest
  constructor
  · intro h
    rw [readUnit] at h
    split at h
    · next hlen =>
      obtain ⟨u, hu, he⟩ := Option.map_eq_some_iff.1 h
      obtain ⟨rfl, rfl⟩ := Prod.mk.inj he
      exact ⟨s.take 4, (List.take_append_drop 4 s).symm, by simpa using hlen, hu⟩
    · cases h
  · rintro ⟨text, rfl, hlen, hu⟩
    rw [readUnit, if_pos (by rw [List.length_append]; omega), List.take_left' hlen,
      List.drop_left' hlen, hu]
    rfl

/-! ### Halves of characters -/

/-- No character is one half of a surrogate pair. -/
theorem not_isHalf (c : Char) : isHighHalf c.toNat = false ∧ isLowHalf c.toNat = false := by
  have hc : c.toNat < 0xD800 ∨ 0xDFFF < c.toNat ∧ c.toNat < 0x110000 := c.valid
  simp only [isHighHalf, isLowHalf, Bool.and_eq_false_iff, decide_eq_false_iff_not]
  omega

/-- A code unit that is no half is the number of a character. -/
theorem isValidChar_of_not_half {unit : Nat} (h : unit < 0x10000) (hh : isHighHalf unit = false)
    (hl : isLowHalf unit = false) : unit.isValidChar := by
  simp only [isHighHalf, isLowHalf, Bool.and_eq_false_iff, decide_eq_false_iff_not] at hh hl
  rw [Utf8.isValidChar_iff]
  omega

/-- Two halves are the number of a character beyond those that one unit has room for. -/
theorem isValidChar_ofHalves {high low : Nat} (hh : isHighHalf high) (hl : isLowHalf low) :
    (ofHalves high low).isValidChar := by
  simp only [isHighHalf, isLowHalf, Bool.and_eq_true, decide_eq_true_eq] at hh hl
  have h : 0x10000 ≤ ofHalves high low ∧ ofHalves high low < 0x110000 := by
    rw [ofHalves]
    omega
  exact Utf8.isValidChar_iff.2 (by omega)

/-! ### Characters -/

/-- The reader of a character that is given by its code units, behind `\u`. -/
def readEncoded (s : List Char) : Option (Char × List Char) :=
  (readUnit s).bind fun (unit, s) =>
  if isHighHalf unit then
    match s with
    | '\\' :: 'u' :: s => (readUnit s).bind fun (low, s) =>
      if isLowHalf low then some (Char.ofNat (ofHalves unit low), s) else none
    | _ => none
  else if isLowHalf unit then none
  else some (Char.ofNat unit, s)

/-- The reader of a character inside a string. -/
def readChar : List Char → Option (Char × List Char)
  | '\\' :: 'u' :: s => readEncoded s
  | '\\' :: e :: s => (shortEscape? e).map (·, s)
  | c :: s => if isUnescaped c then some (c, s) else none
  | [] => none

/-- A character that is given by its code units is read behind `\u`: from one unit, or from
the two halves. -/
theorem readEncoded_eq_some (h : readEncoded s = some (c, rest)) :
    ∃ text, s = text ++ rest ∧ CharWritten c ('\\' :: 'u' :: text) := by
  rw [readEncoded, Option.bind_eq_some_iff] at h
  obtain ⟨⟨unit, s₁⟩, hu, h⟩ := h
  obtain ⟨first, rfl, hfirst⟩ := reads_readUnit.exists_text hu
  dsimp only at h
  split at h
  · next hh =>
    split at h
    · next s₂ =>
      obtain ⟨⟨low, s₃⟩, hv, hc⟩ := Option.bind_eq_some_iff.1 h
      obtain ⟨second, rfl, hsecond⟩ := reads_readUnit.exists_text hv
      split at hc
      · next hl =>
        obtain ⟨rfl, rfl⟩ := Prod.mk.inj (Option.some.inj hc)
        refine ⟨first ++ '\\' :: 'u' :: second, by simp, ?_⟩
        exact .pair hh hl hfirst hsecond (Utf8.val_ofNat (isValidChar_ofHalves hh hl)).symm
      · cases hc
    · cases h
  · next hh =>
    split at h
    · cases h
    · next hl =>
      obtain ⟨rfl, rfl⟩ := Prod.mk.inj (Option.some.inj h)
      have hv := isValidChar_of_not_half hfirst.lt (by simpa using hh) (by simpa using hl)
      refine ⟨first, rfl, .unit ?_⟩
      rwa [show (Char.ofNat unit).toNat = unit from Utf8.val_ofNat hv]

/-- One code unit is enough for a character that has the number of it. -/
theorem readEncoded_unit (h : UnitWritten c.toNat text) :
    readEncoded (text ++ rest) = some (c, rest) := by
  rw [readEncoded, reads_readUnit.append h]
  simp [not_isHalf c]

theorem readEncoded_pair {high low : Nat} {first second : List Char} (hh : isHighHalf high)
    (hl : isLowHalf low) (h₁ : UnitWritten high first) (h₂ : UnitWritten low second) :
    readEncoded (first ++ '\\' :: 'u' :: (second ++ rest)) =
      some (Char.ofNat (ofHalves high low), rest) := by
  rw [readEncoded, reads_readUnit.append h₁]
  simp [hh, hl, reads_readUnit.append h₂]

/-- **A character inside a string is read** exactly as it is written. -/
theorem reads_readChar : Reads readChar CharWritten := by
  intro s c rest
  constructor
  · intro h
    rw [readChar.eq_def] at h
    split at h
    · next s =>
      obtain ⟨text, rfl, hc⟩ := readEncoded_eq_some h
      exact ⟨_, rfl, hc⟩
    · next e s _ =>
      obtain ⟨d, hd, he⟩ := Option.map_eq_some_iff.1 h
      obtain ⟨rfl, rfl⟩ := Prod.mk.inj he
      exact ⟨_, rfl, .short hd⟩
    · next d s _ _ =>
      split at h
      · next hd =>
        obtain ⟨rfl, rfl⟩ := Prod.mk.inj (Option.some.inj h)
        exact ⟨_, rfl, .unescaped hd⟩
      · cases h
    · cases h
  · rintro ⟨text, rfl, hc⟩
    rcases hc with hd | hd | hd | ⟨hh, hl, h₁, h₂, h⟩
    · have hne : c ≠ '\\' := by
        rintro rfl
        cases hd
      simp [readChar, hd, hne]
    · next e =>
      have hne : e ≠ 'u' := by
        rintro rfl
        cases hd
      simp [readChar, hd]
    · exact readEncoded_unit hd
    · rw [← Char.ofNat_toNat c, ← h, List.cons_append, List.cons_append, List.append_assoc]
      exact readEncoded_pair hh hl h₁ h₂

/-- A character is written by something, and not by a quote. -/
theorem CharWritten.exists_cons (h : CharWritten c text) :
    ∃ d more, text = d :: more ∧ d ≠ '"' := by
  rcases h with h | h | h | ⟨hh, hl, h₁, h₂, h⟩
  · refine ⟨c, [], rfl, ?_⟩
    rintro rfl
    cases h
  all_goals exact ⟨'\\', _, rfl, by decide⟩

/-! ### Strings -/

/-- The reader of the characters of a string and its closing quote, as many as there is room
for. -/
def readChars : Nat → List Char → Option (List Char × List Char)
  | 0, _ => none
  | room + 1, s =>
    match s with
    | '"' :: rest => some ([], rest)
    | s => (readChar s).bind fun (c, s) =>
      (readChars room s).map fun (cs, rest) => (c :: cs, rest)

/-- A character takes one of the room, however long it is written. -/
theorem readChars_append {room : Nat} (h : CharWritten c text) :
    readChars (room + 1) (text ++ rest) =
      (readChars room rest).map fun (cs, rest) => (c :: cs, rest) := by
  obtain ⟨d, more, rfl, hd⟩ := h.exists_cons
  have hread : readChar (d :: more ++ rest) = some (c, rest) := reads_readChar.append h
  rw [List.cons_append] at hread ⊢
  rw [readChars]
  · rw [hread]
    rfl
  · simpa using hd

/-- The first quote that is no part of a character closes the string. -/
theorem readChars_eq_some {room : Nat} {cs : List Char} (h : readChars room s = some (cs, rest)) :
    ∃ inner, s = inner ++ '"' :: rest ∧ CharsWritten cs inner := by
  induction room generalizing s cs with
  | zero => cases h
  | succ room ih =>
    rw [readChars.eq_def] at h
    dsimp only at h
    split at h
    · obtain ⟨rfl, rfl⟩ := Prod.mk.inj (Option.some.inj h)
      exact ⟨[], rfl, .nil⟩
    · obtain ⟨⟨c, s₁⟩, hc, h⟩ := Option.bind_eq_some_iff.1 h
      obtain ⟨⟨more, s₂⟩, hm, he⟩ := Option.map_eq_some_iff.1 h
      obtain ⟨rfl, rfl⟩ := Prod.mk.inj he
      obtain ⟨text, rfl, hw⟩ := reads_readChar.exists_text hc
      obtain ⟨inner, rfl, hinner⟩ := ih hm
      exact ⟨text ++ inner, by rw [List.append_assoc], .cons hw hinner⟩

/-- The length of the text is room enough, since every character is written by something. -/
theorem CharsWritten.readChars {cs : List Char} {room : Nat} (h : CharsWritten cs text)
    (hroom : text.length < room) : readChars room (text ++ '"' :: rest) = some (cs, rest) := by
  induction h generalizing room with
  | nil =>
    obtain ⟨room, rfl⟩ := Nat.exists_eq_add_of_lt hroom
    rfl
  | @cons c cs text more hc _ ih =>
    obtain ⟨d, tail, rfl, -⟩ := hc.exists_cons
    obtain ⟨room, rfl⟩ := Nat.exists_eq_add_of_lt hroom
    rw [List.append_assoc, readChars_append hc, ih (by simp; omega)]
    rfl

/-- The reader of a string. -/
def readString : List Char → Option (String × List Char)
  | '"' :: s => (readChars s.length s).map fun (cs, rest) => (String.ofList cs, rest)
  | _ => none

/-- **A string is read** exactly as it is written. -/
theorem reads_readString : Reads readString StringWritten := by
  intro s value rest
  constructor
  · intro h
    rw [readString.eq_def] at h
    split at h
    · obtain ⟨⟨cs, rest'⟩, hr, he⟩ := Option.map_eq_some_iff.1 h
      obtain ⟨rfl, rfl⟩ := Prod.mk.inj he
      obtain ⟨inner, rfl, hinner⟩ := readChars_eq_some hr
      refine ⟨'"' :: (inner ++ ['"']), by simp, inner, ?_, rfl⟩
      rwa [String.toList_ofList]
    · cases h
  · rintro ⟨text, rfl, inner, hinner, rfl⟩
    have hs : '"' :: (inner ++ ['"']) ++ rest = '"' :: (inner ++ '"' :: rest) := by simp
    rw [hs, readString, hinner.readChars (by simp)]
    simp

theorem StringWritten.exists_cons {value : String} (h : StringWritten value text) :
    ∃ more, text = '"' :: more := by
  obtain ⟨inner, -, rfl⟩ := h
  exact ⟨_, rfl⟩

/-! ### Numbers and constants -/

section Forms

open RegularExpression

/-- Whether all the characters of a form have a property. -/
def Over (p : Char → Bool) : RegularExpression Char → Bool
  | zero | epsilon => true
  | char c => p c
  | plus form other | comp form other => Over p form && Over p other
  | RegularExpression.star form => Over p form

/-- A text that matches a form over some characters is made of them. -/
theorem Over.forall_mem {p : Char → Bool} {form : RegularExpression Char} (h : Over p form)
    (ht : text ∈ form.matches') : ∀ c ∈ text, p c := by
  induction form generalizing text with
  | zero => cases ht
  | epsilon =>
    obtain rfl : text = [] := ht
    exact nofun
  | char c =>
    obtain rfl : text = [c] := ht
    simpa [Over] using h
  | plus form other ih ih' =>
    rw [Over, Bool.and_eq_true] at h
    rcases ht with ht | ht
    · exact ih h.1 ht
    · exact ih' h.2 ht
  | comp form other ih ih' =>
    rw [Over, Bool.and_eq_true] at h
    obtain ⟨s, hs, t, ht, rfl⟩ := ht
    intro c hc
    rcases List.mem_append.1 hc with hc | hc
    · exact ih h.1 hs c hc
    · exact ih' h.2 ht c hc
  | star form ih =>
    obtain ⟨parts, rfl, hparts⟩ := ht
    intro c hc
    obtain ⟨part, hpart, hc⟩ := List.mem_flatten.1 hc
    exact ih h (hparts part hpart) c hc

end Forms

/-- The characters of numbers and of the names of constants. -/
def isWordChar (c : Char) : Bool := c.isAlphanum || c = '+' || c = '-' || c = '.'

instance (text : List Char) : Decidable (IsNumber text) :=
  decidable_of_iff _ (numberForm.rmatch_iff_matches' text)

theorem isWordChar_of_isNumber (h : IsNumber text) : ∀ c ∈ text, isWordChar c :=
  Over.forall_mem (by rfl) h

/-- The value that a word stands for. -/
def word? (word : List Char) : Option Json :=
  if word = ['n', 'u', 'l', 'l'] then some .null
  else if word = ['t', 'r', 'u', 'e'] then some (.boolean true)
  else if word = ['f', 'a', 'l', 's', 'e'] then some (.boolean false)
  else if IsNumber word then some (.number (String.ofList word))
  else none

/-- The reader of a number or a constant. -/
def readWord (s : List Char) : Option (Json × List Char) :=
  (word? (s.takeWhile isWordChar)).map (·, s.dropWhile isWordChar)

theorem written_of_word? {v : Json} (h : word? text = some v) : Part.Written (.value v) text := by
  rw [word?] at h
  split at h
  · next ht =>
    obtain rfl := Option.some.inj h
    exact ht ▸ .null
  split at h
  · next ht =>
    obtain rfl := Option.some.inj h
    exact ht ▸ .true
  split at h
  · next ht =>
    obtain rfl := Option.some.inj h
    exact ht ▸ .false
  split at h
  · next ht =>
    obtain rfl := Option.some.inj h
    have hw : Part.Written (.value (.number (String.ofList text))) _ :=
      .number (by rwa [String.toList_ofList])
    rwa [String.toList_ofList] at hw
  · cases h

/-- A number is no name of a constant, so it stands for itself. -/
theorem word?_number (h : IsNumber text) : word? text = some (.number (String.ofList text)) := by
  -- The names of the constants are no numbers, so the form decides.
  have hne : ∀ word, ¬ IsNumber word → text ≠ word := by
    rintro word hw rfl
    exact hw h
  rw [word?, if_neg (hne _ (by decide)), if_neg (hne _ (by decide)), if_neg (hne _ (by decide)),
    if_pos h]

theorem exists_text_of_readWord {v : Json} (h : readWord s = some (v, rest)) :
    ∃ text, s = text ++ rest ∧ Part.Written (.value v) text := by
  obtain ⟨v', hv, he⟩ := Option.map_eq_some_iff.1 h
  obtain ⟨rfl, rfl⟩ := Prod.mk.inj he
  exact ⟨_, List.takeWhile_append_dropWhile.symm, written_of_word? hv⟩

/-- A word is read back if no character of words stands behind it. -/
theorem readWord_append {v : Json} (h : word? text = some v) (hc : ∀ c ∈ text, isWordChar c)
    (hr : NotFirst isWordChar rest) : readWord (text ++ rest) = some (v, rest) := by
  rw [readWord, takeWhile_append_self hc hr, dropWhile_append_self hc hr, h]
  rfl

end WorkspaceFacts.Json
