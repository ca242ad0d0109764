import Mathlib.Data.List.TakeWhile
import WorkspaceFacts.Proofs.Toml.Reading.Integers

/-!
# What numbers and date-times are read as

The written form of an integer, in decimal and without anything that could be left out, is one
of its spellings and is read as the integer (`WorkspaceFacts.Toml.scalarOf?_integerText`), and
the written form of a date-time is read as the date-time
(`WorkspaceFacts.Toml.DateTime.ofText?_text`). A lexeme that is read as a floating-point number
is read as “not a number” only if it says so (`WorkspaceFacts.Toml.isNaN_iff_of_scalarOf?`).
-/

namespace WorkspaceFacts.Binary64

/-! ### Rounded decimals -/

/-- Nothing up to infinity is “not a number”, whatever its sign. -/
theorem isNaN_ofMagnitude {magnitude : Nat} (h : magnitude ≤ infinityBits) (negative : Bool) :
    (ofMagnitude negative magnitude).isNaN = false := by
  have hbits : infinityBits < signBit ∧ signBit + signBit = 2 ^ 64 := by decide
  have hword : (ofMagnitude negative magnitude).bits.toNat =
      if negative then signBit + magnitude else magnitude := by
    rw [ofMagnitude, UInt64.toNat_ofNat_of_lt']
    cases negative
    · exact Nat.lt_of_le_of_lt h (by decide)
    · rw [if_pos rfl]
      show signBit + magnitude < 2 ^ 64
      omega
  have hrest : (ofMagnitude negative magnitude).bits.toNat % signBit = magnitude := by
    rw [hword]
    cases negative
    · rw [if_neg Bool.false_ne_true]
      exact Nat.mod_eq_of_lt (by omega)
    · rw [if_pos rfl, Nat.add_mod_left]
      exact Nat.mod_eq_of_lt (by omega)
  rw [isNaN, hrest, decide_eq_false_iff_not]
  omega

/-- A decimal is rounded to a number or to infinity. -/
theorem ofDecimal_le (digits : Nat) (exponent : Int) :
    ofDecimal digits exponent ≤ infinityBits := by
  unfold ofDecimal
  dsimp only
  split
  · exact Nat.zero_le _
  split
  · exact Nat.le_refl _
  split
  · exact Nat.min_le_right _ _
  · exact Nat.min_le_right _ _

end WorkspaceFacts.Binary64

namespace WorkspaceFacts.Toml

variable {n : Nat} {s rest : List Char}

/-! ### Integers -/

/-- An integer in decimal. -/
def integerText (n : Int) : List Char :=
  if n < 0 then '-' :: Nat.toDigits 10 n.natAbs else Nat.toDigits 10 n.natAbs

variable {i : Int}

theorem digitsSpelled_of_isDigit (hs : s ≠ []) (h : ∀ c ∈ s, c.isDigit = true) :
    DigitsSpelled 10 (s.map Digits.ofDigit) s := by
  induction s with
  | nil => exact absurd rfl hs
  | cons c s ih =>
    have hc : IsDigit 10 (Digits.ofDigit c) c :=
      isDigit_iff.2 (Digits.value?_of_isDigit (h c List.mem_cons_self))
    cases s with
    | nil => exact .last hc
    | cons d s => exact .cons hc (ih (List.cons_ne_nil d s) fun e he => h e (.tail c he))

/-- The digits of a number start with a zero only if they are a single one. -/
theorem digits_short (n : Nat) (h : ((Nat.toDigits 10 n).map Digits.ofDigit).head? = some 0) :
    (Nat.toDigits 10 n).map Digits.ofDigit = [0] := by
  obtain ⟨c, s, hs⟩ := List.exists_cons_of_ne_nil (Nat.toDigits_ne_nil (n := n) (b := 10))
  have hdigit : c.isDigit = true :=
    Digits.isDigit_of_mem_digits (n := n) (by rw [hs]; exact List.mem_cons_self)
  rw [hs, List.map_cons, List.head?_cons, Option.some.injEq] at h
  have hzero : c = '0' := by
    have := Char.isDigit_iff_toNat.1 hdigit
    refine Char.toNat_inj.1 ?_
    simp only [Digits.ofDigit] at h
    omega
  rw [hzero] at hs
  cases s with
  | nil => rw [hs]; rfl
  | cons d s => exact absurd hs Digits.digits_ne_zero_cons

theorem integerSpelled_integerText (i : Int) : IntegerSpelled i (integerText i) := by
  have hspelled := digitsSpelled_of_isDigit (Nat.toDigits_ne_nil (n := i.natAbs) (b := 10))
    fun c => Digits.isDigit_of_mem_digits
  have hvalue : Nat.ofDigits 10 ((Nat.toDigits 10 i.natAbs).map Digits.ofDigit).reverse =
      i.natAbs := by
    rw [← toNat_eq_ofDigits, Digits.toNat_digits]
  have htext (sign : Sign) : IntegerSpelled (sign.of i.natAbs)
      (sign.text ++ Nat.toDigits 10 i.natAbs) := by
    have h := IntegerSpelled.decimal sign hspelled (digits_short i.natAbs)
    rwa [hvalue] at h
  rw [integerText]
  split
  · next hi =>
    have h := htext .minus
    rwa [show Sign.minus.of i.natAbs = i by simp only [Sign.of]; omega] at h
  · next hi =>
    have h := htext .absent
    rwa [show Sign.absent.of i.natAbs = i by simp only [Sign.of]; omega] at h

/-- **An integer of 64 bits is read as an integer.** -/
theorem scalarOf?_integerText (h : leastInteger ≤ i ∧ i ≤ greatestInteger) :
    scalarOf? (integerText i) = some (.integer i) :=
  scalarOf?_eq_integer_iff.2 ⟨integerSpelled_integerText i, h⟩

theorem isLexemeChar_of_mem_integerText {c : Char} (h : c ∈ integerText i) :
    isLexemeChar c = true :=
  (integerSpelled_integerText i).isLexemeChar c h

/-! ### Floating-point numbers -/

theorem isNaN_of_decimalFloat? {negative : Bool} {x : Binary64}
    (h : decimalFloat? negative s = some (.float x)) : x.isNaN = false := by
  unfold decimalFloat? at h
  dsimp only at h
  split at h
  · cases h
  split at h
  · split at h
    · cases h
    · obtain rfl := Scalar.float.inj (Option.some.inj h)
      exact Binary64.isNaN_ofMagnitude (Binary64.ofDecimal_le _ _) negative
  · cases h

/-- **Only its own name is read as “not a number”**, with a sign or without: a decimal is read as
a number or as infinity, however large or small it is. -/
theorem isNaN_iff_of_scalarOf? {x : Binary64} (h : scalarOf? s = some (.float x)) :
    x.isNaN = true ↔ (cutSign s).2 = ['n', 'a', 'n'] := by
  have hfloat : floatOf? s = some (.float x) := by
    simp only [scalarOf?, Option.orElse_eq_some] at h
    rcases h with hboolean | ⟨-, hdateTime | ⟨-, hfloat | ⟨-, hinteger⟩⟩⟩
    · unfold booleanOf? at hboolean
      repeat' split at hboolean
      all_goals cases hboolean
    · obtain ⟨d, -, hd⟩ := Option.map_eq_some_iff.1 hdateTime
      cases hd
    · exact hfloat
    · obtain ⟨i, -, hi⟩ := integerSpelled_of_integerOf? hinteger
      unfold integer? at hi
      split at hi <;> cases hi
  unfold floatOf? at hfloat
  dsimp only at hfloat
  split at hfloat
  · next hinf =>
    obtain rfl := Scalar.float.inj (Option.some.inj hfloat)
    rw [hinf, Binary64.infinity, Binary64.isNaN_ofMagnitude (Nat.le_refl _)]
    decide
  split at hfloat
  · next hnan =>
    obtain rfl := Scalar.float.inj (Option.some.inj hfloat)
    exact iff_of_true (by decide) hnan
  · next hnan =>
    rw [isNaN_of_decimalFloat? hfloat]
    exact iff_of_false Bool.false_ne_true hnan

/-! ### Dates -/

/-- A date that has a written form: a day of the calendar whose year has four digits. -/
def Date.Fits (d : Date) : Prop := d.isValid = true ∧ d.year ≤ 9999

/-- A time of day that has a written form. -/
def Time.Fits (t : Time) : Prop :=
  t.hour ≤ 23 ∧ t.minute ≤ 59 ∧ t.second ≤ 60 ∧ t.nanosecond < 10 ^ 9

/-- An offset that has a written form: it is less than a day. -/
def Offset.Fits : Offset → Prop
  | .universal => True
  | .east m => m.natAbs < 24 * 60

/-- **The date-times that have a written form**: a date, a time of day, or both with an
optional offset. -/
inductive DateTime.Fits : DateTime → Prop
  | date {d : Date} (hd : d.Fits) : Fits ⟨some d, none, none⟩
  | time {t : Time} (ht : t.Fits) : Fits ⟨none, some t, none⟩
  | both {d : Date} {t : Time} {offset : Option Offset} (hd : d.Fits) (ht : t.Fits)
      (ho : ∀ o, offset = some o → o.Fits) : Fits ⟨some d, some t, offset⟩

theorem decimal?_digitChar (h : n < 10) : decimal? n.digitChar = some n := by
  rw [decimal?, Digits.value?_of_isDigit (Digits.isDigit_digitChar h), Digits.ofDigit_digitChar h]

theorem readTwo_digits {a b : Nat} (ha : a < 10) (hb : b < 10) :
    readTwo (a.digitChar :: b.digitChar :: rest) = some (a * 10 + b, rest) := by
  rw [readTwo, decimal?_digitChar ha, decimal?_digitChar hb]

theorem readTwo_padded (h : n < 100) : readTwo (Digits.padded 2 n ++ rest) = some (n, rest) := by
  rw [Digits.padded_succ (by decide), Digits.padded_one (by omega)]
  show readTwo ((n / 10).digitChar :: (n % 10).digitChar :: rest) = _
  rw [readTwo_digits (by omega) (by omega)]
  congr
  omega

/-- Four digits are twice two. -/
theorem padded_four (n : Nat) :
    Digits.padded 4 n = Digits.padded 2 (n / 100) ++ Digits.padded 2 (n % 100) := by
  have hlow : Digits.padded 2 (n % 100) = [(n / 10 % 10).digitChar, (n % 10).digitChar] := by
    rw [Digits.padded_succ (by decide), Digits.padded_one (by omega),
      show n % 100 / 10 = n / 10 % 10 by omega, show n % 100 % 10 = n % 10 by omega]
    rfl
  rw [Digits.padded_succ (by decide), Digits.padded_succ (by decide), hlow, List.append_assoc,
    show n / 10 / 10 = n / 100 by omega]
  rfl

theorem Date.read_text {d : Date} (h : d.Fits) : Date.read (d.text ++ rest) = some (d, rest) := by
  obtain ⟨hvalid, hyear⟩ := h
  have hday : 1 ≤ d.month ∧ d.month ≤ 12 ∧ 1 ≤ d.day ∧ d.day ≤ Date.daysIn d.year d.month := by
    simpa [Date.isValid] using hvalid
  -- All that is read are pairs of digits, so all numbers have to be below a hundred.
  have hdays : Date.daysIn d.year d.month ≤ 31 := by
    unfold Date.daysIn
    repeat' split
    all_goals omega
  have hsum : d.year / 100 * 100 + d.year % 100 = d.year := by omega
  rw [Date.text, padded_four]
  simp only [List.append_assoc, List.cons_append]
  rw [Date.read, readTwo_padded (by omega)]
  dsimp only
  rw [readTwo_padded (by omega)]
  simp only
  rw [readTwo_padded (by omega)]
  simp only
  rw [readTwo_padded (by omega)]
  simp only
  rw [hsum, if_pos hvalid]

/-! ### Times of day -/

/-- The text of a fraction without its point, and the zeros that are left out. -/
theorem exists_fraction (hn : n ≠ 0) : ∃ digits k,
    Time.fraction n = '.' :: digits ∧ digits ≠ [] ∧ (∀ c ∈ digits, c.isDigit = true) ∧
      Digits.padded 9 n = digits ++ List.replicate k '0' := by
  let zeros := (Digits.padded 9 n).reverse.takeWhile (· == '0')
  let digits := ((Digits.padded 9 n).reverse.dropWhile (· == '0')).reverse
  have hsplit : Digits.padded 9 n = digits ++ List.replicate zeros.length '0' := by
    have hzeros : zeros.reverse = List.replicate zeros.length '0' := by
      rw [List.eq_replicate_iff, List.length_reverse]
      refine ⟨rfl, fun c hc => ?_⟩
      simpa using List.mem_takeWhile_imp (List.mem_reverse.1 hc)
    rw [← hzeros, ← List.reverse_append, List.takeWhile_append_dropWhile, List.reverse_reverse]
  refine ⟨digits, zeros.length, ?_, ?_, fun c hc => ?_, hsplit⟩
  · rw [Time.fraction, if_neg hn]
  · -- A number with nothing but zeros is zero.
    intro hnil
    have hvalue := Digits.toNat_padded 9 n
    rw [hsplit, hnil, List.nil_append, Digits.toNat_map_ofDigit,
      Nat.ofDigitChars_replicate_zero] at hvalue
    omega
  · refine Digits.isDigit_of_mem_padded (w := 9) (n := n) ?_
    rw [hsplit]
    exact List.mem_append_left _ hc

theorem filterMap_decimal? (h : ∀ c ∈ s, c.isDigit = true) :
    s.filterMap decimal? = s.map Digits.ofDigit := by
  rw [← List.filterMap_eq_map]
  exact List.filterMap_congr fun c hc => Digits.value?_of_isDigit (h c hc)

/-- The digits of a fraction amount to as many nanoseconds as they were written for. -/
theorem nanoseconds_of_padded {k : Nat} (h : n < 10 ^ 9)
    (hs : Digits.padded 9 n = s ++ List.replicate k '0') : Time.nanoseconds s = n := by
  have hlength := Digits.length_padded (w := 9) (by decide) h
  -- The zeros that were left out are among those that are filled in.
  have htake : (s ++ List.replicate 9 '0').take 9 = Digits.padded 9 n := by
    rw [hs] at hlength ⊢
    rw [List.length_append, List.length_replicate] at hlength
    rw [List.take_append, List.take_of_length_le (by omega), List.take_replicate]
    congr
    omega
  rw [Time.nanoseconds, htake, filterMap_decimal? fun c => Digits.isDigit_of_mem_padded,
    Digits.toNat_padded]

/-- What can stand behind a time of day: an offset or nothing. -/
def EndsTime (rest : List Char) : Prop := ∀ c s, rest = c :: s → c.isDigit = false ∧ c ≠ '.'

theorem endsTime_nil : EndsTime [] := by
  intro c s h
  cases h

theorem Time.readFraction_fraction (h : n < 10 ^ 9) (hr : EndsTime rest) :
    Time.readFraction (Time.fraction n ++ rest) = some (n, rest) := by
  by_cases hn : n = 0
  · rw [Time.fraction, if_pos hn, List.nil_append, hn]
    unfold Time.readFraction
    split
    · next s => exact absurd rfl (hr '.' s rfl).2
    · rfl
  · obtain ⟨digits, k, hf, hne, hd, hsplit⟩ := exists_fraction hn
    have htake : (digits ++ rest).takeWhile Char.isDigit = digits :=
      takeWhile_append_self hd fun c s hc => (hr c s hc).1
    have hdrop : (digits ++ rest).dropWhile Char.isDigit = rest :=
      dropWhile_append_self hd fun c s hc => (hr c s hc).1
    rw [hf, List.cons_append, Time.readFraction, htake, hdrop]
    obtain ⟨c, s, rfl⟩ := List.exists_cons_of_ne_nil hne
    simp only [nanoseconds_of_padded h hsplit]

theorem Time.read_text {t : Time} (h : t.Fits) (hr : EndsTime rest) :
    Time.read (t.text ++ rest) = some (t, rest) := by
  obtain ⟨hhour, hminute, hsecond, hnano⟩ := h
  rw [Time.text]
  simp only [List.append_assoc, List.cons_append]
  rw [Time.read, readTwo_padded (by omega)]
  simp only
  rw [readTwo_padded (by omega)]
  simp only
  rw [readTwo_padded (by omega)]
  simp only
  rw [Time.readFraction_fraction hnano hr]
  simp only
  rw [if_pos ⟨hhour, hminute, hsecond⟩]

/-- Nothing that starts with two digits and a colon is a date. -/
theorem Date.read_time {t : Time} (h : t.Fits) : Date.read (t.text ++ rest) = none := by
  obtain ⟨hhour, -⟩ := h
  have hcolon : ∀ s, readTwo (':' :: s) = none := by
    intro s
    cases s <;> rfl
  rw [Time.text]
  simp only [List.append_assoc, List.cons_append]
  rw [Date.read, readTwo_padded (by omega)]
  simp only [hcolon]

/-! ### Offsets -/

theorem Offset.readMinutes_padded (h : n < 24 * 60) :
    Offset.readMinutes (Digits.padded 2 (n / 60) ++ ':' :: Digits.padded 2 (n % 60)) =
      some (n, []) := by
  have hlast : readTwo (Digits.padded 2 (n % 60)) = some (n % 60, []) := by
    conv => lhs; rw [← List.append_nil (Digits.padded 2 (n % 60))]
    exact readTwo_padded (by omega)
  rw [Offset.readMinutes, readTwo_padded (by omega)]
  simp only [hlast]
  rw [if_pos ⟨by omega, by omega⟩]
  congr
  omega

theorem Offset.read_text {o : Offset} (h : o.Fits) : Offset.read o.text = some (o, []) := by
  cases o with
  | universal => rfl
  | east m =>
    have hread := Offset.readMinutes_padded h
    by_cases hm : m < 0
    · rw [Offset.text, if_pos hm, List.cons_append, Offset.read, hread, Option.map_some]
      simp only [show -(m.natAbs : Int) = m by omega]
    · rw [Offset.text, if_neg hm, List.cons_append, Offset.read, hread, Option.map_some]
      simp only [show (m.natAbs : Int) = m by omega]

/-- The text of an offset starts with a letter or a sign. -/
theorem Offset.exists_text (o : Offset) : ∃ c s, o.text = c :: s ∧
    (c = 'Z' ∨ c = '+' ∨ c = '-') := by
  cases o with
  | universal => exact ⟨_, _, rfl, .inl rfl⟩
  | east m =>
    refine ⟨_, _, rfl, ?_⟩
    split
    · exact .inr (.inr rfl)
    · exact .inr (.inl rfl)

theorem endsTime_offset (offset : Option Offset) : EndsTime (offset.elim [] Offset.text) := by
  intro c s hc
  cases offset with
  | none => cases hc
  | some o =>
    obtain ⟨d, t, htext, hd⟩ := o.exists_text
    obtain rfl := (List.cons.inj (htext.symm.trans hc)).1
    rcases hd with rfl | rfl | rfl <;> decide

theorem Offset.readEnd_text {offset : Option Offset} (h : ∀ o, offset = some o → o.Fits) :
    Offset.readEnd (offset.elim [] Offset.text) = some offset := by
  cases offset with
  | none => rfl
  | some o =>
    obtain ⟨c, s, htext, -⟩ := o.exists_text
    have hread := Offset.read_text (h o rfl)
    show Offset.readEnd o.text = _
    rw [htext] at hread ⊢
    rw [Offset.readEnd, hread]
    simp

/-! ### Date-times -/

/-- **The written form of a date-time is read back.** -/
theorem DateTime.ofText?_text {d : DateTime} (h : d.Fits) : DateTime.ofText? d.text = some d := by
  cases h with
  | @date d hd =>
    have hread : Date.read (d.text ++ []) = some (d, []) := Date.read_text hd
    rw [List.append_nil] at hread
    show DateTime.ofText? (d.text ++ [] ++ []) = _
    rw [List.append_nil, List.append_nil, DateTime.ofText?, hread]
  | @time t ht =>
    have hdate : Date.read (t.text ++ []) = none := Date.read_time ht
    have hread : Time.read (t.text ++ []) = some (t, []) := Time.read_text ht endsTime_nil
    rw [List.append_nil] at hdate hread
    show DateTime.ofText? ([] ++ t.text ++ []) = _
    rw [List.nil_append, List.append_nil, DateTime.ofText?, hdate, hread]
  | @both d t offset hd ht ho =>
    show DateTime.ofText? (d.text ++ 'T' :: t.text ++ offset.elim [] Offset.text) = _
    rw [List.append_assoc, List.cons_append, DateTime.ofText?, Date.read_text hd]
    simp only
    rw [if_pos (by rfl), Time.read_text ht (endsTime_offset offset)]
    simp only
    rw [Offset.readEnd_text ho, Option.map_some]

/-! ### Lexemes -/

theorem isLexemeChar_of_isDigit {c : Char} (h : c.isDigit = true) : isLexemeChar c = true := by
  simp [isLexemeChar, Char.isAlphanum, h]

theorem isLexemeChar_of_mem_padded {c : Char} {w : Nat} (h : c ∈ Digits.padded w n) :
    isLexemeChar c = true :=
  isLexemeChar_of_isDigit (Digits.isDigit_of_mem_padded h)

theorem Date.isLexemeChar_of_mem_text {c : Char} {d : Date} (h : c ∈ d.text) :
    isLexemeChar c = true := by
  simp only [Date.text, List.mem_append, List.mem_cons] at h
  rcases h with (h | rfl | h) | rfl | h
  · exact isLexemeChar_of_mem_padded h
  · rfl
  · exact isLexemeChar_of_mem_padded h
  · rfl
  · exact isLexemeChar_of_mem_padded h

theorem Time.isLexemeChar_of_mem_fraction {c : Char} (h : c ∈ Time.fraction n) :
    isLexemeChar c = true := by
  unfold Time.fraction at h
  split at h
  · cases h
  · rcases List.mem_cons.1 h with rfl | h
    · rfl
    · rw [List.mem_reverse] at h
      have hmem := (List.dropWhile_sublist _).subset h
      exact isLexemeChar_of_mem_padded (List.mem_reverse.1 hmem)

theorem Time.isLexemeChar_of_mem_text {c : Char} {t : Time} (h : c ∈ t.text) :
    isLexemeChar c = true := by
  simp only [Time.text, List.mem_append, List.mem_cons] at h
  rcases h with ((h | rfl | h) | rfl | h) | h
  · exact isLexemeChar_of_mem_padded h
  · rfl
  · exact isLexemeChar_of_mem_padded h
  · rfl
  · exact isLexemeChar_of_mem_padded h
  · exact Time.isLexemeChar_of_mem_fraction h

theorem Offset.isLexemeChar_of_mem_text {c : Char} {o : Offset} (h : c ∈ o.text) :
    isLexemeChar c = true := by
  cases o with
  | universal =>
    obtain rfl := List.mem_singleton.1 h
    rfl
  | east m =>
    simp only [Offset.text, List.mem_append, List.mem_cons] at h
    rcases h with (rfl | h) | rfl | h
    · split <;> rfl
    · exact isLexemeChar_of_mem_padded h
    · rfl
    · exact isLexemeChar_of_mem_padded h

theorem DateTime.isLexemeChar_of_mem_text {c : Char} {d : DateTime} (h : c ∈ d.text) :
    isLexemeChar c = true := by
  rw [DateTime.text, List.mem_append, List.mem_append] at h
  rcases h with (h | h) | h
  · cases hd : d.date with
    | none => simp [hd] at h
    | some date =>
      rw [hd] at h
      exact Date.isLexemeChar_of_mem_text h
  · cases ht : d.time with
    | none => simp [ht] at h
    | some time =>
      rw [ht, Option.elim_some] at h
      split at h
      · rcases List.mem_cons.1 h with rfl | h
        · rfl
        · exact Time.isLexemeChar_of_mem_text h
      · exact Time.isLexemeChar_of_mem_text h
  · cases ho : d.offset with
    | none => simp [ho] at h
    | some offset =>
      rw [ho] at h
      exact Offset.isLexemeChar_of_mem_text h

/-- **The written form of a date-time is read as a date-time.** -/
theorem scalarOf?_dateTime {d : DateTime} (h : d.Fits) :
    scalarOf? d.text = some (.dateTime d) := by
  have hread := DateTime.ofText?_text h
  have hboolean : booleanOf? d.text = none := by
    unfold booleanOf?
    split
    · next heq =>
      rw [heq] at hread
      cases hread
    · split
      · next heq =>
        rw [heq] at hread
        cases hread
      · rfl
  rw [scalarOf?, hboolean, hread]
  rfl

end WorkspaceFacts.Toml
