import Mathlib.Data.Nat.Digits.Defs
import WorkspaceFacts.Proofs.Text.Numerals
import WorkspaceFacts.Proofs.Toml.Reading.Words

/-!
# Integers are read as the numbers that they are

An integer is spelled in decimal behind an optional sign, without zeros in front, or in one of
three other bases behind a prefix, where zeros in front and letters of either case are allowed;
single underscores may stand between its digits (`WorkspaceFacts.Toml.IntegerSpelled`). Which
number that is, is told from the digits alone, by `Nat.ofDigits`, and there is no bound on it.

A lexeme is tried as a date-time, which needs only the digits at its front to begin, and as a
floating-point number before it is tried as an integer. Neither takes an integer away: the one
needs a minus sign or a colon behind digits, the other a point or an exponent behind *decimal*
digits. So an integer is read, whatever its length, as the number that it is if 64 bits hold
it, and as nothing otherwise (`WorkspaceFacts.Toml.IntegerSpelled.scalarOf?_eq`). Nothing else is
read as an integer (`WorkspaceFacts.Toml.scalarOf?_eq_integer_iff`).
-/

namespace WorkspaceFacts.Toml

/-! ### How integers are spelled -/

/-- The character is a digit of the base, the one of the number, in either case. -/
def IsDigit (base d : Nat) (c : Char) : Prop := d < base ∧ Quotation.IsHexDigit d c

instance (base d : Nat) (c : Char) : Decidable (IsDigit base d c) :=
  inferInstanceAs (Decidable (_ ∧ _))

/-- **The digits are spelled as the text**, of which there is at least one. -/
inductive DigitsSpelled (base : Nat) : List Nat → List Char → Prop
  | last {d : Nat} {c : Char} (h : IsDigit base d c) : DigitsSpelled base [d] [c]
  | cons {d : Nat} {ds : List Nat} {c : Char} {text : List Char} (h : IsDigit base d c)
      (hm : DigitsSpelled base ds text) : DigitsSpelled base (d :: ds) (c :: text)
  | underscore {d : Nat} {ds : List Nat} {c : Char} {text : List Char} (h : IsDigit base d c)
      (hm : DigitsSpelled base ds text) : DigitsSpelled base (d :: ds) (c :: '_' :: text)

/-- What stands in front of the digits of an integer in decimal. -/
inductive Sign
  | absent
  | plus
  | minus

/-- The text of a sign. -/
def Sign.text : Sign → List Char
  | .absent => []
  | .plus => ['+']
  | .minus => ['-']

/-- The number that a sign makes of another. -/
def Sign.of : Sign → Nat → Int
  | .minus, n => -n
  | _, n => n

/-- The bases other than ten. -/
inductive Radix
  | binary
  | octal
  | hexadecimal

/-- The number of digits that the base has. -/
def Radix.base : Radix → Nat
  | .binary => 2
  | .octal => 8
  | .hexadecimal => 16

/-- The letter of the prefix of the base. -/
def Radix.letter : Radix → Char
  | .binary => 'b'
  | .octal => 'o'
  | .hexadecimal => 'x'

/-- **The integer is spelled as the text.** -/
inductive IntegerSpelled : Int → List Char → Prop
  | decimal {digits : List Nat} {text : List Char} (sign : Sign) (h : DigitsSpelled 10 digits text)
      (short : digits.head? = some 0 → digits = [0]) :
      IntegerSpelled (sign.of (Nat.ofDigits 10 digits.reverse)) (sign.text ++ text)
  | prefixed {digits : List Nat} {text : List Char} (radix : Radix)
      (h : DigitsSpelled radix.base digits text) :
      IntegerSpelled (Nat.ofDigits radix.base digits.reverse : Nat) ('0' :: radix.letter :: text)

variable {base d n : Nat} {c : Char} {digits : List Nat} {text s rest : List Char}

/-! ### Runs of digits -/

theorem isHexDigit_iff : Quotation.IsHexDigit d c ↔ Digits.hexValue? c = some d := by
  constructor
  · intro h
    have hvalue := Quotation.value?_of_isHexDigit h
    rw [Digits.value?, Option.filter_eq_some_iff] at hvalue
    exact hvalue.1
  · -- Each of the three ranges of characters, by their numbers.
    have hdigit : ∀ n ≤ 57, 48 ≤ n → Quotation.IsHexDigit (n - 48) (Char.ofNat n) := by decide
    have hlower : ∀ n ≤ 102, 97 ≤ n → Quotation.IsHexDigit (n - 97 + 10) (Char.ofNat n) := by
      decide
    have hupper : ∀ n ≤ 70, 65 ≤ n → Quotation.IsHexDigit (n - 65 + 10) (Char.ofNat n) := by
      decide
    intro h
    rw [← Char.ofNat_toNat c]
    unfold Digits.hexValue? at h
    split at h
    · next hc =>
      obtain rfl := Option.some.inj h
      exact hdigit c.toNat hc.2 hc.1
    · split at h
      · next hc =>
        obtain rfl := Option.some.inj h
        exact hlower c.toNat hc.2 hc.1
      · split at h
        · next hc =>
          obtain rfl := Option.some.inj h
          exact hupper c.toNat hc.2 hc.1
        · cases h

/-- The digits of a base are the characters that have a value in it. -/
theorem isDigit_iff : IsDigit base d c ↔ Digits.value? base c = some d := by
  rw [IsDigit, Digits.value?, Option.filter_eq_some_iff, isHexDigit_iff, decide_eq_true_iff,
    and_comm]

theorem IsDigit.isAlphanum (h : IsDigit base d c) : c.isAlphanum = true := by
  have lower : "0123456789abcdef".toList.all Char.isAlphanum = true := by decide
  have upper : "0123456789ABCDEF".toList.all Char.isAlphanum = true := by decide
  rcases h.2 with h | h
  · exact List.all_eq_true.1 lower c (List.mem_of_getElem? h)
  · exact List.all_eq_true.1 upper c (List.mem_of_getElem? h)

/-- The letters stand for ten and more. -/
theorem IsDigit.isDigit (h : IsDigit 10 d c) : c.isDigit = true := by
  obtain ⟨hlt, h⟩ := h
  have lower : ∀ d < 10, "0123456789abcdef".toList[d]?.all Char.isDigit = true := by decide
  have upper : ∀ d < 10, "0123456789ABCDEF".toList[d]?.all Char.isDigit = true := by decide
  rcases h with h | h
  · exact (Option.all_eq_true _ _).1 (lower d hlt) c h
  · exact (Option.all_eq_true _ _).1 (upper d hlt) c h

theorem IsDigit.ne_underscore (h : IsDigit base d c) : c ≠ '_' := ne_of_holds h.isAlphanum rfl

/-- The number that digits amount to. -/
theorem toNat_eq_ofDigits (base : Nat) (digits : List Nat) :
    Digits.toNat base digits = Nat.ofDigits base digits.reverse := by
  rw [Digits.toNat, Nat.ofDigits_eq_foldr, List.foldr_reverse]
  congr
  funext n d
  rw [Nat.cast_id, Nat.add_comm, Nat.mul_comm]

namespace DigitsSpelled

theorem exists_cons (h : DigitsSpelled base digits text) :
    ∃ d c s, text = c :: s ∧ IsDigit base d c := by
  cases h with
  | last h => exact ⟨_, _, _, rfl, h⟩
  | cons h => exact ⟨_, _, _, rfl, h⟩
  | underscore h => exact ⟨_, _, _, rfl, h⟩

theorem forall_mem (h : DigitsSpelled base digits text) :
    ∀ c ∈ text, c = '_' ∨ ∃ d, IsDigit base d c := by
  induction h with
  | last h => simpa using .inr ⟨_, h⟩
  | cons h _ ih => exact List.forall_mem_cons.2 ⟨.inr ⟨_, h⟩, ih⟩
  | underscore h _ ih =>
    exact List.forall_mem_cons.2 ⟨.inr ⟨_, h⟩, List.forall_mem_cons.2 ⟨.inl rfl, ih⟩⟩

/-- Besides underscores there are only digits of the base. -/
theorem not_mem (h : DigitsSpelled base digits text) (hc : c ≠ '_')
    (hvalue : Digits.value? base c = none) : c ∉ text := by
  intro hmem
  rcases h.forall_mem c hmem with rfl | ⟨d, hd⟩
  · exact hc rfl
  · cases hvalue.symm.trans (isDigit_iff.1 hd)

/-- Digits are read as what they are, without the underscores. -/
theorem digits?_eq (h : DigitsSpelled base digits text) : digits? base text = some digits := by
  induction h with
  | last h => rw [digits?, isDigit_iff.1 h, Option.map_some]
  | @cons d ds c text h hm ih =>
    obtain ⟨e, x, s, rfl, hx⟩ := hm.exists_cons
    rw [digits?, isDigit_iff.1 h, ih]
    · nofun
    · rintro t ⟨⟩
      exact hx.ne_underscore rfl
  | underscore h _ ih => rw [digits?, isDigit_iff.1 h, ih]

end DigitsSpelled

/-- **What is read as digits is what is spelled by them.** -/
theorem digitsSpelled_iff : DigitsSpelled base digits text ↔ digits? base text = some digits := by
  refine ⟨DigitsSpelled.digits?_eq, fun h => ?_⟩
  fun_induction digits? base text generalizing digits with
  | case1 => cases h
  | case2 c =>
    obtain ⟨d, hd, rfl⟩ := Option.map_eq_some_iff.1 h
    exact .last (isDigit_iff.2 hd)
  | case3 c rest d ds hds hd ih =>
    obtain rfl := Option.some.inj h
    exact .underscore (isDigit_iff.2 hd) (ih hds)
  | case4 => cases h
  | case5 c rest _ _ d ds hds hd ih =>
    obtain rfl := Option.some.inj h
    exact .cons (isDigit_iff.2 hd) (ih hds)
  | case6 => cases h

instance (base : Nat) (digits : List Nat) (text : List Char) :
    Decidable (DigitsSpelled base digits text) :=
  decidable_of_iff _ digitsSpelled_iff.symm

theorem wholeDigits?_eq_some_iff : wholeDigits? text = some digits ↔
    DigitsSpelled 10 digits text ∧ (digits.head? = some 0 → digits = [0]) := by
  rw [digitsSpelled_iff, wholeDigits?]
  split
  · next heq =>
    rw [heq, Option.some.injEq]
    constructor
    · nofun
    · rintro ⟨rfl, short⟩
      cases short rfl
  · next ds hne =>
    refine ⟨fun h => ⟨h, fun hzero => ?_⟩, And.left⟩
    obtain ⟨ds, rfl⟩ := List.head?_eq_some_iff.1 hzero
    cases ds with
    | nil => rfl
    | cons d ds => exact absurd h (hne d ds)

/-! ### What is no date-time -/

theorem eq_of_readTwo (h : readTwo s = some (n, rest)) : ∃ a b, s = a :: b :: rest := by
  unfold readTwo at h
  split at h
  · next a b t =>
    split at h
    · obtain ⟨-, rfl⟩ := Prod.mk.inj (Option.some.inj h)
      exact ⟨a, b, rfl⟩
    · cases h
  · cases h

/-- A minus sign stands in every date, and not in front. -/
theorem Date.read_eq_none (h : '-' ∉ s.tail) : Date.read s = none := by
  unfold Date.read
  split
  · next hs =>
    split
    · next ht =>
      obtain ⟨a, b, rfl⟩ := eq_of_readTwo hs
      obtain ⟨c, d, rfl⟩ := eq_of_readTwo ht
      exact absurd (by simp) h
    · rfl
  · rfl

theorem Time.read_eq_none (h : ':' ∉ s) : Time.read s = none := by
  unfold Time.read
  split
  · next hs =>
    obtain ⟨a, b, rfl⟩ := eq_of_readTwo hs
    exact absurd (by simp) h
  · rfl

theorem DateTime.ofText?_eq_none (hminus : '-' ∉ s.tail) (hcolon : ':' ∉ s) :
    DateTime.ofText? s = none := by
  rw [DateTime.ofText?, Date.read_eq_none hminus, Time.read_eq_none hcolon]

/-! ### What is no floating-point number -/

variable {negative : Bool} {p : Char → Bool}

theorem splitAt?_of_not (h : ∀ c ∈ s, p c = false) : splitAt? p s = (s, none) := by
  have hd : s.dropWhile (! p ·) = [] := by
    rw [List.dropWhile_eq_nil_iff]
    intro c hc
    rw [h c hc]
    rfl
  rw [splitAt?, hd]

/-- What comes before the split, be there one or not. -/
theorem splitAt?_fst (p : Char → Bool) (s : List Char) :
    (splitAt? p s).1 = s.takeWhile (! p ·) := by
  unfold splitAt?
  split
  · next h => rw [List.takeWhile_eq_self_iff.2 (List.dropWhile_eq_nil_iff.1 h)]
  · rfl

/-- What has neither a point nor an exponent is no floating-point number. -/
theorem decimalFloat?_eq_none (he : 'e' ∉ s) (hE : 'E' ∉ s) (hpoint : '.' ∉ s) :
    decimalFloat? negative s = none := by
  have hmantissa : splitAt? (fun c => c == 'e' || c == 'E') s = (s, none) := by
    refine splitAt?_of_not fun c hc => ?_
    simp [ne_of_mem_of_not_mem hc he, ne_of_mem_of_not_mem hc hE]
  have hwhole : splitAt? (· == '.') s = (s, none) := by
    refine splitAt?_of_not fun c hc => ?_
    simp [ne_of_mem_of_not_mem hc hpoint]
  rw [decimalFloat?, hmantissa]
  dsimp only
  rw [hwhole]
  rfl

theorem digits?_cons_eq_none (h : Digits.value? base c = none) : digits? base (c :: s) = none := by
  unfold digits?
  split
  · next heq => cases heq
  · next heq =>
    obtain ⟨rfl, -⟩ := List.cons.inj heq
    rw [h, Option.map_none]
  · next heq =>
    obtain ⟨rfl, -⟩ := List.cons.inj heq
    rw [h]
  · next heq =>
    obtain ⟨rfl, -⟩ := List.cons.inj heq
    rw [h]

/-- The letter of a prefix is no decimal digit. -/
theorem wholeDigits?_prefixed (radix : Radix) (s : List Char) :
    wholeDigits? ('0' :: radix.letter :: s) = none := by
  have hletter : Digits.value? 10 radix.letter = none := by cases radix <;> rfl
  have hne : radix.letter ≠ '_' := by cases radix <;> decide
  rw [wholeDigits?, digits?, digits?_cons_eq_none hletter]
  · rfl
  · nofun
  · exact fun t ht => hne (List.cons.inj ht).1

/-- **Behind a prefix there is no floating-point number**, even where an `e` is among the
digits: what comes before it has the prefix, so it is no whole part. -/
theorem decimalFloat?_prefixed (radix : Radix) :
    decimalFloat? negative ('0' :: radix.letter :: s) = none := by
  have hfront : ∃ t, (splitAt? (· == '.') (splitAt? (fun c => c == 'e' || c == 'E')
      ('0' :: radix.letter :: s)).1).1 = '0' :: radix.letter :: t := by
    rw [splitAt?_fst, splitAt?_fst]
    cases radix <;> exact ⟨_, rfl⟩
  obtain ⟨t, ht⟩ := hfront
  unfold decimalFloat?
  dsimp only
  rw [ht, wholeDigits?_prefixed]
  split <;> rfl

/-- **What starts with a digit, behind an optional sign, can only be an integer** if it is
neither a date-time nor a floating-point number. -/
theorem scalarOf?_eq_integerOf? (hcut : cutSign text = (negative, c :: s)) (hc : c.isDigit = true)
    (hfloat : decimalFloat? negative (c :: s) = none) (hminus : '-' ∉ text.tail)
    (hcolon : ':' ∉ text) : scalarOf? text = integerOf? text := by
  have hboolean : booleanOf? text = none := by
    unfold booleanOf?
    split
    · next heq =>
      subst heq
      cases hcut
      cases hc
    · split
      · next heq =>
        subst heq
        cases hcut
        cases hc
      · rfl
  have hword : ∀ d t, d.isDigit = false → c :: s ≠ d :: t := fun d t hd he =>
    ne_of_holds hc hd (List.cons.inj he).1
  have hnofloat : floatOf? text = none := by
    rw [floatOf?, hcut]
    dsimp only
    rw [if_neg (hword _ _ rfl), if_neg (hword _ _ rfl), hfloat]
  rw [scalarOf?, hboolean, DateTime.ofText?_eq_none hminus hcolon, hnofloat]
  rfl

/-! ### Integers -/

theorem Sign.cutSign_append (sign : Sign) (hc : c.isDigit = true) :
    ∃ negative, cutSign (sign.text ++ c :: s) = (negative, c :: s) ∧
      ∀ n, withSign negative n = sign.of n := by
  cases sign with
  | absent =>
    refine ⟨false, ?_, fun _ => rfl⟩
    show cutSign (c :: s) = _
    unfold cutSign
    split
    · next heq => exact absurd (List.cons.inj heq).1 (ne_of_holds hc rfl)
    · next heq => exact absurd (List.cons.inj heq).1 (ne_of_holds hc rfl)
    · rfl
  | plus => exact ⟨false, rfl, fun _ => rfl⟩
  | minus => exact ⟨true, rfl, fun _ => rfl⟩

theorem Sign.not_mem_append (sign : Sign) (hplus : c ≠ '+') (hminus : c ≠ '-') (h : c ∉ text) :
    c ∉ sign.text ++ text := by
  cases sign with
  | absent => exact h
  | plus => exact List.not_mem_cons_of_ne_of_not_mem hplus h
  | minus => exact List.not_mem_cons_of_ne_of_not_mem hminus h

/-- A sign stands nowhere but in front. -/
theorem Sign.not_mem_tail (sign : Sign) (h : c ∉ text) : c ∉ (sign.text ++ text).tail := by
  cases sign with
  | absent => exact fun hmem => h (List.mem_of_mem_tail hmem)
  | plus => exact h
  | minus => exact h

/-- What has no letters behind its sign has no prefix. -/
theorem integerOf?_of_not_mem {negative : Bool} (hcut : cutSign text = (negative, s))
    (hb : 'b' ∉ text) (ho : 'o' ∉ text) (hx : 'x' ∉ text) : integerOf? text =
      (wholeDigits? s).bind fun ds => integer? (withSign negative (Digits.toNat 10 ds)) := by
  unfold integerOf?
  split
  · exact absurd (by simp) hx
  · exact absurd (by simp) ho
  · exact absurd (by simp) hb
  · rw [hcut]

/-- In decimal, an integer is read as the number that it is. -/
theorem scalarOf?_decimal (sign : Sign) (h : DigitsSpelled 10 digits text)
    (short : digits.head? = some 0 → digits = [0]) :
    scalarOf? (sign.text ++ text) = integer? (sign.of (Nat.ofDigits 10 digits.reverse)) := by
  have hletter : ∀ c, Digits.value? 10 c = none → c ≠ '_' → c ≠ '+' → c ≠ '-' →
      c ∉ sign.text ++ text :=
    fun c hvalue hc hplus hminus => sign.not_mem_append hplus hminus (h.not_mem hc hvalue)
  have hfloat (negative : Bool) : decimalFloat? negative text = none :=
    decimalFloat?_eq_none (h.not_mem (by decide) rfl) (h.not_mem (by decide) rfl)
      (h.not_mem (by decide) rfl)
  obtain ⟨d, c, s, rfl, hd⟩ := h.exists_cons
  obtain ⟨negative, hcut, hsign⟩ := sign.cutSign_append (s := s) hd.isDigit
  calc scalarOf? (sign.text ++ c :: s)
      = integerOf? (sign.text ++ c :: s) :=
        scalarOf?_eq_integerOf? hcut hd.isDigit (hfloat negative)
          (sign.not_mem_tail (h.not_mem (by decide) rfl))
          (hletter ':' rfl (by decide) (by decide) (by decide))
    _ = (wholeDigits? (c :: s)).bind fun ds =>
          integer? (withSign negative (Digits.toNat 10 ds)) :=
        integerOf?_of_not_mem hcut (hletter 'b' rfl (by decide) (by decide) (by decide))
          (hletter 'o' rfl (by decide) (by decide) (by decide))
          (hletter 'x' rfl (by decide) (by decide) (by decide))
    _ = integer? (sign.of (Nat.ofDigits 10 digits.reverse)) := by
        rw [wholeDigits?_eq_some_iff.2 ⟨h, short⟩, Option.bind_some, hsign, toNat_eq_ofDigits]

theorem integerOf?_prefixed (radix : Radix) (s : List Char) :
    integerOf? ('0' :: radix.letter :: s) =
      (digits? radix.base s).bind fun ds => integer? (Digits.toNat radix.base ds) := by
  cases radix <;> rfl

/-- Behind a prefix, an integer is read as the number that it is. -/
theorem scalarOf?_prefixed (radix : Radix) (h : DigitsSpelled radix.base digits text) :
    scalarOf? ('0' :: radix.letter :: text) =
      integer? (Nat.ofDigits radix.base digits.reverse : Nat) := by
  have hletter : '-' ≠ radix.letter ∧ ':' ≠ radix.letter := by cases radix <;> decide
  have hminus : '-' ∉ radix.letter :: text :=
    List.not_mem_cons_of_ne_of_not_mem hletter.1 (h.not_mem (by decide) rfl)
  have hcolon : ':' ∉ '0' :: radix.letter :: text :=
    List.not_mem_cons_of_ne_of_not_mem (by decide)
      (List.not_mem_cons_of_ne_of_not_mem hletter.2 (h.not_mem (by decide) rfl))
  have hcut : cutSign ('0' :: radix.letter :: text) = (false, '0' :: radix.letter :: text) := rfl
  calc scalarOf? ('0' :: radix.letter :: text)
      = integerOf? ('0' :: radix.letter :: text) :=
        scalarOf?_eq_integerOf? hcut rfl (decimalFloat?_prefixed radix) hminus hcolon
    _ = (digits? radix.base text).bind fun ds => integer? (Digits.toNat radix.base ds) :=
        integerOf?_prefixed radix text
    _ = integer? (Nat.ofDigits radix.base digits.reverse : Nat) := by
        rw [h.digits?_eq, Option.bind_some, toNat_eq_ofDigits]

theorem DigitsSpelled.isLexemeChar (h : DigitsSpelled base digits text) :
    ∀ c ∈ text, isLexemeChar c = true := by
  intro c hc
  rcases h.forall_mem c hc with rfl | ⟨d, hd⟩
  · rfl
  · simp [Toml.isLexemeChar, hd.isAlphanum]

namespace IntegerSpelled

variable {i : Int}

theorem ne_nil (h : IntegerSpelled i text) : text ≠ [] := by
  cases h with
  | decimal sign h =>
    obtain ⟨d, c, s, rfl, -⟩ := h.exists_cons
    simp
  | prefixed => simp

theorem isLexemeChar (h : IntegerSpelled i text) : ∀ c ∈ text, isLexemeChar c = true := by
  cases h with
  | decimal sign h =>
    have hsign : sign.text.all Toml.isLexemeChar = true := by cases sign <;> rfl
    exact List.forall_mem_append.2 ⟨List.all_eq_true.1 hsign, h.isLexemeChar⟩
  | prefixed radix h =>
    have hletter : Toml.isLexemeChar radix.letter = true := by cases radix <;> rfl
    exact List.forall_mem_cons.2 ⟨rfl, List.forall_mem_cons.2 ⟨hletter, h.isLexemeChar⟩⟩

/-- **An integer is read as the number that it is** if 64 bits hold it, and as nothing
otherwise. -/
theorem scalarOf?_eq (h : IntegerSpelled i text) : scalarOf? text = integer? i := by
  cases h with
  | decimal sign h short => exact scalarOf?_decimal sign h short
  | prefixed radix h => exact scalarOf?_prefixed radix h

end IntegerSpelled

/-! ### Nothing else is an integer -/

theorem exists_sign (text : List Char) : ∃ sign : Sign,
    sign.text ++ (cutSign text).2 = text ∧ ∀ n, withSign (cutSign text).1 n = sign.of n := by
  unfold cutSign
  split
  · exact ⟨.plus, rfl, fun _ => rfl⟩
  · exact ⟨.minus, rfl, fun _ => rfl⟩
  · exact ⟨.absent, rfl, fun _ => rfl⟩

theorem integerSpelled_of_integerOf? {scalar : Scalar} (h : integerOf? text = some scalar) :
    ∃ i, IntegerSpelled i text ∧ integer? i = some scalar := by
  have hradix (radix : Radix) (s : List Char)
      (hs : integerOf? ('0' :: radix.letter :: s) = some scalar) :
      ∃ i, IntegerSpelled i ('0' :: radix.letter :: s) ∧ integer? i = some scalar := by
    rw [integerOf?_prefixed] at hs
    obtain ⟨digits, hdigits, hi⟩ := Option.bind_eq_some_iff.1 hs
    rw [toNat_eq_ofDigits] at hi
    exact ⟨_, .prefixed radix (digitsSpelled_iff.2 hdigits), hi⟩
  unfold integerOf? at h
  split at h
  · exact hradix .hexadecimal _ h
  · exact hradix .octal _ h
  · exact hradix .binary _ h
  · have hdecimal : (wholeDigits? (cutSign text).2).bind (fun ds =>
        integer? (withSign (cutSign text).1 (Digits.toNat 10 ds))) = some scalar := h
    obtain ⟨sign, htext, hsign⟩ := exists_sign text
    obtain ⟨digits, hdigits, hi⟩ := Option.bind_eq_some_iff.1 hdecimal
    obtain ⟨hdigits, short⟩ := wholeDigits?_eq_some_iff.1 hdigits
    have hspelled := IntegerSpelled.decimal sign hdigits short
    rw [htext, ← hsign, ← toNat_eq_ofDigits] at hspelled
    exact ⟨_, hspelled, hi⟩

theorem floatOf?_ne_integer (text : List Char) (i : Int) : floatOf? text ≠ some (.integer i) := by
  unfold floatOf? decimalFloat?
  dsimp only
  repeat' split
  all_goals nofun

theorem booleanOf?_ne_integer (text : List Char) (i : Int) :
    booleanOf? text ≠ some (.integer i) := by
  unfold booleanOf?
  repeat' split
  all_goals nofun

/-- **The lexemes that are read as an integer are the spellings of it**, and it is one of 64
bits. -/
theorem scalarOf?_eq_integer_iff {i : Int} : scalarOf? text = some (.integer i) ↔
    IntegerSpelled i text ∧ leastInteger ≤ i ∧ i ≤ greatestInteger := by
  constructor
  · intro h
    have hlast : integerOf? text = some (.integer i) := by
      simp only [scalarOf?, Option.orElse_eq_some] at h
      rcases h with hboolean | ⟨-, hdateTime | ⟨-, hfloat | ⟨-, hlast⟩⟩⟩
      · exact absurd hboolean (booleanOf?_ne_integer text i)
      · obtain ⟨d, -, hd⟩ := Option.map_eq_some_iff.1 hdateTime
        cases hd
      · exact absurd hfloat (floatOf?_ne_integer text i)
      · exact hlast
    obtain ⟨j, hspelled, hj⟩ := integerSpelled_of_integerOf? hlast
    unfold integer? at hj
    split at hj
    · next hbounds =>
      obtain rfl := Scalar.integer.inj (Option.some.inj hj)
      exact ⟨hspelled, hbounds⟩
    · cases hj
  · rintro ⟨h, hi⟩
    rw [h.scalarOf?_eq, integer?, if_pos hi]

end WorkspaceFacts.Toml
