import Mathlib.Algebra.Group.Nat.Defs
import Mathlib.Data.List.Induction
import WorkspaceFacts.Text.Alphanumeric

/-!
# Runs of characters, and numbers that are written with digits

A word is taken from the front of a text as the longest run of its characters. The run is
the word again if what stands behind it does not start with such a character
(`WorkspaceFacts.NotFirst`); the readers of every language here take their words in that
way.

The decimal digits of a number, without zeros in front
(`WorkspaceFacts.Digits.digits_ne_zero_cons`) or padded to a width
(`WorkspaceFacts.Digits.padded_succ`), and the number that digits amount to. Both ways of
writing a number give the number back (`WorkspaceFacts.Digits.toNat_digits`,
`WorkspaceFacts.Digits.toNat_padded`).
-/

namespace WorkspaceFacts

/-! ### Runs -/

section Runs

variable {p : Char → Bool} {text rest : List Char}

theorem ne_of_holds {c d : Char} (h : p c = true) (hd : p d = false) : c ≠ d := by
  rintro rfl
  rw [h] at hd
  cases hd

/-- The text does not start with a character that has the property. -/
def NotFirst (p : Char → Bool) (text : List Char) : Prop := ∀ c s, text = c :: s → p c = false

theorem notFirst_cons {c : Char} (h : p c = false) : NotFirst p (c :: rest) := by
  rintro _ _ ⟨⟩
  exact h

/-- Text of other characters does not start a run, and neither does what stands behind it. -/
theorem notFirst_append (h : ∀ c ∈ text, p c = false) (hr : NotFirst p rest) :
    NotFirst p (text ++ rest) := by
  cases text with
  | nil => exact hr
  | cons c text => exact notFirst_cons (h c List.mem_cons_self)

/-- **A run ends where something else follows.** -/
theorem takeWhile_append_self (h : ∀ c ∈ text, p c = true) (hr : NotFirst p rest) :
    (text ++ rest).takeWhile p = text := by
  rw [List.takeWhile_append_of_pos h]
  cases rest with
  | nil => simp
  | cons c rest => simp [hr c rest rfl]

theorem dropWhile_append_self (h : ∀ c ∈ text, p c = true) (hr : NotFirst p rest) :
    (text ++ rest).dropWhile p = rest := by
  rw [List.dropWhile_append_of_pos h]
  cases rest with
  | nil => rfl
  | cons c rest => simp [hr c rest rfl]

end Runs

/-! ### Digits -/

namespace Digits

/-- The number a digit stands for. -/
def ofDigit (c : Char) : Nat := c.toNat - '0'.toNat

variable {c : Char} {s : List Char} {w n : Nat}

theorem value?_of_isDigit (h : c.isDigit = true) : value? 10 c = some (ofDigit c) := by
  have hc := Char.isDigit_iff_toNat.1 h
  have hle : '0' ≤ c ∧ c ≤ '9' := hc
  have hlt : c.toNat - '0'.toNat < 10 := by
    have h₁ : '0'.toNat = 48 := rfl
    have h₂ : '9'.toNat = 57 := rfl
    omega
  rw [value?, hexValue?, if_pos hle, Option.filter_some, if_pos (by simpa using hlt)]
  rfl

/-- The digits amount to what the library makes of their characters. -/
theorem toNat_map_ofDigit (s : List Char) : toNat 10 (s.map ofDigit) = Nat.ofDigitChars 10 s 0 := by
  rw [toNat, List.foldl_map, Nat.ofDigitChars_eq_foldl]
  congr
  funext n c
  rw [Nat.mul_comm]
  rfl

theorem isDigit_digitChar (h : n < 10) : n.digitChar.isDigit = true :=
  Nat.isDigit_of_mem_toDigits (b := 10) (n := n) (by decide) (by decide)
    (by rw [Nat.toDigits_of_lt_base h]; exact List.mem_singleton_self _)

theorem ofDigit_digitChar (h : n < 10) : ofDigit n.digitChar = n :=
  Nat.toNat_digitChar_sub_48_of_lt_ten h

/-! ### Hexadecimal digits -/

/-- Hexadecimal digits are read back. -/
theorem value?_hexDigit : ∀ n < 16, value? 16 (hexDigit n) = some n := by
  decide

theorem lt_of_value? {base d : Nat} (h : value? base c = some d) : d < base := by
  rw [value?, Option.filter_eq_some_iff] at h
  simpa using h.2

/-- Digits of a base amount to less than its power. -/
theorem toNat_lt {base : Nat} {digits : List Nat} (h : ∀ d ∈ digits, d < base) :
    toNat base digits < base ^ digits.length := by
  induction digits using List.reverseRecOn with
  | nil => exact Nat.one_pos
  | append_singleton digits d ih =>
    have hd := h d (by simp)
    have hlt := ih fun e he => h e (List.mem_append_left _ he)
    rw [toNat, List.foldl_append, List.length_append, List.length_singleton, Nat.pow_succ]
    show toNat base digits * base + d < _
    calc toNat base digits * base + d < toNat base digits * base + base := by omega
      _ = (toNat base digits + 1) * base := by rw [Nat.succ_mul]
      _ ≤ base ^ digits.length * base := Nat.mul_le_mul_right _ hlt

/-! ### Without zeros in front -/

theorem isDigit_of_mem_digits (h : c ∈ Nat.toDigits 10 n) : c.isDigit = true :=
  Nat.isDigit_of_mem_toDigits (by decide) (by decide) h

/-- **A number is read back from its digits.** -/
theorem toNat_digits (n : Nat) : toNat 10 ((Nat.toDigits 10 n).map ofDigit) = n := by
  rw [toNat_map_ofDigit, Nat.ofDigitChars_ten_toDigits]

/-- The digits of a number start with a zero only if they are a single one. -/
theorem digits_ne_zero_cons {d : Char} : Nat.toDigits 10 n ≠ '0' :: d :: s := by
  -- The first digit is that of what is left when the last digit is taken off.
  have head : ∀ n, n ≠ 0 → (Nat.toDigits 10 n).head? ≠ some '0' := by
    intro n
    induction n using Nat.strongRecOn with
    | ind n ih =>
      intro hn h
      rw [Nat.toDigits_eq_if (by decide)] at h
      split at h
      · exact hn (Nat.digitChar_eq_zero.1 (Option.some.inj h))
      · rw [List.head?_append, Option.or_of_isSome (by simp)] at h
        exact ih (n / 10) (by omega) (by omega) h
  intro h
  by_cases hn : n = 0
  · rw [hn, Nat.toDigits_zero] at h
    cases h
  · exact head n hn (by rw [h]; rfl)

/-! ### Padded to a width -/

theorem padded_eq (w n : Nat) : padded w n =
    List.replicate (w - (Nat.toDigits 10 n).length) '0' ++ Nat.toDigits 10 n := by
  rw [padded, Nat.toString_eq_repr, Nat.toList_repr]

theorem padded_one (h : n < 10) : padded 1 n = [n.digitChar] := by
  rw [padded_eq, Nat.toDigits_of_lt_base h]
  rfl

/-- The last digit of a padded number, after the others. -/
theorem padded_succ (hw : 0 < w) :
    padded (w + 1) n = padded w (n / 10) ++ [(n % 10).digitChar] := by
  rw [padded_eq, padded_eq]
  by_cases hn : n < 10
  · rw [Nat.toDigits_of_lt_base hn, Nat.div_eq_of_lt hn, Nat.mod_eq_of_lt hn, Nat.toDigits_zero]
    have hsplit : List.replicate w '0' = List.replicate (w - 1) '0' ++ ['0'] := by
      rw [← List.replicate_succ', Nat.sub_add_cancel hw]
    simp [hsplit]
  · rw [Nat.toDigits_of_base_le (by decide) (by omega), List.length_append, List.length_singleton,
      Nat.add_sub_add_right, List.append_assoc]

theorem isDigit_of_mem_padded (h : c ∈ padded w n) : c.isDigit = true := by
  rw [padded_eq, List.mem_append] at h
  rcases h with h | h
  · rw [List.eq_of_mem_replicate h]
    rfl
  · exact isDigit_of_mem_digits h

/-- **A number is read back from its padded digits**, whatever the width. -/
theorem toNat_padded (w n : Nat) : toNat 10 ((padded w n).map ofDigit) = n := by
  rw [toNat_map_ofDigit, padded_eq, Nat.ofDigitChars_append, Nat.ofDigitChars_replicate_zero,
    Nat.mul_zero, Nat.ofDigitChars_ten_toDigits]

/-- A number with room in the width fills it exactly. -/
theorem length_padded (hw : 0 < w) (h : n < 10 ^ w) : (padded w n).length = w := by
  have hle := (Nat.length_toDigits_le_iff (by decide) hw).2 h
  rw [padded_eq, List.length_append, List.length_replicate]
  omega

end Digits

end WorkspaceFacts
