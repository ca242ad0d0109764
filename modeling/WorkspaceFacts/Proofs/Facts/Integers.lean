import WorkspaceFacts.Manifest
import WorkspaceFacts.Proofs.Toml.Reading.Sources

/-!
# Integers in a manifest are exact or refused

An entry of a manifest whose value is spelled as an integer has this integer as its value if 64
bits hold it; otherwise the text is no document (`WorkspaceFacts.Manifest.parse_integer`). So no
integer is cut off, wrapped around or rounded, and none is taken for a date-time or a
floating-point number.

What there is to know about integers is known of their lexemes already
(`WorkspaceFacts.Toml.IntegerSpelled.scalarOf?_eq`); here the lexeme is put into a source, whose
layouts are all read alike.
-/

namespace WorkspaceFacts

open Toml Source

namespace Toml.Source

/-- An integer as it is typed. -/
def integerWord {i : Int} {text : List Char} (h : IntegerSpelled i text) : ScalarWord :=
  ⟨text, .lexeme h.ne_nil h.isLexemeChar⟩

/-- Wherever an integer stands in a source, it means itself if 64 bits hold it. -/
theorem scalar?_integerWord {i : Int} {text : List Char} (h : IntegerSpelled i text) :
    (integerWord h).scalar? = integer? i := by
  obtain ⟨c, s, rfl⟩ := List.exists_cons_of_ne_nil h.ne_nil
  have hcut := cutLexeme_append_self h.isLexemeChar (.nothing isBlankText_nil)
  have hread := readScalar_of_cutLexeme (h.isLexemeChar c List.mem_cons_self) hcut
  rw [List.append_nil] at hread
  rw [ScalarWord.scalar?, integerWord, hread, h.scalarOf?_eq]
  cases integer? i <;> rfl

end Toml.Source

namespace Manifest

/-- A text with one assignment of a scalar is a manifest with this entry, or is none where the word
means no scalar. -/
theorem parse_entry (path : WorkspaceFacts.Path) (key : KeyWord) (word : ScalarWord) :
    parse path (String.ofList (key.text ++ " = ".toList ++ word.text)) =
      match word.scalar? with
      | some scalar => .ok ⟨path, [(key.key, .scalar scalar)]⟩
      | none => .error (.parse path) := by
  have hkey : typed.path (.last key) ([] ++ key.text ++ [' ']) :=
    typed_last isBlankText_nil isBlankText_space
  have hentry : StatementOf.Spelled typed (.entry (.last key) (.scalar word))
      ([] ++ key.text ++ [' '] ++ '=' :: ([' '] ++ word.text)) :=
    .entry hkey isBlankText_space (.scalar rfl)
  have hlaid : LaidOut [.entry (.last key) (.scalar word)] _ :=
    .last .nil hentry (.blanks isBlankText_nil)
  have htext : [] ++ ([] ++ key.text ++ [' '] ++ '=' :: ([' '] ++ word.text) ++ []) =
      key.text ++ " = ".toList ++ word.text := by
    simp
  rw [htext] at hlaid
  have hmeans : meaning.statements? [.entry (.last key) (.scalar word)] =
      word.scalar?.map fun scalar => [.entry [key.key] (.scalar scalar)] := by
    rw [Meaning.statements?, Meaning.statement?, Meaning.term?]
    show ((assigned? [key.key] (word.scalar?.map TermOf.scalar)).map _).bind _ = _
    cases word.scalar? <;> rfl
  rw [parse, Document.parse?, String.toList_ofList, hlaid.ofText? readAs_typed (.refl _), hmeans]
  cases word.scalar? <;> rfl

/-- **Integers are read exactly or refused**, whatever their length, base and separators: the
manifest has the number that the digits amount to if it is one of 64 bits, and the text is
refused otherwise. -/
theorem parse_integer (path : WorkspaceFacts.Path) {n : Int} {text : List Char}
    (h : IntegerSpelled n text) :
    parse path (String.ofList ("k = ".toList ++ text)) =
      if -2 ^ 63 ≤ n ∧ n ≤ 2 ^ 63 - 1 then .ok ⟨path, [("k", .scalar (.integer n))]⟩
      else .error (.parse path) := by
  have hentry : parse path (String.ofList ("k = ".toList ++ text)) =
      match (integerWord h).scalar? with
      | some scalar => .ok ⟨path, [("k", .scalar scalar)]⟩
      | none => .error (.parse path) :=
    parse_entry path ⟨"k", "k".toList, keySpelled_bare (by decide) rfl⟩ (integerWord h)
  have hleast : leastInteger = -2 ^ 63 := rfl
  have hgreatest : greatestInteger = 2 ^ 63 - 1 := rfl
  rw [hentry, scalar?_integerWord, integer?, hleast, hgreatest]
  by_cases hn : -2 ^ 63 ≤ n ∧ n ≤ 2 ^ 63 - 1
  · rw [if_pos hn, if_pos hn]
  · rw [if_neg hn, if_neg hn]

/-- The least integer with an underscore and the greatest one with zeros in front are read; the
number next to the greatest is refused, and so is the greatest of 64 bits without a sign. -/
theorem parse_integer_boundary :
    parse ⟨[]⟩ "k = -9_223372036854775808" =
      .ok ⟨⟨[]⟩, [("k", .scalar (.integer (-9223372036854775808)))]⟩ ∧
    parse ⟨[]⟩ "k = 0x007fff_FFFF_ffff_ffff" =
      .ok ⟨⟨[]⟩, [("k", .scalar (.integer 9223372036854775807))]⟩ ∧
    parse ⟨[]⟩ "k = +9223372036854775808" = .error (.parse ⟨[]⟩) ∧
    parse ⟨[]⟩ "k = 0xffffffffffffffff" = .error (.parse ⟨[]⟩) := by
  have hleast := @IntegerSpelled.decimal [9, 2, 2, 3, 3, 7, 2, 0, 3, 6, 8, 5, 4, 7, 7, 5, 8, 0, 8]
    "9_223372036854775808".toList .minus (by decide) (by decide)
  have hgreatest := @IntegerSpelled.prefixed (0 :: 0 :: 7 :: .replicate 15 15)
    "007fff_FFFF_ffff_ffff".toList .hexadecimal (by decide)
  have hnext := @IntegerSpelled.decimal [9, 2, 2, 3, 3, 7, 2, 0, 3, 6, 8, 5, 4, 7, 7, 5, 8, 0, 8]
    "9223372036854775808".toList .plus (by decide) (by decide)
  have hunsigned := @IntegerSpelled.prefixed (.replicate 16 15) "ffffffffffffffff".toList
    .hexadecimal (by decide)
  exact ⟨(parse_integer ⟨[]⟩ hleast).trans (if_pos (by decide)),
    (parse_integer ⟨[]⟩ hgreatest).trans (if_pos (by decide)),
    (parse_integer ⟨[]⟩ hnext).trans (if_neg (by decide)),
    (parse_integer ⟨[]⟩ hunsigned).trans (if_neg (by decide))⟩

end Manifest

end WorkspaceFacts
