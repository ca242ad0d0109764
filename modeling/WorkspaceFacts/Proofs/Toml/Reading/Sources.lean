import WorkspaceFacts.Proofs.Toml.Reading.Statements
import WorkspaceFacts.Proofs.Toml.Source

/-!
# Layouts are read as their source

The words of a source mean keys and scalars, or no scalar at all
(`WorkspaceFacts.Toml.Source.meaning`), and wherever they stand as they were typed they are read
as what they mean (`WorkspaceFacts.Toml.Source.readAs_typed`). So every layout of a source is read
as what the source means, and a source without a meaning has no layout that is read: a lexeme may
be no number, a key path may have too many keys, a term may go down too far. Nothing has to be
known of a source, and two layouts of one are read alike or both refused.
-/

namespace WorkspaceFacts.Toml

variable {text rest : List Char}

/-! ### Scalars -/

/-- A date takes its time along, across the space between them. -/
theorem cutLexeme_dateTime {d : Date} {digit : Char} {more : List Char} (hd : d.Fits)
    (hdigit : digit.isDigit = true) (chars : ∀ c ∈ more, isLexemeChar c = true)
    (hr : EndsTerm rest) : cutLexeme (d.text ++ ' ' :: digit :: more ++ rest) =
      (d.text ++ ' ' :: digit :: more, rest) := by
  have hdate : ∀ c ∈ d.text, isLexemeChar c = true := fun c => Date.isLexemeChar_of_mem_text
  have htime : ∀ c ∈ digit :: more, isLexemeChar c = true :=
    List.forall_mem_cons.2 ⟨isLexemeChar_of_isDigit hdigit, chars⟩
  have hspace : NotFirst isLexemeChar (' ' :: (digit :: more ++ rest)) := notFirst_cons rfl
  have hend : NotFirst isLexemeChar rest := hr.notFirst rfl
  have hlexeme : isDateLexeme d.text = true := by
    have hread : Date.read (d.text ++ []) = some (d, []) := Date.read_text hd
    rw [List.append_nil] at hread
    rw [isDateLexeme, hread]
  rw [List.append_assoc, List.cons_append, cutLexeme, takeWhile_append_self hdate hspace,
    dropWhile_append_self hdate hspace, List.cons_append]
  simp only [hdigit, hlexeme, Bool.and_self, if_true]
  rw [← List.cons_append, takeWhile_append_self htime hend, dropWhile_append_self htime hend]

theorem Date.exists_cons (d : Date) : ∃ c t, d.text = c :: t ∧ isLexemeChar c = true := by
  have nonempty : d.text ≠ [] := by simp [Date.text]
  obtain ⟨c, t, ht⟩ := List.exists_cons_of_ne_nil nonempty
  exact ⟨c, t, ht, Date.isLexemeChar_of_mem_text (ht ▸ List.mem_cons_self)⟩

namespace IsScalarText

theorem exists_cons (h : IsScalarText text) : ∃ c s, text = c :: s ∧ StartsScalar c := by
  cases h with
  | string h =>
    obtain ⟨c, t, hc, hq⟩ := h.exists_cons
    exact ⟨c, t, hc, .inl hq⟩
  | lexeme nonempty chars =>
    obtain ⟨c, t, rfl⟩ := List.exists_cons_of_ne_nil nonempty
    exact ⟨c, t, rfl, .inr (chars c List.mem_cons_self)⟩
  | @dateTime d =>
    obtain ⟨c, t, ht, hc⟩ := Date.exists_cons d
    rw [ht]
    exact ⟨c, _, rfl, .inr hc⟩

/-- Whatever ends the text of a scalar, the text is read as the same scalar or as none. -/
theorem exists_scalar (h : IsScalarText text) : ∃ scalar : Option Scalar,
    ∀ rest, EndsTerm rest → readScalar (text ++ rest) = scalar.map (·, rest) := by
  cases h with
  | @string s _ h => exact ⟨some (.string (String.ofList s)), fun rest hr => h.readScalar hr⟩
  | lexeme nonempty chars =>
    obtain ⟨c, t, rfl⟩ := List.exists_cons_of_ne_nil nonempty
    exact ⟨_, fun rest hr =>
      readScalar_of_cutLexeme (chars c List.mem_cons_self) (cutLexeme_append_self chars hr)⟩
  | @dateTime d digit more hd hdigit chars =>
    obtain ⟨c, t, ht, hc⟩ := Date.exists_cons d
    refine ⟨scalarOf? (d.text ++ ' ' :: digit :: more), fun rest hr => ?_⟩
    have hcut := cutLexeme_dateTime hd hdigit chars hr
    rw [ht, List.cons_append] at hcut ⊢
    exact readScalar_of_cutLexeme hc hcut

theorem not_mem (h : IsScalarText text) : '\r' ∉ text := by
  cases h with
  | string h => exact h.not_mem
  | lexeme _ chars => exact fun hmem => absurd (chars _ hmem) (by decide)
  | @dateTime d digit more hd hdigit chars =>
    have hdate : '\r' ∉ d.text := fun hmem =>
      absurd (Date.isLexemeChar_of_mem_text hmem) (by decide)
    have hmore : '\r' ∉ more := fun hmem => absurd (chars _ hmem) (by decide)
    have hne : digit ≠ '\r' := ne_of_holds hdigit rfl
    simp [hdate, hne.symm, hmore]

end IsScalarText

namespace Source

/-! ### What a source means -/

/-- The scalar that a word stands for, if it stands for one. -/
def ScalarWord.scalar? (word : ScalarWord) : Option Scalar := (readScalar word.text).map Prod.fst

/-- What the words of a source mean. -/
def meaning : Meaning KeyPath ScalarWord where
  keys path := path.words.map KeyWord.key
  scalar? := ScalarWord.scalar?

/-- A key path over words is one over the keys of these words. -/
theorem pathSpelled_of_typed {words : List KeyWord}
    (h : PathSpelled (fun word text => text = word.text) words text) :
    PathSpelled KeySpelled (words.map KeyWord.key) text := by
  induction h with
  | @last word _ _ _ hb h ha => exact .last hb (h ▸ word.spelled) ha
  | @cons word _ _ _ _ _ hb h ha _ ih => exact .cons hb (h ▸ word.spelled) ha ih

theorem ScalarWord.read (word : ScalarWord) (hr : EndsTerm rest) :
    readScalar (word.text ++ rest) = word.scalar?.map (·, rest) := by
  obtain ⟨scalar, hread⟩ := word.isScalarText.exists_scalar
  have halone := hread [] (.nothing isBlankText_nil)
  rw [List.append_nil] at halone
  rw [hread rest hr, ScalarWord.scalar?, halone]
  cases scalar <;> rfl

/-- **Words that stand as they were typed are read as what they mean.** -/
theorem readAs_typed : typed.ReadAs meaning where
  path h := pathSpelled_of_typed h
  read {word} _ _ h hr := h ▸ word.read hr
  starts {word} _ h := h ▸ word.isScalarText.exists_cons
  noReturn {word} _ h := h ▸ word.isScalarText.not_mem

/-! ### The plain layout -/

theorem KeyPath.typed_plain (path : KeyPath) : typed.path path path.plain := by
  induction path with
  | last word =>
    have h := @typed_last word [] [] isBlankText_nil isBlankText_nil
    rwa [List.append_nil] at h
  | cons word path ih =>
    have h := @typed_cons word path [] [] _ isBlankText_nil isBlankText_nil ih
    rwa [List.append_nil] at h

mutual

theorem Term.laidOut_plain : (t : Term) → Part.Spelled typed (.term t) (Term.plain t)
  | .scalar _ => .scalar rfl
  | .array items => .array (laidOut_plainItems items)
  | .table [] => .emptyTable isBlankText_nil
  | .table (assignment :: assignments) =>
    .table (laidOut_plainAssignments (assignment :: assignments) (List.cons_ne_nil _ _))

theorem laidOut_plainItems : (items : List Term) →
    Part.Spelled typed (.items items) (plainItems items)
  | [] => .noItem .nil
  | [t] => .lastItem .nil (Term.laidOut_plain t) .nil
  | t :: t' :: items => .item .nil (Term.laidOut_plain t) .nil (laidOut_plainItems (t' :: items))

theorem laidOut_plainAssignments : (assignments : List (KeyPath × Term)) → assignments ≠ [] →
    Part.Spelled typed (.assignments assignments) (plainAssignments assignments)
  | [], h => absurd rfl h
  | [(path, t)], _ =>
    .lastAssignment path.typed_plain isBlankText_nil (Term.laidOut_plain t) isBlankText_nil
  | (path, t) :: next :: assignments, _ =>
    .assignment path.typed_plain isBlankText_nil (Term.laidOut_plain t) isBlankText_nil
      (laidOut_plainAssignments (next :: assignments) (List.cons_ne_nil _ _))

end

theorem Statement.laidOut_plain (statement : Statement) :
    statement.Spelled typed (Statement.plain statement) := by
  cases statement with
  | header path => exact .header path.typed_plain
  | arrayHeader path => exact .arrayHeader path.typed_plain
  | entry path t =>
    exact .entry path.typed_plain isBlankText_nil (Term.laidOut_plain t)

/-- **The plain layout is a layout.** -/
theorem laidOut_plain (statements : List Statement) : LaidOut statements (plain statements) := by
  induction statements with
  | nil => exact .nil .nil (.blanks isBlankText_nil)
  | cons statement statements ih =>
    have h := AllSpelled.cons .nil (Statement.laidOut_plain statement) (.blanks isBlankText_nil) ih
    rw [List.nil_append, List.nil_append] at h
    rw [plain, List.flatMap_cons, List.append_assoc]
    exact h

end Source

end WorkspaceFacts.Toml
