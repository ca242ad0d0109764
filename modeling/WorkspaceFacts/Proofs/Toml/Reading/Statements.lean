import WorkspaceFacts.Proofs.Toml.Reading.Terms
import WorkspaceFacts.Toml.Document

/-!
# Documents are read back

A document that was spelled for a list of statements is read back as that list, exactly if
none of its terms goes down further than the nesting limit
(`WorkspaceFacts.Toml.Statement.ofText?_of_allSpelled`). What is settled about a text
before its statements are read does not matter here: nothing that is spelled has a
byte-order mark in front or a carriage return anywhere.
-/

namespace WorkspaceFacts.Toml

variable {keys : List String} {text rest : List Char}

/-! ### One statement -/

theorem skipTrivia_skipBlanks (s : List Char) :
    skipTrivia false (skipBlanks s) = skipTrivia false s := by
  have hblanks : IsBlankText (s.takeWhile isBlank) := fun c hc => List.mem_takeWhile_imp hc
  conv => rhs; rw [← List.takeWhile_append_dropWhile (p := isBlank) (l := s)]
  rw [skipTrivia_append hblanks.isTrivia]
  rfl

/-- A key path starts with a blank or with a key. -/
theorem PathSpelled.starts {c : Char} {s : List Char} (h : PathSpelled KeySpelled keys text)
    (hs : text ++ rest = c :: s) : isBlank c = true ∨ StartsKey c := by
  obtain ⟨before, key, word, more, hb, hk, he⟩ := h.exists_key rest
  rw [he] at hs
  cases before with
  | nil =>
    obtain ⟨d, t, rfl, hd⟩ := hk.exists_cons
    obtain rfl := (List.cons.inj hs).1
    exact .inr hd
  | cons b before =>
    obtain rfl := (List.cons.inj hs).1
    exact .inl (hb b List.mem_cons_self)

theorem StartsKey.not_skipped {c : Char} (h : StartsKey c) :
    isBlank c = false ∧ c ≠ '\n' ∧ c ≠ '#' ∧ c ≠ '[' := by
  exact ⟨h.isBlank_eq_false, h.ne (by decide), h.ne (by decide), h.ne (by decide)⟩

/-- What starts with a key is read as an assignment. -/
theorem readStatement_of_startsKey {c : Char} {s : List Char} (hc : StartsKey c) :
    readStatement (c :: s) = ((assignment (termPhrase nestingLimit)).read (c :: s)).map
      fun ((path, value), rest) => (.entry path value, rest) := by
  have hne := hc.not_skipped.2.2.2
  unfold readStatement
  split
  · next heq => exact absurd (List.cons.inj heq).1 hne
  · next heq => exact absurd (List.cons.inj heq).1 hne
  · cases (assignment (termPhrase nestingLimit)).read (c :: s) <;> rfl

/-! ### The rest of a line -/

theorem skipComment_append {text : List Char} (h : IsComment text) (rest : List Char) :
    skipComment (text ++ rest) = skipComment rest := by
  induction text with
  | nil => rfl
  | cons c text ih =>
    have hc : isLineChar c = true := isLineChar_iff.2 (h c List.mem_cons_self)
    have hne : c ≠ '\n' := ne_of_holds hc rfl
    rw [List.cons_append, skipComment, if_neg hne, if_pos hc]
    exact ih fun d hd => h d (List.mem_cons_of_mem _ hd)

/-- What may stand behind a line, the line end included: there is none behind the last line. -/
inductive AfterLine (rest : List Char) : List Char → Prop
  | lineEnd : AfterLine rest ('\n' :: rest)
  | nothing (h : rest = []) : AfterLine rest []

/-- **The rest of a line is left out.** -/
theorem EndsLine.skipLineEnd {after tail : List Char} (h : EndsLine after)
    (ht : AfterLine rest tail) : skipLineEnd (after ++ tail) = some rest := by
  cases h with
  | blanks hb =>
    rw [Toml.skipLineEnd, skipBlanks_append hb]
    rcases ht with _ | rfl
    · rfl
    · rfl
  | comment hb hc =>
    rw [List.append_assoc, List.cons_append, Toml.skipLineEnd, skipBlanks_append_cons hb rfl]
    show skipComment _ = _
    rw [skipComment_append hc]
    rcases ht with _ | rfl
    · rfl
    · rfl

/-- A line without a statement is left out altogether. -/
theorem EndsLine.skipTrivia {after : List Char} (h : EndsLine after) :
    skipTrivia false after = some [] := by
  cases h with
  | blanks hb =>
    rw [← List.append_nil after, skipTrivia_append hb.isTrivia]
    rfl
  | @comment blanks text hb hc =>
    rw [skipTrivia_append hb.isTrivia, Toml.skipTrivia, if_neg (by simp), if_pos rfl,
      ← List.append_nil text, skipTrivia_comment hc]
    rfl

/-- The rest of a line ends a term. -/
theorem EndsLine.endsTerm {after tail : List Char} (h : EndsLine after)
    (ht : AfterLine rest tail) : EndsTerm (after ++ tail) := by
  cases h with
  | blanks hb =>
    rcases ht with _ | rfl
    · exact .char hb (by decide)
    · rw [List.append_nil]
      exact .nothing hb
  | comment hb hc =>
    rw [List.append_assoc]
    exact .char hb (by decide)

/-! ### A statement and the rest of its line -/

/-- Reads a statement and the rest of its line. -/
def readWholeLine (s : List Char) : Option (Statement × List Char) :=
  (readStatement s).bind fun (statement, s') => (skipLineEnd s').map (statement, ·)

theorem readWholeLine_of_none {s : List Char} (h : readStatement s = none) :
    readWholeLine s = none := by
  rw [readWholeLine, h, Option.bind_none]

theorem readWholeLine_of_some {s s' : List Char} {statement : Statement}
    (h : readStatement s = some (statement, s')) (he : skipLineEnd s' = some rest) :
    readWholeLine s = some (statement, rest) := by
  simp only [readWholeLine, h, Option.bind_some, he, Option.map_some]

/-- **The text reads as the statement**, whatever stands behind it on its line. Where there is
no statement nothing is read. -/
def ReadsStatement (text : List Char) (statement : Option Statement) : Prop :=
  ∀ after tail rest, EndsLine after → AfterLine rest tail →
    ∃ c s, skipTrivia false (text ++ (after ++ tail)) = some (c :: s) ∧
      readWholeLine (c :: s) = statement.map (·, rest)

theorem readsStatement_header {path : List Char} (hp : PathSpelled KeySpelled keys path) :
    ReadsStatement ('[' :: (path ++ [']']))
      (if keys.length < keyLimit then some (.header keys) else none) := by
  intro after tail rest ha ht
  rw [List.cons_append, List.append_assoc, List.singleton_append]
  refine ⟨_, _, skipTrivia_cons rfl (by decide) (by decide), ?_⟩
  have hread : readStatement ('[' :: (path ++ ']' :: (after ++ tail))) =
      if keys.length < keyLimit then some (.header keys, after ++ tail) else none := by
    unfold readStatement
    split
    · next heq =>
      -- A second bracket would have to start the key path.
      exact absurd (hp.starts (List.cons.inj heq).2) (by decide)
    · next heq =>
      obtain rfl := (List.cons.inj heq).2
      rw [hp.read_eq (.inr rfl)]
      by_cases short : keys.length < keyLimit
      · simp only [if_pos short]
      · simp only [if_neg short]
    · next hno => exact absurd rfl (hno _)
  by_cases short : keys.length < keyLimit
  · rw [if_pos short] at hread ⊢
    exact readWholeLine_of_some hread (ha.skipLineEnd ht)
  · rw [if_neg short] at hread ⊢
    exact readWholeLine_of_none hread

theorem readsStatement_arrayHeader {path : List Char} (hp : PathSpelled KeySpelled keys path) :
    ReadsStatement ('[' :: '[' :: (path ++ [']', ']']))
      (if keys.length < keyLimit then some (.arrayHeader keys) else none) := by
  intro after tail rest ha ht
  rw [List.cons_append, List.cons_append, List.append_assoc, List.cons_append,
    List.singleton_append]
  refine ⟨_, _, skipTrivia_cons rfl (by decide) (by decide), ?_⟩
  have hread : keyPath.read (path ++ ']' :: ']' :: (after ++ tail)) =
      if keys.length < keyLimit then some (keys, ']' :: ']' :: (after ++ tail)) else none :=
    hp.read_eq (.inr rfl)
  by_cases short : keys.length < keyLimit
  · rw [if_pos short] at hread ⊢
    refine readWholeLine_of_some ?_ (ha.skipLineEnd ht)
    simp only [readStatement, hread]
  · rw [if_neg short] at hread ⊢
    refine readWholeLine_of_none ?_
    simp only [readStatement, hread]

/-- An assignment takes the blanks behind it along, which the rest of its line may be. -/
theorem Phrase.ReadsAs.entry {a : Option Term} {path before : List Char}
    (h : (termPhrase nestingLimit).ReadsAs text a) (ht : BeginsTerm text)
    (hp : PathSpelled KeySpelled keys path) (hb : IsBlankText before) :
    ReadsStatement (path ++ '=' :: (before ++ text))
      ((assigned? keys a).map fun (keys, t) => .entry keys t) := by
  intro after tail rest ha htail
  rw [List.append_assoc, List.cons_append, List.append_assoc]
  obtain ⟨c, s, hs, hc⟩ := hp.exists_cons ('=' :: (before ++ (text ++ (after ++ tail))))
  obtain ⟨hblank, hline, hcomment, -⟩ := hc.not_skipped
  refine ⟨c, s, ?_, ?_⟩
  · rw [← skipTrivia_skipBlanks, hs, skipTrivia_cons hblank hline hcomment]
  · have hread := h.assignment ht hp hb (ha.endsTerm htail)
    rw [← read_assignment_skipBlanks, hs] at hread
    have hend : skipLineEnd (skipBlanks (after ++ tail)) = some rest := by
      rw [skipLineEnd, skipBlanks_skipBlanks]
      exact ha.skipLineEnd htail
    generalize assigned? keys a = assigned at hread ⊢
    cases assigned with
    | none =>
      refine readWholeLine_of_none ?_
      rw [readStatement_of_startsKey hc, hread]
      rfl
    | some assigned =>
      refine readWholeLine_of_some ?_ hend
      rw [readStatement_of_startsKey hc, hread]
      rfl

/-! ### What statements mean -/

section Meaning

variable {π σ : Type}

/-- The statement that a statement over words means, if it means one. -/
def Meaning.statement? (M : Meaning π σ) : StatementOf π σ → Option Statement
  | .header path =>
    if (M.keys path).length < keyLimit then some (.header (M.keys path)) else none
  | .arrayHeader path =>
    if (M.keys path).length < keyLimit then some (.arrayHeader (M.keys path)) else none
  | .entry path t =>
    (assigned? (M.keys path) (M.term? t nestingLimit)).map fun (keys, value) => .entry keys value

/-- **The statements that statements over words mean**, if each of them means one. -/
def Meaning.statements? (M : Meaning π σ) : List (StatementOf π σ) → Option (List Statement)
  | [] => some []
  | statement :: statements =>
    (M.statement? statement).bind fun a => (M.statements? statements).map (a :: ·)

variable {W : Words π σ} {M : Meaning π σ}

theorem StatementOf.Spelled.readsStatement (hW : W.ReadAs M) {statement : StatementOf π σ}
    (h : statement.Spelled W text) : ReadsStatement text (M.statement? statement) := by
  cases h with
  | header hp => exact readsStatement_header (hW.path hp)
  | arrayHeader hp => exact readsStatement_arrayHeader (hW.path hp)
  | entry hp hb h =>
    exact Phrase.ReadsAs.entry (h.reads hW nestingLimit) (h.beginsTerm hW) (hW.path hp) hb

end Meaning

/-! ### All statements -/

theorem readStatements_eq {c : Char} {s s₁ : List Char} (h : skipTrivia false s = some (c :: s₁)) :
    readStatements s =
      (readWholeLine (c :: s₁)).bind fun (statement, rest) =>
        (readStatements rest).map (statement :: ·) := by
  rw [readStatements]
  split
  · next heq => cases h.symm.trans heq
  · next heq => cases h.symm.trans heq
  · next heq =>
    obtain ⟨rfl, rfl⟩ := List.cons.inj (Option.some.inj (h.symm.trans heq))
    split
    · next hs => rw [readWholeLine_of_none hs, Option.bind_none]
    · next hs =>
      split
      · next he =>
        simp only [readWholeLine, hs, he, Option.bind_some, Option.map_none, Option.bind_none]
      · next he => rw [readWholeLine_of_some hs he, Option.bind_some]

theorem readStatements_nil {s : List Char} (h : skipTrivia false s = some []) :
    readStatements s = some [] := by
  rw [readStatements]
  split
  all_goals simp_all

/-- A statement in front of others, each on its line. -/
theorem ReadsStatement.readStatements {statement : Option Statement}
    {before after tail : List Char} (h : ReadsStatement text statement) (hb : IsTrivia before)
    (ha : EndsLine after) (ht : AfterLine rest tail) :
    readStatements (before ++ (text ++ (after ++ tail))) =
      statement.bind fun statement => (readStatements rest).map (statement :: ·) := by
  obtain ⟨c, s, hs, hread⟩ := h _ _ _ ha ht
  rw [← skipTrivia_append hb] at hs
  rw [readStatements_eq hs, hread]
  cases statement <;> rfl

/-- The last statement, with no line end behind it. -/
theorem ReadsStatement.readStatements_last {statement : Option Statement}
    {before after : List Char} (h : ReadsStatement text statement) (hb : IsTrivia before)
    (ha : EndsLine after) :
    Toml.readStatements (before ++ (text ++ after)) = statement.map ([·]) := by
  -- There is nothing behind the last line.
  have hnil : Toml.readStatements [] = some [] := readStatements_nil rfl
  have hread := h.readStatements hb ha (.nothing rfl)
  rw [List.append_nil, hnil] at hread
  rw [hread]
  cases statement <;> rfl

theorem readStatements_trivia {before after : List Char} (hb : IsTrivia before)
    (ha : EndsLine after) : readStatements (before ++ after) = some [] :=
  readStatements_nil (by rw [skipTrivia_append hb, ha.skipTrivia])

section Meaning

variable {π σ : Type} {W : Words π σ} {M : Meaning π σ} {statements : List (StatementOf π σ)}

/-- **Statements are read as what they mean.** -/
theorem AllSpelled.read (hW : W.ReadAs M) (h : AllSpelled W statements text) :
    readStatements text = M.statements? statements := by
  induction h with
  | nil hb ha => exact readStatements_trivia hb ha
  | last hb h ha =>
    rw [(h.readsStatement hW).readStatements_last hb ha, Meaning.statements?, Meaning.statements?]
    cases M.statement? _ <;> rfl
  | cons hb h ha _ ih =>
    rw [(h.readsStatement hW).readStatements hb ha .lineEnd, ih, Meaning.statements?]

end Meaning

/-! ### The text as a whole -/

theorem unifyLines_cons {c : Char} {s : List Char} (h : c ≠ '\r') :
    unifyLines (c :: s) = (unifyLines s).map (c :: ·) := by
  rw [unifyLines, if_neg h]
  exact fun rest hc _ => h hc

/-- Characters that stand in what is spelled: no carriage return. -/
theorem unifyLines_of_not_mem {s : List Char} (h : '\r' ∉ s) : unifyLines s = some s := by
  induction s with
  | nil => rfl
  | cons c s ih =>
    rw [List.mem_cons, not_or] at h
    rw [unifyLines_cons (Ne.symm h.1), ih h.2, Option.map_some]

theorem dropMark_of_head_ne {s : List Char} (h : s.head? ≠ some '\uFEFF') : dropMark s = s := by
  unfold dropMark
  split
  · exact absurd rfl h
  · rfl

theorem IsBlankText.not_mem {blanks : List Char} (h : IsBlankText blanks) : '\r' ∉ blanks := by
  intro hmem
  exact absurd (h _ hmem) (by decide)

theorem not_mem_of_isComment {text : List Char} (h : IsComment text) : '\r' ∉ text := by
  intro hmem
  exact absurd (h _ hmem (.inl (by decide))) (by decide)

theorem IsTrivia.not_mem {trivia : List Char} (h : IsTrivia trivia) : '\r' ∉ trivia := by
  induction h with
  | nil => exact List.not_mem_nil
  | @blank c more hc _ ih =>
    have hne : c ≠ '\r' := ne_of_holds hc rfl
    simp [hne.symm, ih]
  | lineEnd _ ih => simp [ih]
  | comment ht _ ih => simp [not_mem_of_isComment ht, ih]

theorem EndsLine.not_mem {after : List Char} (h : EndsLine after) : '\r' ∉ after := by
  cases h with
  | blanks hb => exact hb.not_mem
  | comment hb ht => simp [hb.not_mem, not_mem_of_isComment ht]

theorem KeySpelled.not_mem {key : String} (h : KeySpelled key text) : '\r' ∉ text := by
  cases h with
  | bare nonempty chars =>
    intro hmem
    exact absurd (chars _ hmem) (by decide)
  | quoted h => exact h.not_mem

theorem PathSpelled.not_mem (h : PathSpelled KeySpelled keys text) : '\r' ∉ text := by
  induction h with
  | last hb h ha => simp [hb.not_mem, h.not_mem, ha.not_mem]
  | cons hb h ha _ ih => simp [hb.not_mem, h.not_mem, ha.not_mem, ih]

section Meaning

variable {π σ : Type} {W : Words π σ} {M : Meaning π σ}

theorem Part.Spelled.not_mem (hW : W.ReadAs M) {part : Part π σ} (h : part.Spelled W text) :
    '\r' ∉ text := by
  induction h with
  | scalar h => exact hW.noReturn h
  | array _ ih => simp [ih]
  | emptyTable hb => simp [hb.not_mem]
  | table _ ih => simp [ih]
  | noItem ht => simp [ht.not_mem]
  | lastItem hb _ ha ih => simp [hb.not_mem, ih, ha.not_mem]
  | item hb _ ha _ ih ihm => simp [hb.not_mem, ih, ha.not_mem, ihm]
  | lastAssignment hp hb _ ha ih => simp [(hW.path hp).not_mem, hb.not_mem, ih, ha.not_mem]
  | assignment hp hb _ ha _ ih ihm =>
    simp [(hW.path hp).not_mem, hb.not_mem, ih, ha.not_mem, ihm]

theorem StatementOf.Spelled.not_mem (hW : W.ReadAs M) {statement : StatementOf π σ}
    (h : statement.Spelled W text) : '\r' ∉ text := by
  cases h with
  | header hp => simp [(hW.path hp).not_mem]
  | arrayHeader hp => simp [(hW.path hp).not_mem]
  | entry hp hb h => simp [(hW.path hp).not_mem, hb.not_mem, h.not_mem hW]

/-- Nothing that is spelled has a carriage return in it. -/
theorem AllSpelled.not_mem (hW : W.ReadAs M) {statements : List (StatementOf π σ)}
    (h : AllSpelled W statements text) : '\r' ∉ text := by
  induction h with
  | nil hb ha => simp [hb.not_mem, ha.not_mem]
  | last hb h ha => simp [hb.not_mem, h.not_mem hW, ha.not_mem]
  | cons hb h ha _ ih => simp [hb.not_mem, h.not_mem hW, ha.not_mem, ih]

end Meaning

/-! ### No mark -/

/-- Trivia in front of what starts without a mark do not start with one. -/
theorem IsTrivia.head_ne {trivia more : List Char} (h : IsTrivia trivia)
    (hm : more.head? ≠ some '\uFEFF') : (trivia ++ more).head? ≠ some '\uFEFF' := by
  cases h with
  | nil => exact hm
  | blank hc =>
    intro hhead
    rw [Option.some.inj hhead] at hc
    cases hc
  | lineEnd => exact fun hhead => by cases hhead
  | comment => exact fun hhead => by cases hhead

theorem EndsLine.head_ne {after : List Char} (h : EndsLine after) :
    after.head? ≠ some '\uFEFF' := by
  cases h with
  | blanks hb =>
    rw [← List.append_nil after]
    exact hb.isTrivia.head_ne nofun
  | comment hb ht => exact hb.isTrivia.head_ne fun hhead => by cases hhead

/-- A byte-order mark is no blank and starts no key. -/
theorem PathSpelled.head_ne (h : PathSpelled KeySpelled keys text) (rest : List Char) :
    (text ++ rest).head? ≠ some '\uFEFF' := by
  intro hhead
  obtain ⟨s, hs⟩ := List.head?_eq_some_iff.1 hhead
  exact absurd (h.starts hs) (by decide)

section Meaning

variable {π σ : Type} {W : Words π σ} {M : Meaning π σ}

theorem StatementOf.Spelled.head_ne (hW : W.ReadAs M) {statement : StatementOf π σ}
    (h : statement.Spelled W text) (rest : List Char) :
    (text ++ rest).head? ≠ some '\uFEFF' := by
  cases h with
  | header => exact fun hhead => by cases hhead
  | arrayHeader => exact fun hhead => by cases hhead
  | entry hp =>
    rw [List.append_assoc]
    exact (hW.path hp).head_ne _

theorem AllSpelled.head_ne (hW : W.ReadAs M) {statements : List (StatementOf π σ)}
    (h : AllSpelled W statements text) : text.head? ≠ some '\uFEFF' := by
  cases h with
  | nil hb ha => exact hb.head_ne ha.head_ne
  | last hb h => exact hb.head_ne (h.head_ne hW _)
  | cons hb h => exact hb.head_ne (h.head_ne hW _)

end Meaning

/-! ### Line ends -/

namespace HasLines

variable {lines : List Char}

theorem refl (text : List Char) : HasLines text text := by
  induction text with
  | nil => exact .nil
  | cons c text ih => exact .char ih

theorem unifyLines (h : HasLines text lines) (hr : '\r' ∉ lines) :
    unifyLines text = some lines := by
  induction h with
  | nil => rfl
  | @char c text lines h ih =>
    rw [List.mem_cons, not_or] at hr
    rw [unifyLines_cons (Ne.symm hr.1), ih hr.2, Option.map_some]
  | lineEnd h ih =>
    rw [List.mem_cons, not_or] at hr
    rw [Toml.unifyLines, ih hr.2, Option.map_some]

/-- The lines of a text are what is left when every line end is a single line feed. -/
theorem of_unifyLines (h : Toml.unifyLines text = some lines) : HasLines text lines := by
  fun_induction Toml.unifyLines text generalizing lines with
  | case1 =>
    cases h
    exact .nil
  | case2 rest ih =>
    obtain ⟨lines, hl, rfl⟩ := Option.map_eq_some_iff.1 h
    exact .lineEnd (ih hl)
  | case3 => cases h
  | case4 c rest _ _ ih =>
    obtain ⟨lines, hl, rfl⟩ := Option.map_eq_some_iff.1 h
    exact .char (ih hl)

theorem head_ne (h : HasLines text lines) (hh : lines.head? ≠ some '\uFEFF') :
    text.head? ≠ some '\uFEFF' := by
  cases h with
  | nil => exact hh
  | char => exact hh
  | lineEnd => exact fun hhead => by cases hhead

end HasLines

/-! ### Whole texts -/

/-- **A text is read as what its statements mean**, whatever ends its lines. -/
theorem AllSpelled.ofText? {π σ : Type} {W : Words π σ} {M : Meaning π σ} (hW : W.ReadAs M)
    {statements : List (StatementOf π σ)} {lines : List Char} (h : AllSpelled W statements lines)
    (ht : HasLines text lines) : Statement.ofText? text = M.statements? statements := by
  rw [Statement.ofText?, dropMark_of_head_ne (ht.head_ne (h.head_ne hW)),
    ht.unifyLines (h.not_mem hW), Option.bind_some, h.read hW]

/-- A statement over keys and scalars means itself if its term does not go down too far. -/
theorem StatementOf.Spelled.statement?_itself {statement : Statement}
    (h : statement.Spelled .any text) : Meaning.itself.statement? statement =
      if statement.depth ≤ nestingLimit then some statement else none := by
  cases h with
  | header hp => exact if_pos hp.short
  | arrayHeader hp => exact if_pos hp.short
  | @entry path t _ _ _ hp hb h =>
    have hterm : Meaning.itself.term? t nestingLimit = _ := h.meansItself nestingLimit
    show (assigned? path (Meaning.itself.term? t nestingLimit)).map _ = _
    rw [hterm, assigned?, if_pos hp.short, Option.map_if, Option.map_if]
    rfl

theorem AllSpelled.statements?_itself {statements : List Statement}
    (h : AllSpelled .any statements text) : Meaning.itself.statements? statements =
      if ∀ statement ∈ statements, statement.depth ≤ nestingLimit then some statements
      else none := by
  induction h with
  | nil => exact (if_pos (List.forall_mem_nil _)).symm
  | @last statement _ _ _ _ h =>
    rw [Meaning.statements?, h.statement?_itself]
    simp only [List.forall_mem_singleton]
    split <;> rfl
  | @cons statement statements _ _ _ _ _ h _ _ ih =>
    rw [Meaning.statements?, h.statement?_itself, ih]
    simp only [List.forall_mem_cons]
    by_cases hd : statement.depth ≤ nestingLimit
    · simp only [hd, true_and, if_true, Option.bind_some, Option.map_if]
    · simp only [hd, false_and, if_false, Option.bind_none]

/-- **A document is read back** as the statements it was spelled for, exactly if none of
its terms goes down too far. -/
theorem Statement.ofText?_of_allSpelled {statements : List Statement}
    (h : AllSpelled .any statements text) :
    Statement.ofText? text =
      if ∀ statement ∈ statements, statement.depth ≤ nestingLimit then some statements
      else none := by
  rw [h.ofText? Words.readAs_any (.refl text), h.statements?_itself]

/-- A document is made of the statements that it spells. -/
theorem Statement.ofText?_of_parse? {statements : List Statement} {text : String} {table : Table}
    (h : Document.parse? text = some table) (hs : AllSpelled .any statements text.toList) :
    Statement.ofText? text.toList = some statements := by
  have hread := ofText?_of_allSpelled hs
  split_ifs at hread with hdepth
  · exact hread
  · rw [Document.parse?, hread] at h
    cases h

end WorkspaceFacts.Toml
