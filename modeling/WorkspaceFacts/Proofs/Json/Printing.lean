import WorkspaceFacts.Proofs.Json.Values

/-!
# Reading undoes printing, for JSON

Whatever text a string holds, the printer escapes what the grammar does not let stand for
itself, and nothing else; the white space of the indented form stands where the grammar has
white space. So the printed form of a value, indented or compact, is written for it and for
no other value (`WorkspaceFacts.Json.parse?_print`). The only values without a printed form
are those that hold a number that is none.

A line end in a string is always escaped, so the compact form is a single line
(`WorkspaceFacts.Json.newline_not_mem_compact`).
-/

namespace WorkspaceFacts.Json

/-- The value has a printed form: its numbers are numbers. -/
inductive Printable : Json → Prop
  | null : Printable .null
  | boolean (b : Bool) : Printable (.boolean b)
  | number {text : String} (h : IsNumber text.toList) : Printable (.number text)
  | string (text : String) : Printable (.string text)
  | array {items : List Json} (h : ∀ v ∈ items, Printable v) : Printable (.array items)
  | object {members : List (String × Json)} (h : ∀ name v, (name, v) ∈ members → Printable v) :
      Printable (.object members)

/-! ### Strings -/

/-- A control character is written by its code unit. -/
theorem unitWritten_control {n : Nat} (h : n < 0x20) :
    UnitWritten n ['0', '0', Digits.hexDigit (n / 16), Digits.hexDigit (n % 16)] := by
  refine ⟨rfl, ?_⟩
  have h₀ : Digits.value? 16 '0' = some 0 := rfl
  have h₁ := Digits.value?_hexDigit (n / 16) (by omega)
  have h₂ := Digits.value?_hexDigit (n % 16) (by omega)
  have hn : n / 16 * 16 + n % 16 = n := by omega
  simp [unit?, List.mapM_cons, Digits.toNat, h₀, h₁, h₂, hn]

theorem charWritten_escape (c : Char) : CharWritten c (escape c) := by
  rw [escape]
  split
  · next h =>
    subst h
    exact .short rfl
  split
  · next h =>
    subst h
    exact .short rfl
  split
  · next h =>
    subst h
    exact .short rfl
  split
  · next h =>
    subst h
    exact .short rfl
  split
  · next h =>
    subst h
    exact .short rfl
  split
  · next h =>
    subst h
    exact .short rfl
  split
  · next h =>
    subst h
    exact .short rfl
  split
  · next h => exact .unit (unitWritten_control h)
  · next hq hs _ _ _ _ _ h => exact .unescaped (by simp [isUnescaped, hq, hs]; omega)

theorem charsWritten_escape (cs : List Char) : CharsWritten cs (cs.flatMap escape) := by
  induction cs with
  | nil => exact .nil
  | cons c cs ih => exact .cons (charWritten_escape c) ih

theorem stringWritten_quoted (text : String) : StringWritten text (quoted text) :=
  ⟨_, charsWritten_escape text.toList, rfl⟩

/-! ### White space -/

theorem isSpaceText_nil : IsSpaceText [] := nofun

theorem isSpaceText_lineBreak (depth : Option Nat) : IsSpaceText (lineBreak depth) := by
  rcases depth with _ | depth
  · exact isSpaceText_nil
  · intro c hc
    rcases List.mem_cons.1 hc with rfl | hc
    · rfl
    · rw [List.eq_of_mem_replicate hc]
      rfl

theorem nameWritten_keyText (depth inner : Option Nat) (key : String) :
    NameWritten key (lineBreak inner ++ keyText depth key) := by
  have hname {spaces : List Char} (hs : IsSpaceText spaces) :
      NameWritten key (lineBreak inner ++ (quoted key ++ ([] ++ ':' :: spaces))) :=
    .mk (isSpaceText_lineBreak inner) (stringWritten_quoted key) isSpaceText_nil hs
  rw [keyText]
  split
  · have hs : IsSpaceText [' '] := by simp [IsSpaceText, isSpace]
    exact hname hs
  · exact hname isSpaceText_nil

/-! ### Values -/

section Written

variable {depth : Option Nat} (outer : Option Nat)

/-- The items of an array, from the first on, are written as they are printed. -/
theorem written_printItems {item : Json} {items : List Json}
    (h : ∀ v ∈ item :: items, Part.Written (.value v) (print depth v)) :
    Part.Written (.items (item :: items)) (lineBreak depth ++
      (print depth item ++ (printItems depth items ++ (lineBreak outer ++ [']'])))) := by
  obtain ⟨hitem, hitems⟩ := List.forall_mem_cons.1 h
  induction items generalizing item with
  | nil => exact .lastItem (isSpaceText_lineBreak _) hitem (isSpaceText_lineBreak _)
  | cons next items ih =>
    obtain ⟨hnext, hmore⟩ := List.forall_mem_cons.1 hitems
    have hw := ih hitems hnext hmore
    rw [printItems]
    simpa using Part.Written.item (isSpaceText_lineBreak depth) hitem isSpaceText_nil hw

/-- The members of an object, from the first on, are written as they are printed. -/
theorem written_printMembers (colon : Option Nat) {member : String × Json}
    {members : List (String × Json)}
    (h : ∀ m ∈ member :: members, Part.Written (.value m.2) (print depth m.2)) :
    Part.Written (.members (member :: members)) (lineBreak depth ++ keyText colon member.1 ++
      (print depth member.2 ++ (printMembers depth members ++ (lineBreak outer ++ ['\x7d'])))) := by
  obtain ⟨hmember, hmembers⟩ := List.forall_mem_cons.1 h
  induction members generalizing member colon with
  | nil => exact .lastMember (nameWritten_keyText _ _ _) hmember (isSpaceText_lineBreak _)
  | cons next members ih =>
    obtain ⟨hnext, hmore⟩ := List.forall_mem_cons.1 hmembers
    have hw := ih depth hmembers hnext hmore
    rw [printMembers]
    simpa using Part.Written.member (nameWritten_keyText colon depth member.1) hmember
      isSpaceText_nil hw

end Written

/-- **What is printed for a value is written for it**, at any depth. -/
theorem Printable.written {v : Json} (h : Printable v) (depth : Option Nat) :
    Part.Written (.value v) (print depth v) := by
  induction h generalizing depth with
  | null => exact .null
  | boolean b =>
    cases b with
    | false => exact .false
    | true => exact .true
  | number h => exact .number h
  | string text => exact .string (stringWritten_quoted text)
  | @array items _ ih =>
    rcases items with _ | ⟨item, items⟩
    · exact .emptyArray isSpaceText_nil
    · have hw := Part.Written.array (written_printItems depth fun v hv => ih v hv (deeper depth))
      simpa [print] using hw
  | @object members _ ih =>
    rcases members with _ | ⟨⟨name, value⟩, members⟩
    · exact .emptyObject isSpaceText_nil
    · have hw := Part.Written.object (written_printMembers depth depth
        fun m hm => ih m.1 m.2 hm (deeper depth))
      simpa [print] using hw

/-- **Reading undoes printing**: the printed form is a JSON text as a whole, and it is read as
the value it was printed for. -/
theorem parse?_print {v : Json} (h : Printable v) (depth : Option Nat) :
    parse? (String.ofList (print depth v)) = some v := by
  rw [parse?_eq_some_iff, String.toList_ofList]
  exact ⟨[], _, [], isSpaceText_nil, h.written depth, isSpaceText_nil, by simp⟩

/-! ### The two forms -/

/-- **Both forms of a value are read as the value.** -/
theorem parse?_forms {v : Json} (h : Printable v) :
    parse? v.indented = some v ∧ parse? v.compact = some v :=
  ⟨parse?_print h (some 0), parse?_print h none⟩

theorem newline_not_mem_escape (c : Char) : '\n' ∉ escape c := by
  have hdigit : ∀ n < 16, Digits.hexDigit n ≠ '\n' := by decide
  unfold escape
  repeat' split
  all_goals try decide
  · next hc =>
    have h₁ := hdigit (c.toNat / 16) (by omega)
    have h₂ := hdigit (c.toNat % 16) (by omega)
    simp [h₁.symm, h₂.symm]
  · next hc _ _ _ => simpa using Ne.symm hc

theorem newline_not_mem_quoted (text : String) : '\n' ∉ quoted text := by
  simp [quoted, newline_not_mem_escape]

theorem newline_not_mem_printItems {items : List Json} (h : ∀ v ∈ items, '\n' ∉ print none v) :
    '\n' ∉ printItems none items := by
  induction items with
  | nil => simp [printItems]
  | cons item items ih =>
    rw [List.forall_mem_cons] at h
    simp [printItems, lineBreak, h.1, ih h.2]

theorem newline_not_mem_printMembers {members : List (String × Json)}
    (h : ∀ name v, (name, v) ∈ members → '\n' ∉ print none v) :
    '\n' ∉ printMembers none members := by
  induction members with
  | nil => simp [printMembers]
  | cons member members ih =>
    have hv := h member.1 member.2 List.mem_cons_self
    have hrest := ih fun name v hmem => h name v (List.mem_cons_of_mem _ hmem)
    simp [printMembers, lineBreak, keyText, newline_not_mem_quoted, hv, hrest]

/-- **The compact form stands on one line**, whatever the strings of the value hold. -/
theorem newline_not_mem_compact {v : Json} (h : Printable v) : '\n' ∉ v.compact.toList := by
  rw [compact, String.toList_ofList]
  induction h with
  | null => decide
  | boolean b => cases b <;> decide
  | number h => exact fun hmem => absurd (isWordChar_of_isNumber h _ hmem) (by decide)
  | string text => exact newline_not_mem_quoted text
  | @array items _ ih =>
    rcases items with _ | ⟨item, items⟩
    · decide
    · rw [List.forall_mem_cons] at ih
      simp [print, deeper, lineBreak, ih.1, newline_not_mem_printItems ih.2]
  | @object members _ ih =>
    rcases members with _ | ⟨⟨name, value⟩, members⟩
    · decide
    · have hv := ih name value List.mem_cons_self
      have hrest := newline_not_mem_printMembers fun name v hmem =>
        ih name v (List.mem_cons_of_mem _ hmem)
      simp [print, deeper, lineBreak, keyText, newline_not_mem_quoted, hv, hrest]

end WorkspaceFacts.Json
