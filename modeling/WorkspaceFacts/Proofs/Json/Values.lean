import WorkspaceFacts.Proofs.Json.Words

/-!
# A strict reader of JSON

The reader of a JSON text (`WorkspaceFacts.Json.parse?`) and what it reads: a text is
accepted, as a whole, exactly if the grammar has it, and the value it is read as is the one
the text is written for (`WorkspaceFacts.Json.parse?_eq_some_iff`). So the grammar is
unambiguous: no text is written for two values.

The reader goes down with a room that every bracket, item and member takes from. The length
of the text is room enough, since each of them takes a character off the text as well.
-/

namespace WorkspaceFacts.Json

variable {c : Char} {s text rest : List Char}

/-! ### White space -/

/-- The text without the white space in front. -/
def skipSpace (s : List Char) : List Char := s.dropWhile isSpace

theorem skipSpace_append {spaces : List Char} (h : IsSpaceText spaces) :
    skipSpace (spaces ++ rest) = skipSpace rest :=
  List.dropWhile_append_of_pos h

theorem skipSpace_cons (h : isSpace c = false) : skipSpace (c :: rest) = c :: rest := by
  simp [skipSpace, h]

/-- What is skipped is white space, and nothing else is. -/
theorem exists_skipSpace (s : List Char) :
    ∃ spaces, IsSpaceText spaces ∧ s = spaces ++ skipSpace s :=
  ⟨s.takeWhile isSpace, List.all_eq_true.1 List.all_takeWhile, List.takeWhile_append_dropWhile.symm⟩

/-- What comes first after white space. -/
theorem skipSpace_eq_cons_iff (h : isSpace c = false) : skipSpace s = c :: rest ↔
    ∃ spaces, IsSpaceText spaces ∧ s = spaces ++ c :: rest := by
  constructor
  · intro hs
    obtain ⟨spaces, hspaces, he⟩ := exists_skipSpace s
    rw [hs] at he
    exact ⟨spaces, hspaces, he⟩
  · rintro ⟨spaces, hspaces, rfl⟩
    rw [skipSpace_append hspaces, skipSpace_cons h]

/-! ### The reader -/

/-- The reader of what is inside brackets: nothing, or what `read` takes. -/
def readInside {α : Type} (close : Char) (read : List Char → Option (List α × List Char))
    (s : List Char) : Option (List α × List Char) :=
  match skipSpace s with
  | [] => none
  | c :: rest => if c = close then some ([], rest) else read s

/-- The reader of what follows an item: the bracket, or a comma and what `read` takes. -/
def readMore {α : Type} (close : Char) (read : List Char → Option (List α × List Char)) (a : α)
    (s : List Char) : Option (List α × List Char) :=
  match skipSpace s with
  | [] => none
  | c :: rest =>
    if c = close then some ([a], rest)
    else if c = ',' then (read rest).map fun (as, rest) => (a :: as, rest)
    else none

/-- The reader of the name of a member and its colon. -/
def readName (s : List Char) : Option (String × List Char) :=
  (readString (skipSpace s)).bind fun (name, s) =>
    match skipSpace s with
    | ':' :: s => some (name, skipSpace s)
    | _ => none

mutual

/-- The reader of values. -/
def readValue : Nat → List Char → Option (Json × List Char)
  | 0, _ => none
  | room + 1, s =>
    match s with
    | '"' :: _ => (readString s).map fun (value, rest) => (.string value, rest)
    | '[' :: s => (readInside ']' (readItems room) s).map fun (items, rest) => (.array items, rest)
    | '\x7b' :: s =>
      (readInside '\x7d' (readMembers room) s).map fun (members, rest) => (.object members, rest)
    | s => readWord s

/-- The reader of the items of an array and its closing bracket. -/
def readItems : Nat → List Char → Option (List Json × List Char)
  | 0, _ => none
  | room + 1, s => (readValue room (skipSpace s)).bind fun (v, s) =>
    readMore ']' (readItems room) v s

/-- The reader of the members of an object and its closing brace. -/
def readMembers : Nat → List Char → Option (List (String × Json) × List Char)
  | 0, _ => none
  | room + 1, s => (readName s).bind fun (name, s) => (readValue room s).bind fun (v, s) =>
    readMore '\x7d' (readMembers room) (name, v) s

end

/-- **The value of a JSON text**, if the whole text is one. -/
def parse? (text : String) : Option Json :=
  match readValue text.toList.length (skipSpace text.toList) with
  | some (v, rest) => if skipSpace rest = [] then some v else none
  | none => none

/-! ### The steps through brackets -/

section Steps

variable {α : Type} {close : Char} {read : List Char → Option (List α × List Char)} {a : α}
  {as : List α}

/-- The characters that close an array or an object. -/
def IsClosing (c : Char) : Prop := c = ']' ∨ c = '\x7d'

theorem IsClosing.not_space (h : IsClosing c) : isSpace c = false ∧ c ≠ ',' := by
  rcases h with rfl | rfl
  all_goals decide

/-- Either there is nothing inside the brackets, or what is read there. -/
theorem readInside_eq_some (hc : IsClosing close) (h : readInside close read s = some (as, rest)) :
    (as = [] ∧ ∃ spaces, IsSpaceText spaces ∧ s = spaces ++ close :: rest) ∨
      read s = some (as, rest) := by
  rw [readInside] at h
  split at h
  · cases h
  · next hs =>
    split at h
    · next he =>
      obtain ⟨rfl, rfl⟩ := Prod.mk.inj (Option.some.inj h)
      rw [he] at hs
      exact .inl ⟨rfl, (skipSpace_eq_cons_iff hc.not_space.1).1 hs⟩
    · exact .inr h

/-- Brackets with white space between them are empty. -/
theorem readInside_close {spaces : List Char} (hc : IsClosing close) (hs : IsSpaceText spaces) :
    readInside close read (spaces ++ close :: rest) = some ([], rest) := by
  rw [readInside, (skipSpace_eq_cons_iff hc.not_space.1).2 ⟨spaces, hs, rfl⟩]
  exact if_pos rfl

/-- Whether something else than the closing bracket comes first after white space. -/
def IsFilled (close : Char) (text : List Char) : Prop :=
  ∃ spaces c more, text = spaces ++ c :: more ∧ IsSpaceText spaces ∧ isSpace c = false ∧ c ≠ close

/-- Brackets that are filled are left to the reader of what is inside. -/
theorem readInside_append (h : IsFilled close text) :
    readInside close read (text ++ rest) = read (text ++ rest) := by
  obtain ⟨spaces, c, more, rfl, hs, hc, hne⟩ := h
  rw [List.append_assoc, List.cons_append, readInside,
    (skipSpace_eq_cons_iff hc).2 ⟨spaces, hs, rfl⟩]
  exact if_neg hne

/-- An item is the last one, or a comma and more items follow. -/
theorem readMore_eq_some (hc : IsClosing close) (h : readMore close read a s = some (as, rest)) :
    ∃ spaces, IsSpaceText spaces ∧ ((as = [a] ∧ s = spaces ++ close :: rest) ∨
      ∃ s' others, s = spaces ++ ',' :: s' ∧ as = a :: others ∧ read s' = some (others, rest)) := by
  rw [readMore] at h
  split at h
  · cases h
  · next hs =>
    split at h
    · next he =>
      obtain ⟨rfl, rfl⟩ := Prod.mk.inj (Option.some.inj h)
      rw [he] at hs
      obtain ⟨spaces, hspaces, rfl⟩ := (skipSpace_eq_cons_iff hc.not_space.1).1 hs
      exact ⟨spaces, hspaces, .inl ⟨rfl, rfl⟩⟩
    · split at h
      · next he =>
        obtain ⟨⟨others, rest'⟩, hread, hm⟩ := Option.map_eq_some_iff.1 h
        obtain ⟨rfl, rfl⟩ := Prod.mk.inj hm
        rw [he] at hs
        obtain ⟨spaces, hspaces, rfl⟩ := (skipSpace_eq_cons_iff rfl).1 hs
        exact ⟨spaces, hspaces, .inr ⟨_, others, rfl, rfl, hread⟩⟩
      · cases h

/-- The bracket behind an item makes it the last one. -/
theorem readMore_close {spaces : List Char} (hc : IsClosing close) (hs : IsSpaceText spaces) :
    readMore close read a (spaces ++ close :: rest) = some ([a], rest) := by
  rw [readMore, (skipSpace_eq_cons_iff hc.not_space.1).2 ⟨spaces, hs, rfl⟩]
  exact if_pos rfl

/-- Behind a comma there has to be another item: no text ends in one. -/
theorem readMore_comma {spaces : List Char} (hc : IsClosing close) (hs : IsSpaceText spaces) :
    readMore close read a (spaces ++ ',' :: s) =
      (read s).map fun (as, rest) => (a :: as, rest) := by
  rw [readMore, (skipSpace_eq_cons_iff rfl).2 ⟨spaces, hs, rfl⟩]
  exact (if_neg hc.not_space.2.symm).trans (if_pos rfl)

end Steps

/-! ### What is read is written -/

/-- A name is taken with its colon and with the white space on both of its sides. -/
theorem written_of_readName {name : String} (h : readName s = some (name, rest)) :
    ∃ text, s = text ++ rest ∧ NameWritten name text := by
  obtain ⟨⟨name', s₁⟩, hn, h⟩ := Option.bind_eq_some_iff.1 h
  obtain ⟨text, ht, hw⟩ := reads_readString.exists_text hn
  obtain ⟨before, hb, hs⟩ := exists_skipSpace s
  dsimp only at h
  split at h
  · next s₂ hcolon =>
    obtain ⟨rfl, rfl⟩ := Prod.mk.inj (Option.some.inj h)
    obtain ⟨between, hbetween, rfl⟩ := (skipSpace_eq_cons_iff rfl).1 hcolon
    obtain ⟨after, ha, hs₂⟩ := exists_skipSpace s₂
    refine ⟨before ++ (text ++ (between ++ ':' :: after)), ?_, .mk hb hw hbetween ha⟩
    rw [hs, ht]
    conv => lhs; rw [hs₂]
    simp
  · cases h

/-- What the readers take with some room is what is written. -/
structure Sound (room : Nat) : Prop where
  value : ∀ s v rest, readValue room s = some (v, rest) →
    ∃ text, s = text ++ rest ∧ Part.Written (.value v) text
  items : ∀ s items rest, readItems room s = some (items, rest) →
    ∃ text, s = text ++ rest ∧ Part.Written (.items items) text
  members : ∀ s members rest, readMembers room s = some (members, rest) →
    ∃ text, s = text ++ rest ∧ Part.Written (.members members) text

/-- The room of a value is one more than that of what is inside its brackets. -/
theorem Sound.readValue {room : Nat} (ih : Sound room) {v : Json}
    (h : readValue (room + 1) s = some (v, rest)) :
    ∃ text, s = text ++ rest ∧ Part.Written (.value v) text := by
  rw [Json.readValue.eq_def] at h
  dsimp only at h
  split at h
  · obtain ⟨⟨value, rest'⟩, hr, he⟩ := Option.map_eq_some_iff.1 h
    obtain ⟨rfl, rfl⟩ := Prod.mk.inj he
    obtain ⟨text, ht, hw⟩ := reads_readString.exists_text hr
    exact ⟨text, ht, .string hw⟩
  · obtain ⟨⟨items, rest'⟩, hr, he⟩ := Option.map_eq_some_iff.1 h
    obtain ⟨rfl, rfl⟩ := Prod.mk.inj he
    rcases readInside_eq_some (.inl rfl) hr with ⟨rfl, spaces, hs, rfl⟩ | hr
    · exact ⟨_, by simp, .emptyArray hs⟩
    · obtain ⟨text, rfl, hw⟩ := ih.items _ _ _ hr
      exact ⟨_, rfl, .array hw⟩
  · obtain ⟨⟨members, rest'⟩, hr, he⟩ := Option.map_eq_some_iff.1 h
    obtain ⟨rfl, rfl⟩ := Prod.mk.inj he
    rcases readInside_eq_some (.inr rfl) hr with ⟨rfl, spaces, hs, rfl⟩ | hr
    · exact ⟨_, by simp, .emptyObject hs⟩
    · obtain ⟨text, rfl, hw⟩ := ih.members _ _ _ hr
      exact ⟨_, rfl, .object hw⟩
  · exact exists_text_of_readWord h

theorem Sound.readItems {room : Nat} (ih : Sound room) {items : List Json}
    (h : readItems (room + 1) s = some (items, rest)) :
    ∃ text, s = text ++ rest ∧ Part.Written (.items items) text := by
  obtain ⟨⟨v, s₁⟩, hv, h⟩ := Option.bind_eq_some_iff.1 h
  obtain ⟨text, ht, hw⟩ := ih.value _ _ _ hv
  obtain ⟨before, hb, hs⟩ := exists_skipSpace s
  rw [hs, ht]
  obtain ⟨after, ha, ⟨rfl, rfl⟩ | ⟨s₂, others, rfl, rfl, hr⟩⟩ := readMore_eq_some (.inl rfl) h
  · exact ⟨_, by simp, .lastItem hb hw ha⟩
  · obtain ⟨more, rfl, hmore⟩ := ih.items _ _ _ hr
    exact ⟨_, by simp, .item hb hw ha hmore⟩

theorem Sound.readMembers {room : Nat} (ih : Sound room) {members : List (String × Json)}
    (h : readMembers (room + 1) s = some (members, rest)) :
    ∃ text, s = text ++ rest ∧ Part.Written (.members members) text := by
  obtain ⟨⟨name, s₁⟩, hn, h₁⟩ := Option.bind_eq_some_iff.1 h
  obtain ⟨⟨v, s₂⟩, hv, h₂⟩ := Option.bind_eq_some_iff.1 h₁
  obtain ⟨before, rfl, hb⟩ := written_of_readName hn
  obtain ⟨text, rfl, hw⟩ := ih.value _ _ _ hv
  obtain ⟨after, ha, ⟨rfl, rfl⟩ | ⟨s₃, others, rfl, rfl, hr⟩⟩ := readMore_eq_some (.inr rfl) h₂
  · exact ⟨_, by simp, .lastMember hb hw ha⟩
  · obtain ⟨more, rfl, hmore⟩ := ih.members _ _ _ hr
    exact ⟨_, by simp, .member hb hw ha hmore⟩

/-- **What is read is written.** The induction is on the room, for all three readers at once. -/
theorem sound (room : Nat) : Sound room := by
  induction room with
  | zero => exact ⟨nofun, nofun, nofun⟩
  | succ room ih =>
    exact ⟨fun _ _ _ => ih.readValue, fun _ _ _ => ih.readItems, fun _ _ _ => ih.readMembers⟩

/-! ### What is written is read -/

/-- The characters with which a value can start. -/
def StartsValue (c : Char) : Prop := c = '"' ∨ c = '[' ∨ c = '\x7b' ∨ isWordChar c

theorem StartsValue.not_space (h : StartsValue c) : isSpace c = false ∧ c ≠ ']' := by
  rcases h with rfl | rfl | rfl | h
  · decide
  · decide
  · decide
  · refine ⟨?_, ne_of_holds h rfl⟩
    simp [isSpace, ne_of_holds h (d := ' ') rfl, ne_of_holds h (d := '\t') rfl,
      ne_of_holds h (d := '\n') rfl, ne_of_holds h (d := '\r') rfl]

theorem exists_cons_of_isNumber (h : IsNumber text) :
    ∃ c more, text = c :: more ∧ isWordChar c := by
  have hc := isWordChar_of_isNumber h
  rcases text with _ | ⟨c, more⟩
  · exact absurd h (by decide)
  · exact ⟨c, more, rfl, hc c List.mem_cons_self⟩

/-- No value is written by an empty text, and none starts with white space or a bracket that
closes. -/
theorem exists_cons_of_value {v : Json} (h : Part.Written (.value v) text) :
    ∃ c more, text = c :: more ∧ StartsValue c := by
  cases h with
  | null | true | false => exact ⟨_, _, rfl, .inr (.inr (.inr (by decide)))⟩
  | number h =>
    obtain ⟨c, more, ht, hc⟩ := exists_cons_of_isNumber h
    exact ⟨c, more, ht, .inr (.inr (.inr hc))⟩
  | string h =>
    obtain ⟨more, rfl⟩ := h.exists_cons
    exact ⟨_, _, rfl, .inl rfl⟩
  | emptyArray | array => exact ⟨_, _, rfl, .inr (.inl rfl)⟩
  | emptyObject | object => exact ⟨_, _, rfl, .inr (.inr (.inl rfl))⟩

/-- No closing bracket comes before the first item, so an empty array is told from others at
once. -/
theorem isFilled_of_items {items : List Json} (h : Part.Written (.items items) text) :
    IsFilled ']' text := by
  cases h with
  | lastItem hb hv ha | item hb hv ha hm =>
    obtain ⟨c, more, rfl, hc⟩ := exists_cons_of_value hv
    exact ⟨_, c, _, rfl, hb, hc.not_space⟩

theorem isFilled_of_members {members : List (String × Json)}
    (h : Part.Written (.members members) text) : IsFilled '\x7d' text := by
  cases h with
  | lastMember hn | member hn =>
    obtain ⟨hb, hw, -, -⟩ := hn
    obtain ⟨more, rfl⟩ := hw.exists_cons
    exact ⟨_, '"', _, List.append_assoc _ _ _, hb, by decide, by decide⟩

/-- A name is read back up to the value behind its colon. -/
theorem NameWritten.read {name : String} (h : NameWritten name text) (hc : isSpace c = false) :
    readName (text ++ c :: rest) = some (name, c :: rest) := by
  obtain ⟨hb, hw, hbetween, ha⟩ := h
  next before text between after =>
  obtain ⟨more, rfl⟩ := hw.exists_cons
  have hread : readString ('"' :: (more ++ (between ++ ':' :: (after ++ c :: rest)))) = _ :=
    reads_readString.append hw
  have hs : before ++ ('"' :: more ++ (between ++ ':' :: after)) ++ c :: rest =
      before ++ '"' :: (more ++ (between ++ ':' :: (after ++ c :: rest))) := by simp
  rw [hs, readName, skipSpace_append hb, skipSpace_cons rfl, hread]
  simp [skipSpace_append hbetween, skipSpace_cons (c := ':') rfl, skipSpace_append ha,
    skipSpace_cons hc]

/-- What it means that a part is read back from its text, whatever stands behind it: with a
room that the text itself would fill. -/
def Part.ReadBack (text : List Char) : Part → Prop
  | .value v => ∀ room rest, text.length ≤ room → NotFirst isWordChar rest →
      readValue room (text ++ rest) = some (v, rest)
  | .items vs => ∀ room rest, text.length ≤ room →
      readItems room (text ++ rest) = some (vs, rest)
  | .members ms => ∀ room rest, text.length ≤ room →
      readMembers room (text ++ rest) = some (ms, rest)

theorem readValue_word {room : Nat} (hc : isWordChar c) :
    readValue (room + 1) (c :: s) = readWord (c :: s) := by
  rw [readValue]
  all_goals
    rintro _ he
    obtain ⟨rfl, -⟩ := List.cons.inj he
    cases hc

/-- A word that stands for a value is read back, as nothing behind it continues it. -/
theorem readBack_word {v : Json} (h : word? text = some v) (hc : ∀ c ∈ text, isWordChar c)
    (hne : text ≠ []) : (Part.value v).ReadBack text := by
  intro room rest hroom hr
  obtain ⟨c, more, rfl⟩ := List.exists_cons_of_ne_nil hne
  obtain ⟨room, rfl⟩ := Nat.exists_eq_add_of_lt (Nat.lt_of_lt_of_le (Nat.zero_lt_succ _) hroom)
  rw [← readWord_append h hc hr, Nat.zero_add]
  exact readValue_word (hc c List.mem_cons_self)

theorem not_isWordChar_of_isSpace (h : isSpace c) : isWordChar c = false := by
  simp only [isSpace, Bool.or_eq_true, decide_eq_true_eq] at h
  rcases h with ((rfl | rfl) | rfl) | rfl
  all_goals rfl

/-- What stands behind a value in brackets is no part of it. -/
theorem notFirst_isWordChar {spaces : List Char} (hs : IsSpaceText spaces)
    (hc : isWordChar c = false) : NotFirst isWordChar (spaces ++ c :: rest) :=
  notFirst_append (fun d hd => not_isWordChar_of_isSpace (hs d hd)) (notFirst_cons hc)

theorem skipSpace_value {spaces : List Char} {v : Json} (hs : IsSpaceText spaces)
    (h : Part.Written (.value v) text) : skipSpace (spaces ++ (text ++ rest)) = text ++ rest := by
  obtain ⟨c, more, rfl, hc⟩ := exists_cons_of_value h
  rw [skipSpace_append hs, List.cons_append, skipSpace_cons hc.not_space.1]

section ReadBack

variable {room : Nat} {v : Json} {before after : List Char}

/-- An item is read back, and what comes behind it says whether more of them follow. -/
theorem readItems_append (hb : IsSpaceText before) (h : Part.Written (.value v) text)
    (ih : (Part.value v).ReadBack text) (ha : IsSpaceText after) (hc : isWordChar c = false)
    (hroom : text.length ≤ room) :
    readItems (room + 1) (before ++ (text ++ (after ++ c :: rest))) =
      readMore ']' (readItems room) v (after ++ c :: rest) := by
  rw [readItems, skipSpace_value hb h, ih _ _ hroom (notFirst_isWordChar ha hc)]
  rfl

theorem readMembers_append {name : String} (hb : NameWritten name before)
    (h : Part.Written (.value v) text) (ih : (Part.value v).ReadBack text)
    (ha : IsSpaceText after) (hc : isWordChar c = false) (hroom : text.length ≤ room) :
    readMembers (room + 1) (before ++ (text ++ (after ++ c :: rest))) =
      readMore '\x7d' (readMembers room) (name, v) (after ++ c :: rest) := by
  have hr : NotFirst isWordChar (after ++ c :: rest) := notFirst_isWordChar ha hc
  obtain ⟨d, more, rfl, hd⟩ := exists_cons_of_value h
  rw [readMembers, List.cons_append, hb.read hd.not_space.1, ← List.cons_append, Option.bind_some]
  dsimp only
  rw [ih _ _ hroom hr]
  rfl

/-- The bracket takes one character off the text and one off the room, so there is still enough. -/
theorem readBack_array {items : List Json} (h : Part.Written (.items items) text)
    (ih : (Part.items items).ReadBack text) :
    (Part.value (.array items)).ReadBack ('[' :: text) := by
  intro room rest hroom _
  obtain ⟨room, rfl⟩ := Nat.exists_eq_add_of_lt hroom
  show (readInside ']' (readItems (text.length + room)) (text ++ rest)).map _ = _
  rw [readInside_append (isFilled_of_items h), ih _ _ (by omega)]
  rfl

theorem readBack_object {members : List (String × Json)} (h : Part.Written (.members members) text)
    (ih : (Part.members members).ReadBack text) :
    (Part.value (.object members)).ReadBack ('\x7b' :: text) := by
  intro room rest hroom _
  obtain ⟨room, rfl⟩ := Nat.exists_eq_add_of_lt hroom
  show (readInside '\x7d' (readMembers (text.length + room)) (text ++ rest)).map _ = _
  rw [readInside_append (isFilled_of_members h), ih _ _ (by omega)]
  rfl

end ReadBack

/-- **Every part is read back** from what is written for it. -/
theorem Part.Written.readBack {part : Part} (h : part.Written text) : part.ReadBack text := by
  induction h with
  | null => exact readBack_word rfl (List.all_eq_true.1 rfl) (List.cons_ne_nil _ _)
  | true => exact readBack_word rfl (List.all_eq_true.1 rfl) (List.cons_ne_nil _ _)
  | false => exact readBack_word rfl (List.all_eq_true.1 rfl) (List.cons_ne_nil _ _)
  | @number text h =>
    obtain ⟨c, more, ht, -⟩ := exists_cons_of_isNumber h
    refine readBack_word ?_ (isWordChar_of_isNumber h) (by simp [ht])
    rw [word?_number h, String.ofList_toList]
  | string h =>
    intro room rest hroom _
    obtain ⟨more, rfl⟩ := h.exists_cons
    obtain ⟨room, rfl⟩ := Nat.exists_eq_add_of_lt hroom
    have hread : readString ('"' :: (more ++ rest)) = _ := reads_readString.append h
    show (readString ('"' :: (more ++ rest))).map _ = _
    rw [hread]
    rfl
  | @emptyArray spaces hs =>
    intro room rest hroom _
    obtain ⟨room, rfl⟩ := Nat.exists_eq_add_of_lt hroom
    show (readInside ']' _ (spaces ++ [']'] ++ rest)).map _ = _
    rw [List.append_assoc, List.singleton_append, readInside_close (.inl rfl) hs]
    rfl
  | array h ih => exact readBack_array h ih
  | @emptyObject spaces hs =>
    intro room rest hroom _
    obtain ⟨room, rfl⟩ := Nat.exists_eq_add_of_lt hroom
    show (readInside '\x7d' _ (spaces ++ ['\x7d'] ++ rest)).map _ = _
    rw [List.append_assoc, List.singleton_append, readInside_close (.inr rfl) hs]
    rfl
  | object h ih => exact readBack_object h ih
  | lastItem hb h ha ih =>
    intro room rest hroom
    simp only [List.length_append, List.length_singleton] at hroom
    obtain ⟨room, rfl⟩ := Nat.exists_eq_succ_of_ne_zero (n := room) (by omega)
    simp only [List.append_assoc, List.singleton_append]
    rw [readItems_append hb h ih ha rfl (by omega), readMore_close (.inl rfl) ha]
  | item hb h ha _ ih ihm =>
    intro room rest hroom
    simp only [List.length_append, List.length_cons] at hroom
    obtain ⟨room, rfl⟩ := Nat.exists_eq_succ_of_ne_zero (n := room) (by omega)
    simp only [List.append_assoc, List.cons_append]
    rw [readItems_append hb h ih ha rfl (by omega), readMore_comma (.inl rfl) ha,
      ihm _ _ (by omega)]
    rfl
  | lastMember hb h ha ih =>
    intro room rest hroom
    simp only [List.length_append, List.length_singleton] at hroom
    obtain ⟨room, rfl⟩ := Nat.exists_eq_succ_of_ne_zero (n := room) (by omega)
    simp only [List.append_assoc, List.singleton_append]
    rw [readMembers_append hb h ih ha rfl (by omega), readMore_close (.inr rfl) ha]
  | member hb h ha _ ih ihm =>
    intro room rest hroom
    simp only [List.length_append, List.length_cons] at hroom
    obtain ⟨room, rfl⟩ := Nat.exists_eq_succ_of_ne_zero (n := room) (by omega)
    simp only [List.append_assoc, List.cons_append]
    rw [readMembers_append hb h ih ha rfl (by omega), readMore_comma (.inr rfl) ha,
      ihm _ _ (by omega)]
    rfl

/-- **Exactly the JSON texts are accepted**, each with the value it is written for. -/
theorem parse?_eq_some_iff {text : String} {v : Json} :
    parse? text = some v ↔ TextWritten v text.toList := by
  rw [parse?]
  constructor
  · intro h
    split at h
    · next hr =>
      split at h
      · next hrest =>
        obtain rfl := Option.some.inj h
        obtain ⟨before, hb, hs⟩ := exists_skipSpace text.toList
        obtain ⟨inner, hinner, hw⟩ := (sound _).value _ _ _ hr
        obtain ⟨after, ha, hafter⟩ := exists_skipSpace _
        rw [hrest, List.append_nil] at hafter
        exact ⟨before, inner, after, hb, hw, ha, by rw [hs, hinner, hafter]⟩
      · cases h
    · cases h
  · rintro ⟨before, inner, after, hb, hw, ha, hs⟩
    have hafter : NotFirst isWordChar after := by
      rw [← List.append_nil after]
      exact notFirst_append (fun c hc => not_isWordChar_of_isSpace (ha c hc)) nofun
    have hnil : skipSpace after = [] := by
      rw [← List.append_nil after, skipSpace_append ha]
      rfl
    rw [hs, skipSpace_value hb hw, hw.readBack _ _ (by simp; omega) hafter]
    exact if_pos hnil

example : (parse? "[\"\\uD83D\\ude00\", -0.5e+3, []]").isSome := by decide +kernel

example : (parse? "[01]").isNone ∧ (parse? "[1,]").isNone ∧ (parse? "\"\\uD83D\"").isNone := by
  decide +kernel

end WorkspaceFacts.Json
