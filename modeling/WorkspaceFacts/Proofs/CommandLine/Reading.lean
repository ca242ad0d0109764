import Mathlib.Data.List.TakeWhile
import WorkspaceFacts.Proofs.CommandLine.Gifts

/-!
# Command lines are read as they are spelled

The reader accepts exactly the command lines of the grammar
(`WorkspaceFacts.CommandLine.read_accepts_exactly`). One direction steps over the groups:
where the reader is at the start of a group, it gives the options of the group and goes on
behind it (`WorkspaceFacts.CommandLine.readFrom_group`). The other direction asks what an
argument is that the reader takes for an option, and there are two answers: it is a group
by itself, or the beginning of one that is closed by the next argument
(`WorkspaceFacts.CommandLine.readArgument_cases`).

A fault that waits cannot be lifted by what follows
(`WorkspaceFacts.CommandLine.readFrom_error`), so it does not matter here when a value is
judged.
-/

namespace WorkspaceFacts

namespace CommandLine

variable {o o' : Options} {gift : Gift} {gifts : List Gift}

/-! ### Names and letters -/

theorem ofLetter?_eq_some_iff {b : UInt8} {item : Item} :
    Item.ofLetter? b = some item ↔ b = item.letter := by
  constructor
  · intro h
    unfold Item.ofLetter? at h
    repeat' split at h
    all_goals cases h <;> assumption
  · rintro rfl
    rcases item with (_ | _ | _ | _) | (_ | _) <;> rfl

theorem ofName?_eq_some_iff {name : Bytes} {item : Item} :
    Item.ofName? name = some item ↔ name = Utf8.encode item.name := by
  constructor
  · intro h
    unfold Item.ofName? at h
    repeat' split at h
    all_goals cases h <;> assumption
  · rintro rfl
    rcases item with (_ | _ | _ | _) | (_ | _) <;> decide

theorem letter_ne_dash (item : Item) : item.letter ≠ dash := by
  rcases item with (_ | _ | _ | _) | (_ | _) <;> decide

theorem equals_not_mem_name (item : Item) : equals ∉ Utf8.encode item.name := by
  rcases item with (_ | _ | _ | _) | (_ | _) <;> decide

/-! ### Letters -/

/-- The letters of flags, with more behind them. -/
theorem readLetters_append (flags : List Flag) (h : o.takeAll (flags.map .flag) = .ok o')
    (rest : Bytes) : readLetters (.ok o) (lettersOf flags ++ rest) = readLetters (.ok o') rest := by
  induction flags generalizing o with
  | nil =>
    cases h
    rfl
  | cons f flags ih =>
    have hf : Item.ofLetter? (Item.letter (.switch f.switch)) = some (.switch f.switch) :=
      ofLetter?_eq_some_iff.2 rfl
    rw [List.map_cons, takeAll_cons] at h
    cases ht : o.take (.flag f) with
    | error e =>
      rw [ht] at h
      cases h
    | ok o₁ =>
      rw [ht] at h
      rw [lettersOf, List.map_cons, List.cons_append, readLetters, hf]
      simp only [Except.bind, turnOn_flag, ht]
      exact ih h

theorem readLetters_setting (o : Options) (s : Setting) :
    readLetters (.ok o) [Item.letter (.setting s)] = .ok (o, some s) := by
  rw [readLetters, ofLetter?_eq_some_iff.2 rfl]
  rfl

theorem readLetters_value {s : Setting} {value : Bytes} (h : s.Takes value gift)
    (hv : value.head? ≠ some equals) (o : Options) :
    readLetters (.ok o) (Item.letter (.setting s) :: value) = (o.take gift).map (·, none) := by
  rw [readLetters, ofLetter?_eq_some_iff.2 rfl]
  cases value with
  | nil => exact absurd rfl h.ne_nil
  | cons c value =>
    have hc : c ≠ equals := by simpa using hv
    simp only [Except.bind, if_neg hc, h.give]

theorem readLetters_equals {s : Setting} {value : Bytes} (h : s.Takes value gift) (o : Options) :
    readLetters (.ok o) (Item.letter (.setting s) :: equals :: value) =
      (o.take gift).map (·, none) := by
  rw [readLetters, ofLetter?_eq_some_iff.2 rfl]
  simp only [Except.bind, if_true, h.give]

/-- What is read as letters starts with the letters of flags, and then it ends or goes on
with the letter of a setting. -/
theorem exists_flags {letters : Bytes} {p : Progress} (h : readLetters (.ok o) letters = .ok p) :
    ∃ flags rest o₁, letters = lettersOf flags ++ rest ∧ o.takeAll (flags.map .flag) = .ok o₁ ∧
      (rest = [] ∨ ∃ s value, rest = Item.letter (.setting s) :: value) ∧
      readLetters (.ok o₁) rest = .ok p := by
  induction letters generalizing o with
  | nil => exact ⟨[], [], o, rfl, rfl, .inl rfl, h⟩
  | cons b letters ih =>
    have hread := h
    rw [readLetters] at h
    split at h
    · cases h
    · next s hb =>
      -- A switch: it has to be a flag, and the letters after it are read in the same way.
      obtain rfl := ofLetter?_eq_some_iff.1 hb
      split at h
      · next o₁ ho =>
        obtain ⟨f, rfl⟩ := exists_flag ho
        obtain ⟨flags, rest, o₂, rfl, htake, hrest, hr⟩ := ih h
        refine ⟨f :: flags, rest, o₂, rfl, ?_, hrest, hr⟩
        rw [List.map_cons, takeAll_cons, ← turnOn_flag false, show o.turnOn false f.switch = .ok o₁
          from ho]
        exact htake
      · cases h
    · next s hb =>
      obtain rfl := ofLetter?_eq_some_iff.1 hb
      exact ⟨[], _, o, rfl, rfl, .inr ⟨s, letters, rfl⟩, hread⟩

/-! ### Long names -/

section Names

variable {name value arg : Bytes}

theorem splitEquals_of_not_mem (h : equals ∉ arg) : splitEquals arg = (arg, none) := by
  have hall : ∀ b ∈ arg, (b != equals) = true := by
    intro b hb
    rw [bne_iff_ne]
    rintro rfl
    exact h hb
  rw [splitEquals, List.dropWhile_eq_nil_iff.2 hall]

theorem splitEquals_append (h : equals ∉ name) :
    splitEquals (name ++ equals :: value) = (name, some value) := by
  have hall : ∀ b ∈ name, (b != equals) = true := by
    intro b hb
    rw [bne_iff_ne]
    rintro rfl
    exact h hb
  rw [splitEquals, List.dropWhile_append_of_pos hall, List.takeWhile_append_of_pos hall]
  simp

/-- An argument is what it is split into. -/
theorem splitEquals_join (arg : Bytes) :
    (splitEquals arg).1 ++ (splitEquals arg).2.elim [] (equals :: ·) = arg := by
  unfold splitEquals
  split
  · exact List.append_nil arg
  · next b value h =>
    have hb : b = equals := by
      have := List.head?_dropWhile_not (· != equals) arg
      rw [h] at this
      simpa using this
    show arg.takeWhile (· != equals) ++ equals :: value = arg
    rw [← hb, ← h, hb, List.takeWhile_append_dropWhile]

end Names

theorem readName_flag (o : Options) (f : Flag) :
    readName (.ok o) (Utf8.encode (Item.name (.switch f.switch))) =
      (o.take (.flag f)).map (·, none) := by
  rw [readName, splitEquals_of_not_mem (equals_not_mem_name _), ofName?_eq_some_iff.2 rfl]
  simp only [Except.bind, turnOn_flag]

theorem readName_setting (o : Options) (s : Setting) :
    readName (.ok o) (Utf8.encode (Item.name (.setting s))) = .ok (o, some s) := by
  rw [readName, splitEquals_of_not_mem (equals_not_mem_name _), ofName?_eq_some_iff.2 rfl]
  rfl

theorem readName_equals {s : Setting} {value : Bytes} (h : s.Takes value gift) (o : Options) :
    readName (.ok o) (Utf8.encode (Item.name (.setting s)) ++ equals :: value) =
      (o.take gift).map (·, none) := by
  rw [readName, splitEquals_append (equals_not_mem_name _), ofName?_eq_some_iff.2 rfl]
  simp only [Except.bind, h.give]

/-- What is read as a long name is that of a flag, or that of a setting without a value or
with one. -/
theorem readName_cases {arg : Bytes} {p : Progress} (h : readName (.ok o) arg = .ok p) :
    (∃ f : Flag, arg = Utf8.encode (Item.name (.switch f.switch)) ∧
      (o.take (.flag f)).map (·, none) = .ok p) ∨
    (∃ s, arg = Utf8.encode (Item.name (.setting s)) ∧ p = (o, some s)) ∨
    ∃ s value, arg = Utf8.encode (Item.name (.setting s)) ++ equals :: value ∧
      (o.give value s).map (·, none) = .ok p := by
  have hjoin := splitEquals_join arg
  unfold readName at h
  split at h
  · cases h
  · cases h
  · next s hname hvalue =>
    rw [ofName?_eq_some_iff.1 hname, hvalue] at hjoin
    cases ho : o.turnOn true s with
    | error e =>
      simp [Except.bind, ho, Except.map] at h
    | ok o₁ =>
      obtain ⟨f, rfl⟩ := exists_flag ho
      refine .inl ⟨f, by simpa using hjoin.symm, ?_⟩
      rw [← turnOn_flag true]
      exact h
  · next s value hname hvalue =>
    rw [ofName?_eq_some_iff.1 hname, hvalue] at hjoin
    exact .inr (.inr ⟨s, value, hjoin.symm, h⟩)
  · next s hname hvalue =>
    rw [ofName?_eq_some_iff.1 hname, hvalue] at hjoin
    exact .inr (.inl ⟨s, by simpa using hjoin.symm, (Except.ok.inj h).symm⟩)

/-! ### One argument -/

theorem map_pair_eq_ok {x : Except Stop Options} {pending : Option Setting}
    (h : x.map (·, none) = .ok (o', pending)) : x = .ok o' ∧ pending = none := by
  cases x with
  | error e => cases h
  | ok o =>
    cases h
    exact ⟨rfl, rfl⟩

/-- **What is read as an argument**, either it is a group by itself, or it gives some options
and then a setting, whose value is still to come. -/
theorem readArgument_cases {arg : Bytes} {pending : Option Setting}
    (h : readArgument (.ok o) arg = .ok (o', pending)) :
    (pending = none ∧ ∃ gifts, Group [arg] gifts ∧ o.takeAll gifts = .ok o') ∨
    ∃ s gifts, pending = some s ∧ o.takeAll gifts = .ok o' ∧
      ∀ value gift, s.Takes value gift → CanFollow value →
        Group [arg, value] (gifts ++ [gift]) := by
  unfold readArgument at h
  split at h
  · cases h
  · cases h
  · next b c rest =>
    split at h
    · cases h
    split at h
    · next hb hc =>
      obtain rfl : b = dash := by simpa using hb
      subst hc
      rcases readName_cases h with ⟨f, rfl, hp⟩ | ⟨s, rfl, hp⟩ | ⟨s, value, rfl, hp⟩
      · obtain ⟨ht, rfl⟩ := map_pair_eq_ok hp
        exact .inl ⟨rfl, _, .name f, by rw [takeAll_singleton, ht]⟩
      · obtain ⟨rfl, rfl⟩ := Prod.mk.inj hp
        exact .inr ⟨s, [], rfl, rfl, fun value gift ht hv => .nameThen ht hv⟩
      · obtain ⟨hg, rfl⟩ := map_pair_eq_ok hp
        obtain ⟨gift, ht⟩ := exists_takes hg
        exact .inl ⟨rfl, _, .nameEquals ht, by rw [takeAll_singleton, ← ht.give, hg]⟩
    · next hb hc =>
      obtain rfl : b = dash := by simpa using hb
      obtain ⟨flags, rest', o₁, hl, htake, hrest, hr⟩ := exists_flags h
      rw [hl]
      rcases hrest with rfl | ⟨s, value, rfl⟩
      · -- Letters of flags only. There is at least one.
        cases hr
        rw [List.append_nil] at hl ⊢
        refine .inl ⟨rfl, _, .letters ?_, htake⟩
        rintro rfl
        cases hl
      · cases value with
        | nil =>
          rw [readLetters_setting] at hr
          cases hr
          exact .inr ⟨s, _, rfl, htake, fun value gift ht hv => .lettersThen flags ht hv⟩
        | cons d value =>
          rw [readLetters, ofLetter?_eq_some_iff.2 rfl] at hr
          obtain ⟨hg, rfl⟩ := map_pair_eq_ok hr
          obtain ⟨gift, ht⟩ := exists_takes hg
          refine .inl ⟨rfl, flags.map .flag ++ [gift], ?_, ?_⟩
          · split at ht
            · next hd =>
              subst hd
              exact .lettersEquals flags ht
            · next hd => exact .lettersValue flags ht (by simpa using hd)
          · rw [takeAll_append, htake]
            show o₁.takeAll [gift] = .ok o'
            rw [takeAll_singleton, ← ht.give, hg]

/-! ### All arguments -/

section Steps

variable {arg value : Bytes} {rest : List Bytes} {s : Setting}

/-- What is read as an option does not end the options. -/
theorem isTerminator_eq_false {p : Progress} (h : readArgument (.ok o) arg = .ok p) :
    isTerminator arg = false := by
  rw [isTerminator, beq_eq_false_iff_ne]
  rintro rfl
  cases h

theorem isValue_iff : isValue arg = true ↔ CanFollow arg := by
  simp [isValue, CanFollow]

/-- A fault that waits is never lifted. -/
theorem readArgument_error (e : Stop) (arg : Bytes) (p : Progress) :
    readArgument (.error e) arg ≠ .ok p := by
  intro h
  unfold readArgument at h
  split at h
  · cases h
  · cases h
  · split at h
    · cases h
    split at h
    · unfold readName at h
      split at h <;> cases h
    · rw [readLetters] at h
      split at h <;> cases h

theorem readFrom_error (e : Stop) (args : List Bytes) : readFrom (.error e) args ≠ .ok o := by
  intro h
  cases args with
  | nil => cases h
  | cons arg rest =>
    rw [readFrom] at h
    split at h
    · split at h <;> cases h
    · split at h
      · cases h
      all_goals next hr => exact readArgument_error _ _ _ hr

/-- The step over a group of one argument. -/
theorem readFrom_cons (h : readArgument (.ok o) arg = .ok (o', none)) :
    readFrom (.ok o) (arg :: rest) = readFrom (.ok o') rest := by
  rw [readFrom, isTerminator_eq_false h, h]
  rfl

/-- The step over a setting and its value. -/
theorem readFrom_cons_cons (h : readArgument (.ok o) arg = .ok (o', some s))
    (ht : s.Takes value gift) (hv : CanFollow value) :
    readFrom (.ok o) (arg :: value :: rest) = readFrom (o'.take gift) rest := by
  rw [readFrom, isTerminator_eq_false h, h]
  simp only [Bool.false_eq_true, if_false, isValue_iff.2 hv, if_true, ht.give]

end Steps

/-- An argument of letters is read letter by letter. -/
theorem readArgument_letters (flags : List Flag) (h : o.takeAll (flags.map .flag) = .ok o')
    (rest : Bytes) (hr : flags ≠ [] ∨ ∃ item after, rest = Item.letter item :: after) :
    readArgument (.ok o) (dash :: lettersOf flags ++ rest) = readLetters (.ok o') rest := by
  have first : ∃ item after, lettersOf flags ++ rest = Item.letter item :: after := by
    cases flags with
    | nil => exact hr.resolve_left (by simp)
    | cons f flags => exact ⟨_, _, rfl⟩
  rw [← readLetters_append flags h, List.cons_append]
  obtain ⟨item, after, he⟩ := first
  rw [he, readArgument, if_neg (by simp), if_neg (letter_ne_dash item)]

/-- **The step over a group**: the options of the group are given. -/
theorem readFrom_group {group : List Bytes} (h : Group group gifts)
    (ho : o.takeAll gifts = .ok o') (rest : List Bytes) :
    readFrom (.ok o) (group ++ rest) = readFrom (.ok o') rest := by
  cases h with
  | name f =>
    rw [takeAll_singleton] at ho
    exact readFrom_cons ((readName_flag o f).trans (by rw [ho]; rfl))
  | @nameThen s _ _ ht hv =>
    rw [takeAll_singleton] at ho
    rw [← ho]
    exact readFrom_cons_cons (readName_setting o s) ht hv
  | nameEquals ht =>
    rw [takeAll_singleton] at ho
    exact readFrom_cons ((readName_equals ht o).trans (by rw [ho]; rfl))
  | @letters flags hne =>
    have hread := readArgument_letters flags ho [] (.inl hne)
    rw [List.append_nil] at hread
    exact readFrom_cons hread
  | @lettersThen flags s _ _ ht hv =>
    obtain ⟨o₁, hflags, hgift⟩ := exists_take_of_takeAll ho
    have hread := readArgument_letters flags hflags _ (.inr ⟨.setting s, [], rfl⟩)
    rw [← hgift]
    exact readFrom_cons_cons (hread.trans (readLetters_setting o₁ s)) ht hv
  | @lettersValue flags s value _ ht hv =>
    obtain ⟨o₁, hflags, hgift⟩ := exists_take_of_takeAll ho
    have hread := readArgument_letters flags hflags _ (.inr ⟨.setting s, value, rfl⟩)
    rw [readLetters_value ht hv, hgift] at hread
    exact readFrom_cons hread
  | @lettersEquals flags s value _ ht =>
    obtain ⟨o₁, hflags, hgift⟩ := exists_take_of_takeAll ho
    have hread := readArgument_letters flags hflags _ (.inr ⟨.setting s, equals :: value, rfl⟩)
    rw [readLetters_equals ht, hgift] at hread
    exact readFrom_cons hread

/-- Gifts that can be given are read where they are spelled. -/
theorem Spells.readFrom {args : List Bytes} (h : Spells args gifts)
    (ho : o.takeAll gifts = .ok o') : CommandLine.readFrom (.ok o) args = .ok o' := by
  induction h generalizing o with
  | nil => exact ho
  | terminator => exact ho
  | @cons group rest gifts more hg _ ih =>
    rw [takeAll_append] at ho
    cases h₁ : o.takeAll gifts with
    | error e =>
      rw [h₁] at ho
      cases ho
    | ok o₁ =>
      rw [h₁] at ho
      rw [readFrom_group hg h₁]
      exact ih ho

/-- What is read is spelled. -/
theorem exists_spells {args : List Bytes} (h : readFrom (.ok o) args = .ok o') :
    ∃ gifts, Spells args gifts ∧ o.takeAll gifts = .ok o' := by
  -- The recursion of the reader goes on with a state; only one without a fault gets to the end.
  generalize hs : (Except.ok o : Except Stop Options) = state at h
  fun_induction readFrom state args generalizing o with
  | case1 =>
    obtain rfl := Except.ok.inj (hs.trans h)
    exact ⟨[], .nil, rfl⟩
  | case2 _ arg rest ht he =>
    obtain rfl : arg = [dash, dash] := by simpa [isTerminator] using ht
    obtain rfl : rest = [] := by simpa using he
    obtain rfl := Except.ok.inj (hs.trans h)
    exact ⟨[], .terminator, rfl⟩
  | case3 => cases h
  | case4 => cases h
  | case5 _ arg rest _ o₁ hr ih =>
    -- A group of one argument.
    subst hs
    rcases readArgument_cases hr with ⟨-, gifts, hg, htake⟩ | ⟨s, -, he, -, -⟩
    · obtain ⟨more, hm, hmore⟩ := ih rfl h
      exact ⟨gifts ++ more, .cons hg hm, takeAll_append_of_ok htake hmore⟩
    · cases he
  | case6 => cases h
  | case7 _ arg _ o₁ s hr value rest hv ih =>
    -- A setting whose value is the next argument.
    subst hs
    cases hgive : o₁.give value s with
    | error e =>
      rw [hgive] at h
      exact absurd h (readFrom_error e rest)
    | ok o₂ =>
      obtain ⟨more, hm, hmore⟩ := ih hgive.symm h
      obtain ⟨gift, ht⟩ := exists_takes hgive
      rcases readArgument_cases hr with ⟨he, -⟩ | ⟨s', gifts, he, htake, hgroup⟩
      · cases he
      · cases he
        refine ⟨(gifts ++ [gift]) ++ more, .cons (hgroup value gift ht (isValue_iff.1 hv)) hm, ?_⟩
        refine takeAll_append_of_ok (takeAll_append_of_ok htake ?_) hmore
        rw [takeAll_singleton, ← ht.give, hgive]
  | case8 => exact absurd h (readFrom_error _ _)

/-! ### The grammar and the reader -/

/-- **Command lines are read as they are spelled.** -/
theorem read_eq_ok_iff {args : List Bytes} : read args = .ok o ↔
    ∃ gifts, Spells args gifts ∧ (gifts.map Gift.item).Nodup ∧ Says gifts o := by
  simp only [← takeAll_empty_eq_ok_iff]
  constructor
  · exact exists_spells
  · rintro ⟨gifts, hs, ho⟩
    exact hs.readFrom ho

/-- **The reader accepts exactly what the grammar spells**, and takes it for what it says. A
command line is read if it is made of groups, with a terminator at its end or without, and
no option is given twice. The options are then those that are given; without one of them
there is no workspace, the format is that of lines, and the run is neither quiet nor
verbose. -/
theorem read_accepts_exactly (args : List Bytes) (workspace : Option Bytes) (format : Format)
    (quiet verbose : Bool) :
    (∃ o, read args = .ok o ∧ o.workspace = workspace ∧ o.chosenFormat = format ∧
      o.quiet = quiet ∧ o.verbose = verbose) ↔
    ∃ gifts, Spells args gifts ∧ (gifts.map Gift.item).Nodup ∧
      (∀ path, workspace = some path ↔ .workspace path ∈ gifts) ∧
      (.format format ∈ gifts ∨ format = .lines ∧ ∀ f, .format f ∉ gifts) ∧
      (quiet = true ↔ .flag .quiet ∈ gifts) ∧ (verbose = true ↔ .flag .verbose ∈ gifts) := by
  simp only [read_eq_ok_iff]
  constructor
  · rintro ⟨o, ⟨gifts, hs, nodup, given⟩, rfl, rfl, rfl, rfl⟩
    refine ⟨gifts, hs, nodup, given.workspace, ?_, given.quiet, given.verbose⟩
    rw [Options.chosenFormat]
    cases hf : o.format with
    | some f => exact .inl ((given.format f).1 hf)
    | none =>
      refine .inr ⟨rfl, fun f hg => ?_⟩
      rw [← given.format, hf] at hg
      cases hg
  · rintro ⟨gifts, hs, nodup, hw, hf, hq, hv⟩
    obtain ⟨o, ho⟩ := exists_takeAll nodup
    have given := (Says.of_takeAll ho).2
    refine ⟨o, ⟨gifts, hs, nodup, given⟩, ?_, ?_, ?_, ?_⟩
    · exact Option.ext fun path => (given.workspace path).trans (hw path).symm
    · rw [Options.chosenFormat]
      rcases hf with hf | ⟨rfl, hf⟩
      · rw [(given.format format).2 hf]
        rfl
      · rw [Option.eq_none_iff_forall_ne_some.2 fun f h => hf f ((given.format f).1 h)]
        rfl
    · exact Bool.eq_iff_iff.2 (given.quiet.trans hq.symm)
    · exact Bool.eq_iff_iff.2 (given.verbose.trans hv.symm)

end CommandLine

end WorkspaceFacts
