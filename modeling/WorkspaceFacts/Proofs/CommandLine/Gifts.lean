import Mathlib.Data.List.Induction
import Mathlib.Data.List.Nodup
import WorkspaceFacts.Proofs.CommandLine.Grammar
import WorkspaceFacts.Proofs.Text.Encoding

/-!
# Giving options one after the other

However an option is spelled, giving it is `WorkspaceFacts.CommandLine.Options.take`: the
option must be new, and the options then have one gift more. A switch is turned on and a
setting is given its value in this way and in no other. Gifts that are given one after the
other are of different options, and the options that they end in are what the gifts say
(`WorkspaceFacts.CommandLine.takeAll_empty_eq_ok_iff`).
-/

namespace WorkspaceFacts

namespace CommandLine

/-! ### Giving options -/

variable {o o' : Options} {gift : Gift} {gifts : List Gift}

/-- Whether an option has been given. -/
def Options.has (o : Options) : Item → Bool
  | .switch .quiet => o.quiet
  | .switch .verbose => o.verbose
  | .setting .workspace => o.workspace.isSome
  | .setting .format => o.format.isSome
  | _ => false

/-- The options with one more gift. -/
def Options.add (o : Options) : Gift → Options
  | .flag .quiet => { o with quiet := true }
  | .flag .verbose => { o with verbose := true }
  | .workspace path => { o with workspace := some path }
  | .format format => { o with format := some format }

/-- The options with one more gift; no option is given twice. -/
def Options.take (o : Options) (gift : Gift) : Except Stop Options :=
  if o.has gift.item then .error .givenTwice else .ok (o.add gift)

theorem turnOn_flag (long : Bool) (o : Options) (f : Flag) :
    o.turnOn long f.switch = o.take (.flag f) := by
  cases f <;> rfl

/-- Only a flag can be turned on. -/
theorem exists_flag {long : Bool} {s : Switch} (h : o.turnOn long s = .ok o') :
    ∃ f : Flag, s = f.switch := by
  cases s with
  | quiet => exact ⟨.quiet, rfl⟩
  | verbose => exact ⟨.verbose, rfl⟩
  | help => cases h
  | version => cases h

theorem format_ofName?_eq_some_iff {name : String} {format : Format} :
    Format.ofName? name = some format ↔ name = format.name := by
  constructor
  · intro h
    unfold Format.ofName? at h
    repeat' split at h
    all_goals cases h <;> assumption
  · rintro rfl
    cases format <;> rfl

/-- A setting is given what its value spells. -/
theorem Setting.Takes.give {s : Setting} {value : Bytes} (h : s.Takes value gift) (o : Options) :
    o.give value s = o.take gift := by
  cases h with
  | workspace hv =>
    obtain ⟨b, rest, rfl⟩ := List.exists_cons_of_ne_nil hv
    rfl
  | format format =>
    have hv : (Utf8.decode? (Utf8.encode format.name)).bind Format.ofName? = some format := by
      rw [Utf8.decode?_encode]
      exact format_ofName?_eq_some_iff.2 rfl
    rw [Options.give, hv]
    rfl

theorem Setting.Takes.ne_nil {s : Setting} {value : Bytes} (h : s.Takes value gift) :
    value ≠ [] := by
  cases h with
  | workspace hv => exact hv
  | format format => cases format <;> decide

/-- Only a value that spells a gift can be given. -/
theorem exists_takes {s : Setting} {value : Bytes} (h : o.give value s = .ok o') :
    ∃ gift, s.Takes value gift := by
  cases s with
  | workspace =>
    refine ⟨_, .workspace ?_⟩
    rintro rfl
    simp only [Options.give] at h
    split at h <;> cases h
  | format =>
    simp only [Options.give] at h
    split at h
    · cases h
    split at h
    · next format hv =>
      obtain ⟨name, hd, hn⟩ := Option.bind_eq_some_iff.1 hv
      obtain rfl := format_ofName?_eq_some_iff.1 hn
      obtain rfl := Utf8.decode?_eq_some_iff.1 hd
      exact ⟨_, .format format⟩
    · cases h

/-- The options with further gifts. -/
def Options.takeAll (o : Options) (gifts : List Gift) : Except Stop Options :=
  gifts.foldlM Options.take o

theorem takeAll_append (o : Options) (gifts more : List Gift) :
    o.takeAll (gifts ++ more) = (o.takeAll gifts).bind (·.takeAll more) :=
  List.foldlM_append

theorem takeAll_cons (o : Options) (gift : Gift) (gifts : List Gift) :
    o.takeAll (gift :: gifts) = (o.take gift).bind (·.takeAll gifts) :=
  List.foldlM_cons

theorem takeAll_singleton (o : Options) (gift : Gift) : o.takeAll [gift] = o.take gift := by
  rw [takeAll_cons]
  cases o.take gift <;> rfl

theorem takeAll_append_of_ok {o₁ : Options} {more : List Gift} (h₁ : o.takeAll gifts = .ok o₁)
    (h₂ : o₁.takeAll more = .ok o') : o.takeAll (gifts ++ more) = .ok o' := by
  rw [takeAll_append, h₁]
  exact h₂

/-- The last gift is given after the others. -/
theorem exists_take_of_takeAll (h : o.takeAll (gifts ++ [gift]) = .ok o') :
    ∃ o₁, o.takeAll gifts = .ok o₁ ∧ o₁.take gift = .ok o' := by
  rw [takeAll_append] at h
  cases h₁ : o.takeAll gifts with
  | error e =>
    rw [h₁] at h
    cases h
  | ok o₁ =>
    rw [h₁] at h
    exact ⟨o₁, rfl, by rw [← takeAll_singleton]; exact h⟩

/-! ### What gifts amount to -/

theorem Says.eq (h : Says gifts o) (h' : Says gifts o') : o = o' := by
  have hw : o.workspace = o'.workspace :=
    Option.ext fun path => (h.workspace path).trans (h'.workspace path).symm
  have hf : o.format = o'.format :=
    Option.ext fun format => (h.format format).trans (h'.format format).symm
  have hq : o.quiet = o'.quiet := Bool.eq_iff_iff.2 (h.quiet.trans h'.quiet.symm)
  have hv : o.verbose = o'.verbose := Bool.eq_iff_iff.2 (h.verbose.trans h'.verbose.symm)
  cases o
  cases o'
  simp_all

theorem Says.empty : Says [] .empty := by
  constructor <;> simp [Options.empty]

theorem item_eq_flag_iff {f : Flag} : gift.item = .switch f.switch ↔ gift = .flag f := by
  rcases gift with (_ | _) | _ | _ <;> cases f <;> simp [Gift.item, Flag.switch]

theorem item_eq_workspace_iff :
    gift.item = .setting .workspace ↔ ∃ path, gift = .workspace path := by
  cases gift <;> simp [Gift.item]

theorem item_eq_format_iff : gift.item = .setting .format ↔ ∃ format, gift = .format format := by
  cases gift <;> simp [Gift.item]

/-- What has been given is what the gifts give. -/
theorem Says.has_iff (h : Says gifts o) (gift : Gift) :
    o.has gift.item = true ↔ gift.item ∈ gifts.map Gift.item := by
  rw [List.mem_map]
  cases gift with
  | flag f =>
    simp only [show Gift.item (.flag f) = .switch f.switch from rfl, item_eq_flag_iff,
      exists_eq_right]
    cases f with
    | quiet => exact h.quiet
    | verbose => exact h.verbose
  | workspace path =>
    simp only [show Gift.item (.workspace path) = .setting .workspace from rfl,
      item_eq_workspace_iff, Options.has, Option.isSome_iff_exists, h.workspace]
    constructor
    · rintro ⟨p, hp⟩
      exact ⟨_, hp, p, rfl⟩
    · rintro ⟨_, hp, p, rfl⟩
      exact ⟨p, hp⟩
  | format format =>
    simp only [show Gift.item (.format format) = .setting .format from rfl,
      item_eq_format_iff, Options.has, Option.isSome_iff_exists, h.format]
    constructor
    · rintro ⟨f, hf⟩
      exact ⟨_, hf, f, rfl⟩
    · rintro ⟨_, hf, f, rfl⟩
      exact ⟨f, hf⟩

/-- One more gift says one thing more. -/
theorem Says.add (h : Says gifts o) (hn : o.has gift.item = false) :
    Says (gifts ++ [gift]) (o.add gift) := by
  obtain ⟨hw, hf, hq, hv⟩ := h
  rcases gift with (_ | _) | path | format
  · constructor <;> simp [Options.add, hw, hf, hv]
  · constructor <;> simp [Options.add, hw, hf, hq]
  · have hnone : ∀ path, .workspace path ∉ gifts := by
      intro path hp
      rw [← hw] at hp
      simp [Options.has, Gift.item, hp] at hn
    constructor <;> simp [Options.add, hf, hq, hv, hnone, eq_comm]
  · have hnone : ∀ format, .format format ∉ gifts := by
      intro format hp
      rw [← hf] at hp
      simp [Options.has, Gift.item, hp] at hn
    constructor <;> simp [Options.add, hw, hq, hv, hnone, eq_comm]

theorem take_eq_ok_iff : o.take gift = .ok o' ↔ o.has gift.item = false ∧ o' = o.add gift := by
  rw [Options.take]
  split
  · next h => simp [h]
  · next h => simp [h, eq_comm]

/-- Gifts that are given amount to what they say, and no two of them are of the same option. -/
theorem Says.of_takeAll (h : Options.empty.takeAll gifts = .ok o) :
    (gifts.map Gift.item).Nodup ∧ Says gifts o := by
  -- From the last gift: what has been given before it decides whether it can be given.
  induction gifts using List.reverseRecOn generalizing o with
  | nil =>
    obtain rfl := Except.ok.inj h
    exact ⟨List.nodup_nil, Says.empty⟩
  | append_singleton gifts gift ih =>
    obtain ⟨o₁, h₁, hgift⟩ := exists_take_of_takeAll h
    obtain ⟨hn, rfl⟩ := take_eq_ok_iff.1 hgift
    obtain ⟨nodup, given⟩ := ih h₁
    refine ⟨?_, given.add hn⟩
    have hnot : gift.item ∉ gifts.map Gift.item := by
      rw [← given.has_iff, hn]
      exact Bool.false_ne_true
    rw [List.map_append, List.map_singleton]
    exact List.nodup_append_comm.1 (List.nodup_cons.2 ⟨hnot, nodup⟩)

/-- Gifts no two of which are of the same option can be given. -/
theorem exists_takeAll (h : (gifts.map Gift.item).Nodup) :
    ∃ o, Options.empty.takeAll gifts = .ok o := by
  induction gifts using List.reverseRecOn with
  | nil => exact ⟨_, rfl⟩
  | append_singleton gifts gift ih =>
    rw [List.map_append, List.map_singleton] at h
    obtain ⟨hnot, nodup⟩ := List.nodup_cons.1 (List.nodup_append_comm.1 h)
    obtain ⟨o, ho⟩ := ih nodup
    have hn : o.has gift.item = false := by
      rw [← Bool.not_eq_true, (Says.of_takeAll ho).2.has_iff]
      exact hnot
    refine ⟨o.add gift, takeAll_append_of_ok ho ?_⟩
    rw [takeAll_singleton]
    exact take_eq_ok_iff.2 ⟨hn, rfl⟩

theorem takeAll_empty_eq_ok_iff :
    Options.empty.takeAll gifts = .ok o ↔ (gifts.map Gift.item).Nodup ∧ Says gifts o := by
  refine ⟨Says.of_takeAll, ?_⟩
  rintro ⟨nodup, given⟩
  obtain ⟨o', ho⟩ := exists_takeAll nodup
  rw [ho, (Says.of_takeAll ho).2.eq given]

end CommandLine

end WorkspaceFacts
