import WorkspaceFacts.Proofs.Text.Encoding
import WorkspaceFacts.Settings

/-!
# Loading the settings

Of the option, the variable and the default, the first that gives a root wins, and its bytes are
the root as they are, whether they spell a text or not (`WorkspaceFacts.Settings.root_eq`). The
layers in between are never in the way: their topmost value is always text.

Two ways lead to a root: the layers alone, which hold text only, and the layers with the values
put in place of their result that are no text. They agree where the variable spells a text, and
where it does not, the layers alone are left with the default. A process may load its settings
as often as it likes and change its environment in between: a load sees what the last change has
left of it, and nothing of the loads before (`WorkspaceFacts.Settings.loads_winning_source`).
-/

namespace WorkspaceFacts

namespace Settings

/-! ### The root -/

theorem settle_layers (exported? : Option Bytes) :
    settle (layers exported?) = .ok ((exported?.bind Utf8.decode?).getD defaultRoot) := by
  unfold layers
  split
  · next text h => rw [h]; rfl
  · next h => rw [h]; rfl

/-- **The root is the winning source, byte for byte.** -/
theorem root_eq (chosen? exported? : Option Bytes) : root chosen? exported? =
    .ok ⟨(chosen?.or exported?).getD (Utf8.encode defaultRoot)⟩ := by
  rw [root, settle_layers]
  cases chosen? with
  | some bytes => rfl
  | none =>
    cases exported? with
    | none => rfl
    | some bytes =>
      cases h : Utf8.decode? bytes with
      | none => simp [h]
      | some text =>
        obtain rfl := Utf8.decode?_eq_some_iff.1 h
        simp [h, Path.ofString]

variable {exported? : Option Bytes}

/-! ### The layers alone -/

/-- The topmost layer decides, whatever lies below it. -/
theorem settle_append_singleton (below : Layers) (top : Json) :
    settle (below ++ [top]) = settle [top] := by
  rw [settle, settle, List.getLast?_concat, List.getLast?_singleton]

theorem settle_singleton_of_not_string {top : Json} (h : ∀ text, top ≠ .string text) :
    settle [top] = .error .notText := by
  unfold settle
  split
  · next text heq => exact absurd (Option.some.inj heq) (h text)
  · rfl

theorem settle_layers_of_text {text : String} (h : exported? = some (Utf8.encode text)) :
    settle (layers exported?) = .ok text := by
  rw [settle_layers, h, Option.bind_some, Utf8.decode?_encode, Option.getD_some]

theorem settle_layers_of_not_text {bytes : Bytes} (h : exported? = some bytes)
    (hb : ∀ text, bytes ≠ Utf8.encode text) : settle (layers exported?) = .ok defaultRoot := by
  have hnone : Utf8.decode? bytes = none := by
    rw [Option.eq_none_iff_forall_ne_some]
    exact fun text ht => hb text (Utf8.decode?_eq_some_iff.1 ht)
  rw [settle_layers, h, Option.bind_some, hnone, Option.getD_none]

/-- Where the variable spells a text or is not set, nothing has to be put in place of what the
layers settle. -/
theorem settle_layers_eq_root
    (h : ∀ bytes, exported? = some bytes → ∃ text, bytes = Utf8.encode text) :
    (settle (layers exported?)).map Path.ofString = root none exported? := by
  rw [root_eq, Option.none_or]
  cases exported? with
  | none => rfl
  | some bytes =>
    obtain ⟨text, rfl⟩ := h bytes rfl
    rw [settle_layers_of_text rfl]
    rfl

/-! ### A process and its environment -/

/-- The variables of a process: values under names. -/
abbrev Environment := Bytes → Option Bytes

/-- What a process does to its environment, and what it asks of its settings. -/
inductive Action
  /-- Gives a variable a value, or takes the variable away. -/
  | assign (name : Bytes) (value? : Option Bytes)
  /-- Loads the root, with the option of the command line if there is one. -/
  | load (chosen? : Option Bytes)
  /-- Settles the layers alone, with further ones on top. -/
  | settle (tops : Layers)

/-- The name of the variable in an environment. -/
def rootName : Bytes := Utf8.encode rootVariable

namespace Action

/-- What the process gets from an action while the variable has the given value. -/
def answer? (exported? : Option Bytes) : Action → Option (Except SettingsError Path)
  | .assign _ _ => none
  | .load chosen? => some (root chosen? exported?)
  | .settle tops => some ((Settings.settle (layers exported? ++ tops)).map Path.ofString)

/-- The environment after an action. -/
def after (env : Environment) : Action → Environment
  | .assign name value? => fun n => if n = name then value? else env n
  | _ => env

/-- What an action makes of the variable, if it is about it. -/
def exports? : Action → Option (Option Bytes)
  | .assign name value? => if name = rootName then some value? else none
  | _ => none

theorem after_rootName (env : Environment) (action : Action) :
    action.after env rootName = action.exports?.getD (env rootName) := by
  cases action with
  | assign name value? =>
    simp only [after, exports?, eq_comm (a := rootName)]
    split <;> rfl
  | load chosen? => rfl
  | settle tops => rfl

end Action

/-- What a process gets, action by action. -/
def answers (env : Environment) : List Action → List (Except SettingsError Path)
  | [] => []
  | action :: rest => (action.answer? (env rootName)).toList ++ answers (action.after env) rest

/-- The environment after some actions. -/
def environmentAfter (env : Environment) (actions : List Action) : Environment :=
  actions.foldl Action.after env

/-- The value of the variable after some actions, told from the last one that is about it. -/
def exportedAfter (env : Environment) (actions : List Action) : Option Bytes :=
  (actions.filterMap Action.exports?).getLast?.getD (env rootName)

theorem answers_append (env : Environment) (before later : List Action) :
    answers env (before ++ later) =
      answers env before ++ answers (environmentAfter env before) later := by
  induction before generalizing env with
  | nil => rfl
  | cons action before ih =>
    rw [List.cons_append, answers, answers, ih, List.append_assoc]
    rfl

theorem environmentAfter_rootName (env : Environment) (actions : List Action) :
    environmentAfter env actions rootName = exportedAfter env actions := by
  induction actions generalizing env with
  | nil => rfl
  | cons action actions ih =>
    have hnext := ih (action.after env)
    rw [exportedAfter, Action.after_rootName] at hnext
    rw [environmentAfter, List.foldl_cons, exportedAfter, List.filterMap_cons]
    refine hnext.trans ?_
    cases action.exports? with
    | none => rfl
    | some value? => rw [List.getLast?_cons, Option.getD_some, Option.getD_some]

/-- **A load takes the winning source, byte for byte.** It never fails: its root is the option
if there is one, else the variable if that is set, else the current directory. The layers
alone come to the same root where the variable spells a text or is not set, and to the current
directory where it spells none. A text that is put on top of them wins over all sources, and
anything else there is an error. And whatever a process did before, what it gets from an action
depends on the action and on the value that the variable has at that step. -/
theorem loads_winning_source (exported? : Option Bytes) :
    (∀ chosen?, root chosen? exported? = .ok ⟨(chosen?.or exported?).getD (Utf8.encode ".")⟩) ∧
    ((∀ bytes, exported? = some bytes → ∃ text, bytes = Utf8.encode text) →
      (settle (layers exported?)).map Path.ofString = root none exported?) ∧
    (∀ bytes, exported? = some bytes → (∀ text, bytes ≠ Utf8.encode text) →
      settle (layers exported?) = .ok ".") ∧
    (∀ text, settle (layers exported? ++ [.string text]) = .ok text) ∧
    (∀ top, (∀ text, top ≠ .string text) →
      settle (layers exported? ++ [top]) = .error .notText) ∧
    ∀ env before action later, exportedAfter env before = exported? →
      answers env (before ++ action :: later) = answers env before ++
        (action.answer? exported?).toList ++
        answers (environmentAfter env (before ++ [action])) later := by
  refine ⟨fun chosen? => root_eq chosen? exported?, settle_layers_eq_root,
    fun bytes => settle_layers_of_not_text, fun text => ?_, fun top h => ?_, ?_⟩
  · rw [settle_append_singleton]
    rfl
  · rw [settle_append_singleton, settle_singleton_of_not_string h]
  · rintro env before action later rfl
    rw [answers_append, answers, environmentAfter_rootName, List.append_assoc, environmentAfter,
      environmentAfter, List.foldl_append]
    rfl

/-- A value that looks like a number is taken as it is, also after a load with an option and
after a change of another variable; one that is no text is kept, but the layers alone do not
see it; and a number on top of them is an error. -/
theorem loads_winning_source_numeral :
    root none (some (Utf8.encode "007")) = .ok (.ofString "007") ∧
      (settle (layers (some (Utf8.encode "007")))).map Path.ofString =
        root none (some (Utf8.encode "007")) ∧
      root none (some [0x2F, 0xFF]) = .ok ⟨[0x2F, 0xFF]⟩ ∧
      settle (layers (some [0x2F, 0xFF])) = .ok "." ∧
      settle (layers (some [0x2F, 0xFF]) ++ [.number "7"]) = .error .notText ∧
      answers (fun _ => none) [.assign rootName (some (Utf8.encode "007")), .load (some [0xFF]),
          .assign (Utf8.encode "PATH_WS_EXTRA") none, .load none] =
        [.ok ⟨[0xFF]⟩, .ok (.ofString "007")] := by
  obtain ⟨numeral, agree, -, -, -, session⟩ := loads_winning_source (some (Utf8.encode "007"))
  obtain ⟨raw, -, alone, -, refused, -⟩ := loads_winning_source (some [0x2F, 0xFF])
  refine ⟨numeral none, agree fun bytes h => ⟨_, (Option.some.inj h).symm⟩, raw none, ?_, ?_, ?_⟩
  · refine alone _ rfl fun text h => ?_
    have hnone : Utf8.decode? [0x2F, 0xFF] = none := by decide
    rw [h, Utf8.decode?_encode] at hnone
    cases hnone
  · exact refused (.number "7") nofun
  · refine (session (fun _ => none) [.assign rootName (some (Utf8.encode "007")),
      .load (some [0xFF]), .assign (Utf8.encode "PATH_WS_EXTRA") none] (.load none) []
      (by decide)).trans ?_
    rw [Action.answer?, numeral]
    rfl

end Settings

end WorkspaceFacts
