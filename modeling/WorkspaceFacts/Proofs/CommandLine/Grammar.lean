import WorkspaceFacts.CommandLine.Options

/-!
# How options are spelled

A grammar of command lines. An option that is given, a **gift**, is a switch or a setting
with its value, and it can be spelled in several ways: by a long name or by a letter, with
the value behind an equals sign, right behind the letter, or as the next argument. The
arguments that belong together in this way make a **group**
(`WorkspaceFacts.CommandLine.Group`); a group of letters can give several options at once.
A command line is one group after the other, and a terminator may stand at its end
(`WorkspaceFacts.CommandLine.Spells`).

The grammar says nothing on how often an option is given. That, and what the gifts amount
to (`WorkspaceFacts.CommandLine.Says`), does not depend on how they are spelled.
-/

namespace WorkspaceFacts

namespace CommandLine

/-! ### Gifts -/

/-- The switches that a run can be given. Those for help and for the version end the
reading instead. -/
inductive Flag
  | quiet
  | verbose
  deriving DecidableEq

/-- The switch that a flag is. -/
def Flag.switch : Flag → Switch
  | .quiet => .quiet
  | .verbose => .verbose

/-- An option as it is given. -/
inductive Gift
  | flag (f : Flag)
  | workspace (path : Bytes)
  | format (format : Format)
  deriving DecidableEq

/-- The option that a gift gives. -/
def Gift.item : Gift → Item
  | .flag f => .switch f.switch
  | .workspace _ => .setting .workspace
  | .format _ => .setting .format

/-- **The value spells a gift** of the setting. A path is any bytes, but not none; a format
has a name. -/
inductive Setting.Takes : Setting → Bytes → Gift → Prop
  | workspace {path : Bytes} (h : path ≠ []) : Takes .workspace path (.workspace path)
  | format (format : Format) : Takes .format (Utf8.encode format.name) (.format format)

/-! ### Names -/

/-- The long name of an option. -/
def Item.name : Item → String
  | .switch .quiet => "quiet"
  | .switch .verbose => "verbose"
  | .switch .help => "help"
  | .switch .version => "version"
  | .setting .workspace => "workspace"
  | .setting .format => "format"

/-- The letter of an option. -/
def Item.letter : Item → UInt8
  | .switch .quiet => 'q'.toUInt8
  | .switch .verbose => 'v'.toUInt8
  | .switch .help => 'h'.toUInt8
  | .switch .version => 'V'.toUInt8
  | .setting .workspace => 'w'.toUInt8
  | .setting .format => 'f'.toUInt8

/-- The bytes of a long name, with the two dashes in front of it. -/
def Item.word (item : Item) : Bytes := dash :: dash :: Utf8.encode item.name

/-- The letters of flags. -/
def lettersOf (flags : List Flag) : Bytes := flags.map fun f => Item.letter (.switch f.switch)

/-! ### Groups -/

/-- The argument can stand behind a setting as its value: it is a lone dash, or it does not
start with one. -/
def CanFollow (arg : Bytes) : Prop := arg = [dash] ∨ arg.head? ≠ some dash

/-- **The arguments are a group** that gives the gifts. -/
inductive Group : List Bytes → List Gift → Prop
  /-- The long name of a switch. -/
  | name (f : Flag) : Group [Item.word (.switch f.switch)] [.flag f]
  /-- The long name of a setting, and its value as the next argument. -/
  | nameThen {s : Setting} {value : Bytes} {gift : Gift} (h : s.Takes value gift)
      (hv : CanFollow value) : Group [Item.word (.setting s), value] [gift]
  /-- The long name of a setting, an equals sign and the value. -/
  | nameEquals {s : Setting} {value : Bytes} {gift : Gift} (h : s.Takes value gift) :
      Group [Item.word (.setting s) ++ equals :: value] [gift]
  /-- Letters of switches behind a dash. -/
  | letters {flags : List Flag} (h : flags ≠ []) :
      Group [dash :: lettersOf flags] (flags.map .flag)
  /-- Letters, the last of them that of a setting, and its value as the next argument. -/
  | lettersThen (flags : List Flag) {s : Setting} {value : Bytes} {gift : Gift}
      (h : s.Takes value gift) (hv : CanFollow value) :
      Group [dash :: lettersOf flags ++ [Item.letter (.setting s)], value]
        (flags.map .flag ++ [gift])
  /-- Letters, the last of them that of a setting, and right behind it the value, which may
  not start with an equals sign. -/
  | lettersValue (flags : List Flag) {s : Setting} {value : Bytes} {gift : Gift}
      (h : s.Takes value gift) (hv : value.head? ≠ some equals) :
      Group [dash :: lettersOf flags ++ Item.letter (.setting s) :: value]
        (flags.map .flag ++ [gift])
  /-- Letters, the last of them that of a setting, an equals sign and the value. -/
  | lettersEquals (flags : List Flag) {s : Setting} {value : Bytes} {gift : Gift}
      (h : s.Takes value gift) :
      Group [dash :: lettersOf flags ++ Item.letter (.setting s) :: equals :: value]
        (flags.map .flag ++ [gift])

/-- **The arguments spell the gifts**, group by group. -/
inductive Spells : List Bytes → List Gift → Prop
  | nil : Spells [] []
  | terminator : Spells [[dash, dash]] []
  | cons {group rest : List Bytes} {gifts more : List Gift} (h : Group group gifts)
      (hr : Spells rest more) : Spells (group ++ rest) (gifts ++ more)

/-! ### What gifts amount to -/

/-- **The options are what the gifts say**: what is given, and nothing else. -/
structure Says (gifts : List Gift) (options : Options) : Prop where
  workspace : ∀ path, options.workspace = some path ↔ .workspace path ∈ gifts
  format : ∀ format, options.format = some format ↔ .format format ∈ gifts
  quiet : options.quiet = true ↔ .flag .quiet ∈ gifts
  verbose : options.verbose = true ↔ .flag .verbose ∈ gifts

end CommandLine

end WorkspaceFacts
