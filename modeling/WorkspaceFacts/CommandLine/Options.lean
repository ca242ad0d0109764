import WorkspaceFacts.CommandLine.Help
import WorkspaceFacts.Report.Output
import WorkspaceFacts.Text.Utf8

/-!
# Options of the command line

There are two kinds of options. A **switch** stands alone; a **setting** takes a value,
which is attached to it or is the next argument. Every option has a long name and a
letter, letters can be bundled behind one dash, and each option is given at most once.
Nothing but options may be given; a final `--` is allowed and ends them.

The arguments are gone through from left to right, and the first thing that ends the
reading decides: a request for help or for the version, or a fault. One kind of fault
waits. A value that is an argument of its own is judged when the next option or the end
is met, so an argument in between that is no option at all is reported instead. In
`WorkspaceFacts.CommandLine.readFrom` the waiting fault is the error of the state.
-/

namespace WorkspaceFacts

namespace CommandLine

/-- What the options of a command line say. -/
structure Options where
  workspace : Option Bytes
  format : Option Format
  quiet : Bool
  verbose : Bool
  deriving DecidableEq

/-- No options given. -/
def Options.empty : Options := ⟨none, none, false, false⟩

/-- The format of the report; lines, unless another is asked for. -/
def Options.chosenFormat (o : Options) : Format := o.format.getD .lines

/-- What ends the reading of the arguments early. -/
inductive Stop
  /-- Help is asked for, in its short or its long form. -/
  | help (long : Bool)
  /-- The version is asked for. -/
  | version
  /-- An argument is no option. -/
  | unknownArgument
  /-- A setting has no value, an empty one or one that it does not admit. -/
  | invalidValue
  /-- An option is given twice. -/
  | givenTwice
  /-- A switch is given a value. -/
  | unneededValue
  deriving DecidableEq

/-- The text that is printed where the reading ends in one. -/
def Stop.text? : Stop → Option String
  | .help false => some shortHelp
  | .help true => some longHelp
  | .version => some versionText
  | _ => none

/-- The options without a value. -/
inductive Switch
  | quiet
  | verbose
  | help
  | version
  deriving DecidableEq

/-- The options with a value. -/
inductive Setting
  | workspace
  | format
  deriving DecidableEq

/-- An option of either kind. -/
inductive Item
  | switch (s : Switch)
  | setting (s : Setting)
  deriving DecidableEq

/-! ### Names -/

/-- The option with a letter. -/
def Item.ofLetter? (b : UInt8) : Option Item :=
  if b = 'q'.toUInt8 then some (.switch .quiet)
  else if b = 'v'.toUInt8 then some (.switch .verbose)
  else if b = 'h'.toUInt8 then some (.switch .help)
  else if b = 'V'.toUInt8 then some (.switch .version)
  else if b = 'w'.toUInt8 then some (.setting .workspace)
  else if b = 'f'.toUInt8 then some (.setting .format)
  else none

/-- The option with a long name. There are no abbreviations. -/
def Item.ofName? (name : Bytes) : Option Item :=
  if name = Utf8.encode "quiet" then some (.switch .quiet)
  else if name = Utf8.encode "verbose" then some (.switch .verbose)
  else if name = Utf8.encode "help" then some (.switch .help)
  else if name = Utf8.encode "version" then some (.switch .version)
  else if name = Utf8.encode "workspace" then some (.setting .workspace)
  else if name = Utf8.encode "format" then some (.setting .format)
  else none

/-! ### Giving options -/

/-- The options after a switch is given. Help has a long form for the long name. -/
def Options.turnOn (long : Bool) (o : Options) : Switch → Except Stop Options
  | .quiet => if o.quiet then .error .givenTwice else .ok { o with quiet := true }
  | .verbose => if o.verbose then .error .givenTwice else .ok { o with verbose := true }
  | .help => .error (.help long)
  | .version => .error .version

/-- The options after a setting is given a value. -/
def Options.give (o : Options) (value : Bytes) : Setting → Except Stop Options
  | .workspace =>
    if o.workspace.isSome then .error .givenTwice
    else if value.isEmpty then .error .invalidValue
    else .ok { o with workspace := some value }
  | .format =>
    if o.format.isSome then .error .givenTwice
    else match (Utf8.decode? value).bind Format.ofName? with
      | some format => .ok { o with format := some format }
      | none => .error .invalidValue

/-! ### Reading arguments -/

/-- The byte `-`. -/
def dash : UInt8 := '-'.toUInt8

/-- The byte `=`. -/
def equals : UInt8 := '='.toUInt8

/-- The options after an argument, and the setting that waits for its value in the next
one. -/
abbrev Progress := Options × Option Setting

/-- Reads letters behind a dash. All that follows the letter of a setting is its value,
without an equals sign in front. -/
def readLetters (state : Except Stop Options) : Bytes → Except Stop Progress
  | [] => state.map (·, none)
  | b :: rest =>
    match Item.ofLetter? b with
    | none => .error .unknownArgument
    | some (.switch s) =>
      match state.bind (·.turnOn false s) with
      | .ok o => readLetters (.ok o) rest
      | .error e => .error e
    | some (.setting s) =>
      state.bind fun o =>
        match rest with
        | [] => .ok (o, some s)
        | c :: value => (o.give (if c = equals then value else c :: value) s).map (·, none)

/-- Splits an argument at its first equals sign. -/
def splitEquals (arg : Bytes) : Bytes × Option Bytes :=
  match arg.dropWhile (· != equals) with
  | [] => (arg, none)
  | _ :: value => (arg.takeWhile (· != equals), some value)

/-- Reads a long name, with a value or without. -/
def readName (state : Except Stop Options) (arg : Bytes) : Except Stop Progress :=
  match Item.ofName? (splitEquals arg).1, (splitEquals arg).2 with
  | none, _ => .error .unknownArgument
  | some (.switch _), some _ => .error .unneededValue
  | some (.switch s), none => (state.bind (·.turnOn true s)).map (·, none)
  | some (.setting s), some value => (state.bind (·.give value s)).map (·, none)
  | some (.setting s), none => state.map (·, some s)

/-- Reads an argument where an option is expected. -/
def readArgument (state : Except Stop Options) (arg : Bytes) : Except Stop Progress :=
  match arg with
  | [] => .error .unknownArgument
  | [_] => .error .unknownArgument
  | b :: c :: rest =>
    if b ≠ dash then .error .unknownArgument
    else if c = dash then readName state rest
    else readLetters state (c :: rest)

/-- Whether an argument can be the value of a setting: a lone dash can, and otherwise it
may not start with one. -/
def isValue (arg : Bytes) : Bool := arg == [dash] || arg.head? != some dash

/-- Whether an argument ends the options. -/
def isTerminator (arg : Bytes) : Bool := arg == [dash, dash]

/-- Reads the arguments that are left. The state is what has been given so far, or the
fault that waits for the next option. -/
def readFrom (state : Except Stop Options) : List Bytes → Except Stop Options
  | [] => state
  | arg :: rest =>
    if isTerminator arg then if rest.isEmpty then state else .error .unknownArgument
    else match readArgument state arg with
      | .error e => .error e
      | .ok (o, none) => readFrom (.ok o) rest
      | .ok (o, some s) =>
        match rest with
        | [] => .error .invalidValue
        | value :: after =>
          if isValue value then readFrom (o.give value s) after
          else readFrom (.error .invalidValue) (value :: after)

/-- **What the arguments say**, or what ends the reading early. -/
def read (arguments : List Bytes) : Except Stop Options := readFrom (.ok .empty) arguments

end CommandLine

end WorkspaceFacts
