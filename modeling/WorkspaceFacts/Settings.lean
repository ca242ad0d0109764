import WorkspaceFacts.Json
import WorkspaceFacts.Path

/-!
# Where the workspace is

The root of the workspace comes from three sources; of those that give one, the first
here wins: an option of the command line, the variable `PATH_WS`, and the default, which
is the current directory.

The sources are stacked as **layers** of settings, and the topmost layer decides. A layer
holds text, so the value of a variable that spells no text cannot be one, and neither can
such an option; they are put in the place of the settled root as they are.
-/

namespace WorkspaceFacts

namespace Settings

/-- The variable that names the root of the workspace. -/
def rootVariable : String := "PATH_WS"

/-- The root of the workspace if nothing else names it: the current directory. -/
def defaultRoot : String := "."

/-- Values for the root of the workspace, the decisive one last. -/
abbrev Layers := List Json

/-- The layers of an environment in which the variable has the given value. The value is
taken as the text that it is, whatever else it may look like. -/
def layers (exported? : Option Bytes) : Layers :=
  match exported?.bind Utf8.decode? with
  | some text => [.string defaultRoot, .string text]
  | none => [.string defaultRoot]

/-- Why layers settle no root: the topmost value is not text. -/
inductive SettingsError
  | notText
  deriving DecidableEq

/-- The root that layers settle. The topmost value decides, even where it is not text. -/
def settle (layers : Layers) : Except SettingsError String :=
  match layers.getLast? with
  | some (.string text) => .ok text
  | _ => .error .notText

/-- **The root of the workspace**, given the option and the variable. -/
def root (chosen? exported? : Option Bytes) : Except SettingsError Path :=
  match settle (layers exported?) with
  | .error e => .error e
  | .ok text =>
    match chosen?, exported? with
    | some bytes, _ => .ok ⟨bytes⟩
    | none, some bytes => if (Utf8.decode? bytes).isNone then .ok ⟨bytes⟩ else .ok (.ofString text)
    | none, none => .ok (.ofString text)

end Settings

end WorkspaceFacts
