import WorkspaceFacts.CommandLine.Options
import WorkspaceFacts.Log
import WorkspaceFacts.Report.Output
import WorkspaceFacts.Settings

/-!
# A run of the program

What the program does, as a function from its arguments, two variables of its environment
and the files that it can read to what it prints and the status that it ends with.

The report is complete before any of it is printed, so a run that fails prints nothing.
-/

namespace WorkspaceFacts

namespace Program

/-- What a run is started with. -/
structure Invocation where
  arguments : List Bytes
  /-- The variable that names the root of the workspace. -/
  rootVariable : Option Bytes
  /-- The variable that holds the log filter. -/
  logVariable : Option Bytes
  deriving DecidableEq

/-- The variable that holds the log filter. -/
def logVariableName : String := "CARGO_QUERY_LOG"

/-- How a run goes out. -/
inductive Outcome
  /-- A text that was asked for is printed instead of a report. -/
  | shown (text : String)
  /-- The arguments are refused. -/
  | refused (stop : CommandLine.Stop)
  /-- There is no report; `log` has the lines of the log. -/
  | failed (log : List String) (diagnostic : String)
  /-- The report is printed. -/
  | reported (log : List String) (output : Bytes)
  deriving DecidableEq

namespace Outcome

/-- The exit status. -/
def status : Outcome → Nat
  | .shown _ => 0
  | .refused _ => 2
  | .failed _ _ => 1
  | .reported _ _ => 0

/-- What is printed on the standard output. -/
def output : Outcome → Bytes
  | .shown text => Utf8.encode text
  | .reported _ output => output
  | _ => []

/-- The lines on the standard error output; what is said about refused arguments is left
open. -/
def diagnostics? : Outcome → Option (List String)
  | .shown _ => some []
  | .refused _ => none
  | .failed log diagnostic => some (log ++ [diagnostic])
  | .reported log _ => some log

end Outcome

/-- The level down to which events are shown if no filter is set. -/
def defaultLevel (options : CommandLine.Options) : Level :=
  if options.quiet then .error else if options.verbose then .debug else .warn

/-- The filter of a run: the one in the variable, if it is well formed. -/
def filter (options : CommandLine.Options) (logVariable : Option Bytes) : LogFilter :=
  ((logVariable.bind Utf8.decode?).bind LogFilter.ofText?).getD
    (LogFilter.uniform (defaultLevel options))

/-- The line that names a failure. -/
def diagnostic (text : String) : String := "cargo-query error: " ++ text

/-- The wording of a failure to get the facts about the workspace at `root`. -/
def failure (root : Path) (e : ManifestError) : String :=
  "failed to query workspace at " ++ root.display ++ ": " ++ e.message
    ++ (e.cause?.elim "" (": " ++ ·))

/-- A run whose arguments make sense. -/
def runWith (files : Files) (invocation : Invocation) (options : CommandLine.Options) : Outcome :=
  match Settings.root options.workspace invocation.rootVariable with
  | .error _ => .failed [] (diagnostic "failed to load configuration")
  | .ok root =>
    let work := Report.collect files ⟨root⟩
    let log := (filter options invocation.logVariable).lines work.events
    match work.outcome with
    | .ok report => .reported log (report.output options.chosenFormat)
    | .error e => .failed log (diagnostic (failure root e))

/-- The files that a run may read. -/
def paths (invocation : Invocation) : List Path :=
  match CommandLine.read invocation.arguments with
  | .ok options =>
    match Settings.root options.workspace invocation.rootVariable with
    | .ok root => Layout.manifests ⟨root⟩
    | .error _ => []
  | .error _ => []

/-- **A run of the program.** -/
def run (files : Files) (invocation : Invocation) : Outcome :=
  match CommandLine.read invocation.arguments with
  | .ok options => runWith files invocation options
  | .error stop =>
    match stop.text? with
    | some text => .shown text
    | none => .refused stop

end Program

end WorkspaceFacts
