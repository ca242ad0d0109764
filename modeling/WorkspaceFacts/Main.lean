import WorkspaceFacts.Program

/-!
# The command line

Reads the files that a run may need, lets `WorkspaceFacts.Program.run` decide, and prints
what it says.
-/

namespace WorkspaceFacts

namespace Program

/-- The reason for a failed reading, by the number that the system gives it. -/
def readErrorOf (e : IO.Error) : ReadError :=
  let ofCode (code : UInt32) : ReadError :=
    if code = 2 then .notFound
    else if code = 13 then .permissionDenied
    else if code = 20 then .notADirectory
    else if code = 21 then .isADirectory
    else if code = 36 then .nameTooLong
    else .other (toString e)
  match e with
  | .noFileOrDirectory _ code _ => ofCode code
  | .permissionDenied _ code _ => ofCode code
  | .inappropriateType _ code _ => ofCode code
  | .invalidArgument _ code _ => ofCode code
  | .resourceExhausted _ code _ => ofCode code
  | .otherError code _ => ofCode code
  | _ => .other (toString e)

/-- Reads a file. A path that spells no text cannot be handed to the system from here. -/
def readFile (path : Path) : IO (Except ReadError Bytes) := do
  match Utf8.decode? path.bytes with
  | none => return .error (.other "path is not text")
  | some name =>
    if path.bytes.contains 0 then return .error .zeroByte
    try return .ok (← IO.FS.readBinFile name).toList
    catch e => return .error (readErrorOf e)

/-- Prints what a run says and returns its status. -/
def perform (outcome : Outcome) : IO UInt32 := do
  let stderr ← IO.getStderr
  let complain (text : String) : IO Unit := stderr.putStr (text ++ "\n")
  match outcome.diagnostics? with
  | some lines => lines.forM complain
  | none => complain (diagnostic "the arguments are not understood")
  try
    let stdout ← IO.getStdout
    stdout.write ⟨outcome.output.toArray⟩
    stdout.flush
    return UInt32.ofNat outcome.status
  catch _ =>
    complain (diagnostic (Report.writeMessage .brokenPipe))
    return 1

end Program

end WorkspaceFacts

open WorkspaceFacts in
/-- Runs the program on the arguments and the environment of the process. -/
def main (arguments : List String) : IO UInt32 := do
  let fromEnvironment (name : String) : IO (Option Bytes) :=
    return (← IO.getEnv name).map Utf8.encode
  let invocation : Program.Invocation :=
    ⟨arguments.map Utf8.encode, ← fromEnvironment Settings.rootVariable,
      ← fromEnvironment Program.logVariableName⟩
  let outcomes ← (Program.paths invocation).mapM fun path => do
    return (path, ← Program.readFile path)
  Program.perform (Program.run (Files.ofList outcomes) invocation)
