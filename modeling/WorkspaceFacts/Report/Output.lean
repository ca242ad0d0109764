import WorkspaceFacts.Json
import WorkspaceFacts.Report

/-!
# Writing a report out

A report is written as positional lines or as an indented JSON object. Lines carry no
escaping: they can be read back if no version holds a line end and no rule a comma or a
line end.

What reads the report may close its end before everything has been written. A **sink** is
a place to write to that may have room for so many bytes only, and that may fail to pass
on what it has taken.

A sink is asked for one thing after the other: to take bytes, of which it takes the part
that it has room for, and to pass on what it has taken. Whoever writes offers what is left
until everything has been taken, and stops at the first request that fails. The text of a
report and the line end behind it are offered separately. Writing tells which bytes were
taken and whether all went well.
-/

namespace WorkspaceFacts

/-! ### The two formats -/

/-- The formats of a report. -/
inductive Format
  | lines
  | json
  deriving DecidableEq

namespace Format

/-- The name of a format. -/
def name : Format → String
  | .lines => "lines"
  | .json => "json"

/-- The format with a name, which is spelled in lower case. -/
def ofName? (name : String) : Option Format :=
  if name = "lines" then some .lines
  else if name = "json" then some .json
  else none

end Format

/-- A version with its package as an object. -/
def PackageVersion.toJson (v : PackageVersion) : Json :=
  .object [("package", .string v.package), ("version", .string v.version)]

/-- A disabled lint as it is shown; the group is left out. -/
def DisabledLint.toJson (lint : DisabledLint) : Json := .string lint.display

namespace Report

/-- The report as an object of two lists. -/
def toJson (report : Report) : Json :=
  .object [
    ("versions", .array (report.versions.map PackageVersion.toJson)),
    ("disabled_lints", .array (report.disabledLints.map DisabledLint.toJson))]

/-- **The text of a report** in a format, without a line end after it. -/
def render (report : Report) : Format → String
  | .lines => "\n".intercalate report.lines
  | .json => report.toJson.indented

end Report

/-! ### Sinks -/

/-- A place to write to. -/
structure Sink where
  /-- How many bytes it takes before it is closed; without a limit it takes all. -/
  room : Option Nat
  /-- Whether it fails to pass on the bytes that it has taken. -/
  flushFails : Bool
  deriving DecidableEq

/-- Why an output is not complete. -/
inductive WriteError
  /-- The other end is closed. -/
  | brokenPipe
  /-- Nothing was taken of the bytes that were offered, for no reason that was given. -/
  | nothingTaken
  deriving DecidableEq

/-- The wording of a failed writing. -/
def WriteError.message : WriteError → String
  | .brokenPipe => "broken pipe"
  | .nothingTaken => "failed to write whole buffer"

/-- What a sink is asked for. -/
inductive Request
  /-- To take bytes; it may take only the first ones of them. -/
  | take (bytes : Bytes)
  /-- To pass on what it has taken. -/
  | passOn
  deriving DecidableEq

/-- A request and how it went out: how many bytes were taken, or why it failed. -/
structure Exchange where
  request : Request
  outcome : Except WriteError Nat

/-- The bytes that were taken. -/
def Exchange.taken (x : Exchange) : Bytes :=
  match x.request, x.outcome with
  | .take bytes, .ok n => bytes.take n
  | _, _ => []

/-- A writing that has come to an end. -/
structure Writing where
  /-- The requests in their order. -/
  exchanges : List Exchange
  error : Option WriteError
  /-- What has become of the sink. -/
  sink : Sink

namespace Writing

/-- The bytes that were taken, all in all. -/
def taken (w : Writing) : Bytes := w.exchanges.flatMap Exchange.taken

/-- Puts an exchange before a writing. -/
def behind (x : Exchange) (w : Writing) : Writing := { w with exchanges := x :: w.exchanges }

/-- Goes on with the sink, if nothing has failed. -/
def andThen (w : Writing) (next : Sink → Writing) : Writing :=
  match w.error with
  | some _ => w
  | none => { next w.sink with exchanges := w.exchanges ++ (next w.sink).exchanges }

end Writing

/-- The outcome of a writing. -/
structure Written where
  /-- The bytes that were taken. -/
  taken : Bytes
  error : Option WriteError
  deriving DecidableEq

namespace Sink

/-- A sink that takes everything. -/
def endless : Sink := ⟨none, false⟩

/-- How many of the bytes offered to it the sink takes: those that it has room for. It is
closed as soon as it is offered bytes without having room. -/
def takes (sink : Sink) (bytes : Bytes) : Except WriteError Nat :=
  match sink.room with
  | none => .ok bytes.length
  | some 0 => .error .brokenPipe
  | some room => .ok (min room bytes.length)

/-- The sink after it has taken so many bytes. -/
def after (sink : Sink) (n : Nat) : Sink := { sink with room := sink.room.map (· - n) }

/-- Offers the sink what is left of some bytes until it has taken all of them. -/
def writeAll (sink : Sink) : Bytes → Writing
  | [] => ⟨[], none, sink⟩
  | b :: rest =>
    match sink.takes (b :: rest) with
    | .error e => ⟨[⟨.take (b :: rest), .error e⟩], some e, sink⟩
    | .ok 0 => ⟨[⟨.take (b :: rest), .ok 0⟩], some .nothingTaken, sink⟩
    | .ok (n + 1) =>
      (writeAll (sink.after (n + 1)) (rest.drop n)).behind ⟨.take (b :: rest), .ok (n + 1)⟩
termination_by bytes => bytes.length
decreasing_by
  rw [List.length_drop, List.length_cons]
  omega

/-- Asks the sink to pass on what it has taken. -/
def passOn (sink : Sink) : Writing :=
  if sink.flushFails then ⟨[⟨.passOn, .error .brokenPipe⟩], some .brokenPipe, sink⟩
  else ⟨[⟨.passOn, .ok 0⟩], none, sink⟩

end Sink

namespace Report

/-- The bytes of a report: its text and a line end. -/
def output (report : Report) (format : Format) : Bytes :=
  Utf8.encode (report.render format ++ "\n")

/-- **Sends a report to a sink**: its text, then a line end, and then the request to pass
everything on. -/
def send (report : Report) (format : Format) (sink : Sink) : Writing :=
  ((sink.writeAll (Utf8.encode (report.render format))).andThen
    (·.writeAll (Utf8.encode "\n"))).andThen Sink.passOn

/-- Writes a report to a sink. -/
def write (report : Report) (format : Format) (sink : Sink) : Written :=
  ⟨(report.send format sink).taken, (report.send format sink).error⟩

/-- The wording of a failed writing of a report. -/
def writeMessage (e : WriteError) : String := "failed to write report to stdout: " ++ e.message

end Report

end WorkspaceFacts
