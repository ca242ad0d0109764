import WorkspaceFacts.Text.Alphanumeric
import WorkspaceFacts.Text.Printable
import WorkspaceFacts.Trace

/-!
# The log

How events are shown: each on a line with its level, its target, its message and its
fields. Paths and numbers are shown as they are, and the names and levels of rules between
quotes.

Which events are shown is up to a filter, a list of **directives**. A directive gives a
threshold to all events whose target starts with the target of the directive. The longest
such target decides, and of two directives with the same target the later one. A directive
without a target holds for every event that no other directive reaches.

The filter is spelled as a list of items with commas between them, each of the form
`target[span{field=value}]=level`, of which parts can be left out. If one of the items is
malformed there is no filter at all. A directive with a field reaches the events that have
the field, and goes before those of the same target without one. A directive with a span or
with the value of a field is about events inside of spans. The program opens none, so such a
directive reaches no event and is dropped.

Two things are left open here. The value of a field is a pattern, and one that is no
well-formed pattern makes its item malformed; the patterns are all taken as well formed. And
where a blank of more than one byte stands in front of an item with an equals sign or a
bracket, the item is taken as if the blank were a space.
-/

namespace WorkspaceFacts

/-! ### Levels and thresholds -/

/-- How far down events are shown; `none` shows nothing. -/
abbrev Threshold := Option Level

namespace Level

/-- The place of a level, from the most important one. -/
def rank : Level → Nat
  | .error => 1
  | .warn => 2
  | .info => 3
  | .debug => 4
  | .trace => 5

/-- The name of a level in the log. -/
def name : Level → String
  | .error => "ERROR"
  | .warn => "WARN"
  | .info => "INFO"
  | .debug => "DEBUG"
  | .trace => "TRACE"

end Level

namespace Threshold

/-- Whether an event of the given level is shown. -/
def admits (threshold : Threshold) (level : Level) : Bool :=
  threshold.any fun t => level.rank ≤ t.rank

/-- The threshold with a name, spelled in any case. -/
def ofName? (name : String) : Option Threshold :=
  let name := name.toLower
  if name = "off" then some none
  else if name = "error" then some (some .error)
  else if name = "warn" then some (some .warn)
  else if name = "info" then some (some .info)
  else if name = "debug" then some (some .debug)
  else if name = "trace" then some (some .trace)
  else none

/-- The threshold with a number: the rank of its level, or zero for nothing. -/
def ofNumber? : Nat → Option Threshold
  | 0 => some none
  | 1 => some (some .error)
  | 2 => some (some .warn)
  | 3 => some (some .info)
  | 4 => some (some .debug)
  | 5 => some (some .trace)
  | _ => none

/-- The number spelled by decimal digits behind an optional plus sign. -/
def number? (s : List Char) : Option Nat :=
  let digits := match s with
    | '+' :: rest => rest
    | _ => s
  if digits.isEmpty then none
  else (digits.mapM (Digits.value? 10)).map (Digits.toNat 10)

/-- The threshold that a text spells, by number or by name. -/
def ofText? (s : List Char) : Option Threshold :=
  ((number? s).bind ofNumber?) <|> ofName? (String.ofList s)

end Threshold

/-! ### Events -/

namespace Event

/-- The level of an event. -/
def level : Event → Level
  | .lintKept _ _ _ => .trace
  | _ => .debug

/-- The part of the program that an event comes from. -/
def target : Event → String
  | .collecting _ => "cq_manifest::workspace"
  | .readManifest _ _ => "cq_manifest::document"
  | .inheritedVersion _ => "cq_manifest::version"
  | .lintDisabled _ _ => "cq_manifest::lints"
  | .lintKept _ _ _ => "cq_manifest::lints"

/-- The message of an event. -/
def message : Event → String
  | .collecting _ => "collecting workspace report"
  | .readManifest _ _ => "read manifest"
  | .inheritedVersion _ => "package version inherited from workspace"
  | .lintDisabled _ _ => "lint disabled"
  | .lintKept _ _ _ => "lint kept"

/-- The fields of an event with their shown values, in order. -/
def fields : Event → List (String × String)
  | .collecting root => [("root", root.display)]
  | .readManifest path size => [("path", path.display), ("bytes", toString size)]
  | .inheritedVersion path => [("path", path.display)]
  | .lintDisabled group rule => [("group", Text.quoted group), ("rule", Text.quoted rule)]
  | .lintKept group rule level =>
    [("group", Text.quoted group), ("rule", Text.quoted rule),
      ("level", Text.quoted (level.getD "<none>"))]

/-- The names of the fields of an event; its message is one of them. -/
def fieldNames (event : Event) : List String := "message" :: event.fields.map (·.1)

/-- The line of an event. The names of levels end in one column. -/
def line (event : Event) : String :=
  String.ofList (List.replicate (5 - event.level.name.length) ' ') ++ event.level.name
    ++ " " ++ event.target ++ ": " ++ event.message
    ++ String.join (event.fields.map fun (name, value) => " " ++ name ++ "=" ++ value)

end Event

/-! ### Directives -/

/-- A threshold for the events whose target starts with the given text and which have the
given field, if there is one. -/
structure Directive where
  target : String
  field? : Option String
  threshold : Threshold
  deriving DecidableEq

namespace Directive

/-- Whether the directive is about an event. -/
def reaches (d : Directive) (event : Event) : Bool :=
  d.target.toList.isPrefixOf event.target.toList && d.field?.all event.fieldNames.contains

/-- Whether a directive decides in the place of another one that stands before it: its target
is longer, or as long, and then its field is no less than that of the other one. To have no
field is least. -/
def replaces (d other : Directive) : Bool :=
  other.target.length < d.target.length ||
    (other.target.length == d.target.length && ! d.field?.getD "" < other.field?.getD "")

end Directive

/-- A list of directives. -/
abbrev LogFilter := List Directive

namespace LogFilter

/-- The directive that decides about an event. -/
def decisive? (filter : LogFilter) (event : Event) : Option Directive :=
  filter.foldl (fun best d => if d.reaches event && best.all d.replaces then some d else best) none

/-- Whether an event is shown. -/
def shows (filter : LogFilter) (event : Event) : Bool :=
  (decisive? filter event).any fun d => d.threshold.admits event.level

/-- The lines of the events that a filter shows, in order. -/
def lines (filter : LogFilter) (events : List Event) : List String :=
  (events.filter filter.shows).map Event.line

/-- The filter with one threshold for all events. -/
def uniform (level : Level) : LogFilter := [⟨"", none, some level⟩]

/-! ### Reading a filter -/

/-- The blanks that may stand around an item without being seen as its start. -/
def isPadding (c : Char) : Bool :=
  c.isWhitespace || c == '\x0b' || c == '\x0c' || c == '\u0085' || c == '\u00a0' || c == '\u1680'
    || ('\u2000' ≤ c && c ≤ '\u200a') || c == '\u2028' || c == '\u2029' || c == '\u202f'
    || c == '\u205f' || c == '\u3000'

/-- Whether an item may start with the character. -/
def isItemStart (c : Char) : Bool :=
  Text.isAlphanumeric c || c == '-' || c == ':' || c == '_'

/-- The threshold behind the equals sign of an item. With nothing there everything is shown. -/
def threshold? (s : List Char) : Option Threshold :=
  if s.isEmpty then some (some .trace) else Threshold.ofText? s

/-- Reads what stands in the brackets of an item, from behind the opening one on: the field
that events must have, or nothing if a span or a value is asked for, and the text behind the
closing bracket. -/
def bracket? (s : List Char) : Option (Option String × List Char) :=
  let span := s.takeWhile fun c => c != ']' && c != '{'
  match s.drop span.length with
  | ']' :: rest => some (none, rest)
  | '{' :: s₁ =>
    let field := s₁.takeWhile (· != '}')
    match s₁.drop field.length with
    | '}' :: ']' :: rest =>
      if field.isEmpty then none
      else some (if span.isEmpty && ! field.contains '=' then some (String.ofList field) else none,
        rest)
    | _ => none
  | _ => none

/-- The directive that an item spells, or nothing for one that reaches no event; there is no
result if the item is malformed. A threshold alone is one for all events, and a target alone
shows all of its events. Blanks count as part of the item: those in front of it are taken
for the start of its target, and an item with an equals sign may not start with one. -/
def directive? (item : List Char) : Option (Option Directive) :=
  let text := item.dropWhile isPadding
  let padded := item.head?.any isPadding
  let target := text.takeWhile fun c => c != '=' && c != '['
  if ! text.head?.any fun c => isItemStart c || c == '[' then none
  else match text.drop target.length with
    | '=' :: level =>
      if padded then none
      else (threshold? level).map (some ⟨String.ofList target, none, ·⟩)
    | '[' :: inner =>
      match bracket? inner with
      | none => none
      | some (field?, '=' :: level) =>
        if padded then none
        else (threshold? level).map fun threshold =>
          field?.map (⟨String.ofList target, some ·, threshold⟩)
      | some (field?, rest) =>
        if ! rest.all isPadding then none
        else if padded then some none
        else some (field?.map (⟨String.ofList target, some ·, some .trace⟩))
    | _ =>
      match Threshold.ofText? item with
      | some threshold => some (some ⟨"", none, threshold⟩)
      | none => some (some ⟨String.ofList item, none, some .trace⟩)

/-- The parts of a text between its commas. -/
def items : List Char → List (List Char)
  | [] => [[]]
  | c :: rest =>
    match items rest with
    | [] => [[c]]
    | part :: parts => if c = ',' then [] :: part :: parts else (c :: part) :: parts

/-- **The filter that a text spells.** Without any item it shows errors only. -/
def ofText? (text : String) : Option LogFilter :=
  let items := (items text.toList).filter (! ·.isEmpty)
  if items.isEmpty then some (uniform .error)
  else (items.mapM directive?).map (·.filterMap id)

example : ofText? "[collect]=debug,[\x7bpath\x7d]=debug" =
    some [⟨"", some "path", some .debug⟩] := by
  decide +kernel

end LogFilter

end WorkspaceFacts
