import Mathlib.Data.List.Induction
import WorkspaceFacts.Proofs.Facts.Telling
import WorkspaceFacts.Proofs.Run

/-!
# The log of a run

Which directive of a filter decides about an event is told by what stands in front of it and
behind it (`WorkspaceFacts.LogFilter.decisive?_eq_some_iff`): those in front that reach the
event are replaced, those behind do not replace it.

A run that is to show all of its events shows what the gathering of its report tells, event by
event, and nothing else. What that is can be read off the files
(`WorkspaceFacts.Report.Tells`), and where there is a report, the rules that the log calls
disabled are the ones in the report (`WorkspaceFacts.Program.run_logs_its_work`).
-/

namespace WorkspaceFacts

/-! ### The directive that decides -/

namespace Directive

/-- A directive replaces another one if, by length of the target and then by field, it is not
below it. -/
theorem replaces_iff {d other : Directive} : d.replaces other ↔
    other.target.length < d.target.length ∨
      other.target.length = d.target.length ∧ other.field?.getD "" ≤ d.field?.getD "" := by
  simp only [replaces, Bool.or_eq_true, Bool.and_eq_true, decide_eq_true_eq, beq_iff_eq,
    Bool.not_eq_true', decide_eq_false_iff_not, String.not_lt]

/-- Of two directives, one replaces the other. -/
theorem replaces_of_not {d other : Directive} (h : ¬ other.replaces d) : d.replaces other := by
  rw [replaces_iff] at h ⊢
  rcases Nat.lt_trichotomy other.target.length d.target.length with hlt | heq | hlt
  · exact .inl hlt
  · have hfield : ¬ d.field?.getD "" ≤ other.field?.getD "" := fun hle => h (.inr ⟨heq.symm, hle⟩)
    exact .inr ⟨heq, (String.le_total _ _).resolve_right hfield⟩
  · exact absurd (.inl hlt) h

theorem replaces_trans {d e f : Directive} (hde : d.replaces e) (hef : e.replaces f) :
    d.replaces f := by
  rw [replaces_iff] at hde hef ⊢
  rcases hde with hde | ⟨hde, hfield⟩ <;> rcases hef with hef | ⟨hef, hfield'⟩
  · exact .inl (Nat.lt_trans hef hde)
  · exact .inl (hef ▸ hde)
  · exact .inl (hde ▸ hef)
  · exact .inr ⟨hef.trans hde, String.le_trans hfield' hfield⟩

end Directive

namespace LogFilter

variable {filter : LogFilter} {event : Event} {d e other : Directive}

/-- A directive decides about an event: it reaches the event, it replaces those in front of
it that do so too, and none of those behind it replaces it. -/
def Decides (filter : LogFilter) (event : Event) (d : Directive) : Prop :=
  ∃ before after, filter = before ++ d :: after ∧ d.reaches event ∧
    (∀ e ∈ before, e.reaches event → d.replaces e) ∧
    ∀ e ∈ after, e.reaches event → ¬ e.replaces d

theorem decisive?_concat (filter : LogFilter) (e : Directive) (event : Event) :
    decisive? (filter ++ [e]) event =
      if e.reaches event && (decisive? filter event).all e.replaces then some e
      else decisive? filter event := by
  rw [decisive?, List.foldl_concat]
  rfl

/-- The last directive decides, or it does not replace the one that decides without it. -/
theorem decides_concat :
    Decides (filter ++ [e]) event d ↔
      (d = e ∧ e.reaches event ∧ ∀ other ∈ filter, other.reaches event → e.replaces other) ∨
      (Decides filter event d ∧ (e.reaches event → ¬ e.replaces d)) := by
  constructor
  · rintro ⟨before, after, heq, hreach, hbefore, hafter⟩
    rcases List.eq_nil_or_concat after with rfl | ⟨after, last, rfl⟩
    · obtain ⟨rfl, ⟨⟩⟩ := List.append_inj' heq rfl
      exact .inl ⟨rfl, hreach, hbefore⟩
    · rw [List.concat_eq_append, ← List.cons_append, ← List.append_assoc] at heq
      obtain ⟨rfl, ⟨⟩⟩ := List.append_inj' heq rfl
      rw [List.concat_eq_append] at hafter
      exact .inr ⟨⟨before, after, rfl, hreach, hbefore,
        fun other h => hafter other (List.mem_append_left _ h)⟩, hafter e (by simp)⟩
  · rintro (⟨rfl, hreach, hall⟩ | ⟨⟨before, after, rfl, hreach, hbefore, hafter⟩, hlast⟩)
    · exact ⟨filter, [], rfl, hreach, hall, fun _ h => absurd h List.not_mem_nil⟩
    · refine ⟨before, after ++ [e], by simp, hreach, hbefore, fun other h => ?_⟩
      rcases List.mem_append.1 h with h | h
      · exact hafter other h
      · rw [List.mem_singleton.1 h]
        exact hlast

theorem Decides.mem (h : Decides filter event d) : d ∈ filter := by
  obtain ⟨before, after, rfl, -⟩ := h
  simp

theorem Decides.reaches (h : Decides filter event d) : d.reaches event := by
  obtain ⟨_, _, -, hreach, -⟩ := h
  exact hreach

/-- The decisive directive replaces all others that reach the event. -/
theorem Decides.replaces (h : Decides filter event d) (hmem : other ∈ filter)
    (hreach : other.reaches event) : other = d ∨ d.replaces other := by
  obtain ⟨before, after, rfl, -, hbefore, hafter⟩ := h
  rcases List.mem_append.1 hmem with hmem | hmem
  · exact .inr (hbefore other hmem hreach)
  · rcases List.mem_cons.1 hmem with rfl | hmem
    · exact .inl rfl
    · exact .inr (Directive.replaces_of_not (hafter other hmem hreach))

theorem decisive?_eq_none_iff :
    decisive? filter event = none ↔ ∀ d ∈ filter, ¬ d.reaches event := by
  induction filter using List.reverseRecOn with
  | nil => simp [decisive?]
  | append_singleton filter e ih =>
    rw [decisive?_concat]
    cases h : decisive? filter event <;> grind

/-- To replace the directive that is found is to replace all that reach the event. -/
theorem all_replaces_iff
    (hfound : ∀ d, decisive? filter event = some d → Decides filter event d) :
    (decisive? filter event).all e.replaces ↔
      ∀ other ∈ filter, other.reaches event → e.replaces other := by
  rcases hbest : decisive? filter event with _ | best
  · have hnone := decisive?_eq_none_iff.1 hbest
    simp only [Option.all_none, true_iff]
    exact fun other hmem hreach => absurd hreach (hnone other hmem)
  · have hdecides := hfound best hbest
    simp only [Option.all_some]
    refine ⟨fun hnew other hmem hreach => ?_, fun h => h best hdecides.mem hdecides.reaches⟩
    rcases hdecides.replaces hmem hreach with rfl | hreplaces
    · exact hnew
    · exact Directive.replaces_trans hnew hreplaces

/-- **The directive that is found is the one that decides.** The induction is on the end of the
filter, as a later directive goes before an earlier one. -/
theorem decisive?_eq_some_iff :
    decisive? filter event = some d ↔ Decides filter event d := by
  induction filter using List.reverseRecOn generalizing d with
  | nil => simp [decisive?, Decides]
  | append_singleton filter e ih =>
    have hall := all_replaces_iff (e := e) fun d => (ih (d := d)).1
    rw [decisive?_concat, decides_concat, ← ih]
    by_cases hnew : e.reaches event && (decisive? filter event).all e.replaces
    · obtain ⟨hreach, hbest⟩ := Bool.and_eq_true_iff.1 hnew
      rw [if_pos hnew]
      refine ⟨fun h => .inl ⟨(Option.some.inj h).symm, hreach, hall.1 hbest⟩, ?_⟩
      rintro (⟨rfl, -⟩ | ⟨hd, hnot⟩)
      · rfl
      · rw [hd] at hbest
        exact absurd hbest (hnot hreach)
    · rw [if_neg hnew]
      refine ⟨fun h => .inr ⟨h, fun hreach hreplaces => hnew ?_⟩, ?_⟩
      · rw [h, hreach]
        exact hreplaces
      · rintro (⟨rfl, hreach, hbefore⟩ | ⟨h, -⟩)
        · exact absurd (by rw [hreach, hall.2 hbefore]; rfl) hnew
        · exact h

/-! ### The filter for everything -/

/-- The filter for everything shows every event. -/
theorem shows_uniform_trace (event : Event) : (uniform .trace).shows event = true := by
  have hreach : (⟨"", none, some .trace⟩ : Directive).reaches event = true := by
    simp [Directive.reaches]
  cases h : event.level <;>
    simp [shows, decisive?, uniform, hreach, h, Threshold.admits, Level.rank]

theorem lines_uniform_trace (events : List Event) :
    (uniform .trace).lines events = events.map Event.line := by
  rw [lines, List.filter_eq_self.2 fun event _ => shows_uniform_trace event]

theorem ofText?_trace : ofText? "trace" = some (uniform .trace) := by decide +kernel

end LogFilter

/-! ### A run with it -/

namespace Program

open CommandLine (Options)

theorem filter_trace (options : Options) :
    filter options (some (Utf8.encode "trace")) = LogFilter.uniform .trace := by
  rw [filter, Option.bind_some, Utf8.decode?_encode, Option.bind_some, LogFilter.ofText?_trace,
    Option.getD_some]

/-- A run that is to show everything has the line of every event in its log. -/
theorem run_of_trace (files : Files) {invocation : Invocation} {options : Options}
    (hread : CommandLine.read invocation.arguments = .ok options)
    (hlog : invocation.logVariable = some (Utf8.encode "trace")) : run files invocation =
    let work := Report.collect files ⟨rootOf options invocation⟩
    match work.outcome with
    | .ok report => .reported (work.events.map Event.line) (report.output options.chosenFormat)
    | .error e => .failed (work.events.map Event.line)
        (diagnostic (failure (rootOf options invocation) e)) := by
  have hrun : run files invocation = runWith files invocation options := by rw [run, hread]
  rw [hrun, runWith_eq, hlog, filter_trace]
  cases h : (Report.collect files ⟨rootOf options invocation⟩).outcome with
  | ok report => simp only [h, LogFilter.lines_uniform_trace]
  | error e => simp only [h, LogFilter.lines_uniform_trace]

/-- **The log of a run mirrors its work.** A run that is to show everything shows the events that
are told of its workspace, which the files determine, each as a line. If it succeeds, it prints
the report that it has gathered, its log has nothing else, and the rules that are told of as
disabled are the disabled lints of that report, in order. If it does not, the line that names the
failure is the only other one. -/
theorem run_logs_its_work (files : Files) {invocation : Invocation} {options : Options}
    (hread : CommandLine.read invocation.arguments = .ok options)
    (hlog : invocation.logVariable = some (Utf8.encode "trace")) :
    ∃ events, (Report.collect files ⟨rootOf options invocation⟩).events = events ∧
      (∀ told, Report.Tells files ⟨rootOf options invocation⟩ told ↔ told = events) ∧
      ((run files invocation).status = 0 → ∃ report,
        (Report.collect files ⟨rootOf options invocation⟩).outcome = .ok report ∧
        (run files invocation).output = report.output options.chosenFormat ∧
        (run files invocation).diagnostics? = some (events.map Event.line) ∧
        events.filterMap Event.disabled? = report.disabledLints) ∧
      ((run files invocation).status ≠ 0 → ∃ text,
        (run files invocation).diagnostics? =
          some (events.map Event.line ++ [diagnostic text])) := by
  have hrun := run_of_trace files hread hlog
  have htells := Report.tells_collect files ⟨rootOf options invocation⟩
  refine ⟨_, rfl, fun told => ⟨fun h => h.unique htells, fun h => h ▸ htells⟩, ?_⟩
  rw [hrun]
  dsimp only
  rcases h : (Report.collect files ⟨rootOf options invocation⟩).outcome with e | report
  · refine ⟨fun hstatus => ?_, fun _ => ⟨_, rfl⟩⟩
    cases hstatus
  · refine ⟨fun _ => ⟨report, rfl, rfl, rfl, Report.filterMap_disabled?_collect h⟩, ?_⟩
    exact fun hstatus => absurd rfl hstatus

/-- A workspace in which one package inherits its version and each group has rules. -/
def chattyWorkspace : Files := Files.ofList [
  (.ofString "ws/Cargo.toml", .ok (Utf8.encode ("[workspace]\npackage.version = '7'\n" ++
    "lints.clippy = \x7b b = 'allow', a.level = 'warn' \x7d\nlints.rust.c = 1\n"))),
  (.ofString "ws/lib/osi/Cargo.toml", .ok (Utf8.encode "package.version = '1'")),
  (.ofString "ws/lib/sys/Cargo.toml", .ok (Utf8.encode "package.version.workspace = true")),
  (.ofString "ws/lib/tmp/Cargo.toml", .ok (Utf8.encode "package.version = '2'"))]

/-- A run on it that shows everything, although it is to be quiet. -/
def chattyRun : Invocation :=
  ⟨[Utf8.encode "-q"], some (Utf8.encode "ws"), some (Utf8.encode "trace")⟩

/-- What is told of it. -/
def chattyEvents : List Event :=
  [.collecting (.ofString "ws"), .readManifest (.ofString "ws/Cargo.toml") 100,
    .readManifest (.ofString "ws/lib/osi/Cargo.toml") 21,
    .readManifest (.ofString "ws/lib/sys/Cargo.toml") 32,
    .readManifest (.ofString "ws/lib/tmp/Cargo.toml") 21,
    .inheritedVersion (.ofString "ws/lib/sys/Cargo.toml"), .lintDisabled "clippy" "b",
    .lintKept "clippy" "a" (some "warn"), .lintKept "rust" "c" none]

/-- Of the rules that are told of, the one that is disabled is in the report. -/
theorem run_chattyRun : Report.Tells chattyWorkspace ⟨.ofString "ws"⟩ chattyEvents ∧
    ∃ report, (Report.collect chattyWorkspace ⟨.ofString "ws"⟩).outcome = .ok report ∧
      report.disabledLints = [⟨"clippy", "b"⟩] := by
  have hread : CommandLine.read chattyRun.arguments = .ok ⟨none, none, true, false⟩ := by
    decide +kernel
  obtain ⟨events, hevents, htells, success, -⟩ := run_logs_its_work chattyWorkspace hread rfl
  obtain ⟨report, hreport, -, -, hlints⟩ := success (by decide +kernel)
  have htold : chattyEvents = events := by
    rw [← hevents]
    decide +kernel
  refine ⟨(htells _).2 htold, report, hreport, ?_⟩
  rw [← hlints, ← htold]
  rfl

end Program

end WorkspaceFacts
