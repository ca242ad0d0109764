import WorkspaceFacts.Program
import WorkspaceFacts.Proofs.Facts.Loading
import WorkspaceFacts.Proofs.Facts.Reports

/-!
# All or nothing

A run either prints everything it was asked for or prints nothing: the text that the
arguments ask for, whatever the files are, or the report on a complete workspace. In all
other cases the standard output stays empty and the exit status says so
(`WorkspaceFacts.Program.run_all_or_nothing`). The files are any function from paths to
bytes, a file tree seen from a working directory (`WorkspaceFacts.FileTree.read`) among
them.
-/

namespace WorkspaceFacts

namespace Program

open CommandLine (Stop Options)

/-- The root of the workspace of a run: that of the option, of the variable, or the
current directory. -/
def rootOf (options : Options) (invocation : Invocation) : Path :=
  ⟨(options.workspace.or invocation.rootVariable).getD (Utf8.encode ".")⟩

variable (files : Files) (invocation : Invocation) (options : Options)

/-- A run whose arguments make sense goes as the gathering of the facts goes, and its log has
the events of that which the filter shows. -/
theorem runWith_eq : runWith files invocation options =
    let work := Report.collect files ⟨rootOf options invocation⟩
    let log := (filter options invocation.logVariable).lines work.events
    match work.outcome with
    | .ok report => .reported log (report.output options.chosenFormat)
    | .error e => .failed log (diagnostic (failure (rootOf options invocation) e)) := by
  have root : Settings.root options.workspace invocation.rootVariable =
      .ok (rootOf options invocation) := Settings.root_eq _ _
  cases h : (Report.collect files ⟨rootOf options invocation⟩).outcome with
  | ok report => simp only [runWith, root, h]
  | error e => simp only [runWith, root, h]

theorem exists_runWith_eq : ∃ log, runWith files invocation options =
    match (Report.collect files ⟨rootOf options invocation⟩).outcome with
    | .ok report => .reported log (report.output options.chosenFormat)
    | .error e => .failed log (diagnostic (failure (rootOf options invocation) e)) :=
  ⟨_, runWith_eq files invocation options⟩

variable {files invocation options}

theorem runWith_of_answers {report : Report}
    (h : Report.Answers files ⟨rootOf options invocation⟩ report) :
    ∃ log, runWith files invocation options =
      .reported log (report.output options.chosenFormat) := by
  obtain ⟨log, hrun⟩ := exists_runWith_eq files invocation options
  rw [Report.outcome_collect_eq_ok_iff.2 h] at hrun
  exact ⟨log, hrun⟩

theorem runWith_of_not_complete (h : ¬Report.Complete files ⟨rootOf options invocation⟩) :
    ∃ log e, runWith files invocation options =
      .failed log (diagnostic (failure (rootOf options invocation) e)) := by
  obtain ⟨log, hrun⟩ := exists_runWith_eq files invocation options
  cases hc : (Report.collect files ⟨rootOf options invocation⟩).outcome with
  | ok report =>
    exact absurd (Report.complete_iff_exists_answers.2
      ⟨report, Report.outcome_collect_eq_ok_iff.1 hc⟩) h
  | error e =>
    rw [hc] at hrun
    exact ⟨log, e, hrun⟩

/-- **A run is all or nothing.** Where the arguments ask for help or for the version, that
text is all that is printed, and where they are refused nothing is, whatever the files and
the environment are. Otherwise the run succeeds exactly on a complete workspace; it then
prints the report that answers for the workspace and a line end, and else nothing. -/
theorem run_all_or_nothing (files : Files) (invocation : Invocation) :
    (∀ long, CommandLine.read invocation.arguments = .error (.help long) →
      (run files invocation).status = 0 ∧ (run files invocation).output =
        Utf8.encode (if long then CommandLine.longHelp else CommandLine.shortHelp)) ∧
    (CommandLine.read invocation.arguments = .error .version →
      (run files invocation).status = 0 ∧
        (run files invocation).output = Utf8.encode CommandLine.versionText) ∧
    (∀ stop, CommandLine.read invocation.arguments = .error stop → stop ≠ .version →
      (∀ long, stop ≠ .help long) →
      (run files invocation).status = 2 ∧ (run files invocation).output = []) ∧
    ∀ options, CommandLine.read invocation.arguments = .ok options →
      ((run files invocation).status = 0 ↔
        Report.Complete files ⟨rootOf options invocation⟩) ∧
      ((run files invocation).status = 0 → ∃ report,
        Report.Answers files ⟨rootOf options invocation⟩ report ∧
        (run files invocation).output =
          Utf8.encode (report.render options.chosenFormat ++ "\n")) ∧
      ((run files invocation).status ≠ 0 →
        (run files invocation).status = 1 ∧ (run files invocation).output = []) := by
  refine ⟨?_, ?_, ?_, ?_⟩
  · intro long h
    rw [run, h]
    cases long <;> exact ⟨rfl, rfl⟩
  · intro h
    rw [run, h]
    exact ⟨rfl, rfl⟩
  · intro stop h hversion hhelp
    rw [run, h]
    cases stop with
    | help long => exact absurd rfl (hhelp long)
    | version => exact absurd rfl hversion
    | _ => exact ⟨rfl, rfl⟩
  · intro options h
    have hrun : run files invocation = runWith files invocation options := by rw [run, h]
    rw [hrun]
    -- Whether the workspace is complete decides how the run ends.
    by_cases hc : Report.Complete files ⟨rootOf options invocation⟩
    · obtain ⟨report, ha⟩ := Report.complete_iff_exists_answers.1 hc
      obtain ⟨log, hlog⟩ := runWith_of_answers ha
      rw [hlog]
      exact ⟨iff_of_true rfl hc, fun _ => ⟨report, ha, rfl⟩, fun h => absurd rfl h⟩
    · obtain ⟨log, e, hlog⟩ := runWith_of_not_complete hc
      rw [hlog]
      exact ⟨iff_of_false Nat.one_ne_zero hc, fun h => absurd h Nat.one_ne_zero,
        fun _ => ⟨rfl, rfl⟩⟩

/-- A small workspace below `ws`, one of whose packages leaves its version to it. -/
def smallWorkspace : Files := Files.ofList [
  (.ofString "ws/Cargo.toml", .ok (Utf8.encode
    "[workspace.package]\nversion = '7'\n[workspace.lints]\nclippy.a = 'allow'\nrust = {}\n")),
  (.ofString "ws/lib/osi/Cargo.toml", .ok (Utf8.encode "package.version = \"1\"")),
  (.ofString "ws/lib/sys/Cargo.toml", .ok (Utf8.encode "[package]\nversion.workspace = true")),
  (.ofString "ws/lib/tmp/Cargo.toml", .ok (Utf8.encode "[package]\nversion = ''"))]

/-- The small workspace is complete, and its report is printed. -/
theorem run_smallWorkspace :
    Report.Complete smallWorkspace ⟨.ofString "ws"⟩ ∧
      (run smallWorkspace ⟨[Utf8.encode "-qw", Utf8.encode "ws"], none, none⟩).output =
        Utf8.encode "1\n7\n\nclippy::a\n" := by
  obtain ⟨-, -, -, h⟩ :=
    run_all_or_nothing smallWorkspace ⟨[Utf8.encode "-qw", Utf8.encode "ws"], none, none⟩
  have hread := h ⟨some (Utf8.encode "ws"), none, true, false⟩ rfl
  exact ⟨hread.1.1 (by decide +kernel), by decide +kernel⟩

end Program

end WorkspaceFacts
