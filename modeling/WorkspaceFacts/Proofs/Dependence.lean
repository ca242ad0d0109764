import WorkspaceFacts.Proofs.Facts.SideBySide
import WorkspaceFacts.Proofs.Run

/-!
# What a run depends on

Two laws that compare two runs. The report depends on nothing but what is read at the four
places of the manifests (`WorkspaceFacts.Report.collect_depends_on_reads`): where these places
are decides which paths stand in an error and nothing else. And how much a run tells about its
work changes nothing about the work (`WorkspaceFacts.Program.run_ignores_verbosity`): two runs
with different filters go through the same events and differ in which of them are shown.

As in the other laws on runs, the files are any function from paths to bytes, a file tree seen
from a working directory (`WorkspaceFacts.FileTree.read`) among them.
-/

namespace WorkspaceFacts

open Program CommandLine

/-! ### What is read -/

/-- **The paths of one manifest in two layouts**: that of the workspace in both, or those of
the same package. -/
def Layout.SamePlace (layout layout' : Layout) (path path' : Path) : Prop :=
  (path, path') ∈ layout.manifests.zip layout'.manifests

namespace Report

variable {files files' : Files} {layout layout' : Layout}

/-- The same error, each time with the path of the same manifest. -/
def SameError (layout layout' : Layout) (e e' : ManifestError) : Prop :=
  layout.SamePlace layout' e.path e'.path ∧ e' = e.withPath e'.path

theorem admits_sameError :
    ManifestError.Admits (SameError layout layout') (layout.SamePlace layout') := by
  intro e path h
  rw [SameError, ManifestError.path_withPath]
  exact ⟨h, rfl⟩

theorem collect_alike_of_reads
    (h : ∀ path path', layout.SamePlace layout' path path' → files path = files' path') :
    Alike (SameError layout layout') Eq (collect files layout).outcome
      (collect files' layout').outcome := by
  refine collect_alike admits_sameError (List.forall₂_iff_zip.2 ⟨?_, fun hmem => ?_⟩)
  · rw [Layout.manifests, Layout.manifests, List.length_cons, List.length_map, List.length_cons,
      List.length_map]
  · exact Manifest.load_alike admits_sameError hmem (h _ _ hmem)

/-- **The report depends on nothing but what is read** where the manifests are. If reading
them goes out the same in two workspaces, both have the same report, or both fail by the same
error, in which the path is that of the same manifest in each of them. A run on one of them
that succeeds and a run on the other that asks for the same format print the same bytes. -/
theorem collect_depends_on_reads
    (h : ∀ path path', layout.SamePlace layout' path path' → files path = files' path') :
    ((∃ report, (collect files layout).outcome = .ok report ∧
        (collect files' layout').outcome = .ok report) ∨
      ∃ e path', (collect files layout).outcome = .error e ∧
        (collect files' layout').outcome = .error (e.withPath path') ∧
        layout.SamePlace layout' e.path path') ∧
    ∀ invocation invocation' options options', read invocation.arguments = .ok options →
      read invocation'.arguments = .ok options' →
      rootOf options invocation = layout.root → rootOf options' invocation' = layout'.root →
      options.chosenFormat = options'.chosenFormat → (run files invocation).status = 0 →
        (run files' invocation').status = 0 ∧
          (run files' invocation').output = (run files invocation).output := by
  have halike := collect_alike_of_reads h
  refine ⟨?_, ?_⟩
  · generalize (collect files layout).outcome = outcome at halike
    generalize (collect files' layout').outcome = outcome' at halike
    cases halike with
    | @ok report _ heq =>
      subst heq
      exact .inl ⟨report, rfl, rfl⟩
    | @error e e' he =>
      obtain ⟨hplace, heq⟩ := he
      exact .inr ⟨e, e'.path, rfl, by rw [← heq], hplace⟩
  · intro invocation invocation' options options' hread hread' hroot hroot' hformat hstatus
    have hrun : run files invocation = runWith files invocation options := by rw [run, hread]
    have hrun' : run files' invocation' = runWith files' invocation' options' := by
      rw [run, hread']
    rw [hrun, runWith_eq, hroot] at hstatus ⊢
    rw [hrun', runWith_eq, hroot']
    dsimp only at hstatus ⊢
    generalize (collect files layout).outcome = outcome at halike hstatus
    generalize (collect files' layout').outcome = outcome' at halike
    cases halike with
    | @ok report _ heq =>
      subst heq
      exact ⟨rfl, by rw [Outcome.output, Outcome.output, hformat]⟩
    | error => cases hstatus

/-- A tree with one workspace, in which the levels of the lints of rust are missing. -/
def treeOfWorkspace : FileTree.Members := FileTree.ofFiles [
  (Utf8.encode "ws/Cargo.toml", some (Utf8.encode "[workspace.lints.clippy]\na = 'allow'\n")),
  (Utf8.encode "ws/lib/osi/Cargo.toml", some (Utf8.encode "package.version = '1'")),
  (Utf8.encode "ws/lib/sys/Cargo.toml", some (Utf8.encode "package.version = '2'")),
  (Utf8.encode "ws/lib/tmp/Cargo.toml", some (Utf8.encode "package.version = '3'"))]

/-- The workspace of the tree, seen from above and from a directory inside it: the error is
the same, with the path of the workspace manifest as it is spelled on either side. -/
theorem collect_treeOfWorkspace :
    (collect (FileTree.read treeOfWorkspace (.ofString "")) ⟨.ofString "ws"⟩).outcome =
        .error (.missingField (.ofString "ws/Cargo.toml") ["workspace", "lints", "rust"]) ∧
      (collect (FileTree.read treeOfWorkspace (.ofString "ws/lib")) ⟨.ofString ".."⟩).outcome =
        .error (.missingField (.ofString "../Cargo.toml") ["workspace", "lints", "rust"]) := by
  have hreads : ∀ path path', Layout.SamePlace ⟨.ofString "ws"⟩ ⟨.ofString ".."⟩ path path' →
      FileTree.read treeOfWorkspace (.ofString "") path =
        FileTree.read treeOfWorkspace (.ofString "ws/lib") path' := by
    have hall : ∀ p ∈ (Layout.manifests ⟨.ofString "ws"⟩).zip (Layout.manifests ⟨.ofString ".."⟩),
        FileTree.read treeOfWorkspace (.ofString "") p.1 =
          FileTree.read treeOfWorkspace (.ofString "ws/lib") p.2 := by decide +kernel
    exact fun path path' hmem => hall (path, path') hmem
  have hfirst : (collect (FileTree.read treeOfWorkspace (.ofString "")) ⟨.ofString "ws"⟩).outcome =
      .error (.missingField (.ofString "ws/Cargo.toml") ["workspace", "lints", "rust"]) := by
    decide +kernel
  refine ⟨hfirst, ?_⟩
  rcases (collect_depends_on_reads hreads).1 with ⟨report, hok, -⟩ | ⟨e, path', he, he', hplace⟩
  · cases hfirst.symm.trans hok
  · obtain rfl := Except.error.inj (hfirst.symm.trans he)
    have hpath : ∀ p ∈ (Layout.manifests ⟨.ofString "ws"⟩).zip
        (Layout.manifests ⟨.ofString ".."⟩),
        p.1 = .ofString "ws/Cargo.toml" → p.2 = .ofString "../Cargo.toml" := by decide +kernel
    obtain rfl := hpath _ hplace rfl
    exact he'

end Report

/-! ### What is told -/

namespace Program

/-- **How much a run tells changes nothing else.** Two runs on the same files whose arguments
name the same workspace and the same format have the same exit status and print the same
bytes, whatever their switches and their log variables are. Their logs are what their filters
show of the same events, and on failure the same diagnostic comes after them. -/
theorem run_ignores_verbosity (files : Files) (invocation invocation' : Invocation)
    {options options' : Options} (h : read invocation.arguments = .ok options)
    (h' : read invocation'.arguments = .ok options')
    (hworkspace : options.workspace = options'.workspace)
    (hformat : options.chosenFormat = options'.chosenFormat)
    (hvariable : invocation.rootVariable = invocation'.rootVariable) :
    (run files invocation).status = (run files invocation').status ∧
      (run files invocation).output = (run files invocation').output ∧
      ∃ events tail,
        (run files invocation).diagnostics? =
          some ((filter options invocation.logVariable).lines events ++ tail) ∧
        (run files invocation').diagnostics? =
          some ((filter options' invocation'.logVariable).lines events ++ tail) ∧
        ((run files invocation).status = 0 → tail = []) ∧
        ((run files invocation).status ≠ 0 → ∃ text, tail = [diagnostic text]) := by
  have hroot : rootOf options invocation = rootOf options' invocation' := by
    rw [rootOf, rootOf, hworkspace, hvariable]
  have hrun : run files invocation = runWith files invocation options := by rw [run, h]
  have hrun' : run files invocation' = runWith files invocation' options' := by rw [run, h']
  rw [hrun, hrun', runWith_eq, runWith_eq, hroot]
  dsimp only
  -- One piece of work lies behind both runs; how it ends decides how they end.
  generalize Report.collect files ⟨rootOf options' invocation'⟩ = work
  obtain ⟨events, outcome⟩ := work
  cases outcome with
  | ok report =>
    refine ⟨rfl, by rw [Outcome.output, Outcome.output, hformat], events, [], ?_, ?_, ?_, ?_⟩
    · exact congrArg some (List.append_nil _).symm
    · exact congrArg some (List.append_nil _).symm
    · exact fun _ => rfl
    · exact fun hstatus => absurd rfl hstatus
  | error e =>
    refine ⟨rfl, rfl, events, [_], rfl, rfl, fun hstatus => ?_, fun _ => ⟨_, rfl⟩⟩
    cases hstatus

/-- A run that is to be quiet. -/
def quietRun : Invocation := ⟨[Utf8.encode "-qw", Utf8.encode "ws"], none, none⟩

/-- The same run, with everything in its log. -/
def loudRun : Invocation :=
  ⟨[Utf8.encode "--format=lines", Utf8.encode "-vw=ws"], none, some (Utf8.encode "trace")⟩

/-- On the small workspace both runs print the same, although their logs are not the same. -/
theorem run_quietRun_loudRun :
    (run smallWorkspace quietRun).output = (run smallWorkspace loudRun).output ∧
      (run smallWorkspace quietRun).diagnostics? ≠ (run smallWorkspace loudRun).diagnostics? := by
  have hquiet : read quietRun.arguments = .ok ⟨some (Utf8.encode "ws"), none, true, false⟩ := by
    decide +kernel
  have hloud : read loudRun.arguments =
      .ok ⟨some (Utf8.encode "ws"), some .lines, false, true⟩ := by decide +kernel
  obtain ⟨-, houtput, -⟩ :=
    run_ignores_verbosity smallWorkspace quietRun loudRun hquiet hloud rfl rfl rfl
  exact ⟨houtput, by decide +kernel⟩

end Program

end WorkspaceFacts
