import WorkspaceFacts.Proofs.Facts.Inheritance
import WorkspaceFacts.Proofs.Facts.Packages
import WorkspaceFacts.Proofs.Facts.ScanEvents

/-!
# What the gathering tells

The facts about a workspace are gathered in three rounds: the manifests are loaded, the versions
of the packages are looked up, and the lints are scanned. Each round follows steps that are known
when it begins, and a round begins only if all steps of the one before it have passed. So the
events that are told can be read off the files (`WorkspaceFacts.Report.Tells`): those of the steps
up to the first that does not pass, whichever round that is in.

If all steps pass there is a report, and its disabled lints are the ones that were told of
(`WorkspaceFacts.Report.filterMap_disabled?_collect`).
-/

namespace WorkspaceFacts

/-! ### Loading -/

/-- What is told of a file that is to be loaded: its size, if it can be read. -/
def Files.told (files : Files) (path : Path) : List Event :=
  match files path with
  | .ok bytes => [.readManifest path bytes.length]
  | .error _ => []

/-- A manifest that is loaded is one step, which passes if the file provides a document. -/
theorem Manifest.follows_load (files : Files) (path : Path) :
    (load files path).Follows (fun path => ∃ table, files.Provides path table) files.told
      [path] := by
  refine Traced.follows_singleton Report.exists_outcome_load_iff ?_
  rw [load, Files.told]
  cases files path with
  | ok bytes => exact Traced.events_bind_of_ok rfl _
  | error cause => rfl

/-! ### Versions -/

namespace Version

/-- Whether a value in the place of a version leaves the version to the workspace. -/
def leaves : Toml.Value → Bool
  | .table entries => isInherited entries
  | _ => false

theorem inherits_iff_leaves {package : Toml.Table} : Inherits package ↔
    (Toml.Table.find packageKeys package).toOption.any leaves = true := by
  simp only [Inherits, ← Toml.Table.find_eq_ok_iff, ← isInherited_iff]
  rcases Toml.Table.find packageKeys package with fault | v
  · simp [Except.toOption]
  · cases v <;> simp [Except.toOption, leaves]

instance : DecidablePred Inherits := fun _ => decidable_of_iff _ inherits_iff_leaves.symm

/-- What is told of a package whose version is looked up. -/
def told (package : Manifest) : List Event :=
  if Inherits package.table then [.inheritedVersion package.path] else []

theorem events_ofPackage (package workspace : Manifest) :
    (ofPackage package workspace).events = told package := by
  by_cases h : Inherits package.table
  · rw [ofPackage_of_inherits h, told, if_pos h]
  · rw [ofPackage_of_not_inherits h, told, if_neg h]
    rfl

end Version

/-! ### What is told of a workspace -/

namespace Report

variable {files : Files} {layout : Layout} {workspace : Manifest}
  {packages : List (String × Manifest)}

/-- The manifests of a workspace and of its packages, as they are loaded. -/
structure Loaded (files : Files) (layout : Layout) (workspace : Manifest)
    (packages : List (String × Manifest)) : Prop where
  path : workspace.path = layout.workspaceManifest
  provides : files.Provides layout.workspaceManifest workspace.table
  packages : List.Forall₂ (Loads files layout) Layout.packages packages

/-- What is told of a package, whose manifest is loaded. -/
def told (p : String × Manifest) : List Event := Version.told p.2

/-- **The events that are told of a workspace.** After the first event, they are those of the
manifests, up to the first that cannot be loaded; if all can, those of the packages follow, up to
the first that has no version; and if all have one, those of the rules, up to the first step of
the scan that fails. -/
inductive Tells (files : Files) (layout : Layout) : List Event → Prop
  | load {reached : List Path}
      (h : Through (fun path => ∃ table, files.Provides path table) layout.manifests reached)
      (hn : ¬∀ path ∈ layout.manifests, ∃ table, files.Provides path table) :
      Tells files layout (.collecting layout.root :: reached.flatMap files.told)
  | version {workspace : Manifest} {packages reached : List (String × Manifest)}
      (loaded : Loaded files layout workspace packages)
      (h : Through (HasVersion workspace) packages reached)
      (hn : ¬∀ p ∈ packages, HasVersion workspace p) :
      Tells files layout (.collecting layout.root ::
        (layout.manifests.flatMap files.told ++ reached.flatMap told))
  | lints {workspace : Manifest} {packages : List (String × Manifest)} {reached : List Lint.Step}
      (loaded : Loaded files layout workspace packages)
      (versioned : ∀ p ∈ packages, HasVersion workspace p)
      (h : Through (Lint.Step.Passes workspace) (Lint.steps workspace) reached) :
      Tells files layout (.collecting layout.root :: (layout.manifests.flatMap files.told ++
        (packages.flatMap told ++ reached.flatMap Lint.Step.told)))

/-! ### One round after the other -/

/-- The first round: the manifests of the workspace and of its packages. -/
def load (files : Files) (layout : Layout) : Traced (Manifest × List (String × Manifest)) := do
  let workspace ← Manifest.load files layout.workspaceManifest
  let packages ← Layout.packages |> Traced.each fun package => do
    let manifest ← Manifest.load files (layout.packageManifest package)
    pure (package, manifest)
  pure (workspace, packages)

theorem follows_load (files : Files) (layout : Layout) : (load files layout).Follows
    (fun path => ∃ table, files.Provides path table) files.told layout.manifests := by
  have hpackages := Traced.follows_each Layout.packages fun package _ =>
    (Manifest.follows_load files (layout.packageManifest package)).bind_pure (package, ·)
  rw [← List.map_eq_flatMap] at hpackages
  exact (Manifest.follows_load files layout.workspaceManifest).bind fun workspace _ =>
    hpackages.bind_pure (workspace, ·)

theorem outcome_load_eq_ok_iff : (load files layout).outcome = .ok (workspace, packages) ↔
    Loaded files layout workspace packages := by
  rw [load, Traced.outcome_bind_eq_ok_iff]
  constructor
  · rintro ⟨manifest, hw, h⟩
    obtain ⟨loaded, hp, h⟩ := Traced.outcome_bind_eq_ok_iff.1 h
    obtain ⟨rfl, rfl⟩ := Prod.mk.inj (Except.ok.inj h)
    obtain ⟨hpath, hw⟩ := Manifest.outcome_load_eq_ok_iff.1 hw
    exact ⟨hpath, hw, outcome_loadPackages_eq_ok_iff.1 hp⟩
  · rintro ⟨hpath, hw, hp⟩
    exact ⟨workspace, Manifest.outcome_load_eq_ok_iff.2 ⟨hpath, hw⟩,
      Traced.outcome_bind_eq_ok_iff.2 ⟨packages, outcome_loadPackages_eq_ok_iff.2 hp, rfl⟩⟩

theorem follows_versions (workspace : Manifest) (packages : List (String × Manifest)) :
    (Traced.each (versionOf workspace) packages).Follows (HasVersion workspace) told packages := by
  have hone : ∀ p, (versionOf workspace p).Follows (HasVersion workspace) told [p] := by
    intro p
    refine Traced.Follows.bind_pure (Traced.follows_singleton ?_ ?_) _
    · rfl
    · exact Version.events_ofPackage p.2 workspace
  have hall := Traced.follows_each packages fun p _ => hone p
  rwa [List.flatMap_singleton'] at hall

/-- The gathering of a report, round by round. -/
theorem collect_eq (files : Files) (layout : Layout) : collect files layout =
    Traced.tell (.collecting layout.root) >>= fun _ => load files layout >>= fun loaded =>
      Traced.each (versionOf loaded.1) loaded.2 >>= fun versions =>
        Lint.disabled loaded.1 >>= fun disabledLints => pure ⟨versions, disabledLints⟩ := by
  rw [load]
  simp only [Traced.bind_bind]
  rfl

theorem Loaded.unique {workspace' : Manifest} {packages' : List (String × Manifest)}
    (h : Loaded files layout workspace packages)
    (h' : Loaded files layout workspace' packages') :
    workspace' = workspace ∧ packages' = packages := by
  have heq := (outcome_load_eq_ok_iff.2 h').symm.trans (outcome_load_eq_ok_iff.2 h)
  exact Prod.mk.inj (Except.ok.inj heq)

theorem Loaded.provided (h : Loaded files layout workspace packages) :
    ∀ path ∈ layout.manifests, ∃ table, files.Provides path table :=
  (follows_load files layout).succeeds.1 ⟨_, outcome_load_eq_ok_iff.2 h⟩

/-- **There is only one way to tell of a workspace.** -/
theorem Tells.unique {events events' : List Event} (h : Tells files layout events)
    (h' : Tells files layout events') : events = events' := by
  cases h with
  | load hr hn =>
    cases h' with
    | load hr' => rw [hr.unique hr']
    | version loaded => exact absurd loaded.provided hn
    | lints loaded => exact absurd loaded.provided hn
  | version loaded hr hn =>
    cases h' with
    | load _ hn' => exact absurd loaded.provided hn'
    | version loaded' hr' =>
      obtain ⟨rfl, rfl⟩ := loaded.unique loaded'
      rw [hr.unique hr']
    | lints loaded' versioned =>
      obtain ⟨rfl, rfl⟩ := loaded.unique loaded'
      exact absurd versioned hn
  | lints loaded versioned hr =>
    cases h' with
    | load _ hn => exact absurd loaded.provided hn
    | version loaded' _ hn =>
      obtain ⟨rfl, rfl⟩ := loaded.unique loaded'
      exact absurd versioned hn
    | lints loaded' _ hr' =>
      obtain ⟨rfl, rfl⟩ := loaded.unique loaded'
      rw [hr.unique hr']

/-- **The gathering of a report tells of the workspace**, round by round. -/
theorem tells_collect (files : Files) (layout : Layout) :
    Tells files layout (collect files layout).events := by
  rw [collect_eq, Traced.events_bind_of_ok (a := ()) rfl]
  obtain ⟨-, paths, hpaths, epaths⟩ := follows_load files layout
  rcases hl : (load files layout).outcome with e | ⟨workspace, packages⟩
  · rw [Traced.events_bind_of_error hl, epaths]
    exact .load hpaths ((follows_load files layout).not_forall_of_error hl)
  have loaded := outcome_load_eq_ok_iff.1 hl
  rw [Traced.events_bind_of_ok hl, (follows_load files layout).events_of_ok hl]
  obtain ⟨hversions, reached, hreached, ereached⟩ := follows_versions workspace packages
  rcases hv : (Traced.each (versionOf workspace) packages).outcome with e | versions
  · rw [Traced.events_bind_of_error hv, ereached]
    exact .version loaded hreached ((follows_versions workspace packages).not_forall_of_error hv)
  obtain ⟨-, steps, hsteps, esteps⟩ := (Lint.follows_disabled workspace).bind_pure
    fun disabledLints => (⟨versions, disabledLints⟩ : Report)
  rw [Traced.events_bind_of_ok hv, (follows_versions workspace packages).events_of_ok hv, esteps]
  exact .lints loaded (hversions.1 ⟨versions, hv⟩) hsteps

/-! ### The lints of the report -/

/-- While manifests are loaded, nothing is told of any rule. -/
theorem filterMap_disabled?_load (files : Files) (layout : Layout) :
    (load files layout).events.filterMap Event.disabled? = [] := by
  refine (follows_load files layout).filterMap_events_eq_nil fun path => ?_
  rw [Files.told]
  split <;> rfl

/-- While versions are looked up, nothing is told of any rule. -/
theorem filterMap_disabled?_versions (workspace : Manifest) (packages : List (String × Manifest)) :
    (Traced.each (versionOf workspace) packages).events.filterMap Event.disabled? = [] := by
  refine (follows_versions workspace packages).filterMap_events_eq_nil fun p => ?_
  rw [told, Version.told]
  split <;> rfl

/-- **The disabled lints of a report are those that were told of**, in the same order. -/
theorem filterMap_disabled?_collect {report : Report}
    (h : (collect files layout).outcome = .ok report) :
    (collect files layout).events.filterMap Event.disabled? = report.disabledLints := by
  rw [collect_eq] at h ⊢
  rw [Traced.outcome_tell_bind] at h
  obtain ⟨loaded, hl, h⟩ := Traced.outcome_bind_eq_ok_iff.1 h
  obtain ⟨versions, hv, h⟩ := Traced.outcome_bind_eq_ok_iff.1 h
  obtain ⟨lints, hd, h⟩ := Traced.outcome_bind_eq_ok_iff.1 h
  obtain rfl := Except.ok.inj h
  rw [Traced.events_bind_of_ok (a := ()) rfl, Traced.events_bind_of_ok hl,
    Traced.events_bind_of_ok hv, Traced.events_bind_of_ok hd]
  simp only [List.filterMap_append, filterMap_disabled?_load, filterMap_disabled?_versions,
    Lint.filterMap_disabled?_events hd]
  exact List.append_nil lints

end Report

end WorkspaceFacts
