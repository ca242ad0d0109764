import WorkspaceFacts.Proofs.Facts.Lints
import WorkspaceFacts.Proofs.Text.Encoding
import WorkspaceFacts.Report

/-!
# When there is a report

A report needs four documents: those of the workspace and of its packages. They have to
be there, to be texts, and to be documents; every package has to have a version and both
groups of lints have to be set. This is `WorkspaceFacts.Report.Complete`, which says
nothing about the order in which the files are read or the facts are looked up, and it is
all that a report needs. The report itself is then determined
(`WorkspaceFacts.Report.Answers`).

A package has a version in a workspace if it states the version, or if it leaves the
version to the workspace and the workspace lends one. Nothing else gives it a version
(`WorkspaceFacts.Version.outcome_ofPackage_eq_ok_iff`).
-/

namespace WorkspaceFacts

/-! ### Which version a package has -/

namespace Version

open Toml.Table (Holds)

/-- A package states its version as a string. -/
def States (package : Toml.Table) (version : String) : Prop :=
  Holds package packageKeys (.scalar (.string version))

/-- A package leaves its version to the workspace: it has a table in the place of the
version, whose key `workspace` is true. -/
def Inherits (package : Toml.Table) : Prop :=
  ∃ entries, Holds package packageKeys (.table entries) ∧
    Entries.get? entries "workspace" = some (.scalar (.boolean true))

/-- A workspace lends a version to its packages. -/
def Lends (workspace : Toml.Table) (version : String) : Prop :=
  Holds workspace workspaceKeys (.scalar (.string version))

/-- **A package has a version** in a workspace. -/
def IsVersion (package workspace : Toml.Table) (version : String) : Prop :=
  States package version ∨ (Inherits package ∧ Lends workspace version)

theorem isInherited_iff {entries : Toml.Table} : isInherited entries = true ↔
    Entries.get? entries "workspace" = some (.scalar (.boolean true)) := by
  rw [isInherited, beq_iff_eq]
  cases Entries.get? entries "workspace" with
  | none => simp
  | some v =>
    rw [Option.bind_some, Option.some.injEq]
    unfold Toml.Value.boolean?
    split <;> simp_all

theorem ofWorkspace_eq_ok_iff {workspace : Manifest} {version : String} :
    ofWorkspace workspace = .ok version ↔ Lends workspace.table version := by
  rw [Lends, ← Manifest.require_eq_ok_iff, ofWorkspace]
  split <;> simp_all

/-- **The version of a package is the one that it has.** -/
theorem outcome_ofPackage_eq_ok_iff {package workspace : Manifest} {version : String} :
    (ofPackage package workspace).outcome = .ok version ↔
      IsVersion package.table workspace.table version := by
  have stated : ∀ v, States package.table v ↔
      package.require packageKeys = .ok (.scalar (.string v)) :=
    fun v => Manifest.require_eq_ok_iff.symm
  have inherited : Inherits package.table ↔ ∃ entries,
      package.require packageKeys = .ok (.table entries) ∧ isInherited entries = true := by
    simp only [Inherits, Manifest.require_eq_ok_iff, isInherited_iff]
  rw [IsVersion, stated, inherited, ofPackage]
  split
  · next v h => simp [h]
  · next entries h =>
    rw [h]
    split
    · next hi =>
      rw [Traced.outcome_tell_bind, Traced.outcome_of, ofWorkspace_eq_ok_iff]
      simp [hi]
    · next hi => simp [hi]
  · next v hs ht h =>
    rw [h]
    simp only [Traced.outcome_of, reduceCtorEq, Except.ok.injEq, false_iff, not_or]
    constructor
    · exact hs version
    · rintro ⟨⟨entries, rfl, -⟩, -⟩
      exact ht entries rfl
  · next e h => simp [h]

end Version

/-! ### Which manifests can be loaded -/

/-- The file at a path holds a document, which describes the table. -/
def Files.Provides (files : Files) (path : Path) (table : Toml.Table) : Prop :=
  ∃ text, files path = .ok (Utf8.encode text) ∧ Toml.Document.parse? text = some table

theorem Manifest.ofBytes_eq_ok_iff {path : Path} {bytes : Bytes} {m : Manifest} :
    ofBytes path bytes = .ok m ↔ m.path = path ∧
      ∃ text, bytes = Utf8.encode text ∧ Toml.Document.parse? text = some m.table := by
  unfold ofBytes
  split
  · next cs h =>
    rw [parse_eq_ok_iff]
    refine and_congr_right fun _ => ?_
    constructor
    · intro hp
      exact ⟨_, by rw [Utf8.encode, String.toList_ofList]; exact Utf8.decode_eq_ok_iff.1 h, hp⟩
    · rintro ⟨text, hb, hp⟩
      rw [Utf8.decode_eq_ok_iff.2 hb] at h
      rw [← Except.ok.inj h, String.ofList_toList, hp]
  · next fault h =>
    refine iff_of_false (by simp) ?_
    rintro ⟨-, text, hb, -⟩
    rw [Utf8.decode_eq_ok_iff.2 hb] at h
    cases h

theorem Manifest.outcome_load_eq_ok_iff {files : Files} {path : Path} {m : Manifest} :
    (load files path).outcome = .ok m ↔ m.path = path ∧ files.Provides path m.table := by
  unfold load
  split
  · next cause h => simp [Files.Provides, h]
  · next bytes h =>
    rw [Traced.outcome_tell_bind, Traced.outcome_of, ofBytes_eq_ok_iff]
    simp only [Files.Provides, h, Except.ok.injEq]

/-! ### When all is there -/

namespace Report

/-- The version that a report gives for a package is the one that the package has. -/
def Versioned (files : Files) (layout : Layout) (workspace : Toml.Table) (package : String)
    (version : String) : Prop :=
  ∃ table, files.Provides (layout.packageManifest package) table ∧
    Version.IsVersion table workspace version

/-- **A workspace is complete**: there is a document for it and for each of its packages,
the packages have versions, and the levels of both groups of lints are set. -/
def Complete (files : Files) (layout : Layout) : Prop :=
  ∃ workspace, files.Provides layout.workspaceManifest workspace ∧
    (∀ package ∈ Layout.packages, ∃ version, Versioned files layout workspace package version) ∧
    ∀ group ∈ Lint.groups, ∃ entries, Lint.Sets workspace group entries

/-- **A report answers for a workspace**: it has the versions of the packages, in their
order, and the selections from both groups of lints. -/
def Answers (files : Files) (layout : Layout) (report : Report) : Prop :=
  ∃ workspace, files.Provides layout.workspaceManifest workspace ∧
    List.Forall₂ (fun package v => v.package = package ∧
      Versioned files layout workspace package v.version) Layout.packages report.versions ∧
    ∃ clippy rust, Lint.Sets workspace "clippy" clippy ∧ Lint.Sets workspace "rust" rust ∧
      report.disabledLints = Lint.selected "clippy" clippy ++ Lint.selected "rust" rust

theorem outcome_ofManifests_eq_ok_iff {workspace : Manifest} {packages : List (String × Manifest)}
    {report : Report} : (ofManifests workspace packages).outcome = .ok report ↔
      List.Forall₂ (fun p v => v.package = p.1 ∧
        Version.IsVersion p.2.table workspace.table v.version) packages report.versions ∧
      (Lint.disabled workspace).outcome = .ok report.disabledLints := by
  have version : ∀ (p : String × Manifest) (v : PackageVersion),
      ((Version.ofPackage p.2 workspace >>= fun version =>
        (pure ⟨p.1, version⟩ : Traced PackageVersion)).outcome = .ok v ↔
      v.package = p.1 ∧ Version.IsVersion p.2.table workspace.table v.version) := by
    intro p v
    rw [Traced.outcome_bind_eq_ok_iff]
    constructor
    · rintro ⟨version, hv, h⟩
      obtain rfl := Except.ok.inj h
      exact ⟨rfl, Version.outcome_ofPackage_eq_ok_iff.1 hv⟩
    · rintro ⟨hp, hv⟩
      exact ⟨v.version, Version.outcome_ofPackage_eq_ok_iff.2 hv, by rw [← hp]; rfl⟩
  rw [ofManifests, Traced.outcome_bind_eq_ok_iff]
  constructor
  · rintro ⟨versions, hv, h⟩
    obtain ⟨lints, hl, h⟩ := Traced.outcome_bind_eq_ok_iff.1 h
    obtain rfl := Except.ok.inj h
    rw [Traced.outcome_each_eq_ok_iff] at hv
    exact ⟨hv.imp fun p v => (version p v).1, hl⟩
  · rintro ⟨hv, hl⟩
    refine ⟨report.versions, ?_, Traced.outcome_bind_eq_ok_iff.2 ⟨report.disabledLints, hl, rfl⟩⟩
    rw [Traced.outcome_each_eq_ok_iff]
    exact hv.imp fun p v => (version p v).2

/-- The manifests of packages, loaded one after the other. -/
theorem outcome_loadPackages_eq_ok_iff {files : Files} {layout : Layout} {names : List String}
    {packages : List (String × Manifest)} :
    (names |> Traced.each fun package => do
      let manifest ← Manifest.load files (layout.packageManifest package)
      pure (package, manifest)).outcome = .ok packages ↔
      List.Forall₂ (fun package p => p.1 = package ∧ p.2.path = layout.packageManifest package ∧
        files.Provides (layout.packageManifest package) p.2.table) names packages := by
  rw [Traced.outcome_each_eq_ok_iff]
  have loaded : ∀ (package : String) (p : String × Manifest),
      ((Manifest.load files (layout.packageManifest package) >>= fun manifest =>
        (pure (package, manifest) : Traced (String × Manifest))).outcome = .ok p ↔
      p.1 = package ∧ p.2.path = layout.packageManifest package ∧
        files.Provides (layout.packageManifest package) p.2.table) := by
    intro package p
    rw [Traced.outcome_bind_eq_ok_iff]
    constructor
    · rintro ⟨manifest, hm, h⟩
      obtain rfl := Except.ok.inj h
      exact ⟨rfl, Manifest.outcome_load_eq_ok_iff.1 hm⟩
    · rintro ⟨rfl, hm⟩
      exact ⟨p.2, Manifest.outcome_load_eq_ok_iff.2 hm, rfl⟩
  exact ⟨fun h => h.imp fun package p => (loaded package p).1,
    fun h => h.imp fun package p => (loaded package p).2⟩

/-- **There is a report exactly if one answers for the workspace**, and it is the one. -/
theorem outcome_collect_eq_ok_iff {files : Files} {layout : Layout} {report : Report} :
    (collect files layout).outcome = .ok report ↔ Answers files layout report := by
  rw [collect, Traced.outcome_tell_bind, Traced.outcome_bind_eq_ok_iff]
  constructor
  · rintro ⟨workspace, hw, h⟩
    obtain ⟨packages, hp, h⟩ := Traced.outcome_bind_eq_ok_iff.1 h
    rw [outcome_loadPackages_eq_ok_iff] at hp
    obtain ⟨hv, hl⟩ := outcome_ofManifests_eq_ok_iff.1 h
    refine ⟨workspace.table, (Manifest.outcome_load_eq_ok_iff.1 hw).2, ?_,
      Lint.outcome_disabled_eq_ok_iff.1 hl⟩
    refine (Traced.exists_forall₂_iff.1 ⟨packages, hp, hv⟩).imp ?_
    rintro package v ⟨p, ⟨rfl, -, hp⟩, hname, hversion⟩
    exact ⟨hname, p.2.table, hp, hversion⟩
  · rintro ⟨workspace, hw, hv, hl⟩
    -- The manifests of the packages are not in the report; they come from its versions.
    refine ⟨⟨layout.workspaceManifest, workspace⟩,
      Manifest.outcome_load_eq_ok_iff.2 ⟨rfl, hw⟩, ?_⟩
    obtain ⟨packages, hp, hv⟩ := Traced.exists_forall₂_iff.2 (hv.imp
      (S := fun package v => ∃ p : String × Manifest, (p.1 = package ∧
        p.2.path = layout.packageManifest package ∧
        files.Provides (layout.packageManifest package) p.2.table) ∧
        v.package = p.1 ∧ Version.IsVersion p.2.table workspace v.version) <| by
      rintro package v ⟨hname, table, ht, hversion⟩
      exact ⟨⟨package, ⟨_, table⟩⟩, ⟨rfl, rfl, ht⟩, hname, hversion⟩)
    exact Traced.outcome_bind_eq_ok_iff.2 ⟨packages, outcome_loadPackages_eq_ok_iff.2 hp,
      outcome_ofManifests_eq_ok_iff.2 ⟨hv, Lint.outcome_disabled_eq_ok_iff.2 hl⟩⟩

/-- A complete workspace is one that a report answers for. -/
theorem complete_iff_exists_answers {files : Files} {layout : Layout} :
    Complete files layout ↔ ∃ report, Answers files layout report := by
  constructor
  · rintro ⟨workspace, hw, hv, hl⟩
    obtain ⟨clippy, hc⟩ := hl "clippy" (by simp [Lint.groups])
    obtain ⟨rust, hr⟩ := hl "rust" (by simp [Lint.groups])
    choose! version hversion using hv
    refine ⟨⟨Layout.packages.map fun package => ⟨package, version package⟩, _⟩, workspace, hw, ?_,
      clippy, rust, hc, hr, rfl⟩
    rw [List.forall₂_map_right_iff, List.forall₂_same]
    exact fun package hp => ⟨rfl, hversion package hp⟩
  · rintro ⟨report, workspace, hw, hv, clippy, rust, hc, hr, -⟩
    have versions : List.Forall₂ (fun package v =>
        (∃ version, Versioned files layout workspace package version) ∧
          v.package = package) Layout.packages report.versions :=
      hv.imp fun package v h => ⟨⟨v.version, h.2⟩, h.1⟩
    refine ⟨workspace, hw, ((List.forall₂_and_left _ _).1 versions).1, ?_⟩
    simp only [Lint.groups, List.forall_mem_cons]
    exact ⟨⟨clippy, hc⟩, ⟨rust, hr⟩, List.forall_mem_nil _⟩

end Report

end WorkspaceFacts
