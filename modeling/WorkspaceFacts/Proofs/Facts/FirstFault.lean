import WorkspaceFacts.Proofs.Facts.Faults

/-!
# Which error is reported

Four files, three versions and two groups of lints can be at fault in any combination, and
one error is reported. It is that of the first fault in a fixed sequence
(`WorkspaceFacts.Report.FirstFault`): the files, that of the workspace and those of its
packages; then, only if there are four documents, the versions of the packages; then, only if
there are three versions, the lints. So a file that comes last is blamed before a field of the
one that comes first.

The error names the manifest that is at fault, and what it says of that manifest is true
(`WorkspaceFacts.ManifestError.IsTrue`).
-/

namespace WorkspaceFacts

/-- **The error is true of the file that it names.** -/
inductive ManifestError.IsTrue (files : Files) : ManifestError → Prop
  | read {path : Path} {cause : ReadError} (h : files path = .error cause) :
      IsTrue files (.read path cause)
  | encoding {path : Path} {bytes : Bytes} {fault : Utf8.Fault} (h : files path = .ok bytes)
      (hb : ∀ text, bytes ≠ Utf8.encode text) : IsTrue files (.encoding path fault)
  | parse {path : Path} {text : String} (h : files path = .ok (Utf8.encode text))
      (hp : Toml.Document.parse? text = none) : IsTrue files (.parse path)
  | field {m : Manifest} {e : ManifestError} (h : files.Provides m.path m.table)
      (hw : m.Warrants e) : IsTrue files e

theorem Files.Refuses.isTrue {files : Files} {path : Path} {e : ManifestError}
    (h : files.Refuses path e) : e.IsTrue files ∧ e.path = path := by
  rcases h with h | ⟨h, hd⟩ | ⟨h, hp⟩
  · exact ⟨.read h, rfl⟩
  · refine ⟨.encoding h fun text hb => ?_, rfl⟩
    rw [Utf8.decode_eq_ok_iff.2 hb] at hd
    cases hd
  · exact ⟨.parse h hp, rfl⟩

theorem Files.Provides.unique {files : Files} {path : Path} {table table' : Toml.Table}
    (h : files.Provides path table) (h' : files.Provides path table') : table = table' := by
  obtain ⟨text, hb, hp⟩ := h
  obtain ⟨text', hb', hp'⟩ := h'
  obtain rfl := Utf8.encode_injective (Except.ok.inj (hb.symm.trans hb'))
  exact Option.some.inj (hp.symm.trans hp')

theorem Files.Provides.distinct {files : Files} {path : Path} {table : Toml.Table}
    (h : files.Provides path table) : (Toml.Value.table table).Distinct := by
  obtain ⟨text, -, hp⟩ := h
  exact Toml.Document.distinct_of_parse? hp

namespace Report

variable {files : Files} {layout : Layout} {e : ManifestError}

/-! ### The sequence of faults -/

/-- The fault of the version of a package, whose manifest is in its file. -/
def VersionFault (files : Files) (layout : Layout) (workspace : Toml.Table) (e : ManifestError)
    (package : String) : Prop :=
  ∃ table, files.Provides (layout.packageManifest package) table ∧
    Version.Fault ⟨layout.packageManifest package, table⟩ ⟨layout.workspaceManifest, workspace⟩ e

/-- **The first fault of a workspace** in the order of the work: a file does not provide a
document, and all before it do; all files do, and a package has no version, and all before it
have one; all packages have versions, and the levels of the lints are not set. -/
inductive FirstFault (files : Files) (layout : Layout) : ManifestError → Prop
  | load {e : ManifestError} (h : First (fun path => ∃ table, files.Provides path table)
      (fun path => files.Refuses path e) layout.manifests) : FirstFault files layout e
  | version {e : ManifestError} {workspace : Toml.Table}
      (loaded : ∀ path ∈ layout.manifests, ∃ table, files.Provides path table)
      (hw : files.Provides layout.workspaceManifest workspace)
      (h : First (fun package => ∃ version, Versioned files layout workspace package version)
        (VersionFault files layout workspace e) Layout.packages) : FirstFault files layout e
  | lints {e : ManifestError} {workspace : Toml.Table}
      (hw : files.Provides layout.workspaceManifest workspace)
      (versioned : ∀ package ∈ Layout.packages,
        ∃ version, Versioned files layout workspace package version)
      (h : Lint.Fault ⟨layout.workspaceManifest, workspace⟩ e) : FirstFault files layout e

/-- The versions of packages and then the lints fail by the first of them that is at fault. -/
theorem outcome_ofManifests_eq_error_iff {workspace : Manifest}
    {packages : List (String × Manifest)} : (ofManifests workspace packages).outcome = .error e ↔
      First (fun p => ∃ version, Version.IsVersion p.2.table workspace.table version)
          (fun p => Version.Fault p.2 workspace e) packages ∨
        (∀ p ∈ packages, ∃ version, Version.IsVersion p.2.table workspace.table version) ∧
          Lint.Fault workspace e := by
  rw [ofManifests, Traced.outcome_bind_eq_error_iff, Traced.outcome_each_eq_error_iff]
  simp only [Traced.outcome_bind_pure_eq_error_iff, Traced.exists_outcome_bind_pure_iff,
    Version.outcome_ofPackage_eq_ok_iff, Version.outcome_ofPackage_eq_error_iff,
    Lint.outcome_disabled_eq_error_iff, exists_and_right, Traced.exists_outcome_each_iff]

/-! ### Loading -/

/-- The files of a workspace are loaded one after the other, that of the workspace first. -/
theorem first_manifests_iff {P R : Path → Prop} : First P R layout.manifests ↔
    R layout.workspaceManifest ∨ P layout.workspaceManifest ∧
      First (fun package => P (layout.packageManifest package))
        (fun package => R (layout.packageManifest package)) Layout.packages := by
  rw [Layout.manifests, first_cons, first_map]

theorem forall_manifests_iff {P : Path → Prop} : (∀ path ∈ layout.manifests, P path) ↔
    P layout.workspaceManifest ∧
      ∀ package ∈ Layout.packages, P (layout.packageManifest package) := by
  rw [Layout.manifests, List.forall_mem_cons, List.forall_mem_map]

theorem exists_outcome_load_iff {path : Path} :
    (∃ m, (Manifest.load files path).outcome = .ok m) ↔ ∃ table, files.Provides path table := by
  simp only [Manifest.outcome_load_eq_ok_iff]
  constructor
  · rintro ⟨m, -, h⟩
    exact ⟨_, h⟩
  · rintro ⟨table, h⟩
    exact ⟨⟨path, table⟩, rfl, h⟩

/-- A package and its manifest, as they are loaded. -/
def Loads (files : Files) (layout : Layout) (package : String) (p : String × Manifest) : Prop :=
  p.1 = package ∧ p.2.path = layout.packageManifest package ∧
    files.Provides (layout.packageManifest package) p.2.table

section Loaded

variable {workspace : Toml.Table} {package : String} {p : String × Manifest}

theorem Loads.versioned_iff (h : Loads files layout package p) :
    (∃ version, Versioned files layout workspace package version) ↔
      ∃ version, Version.IsVersion p.2.table workspace version := by
  refine exists_congr fun version => ⟨?_, fun hv => ⟨_, h.2.2, hv⟩⟩
  rintro ⟨table, ht, hv⟩
  exact h.2.2.unique ht ▸ hv

theorem Loads.versionFault_iff (h : Loads files layout package p) :
    VersionFault files layout workspace e package ↔
      Version.Fault p.2 ⟨layout.workspaceManifest, workspace⟩ e := by
  obtain ⟨name, path, table⟩ := p
  obtain ⟨rfl, hpath, ht⟩ := h
  obtain rfl : path = layout.packageManifest name := hpath
  constructor
  · rintro ⟨table', ht', hf⟩
    obtain rfl : table' = table := ht'.unique ht
    exact hf
  · exact fun hf => ⟨table, ht, hf⟩

/-- Once the four documents are there, the versions and the lints decide. -/
theorem outcome_ofManifests_eq_error_iff_of_loads {packages : List (String × Manifest)}
    (h : List.Forall₂ (Loads files layout) Layout.packages packages) :
    (ofManifests ⟨layout.workspaceManifest, workspace⟩ packages).outcome = .error e ↔
      First (fun package => ∃ version, Versioned files layout workspace package version)
          (VersionFault files layout workspace e) Layout.packages ∨
        (∀ package ∈ Layout.packages,
            ∃ version, Versioned files layout workspace package version) ∧
          Lint.Fault ⟨layout.workspaceManifest, workspace⟩ e := by
  have versioned : ∀ package p, Loads files layout package p →
      ((∃ version, Versioned files layout workspace package version) ↔
        ∃ version, Version.IsVersion p.2.table workspace version) :=
    fun package p hl => hl.versioned_iff
  rw [outcome_ofManifests_eq_error_iff, forall_mem_iff_of_forall₂ h versioned,
    first_iff_of_forall₂ h versioned fun package p hl => hl.versionFault_iff]

end Loaded

/-- The manifests of packages fail to load by the first file that provides no document. -/
theorem outcome_loadPackages_eq_error_iff {names : List String} :
    (names |> Traced.each fun package => do
      let manifest ← Manifest.load files (layout.packageManifest package)
      pure (package, manifest)).outcome = .error e ↔
      First (fun package => ∃ table, files.Provides (layout.packageManifest package) table)
        (fun package => files.Refuses (layout.packageManifest package) e) names := by
  rw [Traced.outcome_each_eq_error_iff]
  simp only [Traced.outcome_bind_pure_eq_error_iff, Traced.exists_outcome_bind_pure_iff,
    exists_outcome_load_iff, Manifest.outcome_load_eq_error_iff]

theorem exists_loads_iff {names : List String} :
    (∃ packages, List.Forall₂ (Loads files layout) names packages) ↔
      ∀ package ∈ names, ∃ table, files.Provides (layout.packageManifest package) table := by
  have loaded : ∀ packages, List.Forall₂ (Loads files layout) names packages ↔ _ :=
    fun packages => outcome_loadPackages_eq_ok_iff.symm
  simp only [loaded, Traced.exists_outcome_each_iff, Traced.exists_outcome_bind_pure_iff,
    exists_outcome_load_iff]

/-- The places where the gathering of a report can fail, in their order. -/
theorem outcome_collect_eq_error_cases : (collect files layout).outcome = .error e ↔
    files.Refuses layout.workspaceManifest e ∨
      ∃ workspace, files.Provides layout.workspaceManifest workspace ∧
        (First (fun package => ∃ table, files.Provides (layout.packageManifest package) table)
            (fun package => files.Refuses (layout.packageManifest package) e) Layout.packages ∨
          ∃ packages, List.Forall₂ (Loads files layout) Layout.packages packages ∧
            (ofManifests ⟨layout.workspaceManifest, workspace⟩ packages).outcome = .error e) := by
  rw [collect, Traced.outcome_tell_bind, Traced.outcome_bind_eq_error_iff,
    Manifest.outcome_load_eq_error_iff]
  refine or_congr_right ⟨?_, ?_⟩
  · rintro ⟨⟨path, workspace⟩, hload, h⟩
    obtain ⟨rfl, hw⟩ := Manifest.outcome_load_eq_ok_iff.1 hload
    rw [Traced.outcome_bind_eq_error_iff, outcome_loadPackages_eq_error_iff] at h
    simp only [outcome_loadPackages_eq_ok_iff] at h
    exact ⟨workspace, hw, h⟩
  · rintro ⟨workspace, hw, h⟩
    refine ⟨⟨_, workspace⟩, Manifest.outcome_load_eq_ok_iff.2 ⟨rfl, hw⟩, ?_⟩
    rw [Traced.outcome_bind_eq_error_iff, outcome_loadPackages_eq_error_iff]
    simp only [outcome_loadPackages_eq_ok_iff]
    exact h

/-- **The reported error is that of the first fault.** -/
theorem outcome_collect_eq_error_iff :
    (collect files layout).outcome = .error e ↔ FirstFault files layout e := by
  rw [outcome_collect_eq_error_cases]
  constructor
  · rintro (h | ⟨workspace, hw, h | ⟨packages, hloads, h⟩⟩)
    · exact .load (first_manifests_iff.2 (.inl h))
    · exact .load (first_manifests_iff.2 (.inr ⟨⟨_, hw⟩, h⟩))
    · rcases (outcome_ofManifests_eq_error_iff_of_loads hloads).1 h with h | ⟨hv, h⟩
      · exact .version (forall_manifests_iff.2 ⟨⟨_, hw⟩, exists_loads_iff.1 ⟨_, hloads⟩⟩) hw h
      · exact .lints hw hv h
  · rintro (h | ⟨loaded, hw, h⟩ | ⟨hw, hv, h⟩)
    · refine (first_manifests_iff.1 h).imp_right ?_
      rintro ⟨⟨workspace, hw⟩, h⟩
      exact ⟨workspace, hw, .inl h⟩
    · obtain ⟨packages, hloads⟩ := exists_loads_iff.2 (forall_manifests_iff.1 loaded).2
      exact .inr ⟨_, hw, .inr ⟨packages, hloads,
        (outcome_ofManifests_eq_error_iff_of_loads hloads).2 (.inl h)⟩⟩
    · have loaded : ∀ package ∈ Layout.packages,
          ∃ table, files.Provides (layout.packageManifest package) table := by
        intro package hp
        obtain ⟨version, table, ht, -⟩ := hv package hp
        exact ⟨table, ht⟩
      obtain ⟨packages, hloads⟩ := exists_loads_iff.2 loaded
      exact .inr ⟨_, hw, .inr ⟨packages, hloads,
        (outcome_ofManifests_eq_error_iff_of_loads hloads).2 (.inr ⟨hv, h⟩)⟩⟩

/-! ### The error is true -/

theorem workspaceManifest_mem_manifests : layout.workspaceManifest ∈ layout.manifests :=
  List.mem_cons_self

theorem packageManifest_mem_manifests {package : String} (h : package ∈ Layout.packages) :
    layout.packageManifest package ∈ layout.manifests :=
  List.mem_cons_of_mem _ (List.mem_map_of_mem h)

/-- What is warranted by a manifest whose file provides it is true of that file. -/
theorem isTrue_of_warrants {m : Manifest} (h : files.Provides m.path m.table)
    (hm : m.path ∈ layout.manifests) (hw : m.Warrants e) :
    e.path ∈ layout.manifests ∧ e.IsTrue files :=
  ⟨hw.path_eq ▸ hm, .field h hw⟩

theorem FirstFault.isTrue (h : FirstFault files layout e) :
    e.path ∈ layout.manifests ∧ e.IsTrue files := by
  rcases h with h | ⟨-, hw, h⟩ | ⟨hw, -, h⟩
  · obtain ⟨before, path, after, hsplit, -, hr⟩ := h
    obtain ⟨htrue, rfl⟩ := hr.isTrue
    exact ⟨by simp [hsplit], htrue⟩
  · obtain ⟨before, package, after, hsplit, -, table, ht, hf⟩ := h
    have hp : package ∈ Layout.packages := by simp [hsplit]
    rcases hf.warrants with hf | hf
    · exact isTrue_of_warrants ht (packageManifest_mem_manifests hp) hf
    · exact isTrue_of_warrants hw workspaceManifest_mem_manifests hf
  · exact isTrue_of_warrants hw workspaceManifest_mem_manifests (h.warrants hw.distinct)

/-- **Which error is reported, and that it is true.** The gathering of a report fails by an
error exactly if it is that of the first fault of the workspace. The error then names one of
the four manifests, and it is true of the file there. -/
theorem collect_fails_by_first_fault (files : Files) (layout : Layout) (e : ManifestError) :
    ((collect files layout).outcome = .error e ↔ FirstFault files layout e) ∧
      ((collect files layout).outcome = .error e →
        e.path ∈ layout.manifests ∧ e.IsTrue files) := by
  refine ⟨outcome_collect_eq_error_iff, fun h => ?_⟩
  exact (outcome_collect_eq_error_iff.1 h).isTrue

/-- A workspace with faults everywhere: no manifest has any of the fields that are asked for,
and the last one is not even text. -/
def faultyWorkspace : Files := Files.ofList [
  (.ofString "ws/Cargo.toml", .ok []),
  (.ofString "ws/lib/osi/Cargo.toml", .ok (Utf8.encode "[package]")),
  (.ofString "ws/lib/sys/Cargo.toml", .ok (Utf8.encode "package = 1")),
  (.ofString "ws/lib/tmp/Cargo.toml", .ok [0x23, 0xFF])]

/-- Of all its faults, the last file is blamed, as all files come before all fields. -/
theorem collect_faultyWorkspace :
    FirstFault faultyWorkspace ⟨.ofString "ws"⟩
        (.encoding (.ofString "ws/lib/tmp/Cargo.toml") ⟨1, some 1⟩) ∧
      ∃ bytes, faultyWorkspace (.ofString "ws/lib/tmp/Cargo.toml") = .ok bytes ∧
        ∀ text, bytes ≠ Utf8.encode text := by
  obtain ⟨hiff, htrue⟩ := collect_fails_by_first_fault faultyWorkspace ⟨.ofString "ws"⟩
    (.encoding (.ofString "ws/lib/tmp/Cargo.toml") ⟨1, some 1⟩)
  have houtcome : (collect faultyWorkspace ⟨.ofString "ws"⟩).outcome =
      .error (.encoding (.ofString "ws/lib/tmp/Cargo.toml") ⟨1, some 1⟩) := by decide +kernel
  refine ⟨hiff.1 houtcome, ?_⟩
  rcases (htrue houtcome).2 with _ | ⟨h, hb⟩ | _ | ⟨-, hw⟩
  · exact ⟨_, h, hb⟩
  · cases hw

end Report

end WorkspaceFacts
