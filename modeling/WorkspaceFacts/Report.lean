import WorkspaceFacts.Lint

/-!
# The report on a workspace

The report holds the versions of the packages and the disabled lints. It is built from
manifests that are parsed already (`WorkspaceFacts.Report.ofManifests`), and
`WorkspaceFacts.Report.collect` reads those of a workspace first: that of the workspace,
then those of the packages. There is a report only if every manifest can be had and every
fact is there; otherwise the first failure is the outcome.

How files are read is a parameter: any function from paths to bytes will do.

A package states its version as a string, or it leaves the version to the workspace by
`version.workspace = true`. Only in the second case is the workspace manifest looked at.
-/

namespace WorkspaceFacts

/-! ### The version of a package -/

namespace Version

/-- Where a package states its version. -/
def packageKeys : List String := ["package", "version"]

/-- Where a workspace states the version that packages can inherit. -/
def workspaceKeys : List String := ["workspace", "package", "version"]

/-- Whether a table in the place of a version leaves the version to the workspace. -/
def isInherited (entries : Toml.Table) : Bool :=
  (Entries.get? entries "workspace").bind Toml.Value.boolean? == some true

/-- The version that a workspace lends to its packages. -/
def ofWorkspace (workspace : Manifest) : Except ManifestError String :=
  match workspace.require workspaceKeys with
  | .ok (.scalar (.string version)) => .ok version
  | .ok _ => .error (.invalidField workspace.path workspaceKeys .string)
  | .error e => .error e

/-- **The version of a package** in a workspace. -/
def ofPackage (package workspace : Manifest) : Traced String :=
  let refused := Traced.of (.error (.invalidField package.path packageKeys .stringOrInherited))
  match package.require packageKeys with
  | .ok (.scalar (.string version)) => pure version
  | .ok (.table entries) =>
    if isInherited entries then do
      Traced.tell (.inheritedVersion package.path)
      Traced.of (ofWorkspace workspace)
    else refused
  | .ok _ => refused
  | .error e => .of (.error e)

end Version

/-! ### The facts about a workspace -/

/-- The version of a package. -/
structure PackageVersion where
  package : String
  version : String
  deriving DecidableEq

/-- The facts about a workspace. -/
structure Report where
  versions : List PackageVersion
  disabledLints : List DisabledLint
  deriving DecidableEq

/-- A way to read files. -/
abbrev Files := Path → Except ReadError Bytes

/-- The way to read files that knows the listed outcomes and finds nothing else. -/
def Files.ofList (outcomes : List (Path × Except ReadError Bytes)) : Files := fun path =>
  match outcomes with
  | [] => .error .notFound
  | (p, outcome) :: rest => if p = path then outcome else ofList rest path

namespace Manifest

/-- The manifest in a file. -/
def load (files : Files) (path : Path) : Traced Manifest :=
  match files path with
  | .error cause => .of (.error (.read path cause))
  | .ok bytes => do
    Traced.tell (.readManifest path bytes.length)
    Traced.of (ofBytes path bytes)

end Manifest

namespace Report

/-- The report on packages, each with its name and its manifest, of a workspace. -/
def ofManifests (workspace : Manifest) (packages : List (String × Manifest)) : Traced Report := do
  let versions ← packages |> Traced.each fun (package, manifest) => do
    let version ← Version.ofPackage manifest workspace
    pure (⟨package, version⟩ : PackageVersion)
  let disabledLints ← Lint.disabled workspace
  pure ⟨versions, disabledLints⟩

/-- **The report on the workspace** that lies as `layout` says. -/
def collect (files : Files) (layout : Layout) : Traced Report := do
  Traced.tell (.collecting layout.root)
  let workspace ← Manifest.load files layout.workspaceManifest
  let packages ← Layout.packages |> Traced.each fun package => do
    let manifest ← Manifest.load files (layout.packageManifest package)
    pure (package, manifest)
  ofManifests workspace packages

/-- The positional form of the report: the versions, one a line, and the disabled lints
on one line more, which is empty if there are none. -/
def lines (report : Report) : List String :=
  report.versions.map (·.version) ++ [DisabledLint.displayAll report.disabledLints]

end Report

end WorkspaceFacts
