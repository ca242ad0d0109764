import WorkspaceFacts.Text.Utf8

/-!
# Paths, and where the manifests of a workspace lie

A path is any string of bytes. Joining is done on the bytes alone and nothing is
normalised: an absolute path on the right replaces the left, and otherwise one slash
separates the two unless the left already ends in one or is empty.

The manifest of a workspace is at its root, that of a package in the directory of the
package below `lib`. Paths are joined as they are: a package name that is an absolute
path leads out of the workspace.
-/

namespace WorkspaceFacts

/-- The name of a place in the file system, relative or absolute. -/
structure Path where
  /-- The bytes of the name. -/
  bytes : Bytes
  deriving DecidableEq

namespace Path

/-- The byte that separates the components of a path. -/
def separator : UInt8 := 0x2F

/-- The path spelled by a text. -/
def ofString (text : String) : Path := ⟨Utf8.encode text⟩

/-- Whether the path starts with a separator, so that it has no need of a directory
to start from. -/
def isAbsolute (p : Path) : Bool := p.bytes.head? == some separator

/-- Whether a component can be added without a separator in between. -/
def isOpen (p : Path) : Bool := p.bytes.isEmpty || p.bytes.getLast? == some separator

/-- The path `rel` seen from `base`. -/
def join (base rel : Path) : Path :=
  if rel.isAbsolute then rel
  else if base.isOpen then ⟨base.bytes ++ rel.bytes⟩
  else ⟨base.bytes ++ separator :: rel.bytes⟩

/-- How a path is shown in a message. -/
def display (p : Path) : String := Utf8.display p.bytes

end Path

/-- The places of a workspace, seen from its root. -/
structure Layout where
  root : Path
  deriving DecidableEq

namespace Layout

/-- The packages whose versions are reported, in the order of the report. -/
def packages : List String := ["osi", "sys", "tmp"]

/-- The file name of a manifest. -/
def manifestName : Path := .ofString "Cargo.toml"

/-- The directory that holds the packages. -/
def packageDirectory : Path := .ofString "lib"

/-- The path of the manifest of the workspace. -/
def workspaceManifest (layout : Layout) : Path := layout.root.join manifestName

/-- The path of the manifest of a package. -/
def packageManifest (layout : Layout) (package : String) : Path :=
  ((layout.root.join packageDirectory).join (.ofString package)).join manifestName

/-- The paths of all manifests, in the order in which they are read. -/
def manifests (layout : Layout) : List Path :=
  layout.workspaceManifest :: packages.map layout.packageManifest

end Layout

end WorkspaceFacts
