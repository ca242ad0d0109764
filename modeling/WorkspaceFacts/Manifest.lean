import WorkspaceFacts.FileTree
import WorkspaceFacts.Toml.Document

/-!
# Manifests

A manifest is a parsed document together with the path it came from, so that an error can
name the file. Values are looked up by key path: the look-up walks through nested tables
and, where it fails, names the shortest part of the path that fails
(`WorkspaceFacts.Toml.Table.find`).
-/

namespace WorkspaceFacts

/-! ### Looking up a key path -/

namespace Toml.Table

/-- Why a look-up fails; both carry the keys from the start of the path up to the place
of the failure. -/
inductive LookupFault
  /-- There is no entry under the last of the keys. -/
  | missing (keys : List String)
  /-- The entry under the last of the keys is no table, but the path goes on. -/
  | notTable (keys : List String)
  deriving DecidableEq

/-- The fault as seen from a table above, which holds this one under `key`. -/
def LookupFault.below (key : String) : LookupFault → LookupFault
  | .missing keys => .missing (key :: keys)
  | .notTable keys => .notTable (key :: keys)

/-- The value at a key path. The empty path leads nowhere. -/
def find : List String → Table → Except LookupFault Value
  | [], _ => .error (.missing [])
  | [key], entries =>
    match Entries.get? entries key with
    | some value => .ok value
    | none => .error (.missing [key])
  | key :: next :: keys, entries =>
    match Entries.get? entries key with
    | some (.table inner) => (find (next :: keys) inner).mapError (LookupFault.below key)
    | some _ => .error (.notTable [key])
    | none => .error (.missing [key])

end Toml.Table

/-! ### Errors -/

/-- The shapes that a field of a manifest can be asked to have. -/
inductive Shape
  | table
  | string
  | stringOrInherited
  deriving DecidableEq

/-- The wording of a shape. -/
def Shape.name : Shape → String
  | .table => "table"
  | .string => "string"
  | .stringOrInherited => "string or \x7b workspace = true \x7d"

/-- Why a fact cannot be had from a manifest. -/
inductive ManifestError
  /-- The file cannot be read. -/
  | read (path : Path) (cause : ReadError)
  /-- The bytes of the file are no text. -/
  | encoding (path : Path) (fault : Utf8.Fault)
  /-- The text is no document. -/
  | parse (path : Path)
  /-- There is no entry at a key path. -/
  | missingField (path : Path) (keys : List String)
  /-- The entry at a key path does not have the shape that it must have. -/
  | invalidField (path : Path) (keys : List String) (expected : Shape)
  deriving DecidableEq

namespace ManifestError

/-- The manifest that an error is about. -/
def path : ManifestError → Path
  | .read path _ => path
  | .encoding path _ => path
  | .parse path => path
  | .missingField path _ => path
  | .invalidField path _ _ => path

/-- How a key path is shown: its keys with dots between them, none of them quoted. -/
def field (keys : List String) : String := ".".intercalate keys

/-- The wording of an error. -/
def message : ManifestError → String
  | .read path _ => "failed to read manifest " ++ path.display
  | .encoding path _ => "manifest " ++ path.display ++ " is not valid UTF-8"
  | .parse path => "failed to parse manifest " ++ path.display
  | .missingField path keys => "missing field '" ++ field keys ++ "' in " ++ path.display
  | .invalidField path keys expected =>
    "field '" ++ field keys ++ "' in " ++ path.display ++ " must be a " ++ expected.name

/-- The wording of what lies behind an error, where there is something. -/
def cause? : ManifestError → Option String
  | .read _ cause => some cause.message
  | .encoding _ fault => some fault.message
  | _ => none

end ManifestError

/-! ### Manifests -/

/-- A parsed document and the path it came from. -/
structure Manifest where
  path : Path
  table : Toml.Table

namespace Manifest

/-- The manifest at `path` whose text is given. -/
def parse (path : Path) (text : String) : Except ManifestError Manifest :=
  match Toml.Document.parse? text with
  | some table => .ok ⟨path, table⟩
  | none => .error (.parse path)

/-- The manifest at `path` whose bytes are given. -/
def ofBytes (path : Path) (bytes : Bytes) : Except ManifestError Manifest :=
  match Utf8.decode bytes with
  | .ok text => parse path (String.ofList text)
  | .error fault => .error (.encoding path fault)

/-- The error for a fault of a look-up in the manifest. -/
def errorOf (m : Manifest) : Toml.Table.LookupFault → ManifestError
  | .missing keys => .missingField m.path keys
  | .notTable keys => .invalidField m.path keys .table

/-- The value at a key path, or an error that names the shortest part of the path that
fails. -/
def require (m : Manifest) (keys : List String) : Except ManifestError Toml.Value :=
  (Toml.Table.find keys m.table).mapError m.errorOf

/-- The table at a key path. -/
def requireTable (m : Manifest) (keys : List String) : Except ManifestError Toml.Table :=
  match m.require keys with
  | .ok (.table entries) => .ok entries
  | .ok _ => .error (.invalidField m.path keys .table)
  | .error e => .error e

end Manifest

end WorkspaceFacts
