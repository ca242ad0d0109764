import WorkspaceFacts.Proofs.Facts.Faults
import WorkspaceFacts.Proofs.Facts.KeyPaths

/-!
# What an inherited version depends on

The version of a package comes from one manifest or from the other, never from both. A package
that does not inherit its version is never compared with its workspace: any other workspace gives
the same. A package that does inherit it adds nothing of its own, and all such packages of a
workspace have the same version or the same error, which blames the workspace
(`WorkspaceFacts.Version.workspace_only_if_inherited`).
-/

namespace WorkspaceFacts

namespace Version

open Toml.Table (Holds)

variable {package workspace : Manifest} {v : Toml.Value} {e : ManifestError}

/-! ### Packages that do not inherit -/

/-- The error for a version of another shape. -/
def refusal (package : Manifest) : ManifestError :=
  .invalidField package.path packageKeys .stringOrInherited

/-- What a package that does not inherit says of its version. -/
def own (package : Manifest) : Except ManifestError String :=
  (package.require packageKeys).bind fun v =>
    match v.string? with
    | some version => .ok version
    | none => .error (refusal package)

theorem own_of_string {version : String}
    (h : Holds package.table packageKeys (.scalar (.string version))) :
    own package = .ok version := by
  rw [own, Manifest.require_eq_ok_iff.2 h]
  rfl

theorem own_of_error (h : package.require packageKeys = .error e) : own package = .error e := by
  rw [own, h]
  rfl

theorem own_of_not_string (h : Holds package.table packageKeys v)
    (hv : ∀ version, v ≠ .scalar (.string version)) : own package = .error (refusal package) := by
  rw [own, Manifest.require_eq_ok_iff.2 h]
  cases v with
  | scalar s =>
    cases s with
    | string version => exact absurd rfl (hv version)
    | _ => rfl
  | _ => rfl

theorem inherits_iff {entries : Toml.Table}
    (h : package.require packageKeys = .ok (.table entries)) :
    Inherits package.table ↔ isInherited entries = true := by
  rw [isInherited_iff]
  constructor
  · rintro ⟨entries', h', hw⟩
    obtain rfl := Toml.Value.table.inj ((Manifest.require_eq_ok_iff.1 h).unique h')
    exact hw
  · exact fun hw => ⟨entries, Manifest.require_eq_ok_iff.1 h, hw⟩

/-- **A package that does not inherit its version speaks for itself**, and its workspace is not
looked at. -/
theorem ofPackage_of_not_inherits (h : ¬Inherits package.table) (workspace : Manifest) :
    ofPackage package workspace = .of (own package) := by
  rw [ofPackage, own]
  rcases hr : package.require packageKeys with e | v
  · rfl
  · cases v with
    | scalar s => cases s <;> rfl
    | array items => rfl
    | table entries =>
      rw [inherits_iff hr] at h
      simp only [h]
      rfl

/-! ### Packages that inherit -/

/-- **A package that inherits its version leaves it to the workspace**, and tells so. -/
theorem ofPackage_of_inherits (h : Inherits package.table) (workspace : Manifest) :
    ofPackage package workspace =
      ⟨[.inheritedVersion package.path], ofWorkspace workspace⟩ := by
  obtain ⟨entries, hold, hw⟩ := h
  rw [ofPackage, Manifest.require_eq_ok_iff.2 hold]
  simp only [isInherited_iff.2 hw]
  rfl

/-- A workspace that lends no version fails by a look-up or by a value that is no string. -/
theorem ofWorkspace_eq_error_iff_stopsAt : ofWorkspace workspace = .error e ↔
    (∃ q, workspace.StopsAt workspaceKeys q e) ∨
      (∃ v, Holds workspace.table workspaceKeys v ∧ ∀ version, v ≠ .scalar (.string version)) ∧
        e = .invalidField workspace.path workspaceKeys .string := by
  have hk : workspaceKeys ≠ [] := List.cons_ne_nil _ _
  rw [ofWorkspace]
  simp only [← Manifest.require_eq_ok_iff, ← Manifest.require_eq_error_iff hk]
  split
  · next version h => simp [h]
  · next v hv h =>
    have hex : ∃ w, workspace.require workspaceKeys = .ok w ∧
        ∀ version, w ≠ .scalar (.string version) := ⟨v, h, hv⟩
    rw [and_iff_right hex, h, Except.error.injEq, eq_comm]
    simp
  · next e' h => simp [h]

/-- An error of a workspace names that workspace. -/
theorem path_eq_of_ofWorkspace (h : ofWorkspace workspace = .error e) : e.path = workspace.path :=
  (ofWorkspace_eq_error_iff.1 h).warrants.path_eq

/-- **The workspace is consulted only if the version is inherited, and the right manifest is
blamed.** A package that does not inherit its version comes to the same in all workspaces: the
string that it states, the error of its own look-up, or else an error about the field of the
version, with the path of the package. A package that inherits its version comes to the same as
every other that does: the string that the workspace lends, or an error with the path of the
workspace. That is the error of a look-up, about the shortest prefix that stops it, or one about
the whole field, whose value is no string. -/
theorem workspace_only_if_inherited (package : Manifest) :
    (¬Inherits package.table →
      (∀ workspace workspace', ofPackage package workspace = ofPackage package workspace') ∧
      ∀ workspace,
        (∀ version, Holds package.table packageKeys (.scalar (.string version)) →
          (ofPackage package workspace).outcome = .ok version) ∧
        (∀ e, package.require packageKeys = .error e →
          (ofPackage package workspace).outcome = .error e) ∧
        ∀ v, Holds package.table packageKeys v → (∀ version, v ≠ .scalar (.string version)) →
          (ofPackage package workspace).outcome =
            .error (.invalidField package.path packageKeys .stringOrInherited)) ∧
    (Inherits package.table →
      (∀ package' workspace, Inherits package'.table →
        (ofPackage package workspace).outcome = (ofPackage package' workspace).outcome) ∧
      ∀ workspace,
        (∀ version, (ofPackage package workspace).outcome = .ok version ↔
          Holds workspace.table workspaceKeys (.scalar (.string version))) ∧
        (∀ e, (ofPackage package workspace).outcome = .error e → e.path = workspace.path) ∧
        ∀ e, (ofPackage package workspace).outcome = .error e ↔
          (∃ q, workspace.StopsAt workspaceKeys q e) ∨
            (∃ v, Holds workspace.table workspaceKeys v ∧
              ∀ version, v ≠ .scalar (.string version)) ∧
            e = .invalidField workspace.path workspaceKeys .string) := by
  constructor
  · intro h
    have hown := ofPackage_of_not_inherits h
    refine ⟨fun w w' => (hown w).trans (hown w').symm, fun w => ?_⟩
    rw [hown w, Traced.outcome_of]
    exact ⟨fun version => own_of_string, fun e => own_of_error, fun v => own_of_not_string⟩
  · intro h
    refine ⟨fun package' w h' => ?_, fun w => ?_⟩
    · rw [ofPackage_of_inherits h, ofPackage_of_inherits h']
    · rw [ofPackage_of_inherits h]
      exact ⟨fun version => ofWorkspace_eq_ok_iff, fun e => path_eq_of_ofWorkspace,
        fun e => ofWorkspace_eq_error_iff_stopsAt⟩

/-- A package whose version is a table with the given value under `workspace`. -/
def askingPackage (path : Path) (asked : Toml.Scalar) : Manifest :=
  ⟨path, [("package", .table [("version", .table [("workspace", .scalar asked)])])]⟩

/-- A workspace that has a table for what its packages share, with the given version in it. -/
def sharingWorkspace (version : Toml.Value) : Manifest :=
  ⟨.ofString "ws/Cargo.toml",
    [("workspace", .table [("package", .table [("version", version)])])]⟩

/-- The string `true` does not ask for the version of the workspace, whatever that is. Where it
is a number, two packages that do ask for it have the same error. -/
theorem ofPackage_askingPackage :
    ofPackage (askingPackage (.ofString "a") (.string "true"))
        (sharingWorkspace (.scalar (.string "7"))) =
      ofPackage (askingPackage (.ofString "a") (.string "true")) ⟨.ofString "b", []⟩ ∧
    (ofPackage (askingPackage (.ofString "a") (.boolean true))
        (sharingWorkspace (.scalar (.integer 7)))).outcome =
      (ofPackage (askingPackage (.ofString "b") (.boolean true))
        (sharingWorkspace (.scalar (.integer 7)))).outcome ∧
    (ofPackage (askingPackage (.ofString "a") (.boolean true))
        (sharingWorkspace (.scalar (.integer 7)))).outcome =
      .error (.invalidField (.ofString "ws/Cargo.toml") workspaceKeys .string) := by
  have hstring : ¬Inherits (askingPackage (.ofString "a") (.string "true")).table :=
    fun h => absurd ((inherits_iff rfl).1 h) (by decide)
  have htrue : ∀ path, Inherits (askingPackage path (.boolean true)).table :=
    fun path => (inherits_iff rfl).2 rfl
  obtain ⟨same, fails⟩ := (workspace_only_if_inherited _).2 (htrue (.ofString "a"))
  refine ⟨((workspace_only_if_inherited _).1 hstring).1 _ _, same _ _ (htrue _), ?_⟩
  refine ((fails _).2.2 _).2 (.inr ⟨⟨.scalar (.integer 7), ?_, nofun⟩, rfl⟩)
  exact Manifest.require_eq_ok_iff.1 rfl

end Version

end WorkspaceFacts
