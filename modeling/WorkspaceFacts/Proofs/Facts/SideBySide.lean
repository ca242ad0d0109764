import WorkspaceFacts.Proofs.Outcome
import WorkspaceFacts.Report

/-!
# Two workspaces side by side

What two workspaces must have in common for their reports to be the same. Two manifests are
**twins** if they hold the same document, at paths that correspond
(`WorkspaceFacts.Manifest.Twin`). Whatever is asked of twins has the same answer or fails by
the same error, but for the path that the error names, and so it goes on through all the
work up to the report (`WorkspaceFacts.Report.collect_alike`): a path is put into errors and
into events, and nothing else is ever made of it.

Which paths correspond and which errors count as the same is left open. All that is asked is
that an error counts as itself with a corresponding path in it
(`WorkspaceFacts.ManifestError.Admits`).
-/

namespace WorkspaceFacts

/-! ### Errors at another path -/

namespace ManifestError

/-- The same error, of the manifest at another path. -/
def withPath (path : Path) : ManifestError → ManifestError
  | .read _ cause => .read path cause
  | .encoding _ fault => .encoding path fault
  | .parse _ => .parse path
  | .missingField _ keys => .missingField path keys
  | .invalidField _ keys expected => .invalidField path keys expected

theorem withPath_path (e : ManifestError) : e.withPath e.path = e := by
  cases e <;> rfl

theorem path_withPath (path : Path) (e : ManifestError) : (e.withPath path).path = path := by
  cases e <;> rfl

/-- A relation on errors admits a correspondence of paths: an error counts as itself at a
corresponding path. -/
def Admits (E : ManifestError → ManifestError → Prop) (R : Path → Path → Prop) : Prop :=
  ∀ e path, R e.path path → E e (e.withPath path)

end ManifestError

/-! ### Outcomes that are alike -/

section Alike

variable {α β γ δ : Type} {E : ManifestError → ManifestError → Prop}

/-- **Two outcomes are alike**: both are results, which are related by `S`, or both are
errors, which are related by `E`. -/
inductive Alike (E : ManifestError → ManifestError → Prop) (S : α → β → Prop) :
    Except ManifestError α → Except ManifestError β → Prop
  | ok {a : α} {b : β} (h : S a b) : Alike E S (.ok a) (.ok b)
  | error {e e' : ManifestError} (h : E e e') : Alike E S (.error e) (.error e')

/-- What is alike to a result is that result. -/
theorem Alike.eq_ok {a : α} {outcome outcome' : Except ManifestError α}
    (h : Alike E Eq outcome outcome') (ha : outcome = .ok a) : outcome' = .ok a := by
  subst ha
  cases h with
  | ok heq => rw [heq]

namespace Traced

variable {S : α → β → Prop} {T : γ → δ → Prop}

/-- Work that goes on alike after outcomes that are alike has outcomes that are alike. -/
theorem alike_bind {work : Traced α} {work' : Traced β} {next : α → Traced γ}
    {next' : β → Traced δ} (h : Alike E S work.outcome work'.outcome)
    (hn : ∀ a b, S a b → Alike E T (next a).outcome (next' b).outcome) :
    Alike E T (work >>= next).outcome (work' >>= next').outcome := by
  rw [outcome_bind, outcome_bind]
  generalize work.outcome = outcome at h
  generalize work'.outcome = outcome' at h
  cases h with
  | ok h => exact hn _ _ h
  | error h => exact .error h

/-- Work on the items of two lists is alike if it is alike item by item. -/
theorem alike_each {work : α → Traced γ} {work' : β → Traced δ} {as : List α} {bs : List β}
    (h : List.Forall₂ (fun a b => Alike E T (work a).outcome (work' b).outcome) as bs) :
    Alike E (List.Forall₂ T) (each work as).outcome (each work' bs).outcome := by
  induction h with
  | nil => exact .ok .nil
  | cons hab _ ih =>
    refine alike_bind hab fun c d hcd => alike_bind ih fun cs ds hcds => ?_
    exact .ok (.cons hcd hcds)

end Traced

end Alike

/-! ### Twins -/

variable {E : ManifestError → ManifestError → Prop} {R : Path → Path → Prop}

/-- **Twins**: two manifests with the same document, at paths that correspond. -/
structure Manifest.Twin (R : Path → Path → Prop) (m m' : Manifest) : Prop where
  path : R m.path m'.path
  table : m.table = m'.table

namespace Manifest

variable {m m' : Manifest}

/-- The faults of a look-up in twins become errors that count as the same. -/
theorem Twin.errorOf (h : Twin R m m') (hE : ManifestError.Admits E R)
    (fault : Toml.Table.LookupFault) : E (m.errorOf fault) (m'.errorOf fault) := by
  cases fault with
  | missing keys => exact hE (.missingField m.path keys) m'.path h.path
  | notTable keys => exact hE (.invalidField m.path keys .table) m'.path h.path

theorem Twin.require (h : Twin R m m') (hE : ManifestError.Admits E R) (keys : List String) :
    Alike E Eq (m.require keys) (m'.require keys) := by
  rw [Manifest.require, Manifest.require, h.table]
  cases Toml.Table.find keys m'.table with
  | ok value => exact .ok rfl
  | error fault => exact .error (h.errorOf hE fault)

theorem Twin.requireTable (h : Twin R m m') (hE : ManifestError.Admits E R)
    (keys : List String) : Alike E Eq (m.requireTable keys) (m'.requireTable keys) := by
  have hshape : E (.invalidField m.path keys .table) (.invalidField m'.path keys .table) :=
    hE _ m'.path h.path
  have hr := h.require hE keys
  rw [Manifest.requireTable, Manifest.requireTable]
  generalize m.require keys = found at hr
  generalize m'.require keys = found' at hr
  cases hr with
  | error he => exact .error he
  | @ok value _ heq =>
    subst heq
    cases value with
    | table entries => exact .ok rfl
    | scalar s => exact .error hshape
    | array items => exact .error hshape

theorem ofBytes_alike {path path' : Path} (hE : ManifestError.Admits E R) (h : R path path')
    (bytes : Bytes) : Alike E (Twin R) (ofBytes path bytes) (ofBytes path' bytes) := by
  rw [ofBytes, ofBytes]
  cases Utf8.decode bytes with
  | error fault => exact .error (hE (.encoding path fault) path' h)
  | ok text =>
    dsimp only
    rw [parse, parse]
    cases Toml.Document.parse? (String.ofList text) with
    | none => exact .error (hE (.parse path) path' h)
    | some table => exact .ok ⟨h, rfl⟩

/-- Files that are read alike are loaded alike. -/
theorem load_alike {files files' : Files} {path path' : Path} (hE : ManifestError.Admits E R)
    (h : R path path') (hfiles : files path = files' path') :
    Alike E (Twin R) (load files path).outcome (load files' path').outcome := by
  rw [load, load, hfiles]
  cases files' path' with
  | error cause => exact .error (hE (.read path cause) path' h)
  | ok bytes => exact Traced.alike_bind (.ok rfl) fun _ _ _ => ofBytes_alike hE h bytes

end Manifest

/-! ### Versions -/

namespace Version

variable {package package' workspace workspace' : Manifest}

theorem ofWorkspace_alike (hE : ManifestError.Admits E R) (h : workspace.Twin R workspace') :
    Alike E Eq (ofWorkspace workspace) (ofWorkspace workspace') := by
  have hshape : E (.invalidField workspace.path workspaceKeys .string)
      (.invalidField workspace'.path workspaceKeys .string) := hE _ workspace'.path h.path
  have hr := h.require hE workspaceKeys
  rw [ofWorkspace, ofWorkspace]
  generalize workspace.require workspaceKeys = found at hr
  generalize workspace'.require workspaceKeys = found' at hr
  cases hr with
  | error he => exact .error he
  | @ok value _ heq =>
    subst heq
    split
    · exact .ok rfl
    · exact .error hshape
    · next heq => cases heq

/-- The version of a package is looked up alike among twins. -/
theorem ofPackage_alike (hE : ManifestError.Admits E R) (hp : package.Twin R package')
    (hw : workspace.Twin R workspace') :
    Alike E Eq (ofPackage package workspace).outcome (ofPackage package' workspace').outcome := by
  have hshape : E (.invalidField package.path packageKeys .stringOrInherited)
      (.invalidField package'.path packageKeys .stringOrInherited) := hE _ package'.path hp.path
  have hr := hp.require hE packageKeys
  rw [ofPackage, ofPackage]
  generalize package.require packageKeys = found at hr
  generalize package'.require packageKeys = found' at hr
  cases hr with
  | error he => exact .error he
  | @ok value _ heq =>
    subst heq
    split
    · exact .ok rfl
    · split
      · exact Traced.alike_bind (.ok rfl) fun _ _ _ => ofWorkspace_alike hE hw
      · exact .error hshape
    · exact .error hshape
    · next heq => cases heq

end Version

/-! ### Lints -/

namespace Lint

variable {workspace workspace' : Manifest}

theorem levelOf_alike (hE : ManifestError.Admits E R) (h : workspace.Twin R workspace')
    (group rule : String) (value : Toml.Value) :
    Alike E Eq (levelOf workspace group rule value) (levelOf workspace' group rule value) := by
  unfold levelOf
  split
  · exact .ok rfl
  · split
    · exact .ok rfl
    · exact .ok rfl
    · exact .error (hE (.missingField workspace.path _) workspace'.path h.path)
  · exact .ok rfl

theorem scan_alike (hE : ManifestError.Admits E R) (h : workspace.Twin R workspace')
    (group : String) (entries : List (String × Toml.Value)) :
    Alike E Eq (scan workspace group entries).outcome (scan workspace' group entries).outcome := by
  induction entries with
  | nil => exact .ok rfl
  | cons entry entries ih =>
    obtain ⟨rule, value⟩ := entry
    refine Traced.alike_bind (levelOf_alike hE h group rule value) fun level _ heq => ?_
    subst heq
    split
    · refine Traced.alike_bind (.ok rfl) fun _ _ _ => Traced.alike_bind ih fun lints _ heq => ?_
      exact .ok (heq ▸ rfl)
    · exact Traced.alike_bind (.ok rfl) fun _ _ _ => ih

/-- The disabled lints are looked up alike in twins. -/
theorem disabled_alike (hE : ManifestError.Admits E R) (h : workspace.Twin R workspace') :
    Alike E Eq (disabled workspace).outcome (disabled workspace').outcome := by
  have hgroups : Alike E (List.Forall₂ Eq) (Traced.each (ofGroup workspace) groups).outcome
      (Traced.each (ofGroup workspace') groups).outcome := by
    refine Traced.alike_each (List.forall₂_same.2 fun group _ => ?_)
    refine Traced.alike_bind (h.requireTable hE (groupKeys group)) fun entries _ heq => ?_
    exact heq ▸ scan_alike hE h group entries
  refine Traced.alike_bind hgroups fun perGroup perGroup' heq => ?_
  rw [List.forall₂_eq_eq_eq] at heq
  exact .ok (congrArg List.flatten heq)

end Lint

/-! ### Reports -/

namespace Report

/-- Reports on twins are alike. -/
theorem ofManifests_alike {workspace workspace' : Manifest}
    {packages packages' : List (String × Manifest)} (hE : ManifestError.Admits E R)
    (hw : workspace.Twin R workspace')
    (hp : List.Forall₂ (fun p p' => p.1 = p'.1 ∧ p.2.Twin R p'.2) packages packages') :
    Alike E Eq (ofManifests workspace packages).outcome
      (ofManifests workspace' packages').outcome := by
  refine Traced.alike_bind (S := List.Forall₂ Eq) (Traced.alike_each (hp.imp ?_))
    fun versions versions' hversions => ?_
  · rintro ⟨name, package⟩ ⟨name', package'⟩ ⟨hname, ht⟩
    obtain rfl : name = name' := hname
    refine Traced.alike_bind (Version.ofPackage_alike hE ht hw) fun version _ heq => ?_
    exact .ok (heq ▸ rfl)
  · rw [List.forall₂_eq_eq_eq] at hversions
    refine Traced.alike_bind (Lint.disabled_alike hE hw) fun lints lints' hlints => ?_
    exact .ok (by rw [hversions, hlints])

/-- **Reports on two workspaces are alike** if the loading of their manifests is, one after
the other. -/
theorem collect_alike {files files' : Files} {layout layout' : Layout}
    (hE : ManifestError.Admits E R)
    (h : List.Forall₂ (fun path path' => Alike E (Manifest.Twin R)
      (Manifest.load files path).outcome (Manifest.load files' path').outcome)
      layout.manifests layout'.manifests) :
    Alike E Eq (collect files layout).outcome (collect files' layout').outcome := by
  obtain ⟨hworkspace, hpackages⟩ := List.forall₂_cons.1 h
  rw [List.forall₂_map_left_iff, List.forall₂_map_right_iff] at hpackages
  refine Traced.alike_bind (.ok rfl) fun _ _ _ => Traced.alike_bind hworkspace
    fun workspace workspace' hw => ?_
  refine Traced.alike_bind (Traced.alike_each
    (List.forall₂_same.2 fun package hmem => ?_)) fun packages packages' hp =>
      ofManifests_alike hE hw hp
  refine Traced.alike_bind (List.forall₂_same.1 hpackages package hmem)
    fun manifest manifest' ht => ?_
  exact .ok ⟨rfl, ht⟩

end Report

end WorkspaceFacts
