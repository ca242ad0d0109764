import WorkspaceFacts.Proofs.Facts.Reports
import WorkspaceFacts.Proofs.Toml.Distinct

/-!
# Why a fact cannot be had

For every fact there is one error at most, and this file says which: that a manifest refuses
a field of a shape (`WorkspaceFacts.Manifest.Refuses`), that a package has no version
(`WorkspaceFacts.Version.Fault`), that the levels of the lints are not set
(`WorkspaceFacts.Lint.Fault`), that a file does not provide a document
(`WorkspaceFacts.Files.Refuses`). None of them speaks of the order in which anything is done,
but for the rules and the groups of lints, where the first one that is at fault is named.

Every such error is true of the manifest that it names (`WorkspaceFacts.Manifest.Warrants`):
what it calls missing is missing, with tables all the way down to it, and what it calls
invalid is there, with another shape. For a rule without a level this needs that no rule is
set twice, as otherwise the path in the error could lead to another one.
-/

namespace WorkspaceFacts

open Toml.Table (Holds Lacks FailsBy)

/-! ### Fields -/

/-- The value has the shape that a field is asked to have. -/
def Shape.Matches : Shape → Toml.Value → Prop
  | .table, v => ∃ entries, v = .table entries
  | .string, v => ∃ text, v = .scalar (.string text)
  | .stringOrInherited, v => (∃ text, v = .scalar (.string text)) ∨
      ∃ entries, v = .table entries ∧
        Entries.get? entries "workspace" = some (.scalar (.boolean true))

namespace Manifest

variable {m : Manifest} {keys : List String} {shape : Shape} {e : ManifestError}

/-- **A manifest refuses a field of a shape** by an error: the look-up of the field fails, or
what it finds has another shape. -/
inductive Refuses (m : Manifest) (keys : List String) (shape : Shape) : ManifestError → Prop
  | lookup {fault : Toml.Table.LookupFault} (h : FailsBy m.table keys fault) :
      Refuses m keys shape (m.errorOf fault)
  | shape {v : Toml.Value} (h : Holds m.table keys v) (hv : ¬shape.Matches v) :
      Refuses m keys shape (.invalidField m.path keys shape)

/-- **The error is true of the manifest**: it names a path where there is no entry, with
tables all the way, or one where there is an entry that does not have the shape. -/
inductive Warrants (m : Manifest) : ManifestError → Prop
  | missingField {keys : List String} (h : Lacks m.table keys) :
      Warrants m (.missingField m.path keys)
  | invalidField {keys : List String} {shape : Shape} {v : Toml.Value}
      (h : Holds m.table keys v) (hv : ¬shape.Matches v) :
      Warrants m (.invalidField m.path keys shape)

theorem Refuses.warrants (h : m.Refuses keys shape e) : m.Warrants e := by
  rcases h with ⟨⟨hq, h⟩ | ⟨hq, hne, h, hv⟩⟩ | ⟨h, hv⟩
  · exact .missingField h
  · refine .invalidField h ?_
    rintro ⟨entries, rfl⟩
    exact hv entries rfl
  · exact .invalidField h hv

theorem Warrants.path_eq (h : m.Warrants e) : e.path = m.path := by
  cases h <;> rfl

/-- Where the look-up succeeds, only the shape can be refused. -/
theorem refuses_iff_of_ok {v : Toml.Value} (h : m.require keys = .ok v) :
    m.Refuses keys shape e ↔ ¬shape.Matches v ∧ e = .invalidField m.path keys shape := by
  have hold := require_eq_ok_iff.1 h
  constructor
  · rintro (h | ⟨h, hv⟩)
    · exact absurd hold h.not_holds
    · exact ⟨hold.unique h ▸ hv, rfl⟩
  · rintro ⟨hv, rfl⟩
    exact .shape hold hv

/-- Where the look-up fails, its error is the one. -/
theorem refuses_iff_of_error {e' : ManifestError} (hk : keys ≠ [])
    (h : m.require keys = .error e') : m.Refuses keys shape e ↔ e = e' := by
  obtain ⟨fault, hf, rfl⟩ := mapError_eq_error_iff.1 h
  rw [Toml.Table.find_eq_error_iff hk] at hf
  constructor
  · rintro (h | ⟨h, -⟩)
    · rw [h.unique hf]
    · exact absurd h hf.not_holds
  · rintro rfl
    exact .lookup hf

theorem requireTable_eq_error_iff (hk : keys ≠ []) :
    m.requireTable keys = .error e ↔ m.Refuses keys .table e := by
  rw [requireTable]
  split
  · next entries h => simp [refuses_iff_of_ok h, Shape.Matches]
  · next v hv h =>
    have hshape : ¬Shape.table.Matches v := by
      rintro ⟨entries, he⟩
      exact hv entries he
    rw [refuses_iff_of_ok h, Except.error.injEq, eq_comm, and_iff_right hshape]
  · next e' h => rw [refuses_iff_of_error hk h, Except.error.injEq, eq_comm]

end Manifest

/-! ### Versions -/

namespace Version

variable {package workspace : Manifest} {e : ManifestError}

/-- **A package has no version** in a workspace, by an error: the package refuses it, or
leaves it to the workspace and that refuses it. -/
def Fault (package workspace : Manifest) (e : ManifestError) : Prop :=
  package.Refuses packageKeys .stringOrInherited e ∨
    Inherits package.table ∧ workspace.Refuses workspaceKeys .string e

theorem ofWorkspace_eq_error_iff :
    ofWorkspace workspace = .error e ↔ workspace.Refuses workspaceKeys .string e := by
  have hk : workspaceKeys ≠ [] := List.cons_ne_nil _ _
  rw [ofWorkspace]
  split
  · next version h => simp [Manifest.refuses_iff_of_ok h, Shape.Matches]
  · next v hv h =>
    have hshape : ¬Shape.string.Matches v := by
      rintro ⟨text, he⟩
      exact hv text he
    rw [Manifest.refuses_iff_of_ok h, Except.error.injEq, eq_comm, and_iff_right hshape]
  · next e' h => rw [Manifest.refuses_iff_of_error hk h, Except.error.injEq, eq_comm]

/-- **The error of a package without a version is the one that it has.** -/
theorem outcome_ofPackage_eq_error_iff :
    (ofPackage package workspace).outcome = .error e ↔ Fault package workspace e := by
  have hk : packageKeys ≠ [] := List.cons_ne_nil _ _
  have inherited : Inherits package.table ↔ ∃ entries,
      package.require packageKeys = .ok (.table entries) ∧ isInherited entries = true := by
    simp only [Inherits, Manifest.require_eq_ok_iff, isInherited_iff]
  rw [Fault, inherited, ofPackage]
  split
  · next v h => simp [h, Manifest.refuses_iff_of_ok h, Shape.Matches]
  · next entries h =>
    rw [h, Manifest.refuses_iff_of_ok h]
    split
    · next hi =>
      rw [Traced.outcome_tell_bind, Traced.outcome_of, ofWorkspace_eq_error_iff]
      simp [hi, Shape.Matches, isInherited_iff.1 hi]
    · next hi =>
      have hshape : ¬Shape.stringOrInherited.Matches (.table entries) := by
        rintro (⟨text, he⟩ | ⟨_, ⟨⟩, hw⟩)
        · cases he
        · exact hi (isInherited_iff.2 hw)
      rw [Traced.outcome_of, Except.error.injEq, eq_comm, and_iff_right hshape]
      refine (or_iff_left ?_).symm
      rintro ⟨⟨_, ⟨⟩, hw⟩, -⟩
      exact hi hw
  · next v hs ht h =>
    have hshape : ¬Shape.stringOrInherited.Matches v := by
      rintro (⟨text, rfl⟩ | ⟨entries, rfl, -⟩)
      · exact hs text rfl
      · exact ht entries rfl
    rw [Traced.outcome_of, Except.error.injEq, eq_comm, h, Manifest.refuses_iff_of_ok h,
      and_iff_right hshape]
    refine (or_iff_left ?_).symm
    rintro ⟨⟨entries, he, -⟩, -⟩
    exact ht entries (Except.ok.inj he)
  · next e' h =>
    rw [Traced.outcome_of, Except.error.injEq, eq_comm, h, Manifest.refuses_iff_of_error hk h]
    refine (or_iff_left ?_).symm
    rintro ⟨⟨entries, he, -⟩, -⟩
    cases he

/-- A version that cannot be had is blamed on the package or on the workspace, truly. -/
theorem Fault.warrants (h : Fault package workspace e) :
    package.Warrants e ∨ workspace.Warrants e :=
  h.imp Manifest.Refuses.warrants fun h => h.2.warrants

end Version

/-! ### Lints -/

namespace Lint

variable {workspace : Manifest} {group : String} {e : ManifestError}

/-- Where a rule without a level would have it. -/
def levelKeys (group rule : String) : List String := groupKeys group ++ [rule, "level"]

/-- **The levels of a group are not set**, by an error: the workspace refuses the table of the
group, or a rule in that table has no level. -/
inductive GroupFault (workspace : Manifest) (group : String) : ManifestError → Prop
  | refused {e : ManifestError} (h : workspace.Refuses (groupKeys group) .table e) :
      GroupFault workspace group e
  | level {entries : Toml.Table} {rule : String}
      (h : Holds workspace.table (groupKeys group) (.table entries))
      (hr : First (HasLevel ·.2) (fun entry => entry.1 = rule ∧ ¬HasLevel entry.2) entries) :
      GroupFault workspace group (.missingField workspace.path (levelKeys group rule))

/-- **The levels of the lints are not set**, by the error of the first group of which that is
so. -/
def Fault (workspace : Manifest) (e : ManifestError) : Prop :=
  First (fun group => ∃ entries, Sets workspace.table group entries)
    (fun group => GroupFault workspace group e) groups

theorem not_hasLevel_iff {value : Toml.Value} :
    ¬HasLevel value ↔ ∃ inner, value = .table inner ∧ Entries.get? inner "level" = none := by
  simp only [HasLevel, not_forall, exists_prop, Option.eq_none_iff_forall_ne_some, not_exists]

/-- A rule that has a level leaves the error to the rules after it. -/
theorem outcome_scan_cons_of_hasLevel {rule : String} {value : Toml.Value} {entries : Toml.Table}
    (hv : HasLevel value) : (scan workspace group ((rule, value) :: entries)).outcome = .error e ↔
      (scan workspace group entries).outcome = .error e := by
  obtain ⟨level, hl, -⟩ := exists_levelOf workspace group rule hv
  rw [scan, Traced.outcome_of_bind, hl, Except.bind]
  split
  · rw [Traced.outcome_tell_bind, Traced.outcome_bind_eq_error_iff]
    refine or_iff_left ?_
    rintro ⟨lints, -, h⟩
    cases h
  · rw [Traced.outcome_tell_bind]

/-- **The entries of a group fail by the first rule without a level.** -/
theorem outcome_scan_eq_error_iff {entries : Toml.Table} :
    (scan workspace group entries).outcome = .error e ↔
      ∃ rule, First (HasLevel ·.2) (fun entry => entry.1 = rule ∧ ¬HasLevel entry.2) entries ∧
        e = .missingField workspace.path (levelKeys group rule) := by
  induction entries with
  | nil =>
    refine iff_of_false nofun ?_
    rintro ⟨rule, h, -⟩
    exact not_first_nil h
  | cons entry entries ih =>
    obtain ⟨rule, value⟩ := entry
    by_cases hv : HasLevel value
    · rw [outcome_scan_cons_of_hasLevel hv, ih]
      simp only [first_cons, hv, not_true, and_false, true_and, false_or]
    · have hscan : (scan workspace group ((rule, value) :: entries)).outcome =
          .error (.missingField workspace.path (levelKeys group rule)) := by
        rw [scan, Traced.outcome_of_bind, levelOf_eq_error workspace group rule hv]
        rfl
      rw [hscan, Except.error.injEq, eq_comm]
      simp only [first_cons, hv, not_false_eq_true, and_true, false_and, or_false,
        exists_eq_left']

/-- **A group whose levels are not set fails by the error that it has.** -/
theorem outcome_ofGroup_eq_error_iff :
    (ofGroup workspace group).outcome = .error e ↔ GroupFault workspace group e := by
  have hk : groupKeys group ≠ [] := List.cons_ne_nil _ _
  rw [ofGroup, Traced.outcome_bind_eq_error_iff, Traced.outcome_of,
    Manifest.requireTable_eq_error_iff hk]
  simp only [Manifest.requireTable_eq_ok_iff, outcome_scan_eq_error_iff]
  constructor
  · rintro (h | ⟨entries, h, rule, hr, rfl⟩)
    · exact .refused h
    · exact .level h hr
  · rintro (h | ⟨h, hr⟩)
    · exact .inl h
    · exact .inr ⟨_, h, _, hr, rfl⟩

/-- **The lints of a workspace fail by the first group whose levels are not set.** -/
theorem outcome_disabled_eq_error_iff :
    (disabled workspace).outcome = .error e ↔ Fault workspace e := by
  have set : ∀ g, (∃ lints, (ofGroup workspace g).outcome = .ok lints) ↔
      ∃ entries, Sets workspace.table g entries := by
    intro g
    simp only [outcome_ofGroup_eq_ok_iff]
    constructor
    · rintro ⟨_, entries, h, -⟩
      exact ⟨entries, h⟩
    · rintro ⟨entries, h⟩
      exact ⟨_, entries, h, rfl⟩
  rw [disabled, Traced.outcome_bind_eq_error_iff]
  simp only [Traced.outcome_each_eq_error_iff, outcome_ofGroup_eq_error_iff, set, Fault]
  refine or_iff_left ?_
  rintro ⟨perGroup, -, h⟩
  cases h

/-- What is said of a workspace whose levels are not set is true of it, if no key of its table
is held twice. -/
theorem GroupFault.warrants (h : GroupFault workspace group e)
    (hd : (Toml.Value.table workspace.table).Distinct) : workspace.Warrants e := by
  rcases h with h | ⟨h, hr⟩
  · exact h.warrants
  · next entries _ =>
    obtain ⟨before, ⟨rule, value⟩, after, he, -, rfl, hv⟩ := hr
    obtain ⟨inner, rfl, hl⟩ := not_hasLevel_iff.1 hv
    have hg : Entries.get? entries rule = some (.table inner) :=
      Entries.get?_of_mem (h.distinct hd).nodup (by simp [he])
    exact .missingField (((Toml.Table.lacks_singleton hl).below hg).append h)

theorem Fault.warrants (h : Fault workspace e)
    (hd : (Toml.Value.table workspace.table).Distinct) : workspace.Warrants e := by
  obtain ⟨_, _, _, -, -, h⟩ := h
  exact GroupFault.warrants h hd

end Lint

/-! ### Files -/

/-- **The file at a path does not provide a document**, by an error: it cannot be read, its
bytes are no text, or its text is no document. -/
inductive Files.Refuses (files : Files) (path : Path) : ManifestError → Prop
  | read {cause : ReadError} (h : files path = .error cause) : Refuses files path (.read path cause)
  | encoding {bytes : Bytes} {fault : Utf8.Fault} (h : files path = .ok bytes)
      (hd : Utf8.decode bytes = .error fault) : Refuses files path (.encoding path fault)
  | parse {text : String} (h : files path = .ok (Utf8.encode text))
      (hp : Toml.Document.parse? text = none) : Refuses files path (.parse path)

theorem Manifest.parse_eq_error_iff {path : Path} {text : String} {e : ManifestError} :
    parse path text = .error e ↔ Toml.Document.parse? text = none ∧ e = .parse path := by
  rw [parse]
  split
  · next table h => simp [h]
  · next h => rw [h, Except.error.injEq, eq_comm, and_iff_right rfl]

theorem Manifest.ofBytes_encode (path : Path) (text : String) :
    ofBytes path (Utf8.encode text) = parse path text := by
  rw [ofBytes, Utf8.encode, Utf8.decode_eq_ok_iff.2 rfl]
  dsimp only
  rw [String.ofList_toList]

/-- Bytes that encode no text have a place where they do not. -/
theorem Manifest.exists_ofBytes_eq_encoding (path : Path) {bytes : Bytes}
    (hb : ∀ text, bytes ≠ Utf8.encode text) :
    ∃ fault, ofBytes path bytes = .error (.encoding path fault) := by
  rcases h : Utf8.decode bytes with fault | cs
  · exact ⟨fault, by rw [ofBytes, h]⟩
  · refine absurd ?_ (hb (String.ofList cs))
    rw [Utf8.encode, String.toList_ofList]
    exact Utf8.decode_eq_ok_iff.1 h

theorem Manifest.ofBytes_eq_error_iff {path : Path} {bytes : Bytes} {e : ManifestError} :
    ofBytes path bytes = .error e ↔
      (∃ fault, Utf8.decode bytes = .error fault ∧ e = .encoding path fault) ∨
        ∃ text, bytes = Utf8.encode text ∧ Toml.Document.parse? text = none ∧ e = .parse path := by
  rcases h : Utf8.decode bytes with fault | cs
  · have htext : ∀ text, bytes ≠ Utf8.encode text := fun text hb => by
      rw [Utf8.decode_eq_ok_iff.2 hb] at h
      cases h
    rw [ofBytes, h]
    simp [htext, eq_comm]
  · obtain rfl : bytes = Utf8.encode (String.ofList cs) := by
      rw [Utf8.encode, String.toList_ofList]
      exact Utf8.decode_eq_ok_iff.1 h
    rw [ofBytes_encode, parse_eq_error_iff]
    constructor
    · exact fun he => .inr ⟨_, rfl, he⟩
    · rintro (⟨fault, hf, -⟩ | ⟨text, ht, he⟩)
      · cases hf
      · rwa [Utf8.encode_injective ht]

/-- **A manifest fails to load by the error that its file has.** -/
theorem Manifest.outcome_load_eq_error_iff {files : Files} {path : Path} {e : ManifestError} :
    (load files path).outcome = .error e ↔ files.Refuses path e := by
  rw [load]
  split
  · next cause h =>
    rw [Traced.outcome_of, Except.error.injEq]
    constructor
    · rintro rfl
      exact .read h
    · rintro (h' | ⟨h', -⟩ | ⟨h', -⟩)
      all_goals
        rw [h] at h'
        cases h'
      rfl
  · next bytes h =>
    rw [Traced.outcome_tell_bind, Traced.outcome_of, ofBytes_eq_error_iff]
    constructor
    · rintro (⟨fault, hd, rfl⟩ | ⟨text, rfl, hp, rfl⟩)
      · exact .encoding h hd
      · exact .parse h hp
    · rintro (h' | ⟨h', hd⟩ | ⟨h', hp⟩)
      all_goals
        rw [h] at h'
        cases h'
      · exact .inl ⟨_, hd, rfl⟩
      · exact .inr ⟨_, rfl, hp, rfl⟩

end WorkspaceFacts
