import Mathlib.Data.List.Basic
import WorkspaceFacts.Proofs.Lookup

/-!
# Key paths in parts

A key path can be followed in one go or in parts: what a path leads to is what its second part
leads to in the table at the end of its first part, and a fault on the way is the same fault, with
the first part in front of its keys (`WorkspaceFacts.Toml.Table.find_append`).

Where following a path fails is told here without the walk, as the shortest prefix of the path at
which it cannot go on (`WorkspaceFacts.Toml.Table.ShortestStop`). The look-ups of a manifest say
both of their results and of their errors (`WorkspaceFacts.Manifest.require_composes`).
-/

namespace WorkspaceFacts

/-! ### The shortest prefix that fails -/

namespace Toml.Table

variable {entries : Table} {keys p q r : List String} {v : Value} {fault : LookupFault}

/-- A path cannot be followed past a prefix of it: there is no entry at the prefix, or one that
is no table although the path goes on. -/
def Stops (entries : Table) (keys q : List String) : Prop :=
  (∀ v, ¬Holds entries q v) ∨ q ≠ keys ∧ ∃ v, Holds entries q v ∧ ∀ inner, v ≠ .table inner

/-- **The shortest nonempty prefix at which a path cannot go on.** -/
structure ShortestStop (entries : Table) (keys q : List String) : Prop where
  ne_nil : q ≠ []
  within : q <+: keys
  stops : Stops entries keys q
  shortest : ∀ r, r ≠ [] → r <+: keys → Stops entries keys r → q.length ≤ r.length

/-- A path can go on where it has a table. -/
theorem Stops.not_hasTable (h : Stops entries keys r) (hr : r ≠ []) : ¬HasTable entries r := by
  rintro (hnil | ⟨inner, hold⟩)
  · exact hr hnil
  · rcases h with h | ⟨-, v, hv, hne⟩
    · exact h _ hold
    · exact hne inner (hv.unique hold)

/-- A proper prefix at which a path does not stop has a table. -/
theorem hasTable_of_not_stops (h : ¬Stops entries keys r) (hne : r ≠ keys) :
    HasTable entries r := by
  simp only [Stops, not_or, not_forall, not_not, not_and, not_exists] at h
  obtain ⟨⟨v, hv⟩, htable⟩ := h
  obtain ⟨inner, rfl⟩ := htable hne v hv
  exact .inr ⟨inner, hv⟩

/-- What stops a path is the shortest prefix that does if there are tables before it. -/
theorem shortestStop_of_tables (hne : q ≠ []) (hq : q <+: keys) (h : Stops entries keys q)
    (ht : ∀ r, r <+: q → r ≠ q → HasTable entries r) : ShortestStop entries keys q := by
  refine ⟨hne, hq, h, fun r hr hrk hs => Nat.not_lt.1 fun hlt => ?_⟩
  have hrq : r <+: q := List.prefix_of_prefix_length_le hrk hq (Nat.le_of_lt hlt)
  have hneq : r ≠ q := by
    rintro rfl
    exact Nat.lt_irrefl _ hlt
  exact hs.not_hasTable hr (ht r hrq hneq)

/-- There are tables before the shortest prefix that stops a path. -/
theorem ShortestStop.hasTable (h : ShortestStop entries keys q) (hr : r <+: q) (hne : r ≠ q) :
    HasTable entries r := by
  by_cases hnil : r = []
  · exact .inl hnil
  have hlt : r.length < q.length :=
    Nat.lt_of_le_of_ne hr.length_le fun he => hne (hr.eq_of_length he)
  have hgo : ¬Stops entries keys r := fun hs =>
    Nat.not_le.2 hlt (h.shortest r hnil (hr.trans h.within) hs)
  refine hasTable_of_not_stops hgo ?_
  rintro rfl
  exact Nat.not_le.2 hlt h.within.length_le

/-- **A look-up fails at the shortest prefix that stops it**: by a missing entry if there is
none, and otherwise by an entry that is no table. -/
theorem failsBy_iff : FailsBy entries keys fault ↔ ∃ q, ShortestStop entries keys q ∧
    ((∀ v, ¬Holds entries q v) ∧ fault = .missing q ∨
      (∃ v, Holds entries q v) ∧ fault = .notTable q) := by
  constructor
  · rintro (⟨hq, h⟩ | ⟨hq, hne, h, hv⟩)
    · exact ⟨_, shortestStop_of_tables h.ne_nil hq (.inl h.absent) h.tables,
        .inl ⟨h.absent, rfl⟩⟩
    · exact ⟨_, shortestStop_of_tables h.ne_nil hq (.inr ⟨hne, _, h, hv⟩) fun _ => h.hasTable,
        .inr ⟨⟨_, h⟩, rfl⟩⟩
  · rintro ⟨q, h, ⟨habsent, rfl⟩ | ⟨⟨v, hv⟩, rfl⟩⟩
    · exact .missing h.within ⟨h.ne_nil, fun _ => h.hasTable, habsent⟩
    · rcases h.stops with habsent | ⟨hne, w, hw, hnot⟩
      · exact absurd hv (habsent v)
      · exact .notTable h.within hne hw hnot

/-! ### Following a path in parts -/

/-- The fault as seen from a table above, from which a path leads to this one. -/
def LookupFault.under (above : List String) : LookupFault → LookupFault
  | .missing keys => .missing (above ++ keys)
  | .notTable keys => .notTable (above ++ keys)

theorem LookupFault.under_cons (key : String) (above : List String) (fault : LookupFault) :
    fault.under (key :: above) = (fault.under above).below key := by
  cases fault <;> rfl

theorem mapError_mapError {ε ε' ε'' α : Type} (x : Except ε α) (f : ε → ε') (g : ε' → ε'') :
    (x.mapError f).mapError g = x.mapError fun e => g (f e) := by
  cases x <;> rfl

/-- **A path is followed in parts**: its second part in the table at the end of the first. -/
theorem find_append (hp : p ≠ []) (hq : q ≠ []) : find (p ++ q) entries =
    match find p entries with
    | .ok (.table inner) => (find q inner).mapError (LookupFault.under p)
    | .ok _ => .error (.notTable p)
    | .error fault => .error fault := by
  obtain ⟨next, rest, rfl⟩ := List.exists_cons_of_ne_nil hq
  fun_induction find p entries with
  | case1 => exact absurd rfl hp
  | case2 key entries v hv =>
    rw [List.singleton_append, find, hv]
    cases v with
    | table inner =>
      dsimp only
      congr 1
    | _ => rfl
  | case3 key entries hv => rw [List.singleton_append, find, hv]
  | case4 key second keys entries inner hv ih =>
    rw [List.cons_append, List.cons_append, find, hv]
    dsimp only
    rw [← List.cons_append, ih (List.cons_ne_nil _ _)]
    rcases find (second :: keys) inner with fault | v
    · rfl
    · cases v with
      | table inner' =>
        refine (mapError_mapError _ _ _).trans ?_
        simp only [← LookupFault.under_cons]
        rfl
      | _ => rfl
  | case5 key second keys entries v hne hv =>
    rw [List.cons_append, List.cons_append, find, hv]
    cases v with
    | table inner => exact absurd rfl (hne inner)
    | _ => rfl
  | case6 key second keys entries hv => rw [List.cons_append, List.cons_append, find, hv]

end Toml.Table

/-! ### The look-ups of a manifest -/

namespace ManifestError

/-- The field that an error is about, as it is shown. -/
def field? : ManifestError → Option String
  | .missingField _ keys => some (field keys)
  | .invalidField _ keys _ => some (field keys)
  | _ => none

/-- The error as seen from a table above, from which a path leads to the one that it is about. -/
def under (above : List String) : ManifestError → ManifestError
  | .missingField path keys => .missingField path (above ++ keys)
  | .invalidField path keys expected => .invalidField path (above ++ keys) expected
  | e => e

end ManifestError

namespace Manifest

open Toml.Table (Holds ShortestStop)

variable {m : Manifest} {keys p q : List String} {e : ManifestError}

/-- The table that a value is, or an error if it is none. -/
def asTable (m : Manifest) (keys : List String) (v : Toml.Value) :
    Except ManifestError Toml.Table :=
  match v.table? with
  | some entries => .ok entries
  | none => .error (.invalidField m.path keys .table)

theorem requireTable_eq_bind (m : Manifest) (keys : List String) :
    m.requireTable keys = (m.require keys).bind (m.asTable keys) := by
  rw [requireTable]
  rcases m.require keys with e | v
  · rfl
  · cases v <;> rfl

theorem errorOf_under (m : Manifest) (above : List String) (fault : Toml.Table.LookupFault) :
    m.errorOf (fault.under above) = (m.errorOf fault).under above := by
  cases fault <;> rfl

theorem require_append (hp : p ≠ []) (hq : q ≠ []) : m.require (p ++ q) =
    (m.requireTable p).bind fun inner =>
      ((⟨m.path, inner⟩ : Manifest).require q).mapError (.under p) := by
  rw [require, Toml.Table.find_append hp hq, requireTable_eq_bind, require]
  rcases Toml.Table.find p m.table with fault | v
  · rfl
  · cases v with
    | table inner =>
      refine (Toml.Table.mapError_mapError _ _ _).trans ?_
      simp only [errorOf_under]
      exact (Toml.Table.mapError_mapError _ _ _).symm
    | _ => rfl

/-- **The look-up of a path stops at a prefix of it by an error**: the prefix is the shortest that
stops it, the error shows the keys of the prefix as its field, and it says that they are missing if
nothing is there, and otherwise that what is there should be a table. -/
structure StopsAt (m : Manifest) (keys q : List String) (e : ManifestError) : Prop where
  shortest : ShortestStop m.table keys q
  shows : e.field? = some (".".intercalate q)
  kind : (∀ v, ¬Holds m.table q v) ∧ e = .missingField m.path q ∨
    (∃ v, Holds m.table q v) ∧ e = .invalidField m.path q .table

theorem require_eq_error_iff (hk : keys ≠ []) :
    m.require keys = .error e ↔ ∃ q, m.StopsAt keys q e := by
  rw [require, mapError_eq_error_iff]
  simp only [Toml.Table.find_eq_error_iff hk, Toml.Table.failsBy_iff]
  constructor
  · rintro ⟨_, ⟨q, hq, ⟨h, rfl⟩ | ⟨h, rfl⟩⟩, rfl⟩
    · exact ⟨q, hq, rfl, .inl ⟨h, rfl⟩⟩
    · exact ⟨q, hq, rfl, .inr ⟨h, rfl⟩⟩
  · rintro ⟨q, hq, -, ⟨h, rfl⟩ | ⟨h, rfl⟩⟩
    · exact ⟨_, ⟨q, hq, .inl ⟨h, rfl⟩⟩, rfl⟩
    · exact ⟨_, ⟨q, hq, .inr ⟨h, rfl⟩⟩, rfl⟩

/-- What an error is about is shown behind the path to it and a dot. -/
theorem field?_under (hp : p ≠ []) (hq : q ≠ []) (h : m.require q = .error e) :
    ∃ text, e.field? = some text ∧
      (e.under p).field? = some (".".intercalate p ++ "." ++ text) := by
  obtain ⟨r, ⟨hr, -, ⟨-, rfl⟩ | ⟨-, rfl⟩⟩⟩ := (require_eq_error_iff hq).1 h
  · exact ⟨_, rfl, congrArg some (String.intercalate_append_of_ne_nil hp hr.ne_nil)⟩
  · exact ⟨_, rfl, congrArg some (String.intercalate_append_of_ne_nil hp hr.ne_nil)⟩

/-- **Looking up key paths composes, and an error names the shortest prefix that fails.** A
look-up finds exactly what the keys lead to, one after the other, through nested tables. If it
fails, then at the shortest nonempty prefix of the path that has no entry, which is missing, or
that has one which is no table although the path goes on, which is invalid. A path in two parts is
the second part looked up in the table at the end of the first: an error of the first part stays
as it is, and one of the second part gets the keys of the first part and a dot in front of its
field. To look up a table is to look up a value and to refuse it at the full path if it is no
table. -/
theorem require_composes (m : Manifest) :
    (∀ keys, keys ≠ [] →
      (∀ v, m.require keys = .ok v ↔ Holds m.table keys v) ∧
      ∀ e, m.require keys = .error e ↔ ∃ q, m.StopsAt keys q e) ∧
    (∀ p q, p ≠ [] → q ≠ [] →
      m.require (p ++ q) = (m.requireTable p).bind (fun inner =>
        ((⟨m.path, inner⟩ : Manifest).require q).mapError (.under p)) ∧
      ∀ inner e, (⟨m.path, inner⟩ : Manifest).require q = .error e → ∃ text,
        e.field? = some text ∧
          (e.under p).field? = some (".".intercalate p ++ "." ++ text)) ∧
    ∀ keys, m.requireTable keys = (m.require keys).bind (m.asTable keys) :=
  ⟨fun _ hk => ⟨fun _ => require_eq_ok_iff, fun _ => require_eq_error_iff hk⟩,
    fun _ _ hp hq => ⟨require_append hp hq, fun _ _ => field?_under hp hq⟩,
    requireTable_eq_bind m⟩

/-- A manifest with a table in a table, and a scalar where a path may want to go on. -/
def nestedManifest : Manifest :=
  ⟨.ofString "ws/Cargo.toml",
    [("workspace", .table [("package", .table [("version", .scalar (.string "7"))])])]⟩

/-- A path that goes on behind the version stops there. What is missing in the table of the
package is missing from above as well, with the way to it in front. -/
theorem require_nestedManifest :
    ShortestStop nestedManifest.table ["workspace", "package", "version", "major"]
        ["workspace", "package", "version"] ∧
      nestedManifest.require (["workspace", "package"] ++ ["edition"]) =
        .error (.missingField (.ofString "ws/Cargo.toml") ["workspace", "package", "edition"]) := by
  obtain ⟨found, composes, -⟩ := require_composes nestedManifest
  constructor
  · have hfails : nestedManifest.require ["workspace", "package", "version", "major"] =
        .error (.invalidField (.ofString "ws/Cargo.toml") ["workspace", "package", "version"]
          .table) := rfl
    obtain ⟨q, hq, -, ⟨-, h⟩ | ⟨-, h⟩⟩ := ((found _ (by decide)).2 _).1 hfails
    · cases h
    · obtain ⟨-, rfl, -⟩ := ManifestError.invalidField.inj h
      exact hq
  · exact (composes ["workspace", "package"] ["edition"] (by decide) (by decide)).1.trans rfl

end Manifest

end WorkspaceFacts
