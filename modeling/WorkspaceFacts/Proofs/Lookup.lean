import WorkspaceFacts.Manifest

/-!
# What a key path leads to

`WorkspaceFacts.Toml.Table.Holds` is the walk of a look-up as a relation: a table holds a
value at a key path if the keys lead to it, one after the other, through tables inside
tables. The look-up finds exactly what is held
(`WorkspaceFacts.Toml.Table.find_eq_ok_iff`), and the same goes for the two look-ups in a
manifest.

Where a look-up fails, its fault names the shortest part of the path that fails. What the
fault says of the table is `WorkspaceFacts.Toml.Table.FailsBy`, again without the walk.
-/

namespace WorkspaceFacts

/-- A change to its fault does not turn a result into another. -/
theorem mapError_eq_ok_iff {ε ε' α : Type} {x : Except ε α} {f : ε → ε'} {a : α} :
    x.mapError f = .ok a ↔ x = .ok a := by
  cases x with
  | ok v =>
    constructor
    · intro h
      cases h
      rfl
    · intro h
      cases h
      rfl
  | error e => exact iff_of_false (fun h => by cases h) (fun h => by cases h)

theorem mapError_eq_error_iff {ε ε' α : Type} {x : Except ε α} {f : ε → ε'} {e : ε'} :
    x.mapError f = .error e ↔ ∃ d, x = .error d ∧ e = f d := by
  cases x with
  | ok v => exact iff_of_false (fun h => by cases h) (by simp)
  | error d =>
    constructor
    · intro h
      cases h
      exact ⟨d, rfl, rfl⟩
    · rintro ⟨_, ⟨⟩, rfl⟩
      rfl

namespace Toml.Table

/-- **A table holds a value at a key path**: the keys lead to it through nested tables. -/
inductive Holds : Table → List String → Value → Prop
  /-- The last key of the path. -/
  | last {entries : Table} {key : String} {value : Value}
      (h : Entries.get? entries key = some value) : Holds entries [key] value
  /-- A key with more keys after it. -/
  | through {entries inner : Table} {key : String} {keys : List String} {value : Value}
      (h : Entries.get? entries key = some (.table inner)) (hold : Holds inner keys value) :
      Holds entries (key :: keys) value

theorem Holds.ne_nil {entries : Table} {keys : List String} {value : Value}
    (h : Holds entries keys value) : keys ≠ [] := by
  cases h <;> simp

/-- A path of two keys or more goes through a table. -/
theorem holds_cons_cons {entries : Table} {key next : String} {keys : List String}
    {value : Value} : Holds entries (key :: next :: keys) value ↔
      ∃ inner, Entries.get? entries key = some (.table inner) ∧
        Holds inner (next :: keys) value := by
  constructor
  · intro h
    cases h with
    | through h hold => exact ⟨_, h, hold⟩
  · rintro ⟨inner, h, hold⟩
    exact .through h hold

theorem holds_singleton {entries : Table} {key : String} {value : Value} :
    Holds entries [key] value ↔ Entries.get? entries key = some value := by
  constructor
  · intro h
    cases h with
    | last h => exact h
    | through _ hold => exact absurd rfl hold.ne_nil
  · exact .last

/-- A path to a table goes on with what that table holds. -/
theorem Holds.append {entries inner : Table} {path keys : List String} {value : Value}
    (h : Holds entries path (.table inner)) (hold : Holds inner keys value) :
    Holds entries (path ++ keys) value := by
  generalize ht : Value.table inner = v at h
  induction h with
  | last h =>
    subst ht
    exact .through h hold
  | through h _ ih => exact .through h (ih ht)

/-- **The look-up finds exactly what is held.** -/
theorem find_eq_ok_iff {keys : List String} {entries : Table} {value : Value} :
    find keys entries = .ok value ↔ Holds entries keys value := by
  fun_induction find keys entries with
  | case1 =>
    refine iff_of_false (by simp) fun h => ?_
    exact h.ne_nil rfl
  | case2 key entries v hv =>
    rw [holds_singleton, hv, Except.ok.injEq, Option.some.injEq]
  | case3 key entries hv =>
    rw [holds_singleton, hv]
    simp
  | case4 key next keys entries inner hv ih =>
    rw [mapError_eq_ok_iff, ih, holds_cons_cons, hv]
    constructor
    · exact fun hold => ⟨inner, rfl, hold⟩
    · rintro ⟨inner', h, hold⟩
      obtain rfl := Toml.Value.table.inj (Option.some.inj h)
      exact hold
  | case5 key next keys entries v hne hv =>
    rw [holds_cons_cons, hv]
    refine iff_of_false (by simp) ?_
    rintro ⟨inner, h, -⟩
    exact hne inner (Option.some.inj h)
  | case6 key next keys entries hv =>
    rw [holds_cons_cons, hv]
    simp

/-- A table holds at most one value at a key path. -/
theorem Holds.unique {entries : Table} {keys : List String} {v w : Value}
    (hv : Holds entries keys v) (hw : Holds entries keys w) : v = w := by
  rw [← find_eq_ok_iff] at hv hw
  exact Except.ok.inj (hv.symm.trans hw)

/-! ### Where a look-up fails -/

/-- A table has a table at a path; the empty path leads to the table itself. -/
def HasTable (entries : Table) (path : List String) : Prop :=
  path = [] ∨ ∃ inner, Holds entries path (.table inner)

/-- **A table lacks an entry at a path**: it has a table at every proper prefix of the path,
and nothing at the path. -/
structure Lacks (entries : Table) (path : List String) : Prop where
  ne_nil : path ≠ []
  tables : ∀ q, q <+: path → q ≠ path → HasTable entries q
  absent : ∀ v, ¬Holds entries path v

/-- **The look-up of a path fails by a fault**: at a prefix of the path where there is no
entry, or at a proper prefix where there is one that is no table. -/
inductive FailsBy (entries : Table) (keys : List String) : LookupFault → Prop
  | missing {q : List String} (hq : q <+: keys) (h : Lacks entries q) :
      FailsBy entries keys (.missing q)
  | notTable {q : List String} {v : Value} (hq : q <+: keys) (hne : q ≠ keys)
      (h : Holds entries q v) (hv : ∀ inner, v ≠ .table inner) :
      FailsBy entries keys (.notTable q)

section Below

variable {entries inner : Table} {key : String} {keys : List String}
  (hg : Entries.get? entries key = some (.table inner))

include hg

/-- Below a table the path goes on in that table. -/
theorem holds_cons_iff (hk : keys ≠ []) {v : Value} :
    Holds entries (key :: keys) v ↔ Holds inner keys v := by
  obtain ⟨next, keys, rfl⟩ := List.exists_cons_of_ne_nil hk
  rw [holds_cons_cons, hg]
  constructor
  · rintro ⟨inner', h, hold⟩
    obtain rfl := Toml.Value.table.inj (Option.some.inj h)
    exact hold
  · exact fun hold => ⟨inner, rfl, hold⟩

theorem hasTable_cons_iff : HasTable entries (key :: keys) ↔ HasTable inner keys := by
  by_cases hk : keys = []
  · subst hk
    exact iff_of_true (.inr ⟨inner, .last hg⟩) (.inl rfl)
  · simp only [HasTable, holds_cons_iff hg hk, hk, reduceCtorEq, false_or]

theorem Lacks.below (h : Lacks inner keys) : Lacks entries (key :: keys) := by
  obtain ⟨hk, tables, absent⟩ := h
  refine ⟨List.cons_ne_nil _ _, fun q hq hne => ?_,
    fun v hold => absent v ((holds_cons_iff hg hk).1 hold)⟩
  rcases q with _ | ⟨k, q⟩
  · exact .inl rfl
  · obtain ⟨rfl, hq'⟩ := List.cons_prefix_cons.1 hq
    exact (hasTable_cons_iff hg).2 (tables q hq' fun he => hne (he ▸ rfl))

/-- A fault below a table is one of the table, seen from above. -/
theorem FailsBy.below {fault : LookupFault} (h : FailsBy inner keys fault) :
    FailsBy entries (key :: keys) (fault.below key) := by
  rcases h with ⟨hq, h⟩ | ⟨hq, hne, h, hv⟩
  · exact .missing (List.cons_prefix_cons.2 ⟨rfl, hq⟩) (h.below hg)
  · exact .notTable (List.cons_prefix_cons.2 ⟨rfl, hq⟩) (fun he => hne (List.cons.inj he).2)
      ((holds_cons_iff hg h.ne_nil).2 h) hv

end Below

theorem eq_nil_of_prefix_singleton {key : String} {q : List String} (hq : q <+: [key])
    (hne : q ≠ [key]) : q = [] := by
  rcases q with _ | ⟨k, q⟩
  · rfl
  · obtain ⟨rfl, hq'⟩ := List.cons_prefix_cons.1 hq
    exact absurd (congrArg (k :: ·) (List.prefix_nil.1 hq')) hne

/-- What the table at a path lacks is lacking from above. -/
theorem Lacks.append {entries inner : Table} {path keys : List String} (h : Lacks inner keys)
    (hold : Holds entries path (.table inner)) : Lacks entries (path ++ keys) := by
  generalize hv : Value.table inner = v at hold
  induction hold with
  | last hg => exact h.below (hv ▸ hg)
  | through hg _ ih => exact (ih hv).below hg

/-- A table lacks what it has no entry for. -/
theorem lacks_singleton {entries : Table} {key : String} (hg : Entries.get? entries key = none) :
    Lacks entries [key] := by
  refine ⟨List.cons_ne_nil _ _, fun q hq hne => .inl ?_, fun v h => ?_⟩
  · exact eq_nil_of_prefix_singleton hq hne
  · rw [holds_singleton, hg] at h
    cases h

theorem failsBy_of_find {keys : List String} {entries : Table} {fault : LookupFault}
    (hk : keys ≠ []) (h : find keys entries = .error fault) : FailsBy entries keys fault := by
  fun_induction find keys entries generalizing fault with
  | case1 => exact absurd rfl hk
  | case2 => cases h
  | case3 key entries hg =>
    obtain rfl := Except.error.inj h
    exact .missing List.prefix_rfl (lacks_singleton hg)
  | case4 key next keys entries inner hg ih =>
    obtain ⟨f, hf, rfl⟩ := mapError_eq_error_iff.1 h
    exact (ih (List.cons_ne_nil _ _) hf).below hg
  | case5 key next keys entries v hv hg =>
    obtain rfl := Except.error.inj h
    exact .notTable (List.cons_prefix_cons.2 ⟨rfl, List.nil_prefix⟩) (by simp) (.last hg) hv
  | case6 key next keys entries hg =>
    obtain rfl := Except.error.inj h
    exact .missing (List.cons_prefix_cons.2 ⟨rfl, List.nil_prefix⟩) (lacks_singleton hg)

section Unique

variable {entries : Table} {keys q : List String} {v : Value}

/-- Where a value is held, there are tables on the way. -/
theorem Holds.hasTable (h : Holds entries keys v) (hq : q <+: keys) (hne : q ≠ keys) :
    HasTable entries q := by
  induction h generalizing q with
  | last => exact .inl (eq_nil_of_prefix_singleton hq hne)
  | through hg hold ih =>
    rcases q with _ | ⟨k, q⟩
    · exact .inl rfl
    · obtain ⟨rfl, hq'⟩ := List.cons_prefix_cons.1 hq
      exact (hasTable_cons_iff hg).2 (ih hq' fun he => hne (he ▸ rfl))

theorem Lacks.not_hasTable (h : Lacks entries q) : ¬HasTable entries q := by
  rintro (hq | ⟨inner, hold⟩)
  · exact h.ne_nil hq
  · exact h.absent _ hold

theorem Holds.not_hasTable (h : Holds entries q v) (hv : ∀ inner, v ≠ .table inner) :
    ¬HasTable entries q := by
  rintro (hq | ⟨inner, hold⟩)
  · exact h.ne_nil hq
  · exact hv inner (h.unique hold)

/-- Two prefixes of a path are the same one if neither leads to a table, and all that is
before them does. -/
theorem eq_of_not_hasTable {r : List String} (hq : q <+: keys) (hr : r <+: keys)
    (nq : ¬HasTable entries q) (nr : ¬HasTable entries r)
    (tq : ∀ p, p <+: q → p ≠ q → HasTable entries p)
    (tr : ∀ p, p <+: r → p ≠ r → HasTable entries p) : q = r := by
  refine Decidable.byContradiction fun hne => ?_
  rcases List.prefix_or_prefix_of_prefix hq hr with h | h
  · exact nq (tr q h hne)
  · exact nr (tq r h (Ne.symm hne))

/-- **A look-up fails by one fault only.** -/
theorem FailsBy.unique {fault fault' : LookupFault} (h : FailsBy entries keys fault)
    (h' : FailsBy entries keys fault') : fault = fault' := by
  rcases h with ⟨hq, h⟩ | ⟨hq, -, h, hv⟩ <;> rcases h' with ⟨hr, h'⟩ | ⟨hr, -, h', hv'⟩
  · rw [eq_of_not_hasTable hq hr h.not_hasTable h'.not_hasTable h.tables h'.tables]
  · obtain rfl := eq_of_not_hasTable hq hr h.not_hasTable (h'.not_hasTable hv') h.tables
      fun _ => h'.hasTable
    exact absurd h' (h.absent _)
  · obtain rfl := eq_of_not_hasTable hq hr (h.not_hasTable hv) h'.not_hasTable
      (fun _ => h.hasTable) h'.tables
    exact absurd h (h'.absent _)
  · rw [eq_of_not_hasTable hq hr (h.not_hasTable hv) (h'.not_hasTable hv') (fun _ => h.hasTable)
      fun _ => h'.hasTable]

/-- A look-up that fails finds nothing. -/
theorem FailsBy.not_holds {fault : LookupFault} (h : FailsBy entries keys fault) :
    ¬Holds entries keys v := by
  intro hold
  rcases h with ⟨hq, h⟩ | ⟨hq, hne, h, hv⟩
  · next q =>
    by_cases hne : q = keys
    · exact h.absent v (hne ▸ hold)
    · exact h.not_hasTable (hold.hasTable hq hne)
  · exact h.not_hasTable hv (hold.hasTable hq hne)

/-- **The look-up fails exactly by the fault that there is**, unless the path is empty. -/
theorem find_eq_error_iff {fault : LookupFault} (hk : keys ≠ []) :
    find keys entries = .error fault ↔ FailsBy entries keys fault := by
  refine ⟨failsBy_of_find hk, fun h => ?_⟩
  rcases hf : find keys entries with f | v
  · rw [(failsBy_of_find hk hf).unique h]
  · exact absurd (find_eq_ok_iff.1 hf) h.not_holds

end Unique

end Toml.Table

namespace Manifest

open Toml.Table (Holds)

variable {m : Manifest} {keys : List String}

theorem require_eq_ok_iff {value : Toml.Value} :
    m.require keys = .ok value ↔ Holds m.table keys value := by
  rw [← Toml.Table.find_eq_ok_iff, require, mapError_eq_ok_iff]

theorem requireTable_eq_ok_iff {entries : Toml.Table} :
    m.requireTable keys = .ok entries ↔ Holds m.table keys (.table entries) := by
  rw [← require_eq_ok_iff, requireTable]
  split <;> simp_all

theorem parse_eq_ok_iff {path : Path} {text : String} :
    parse path text = .ok m ↔ m.path = path ∧ Toml.Document.parse? text = some m.table := by
  rw [parse]
  split
  · next table h =>
    rw [h, Except.ok.injEq, Option.some.injEq]
    constructor
    · rintro rfl
      exact ⟨rfl, rfl⟩
    · rintro ⟨rfl, rfl⟩
      rfl
  · next h => simp [h]

end Manifest

end WorkspaceFacts
