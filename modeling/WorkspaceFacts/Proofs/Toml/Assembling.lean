import WorkspaceFacts.Proofs.Toml.Drafting

/-!
# What statements put together

Where no key is used twice it can be said outright which draft comes about. Assignments to
new keys add one entry each, in their order (`WorkspaceFacts.Toml.Node.assignAll_new`);
assignments with a key in front of all their paths put the same together, one table
further down (`WorkspaceFacts.Toml.Node.assignAll_under`); and the assignments of a section
are made in the table of that section, as if there were nothing else
(`WorkspaceFacts.Toml.Draft.addAll_assignments`).
-/

namespace WorkspaceFacts.Toml

namespace Node

variable {node : Node} {key : String} {keys : List String} {entries inner : Entries}
  {assigned : List (List String × Node)}

/-! ### Assignments to new keys -/

/-- The entry that an assignment to a new key makes; the keys after the first one lead
through tables that are made for them. -/
def made (node : Node) (key : String) : List String → String × Node
  | [] => (key, node)
  | next :: keys => (key, .table .dotted [made node next keys])

theorem made_fst : (made node key keys).1 = key := by
  cases keys <;> rfl

theorem assign_new (h : Entries.get? entries key = none) :
    assign node (key :: keys) entries = some (entries ++ [made node key keys]) := by
  induction keys generalizing key entries with
  | nil => rw [assign, h, made]
  | cons next keys ih =>
    have hinner : assign node (next :: keys) [] = some ([] ++ [made node next keys]) :=
      ih (Entries.get?_nil next)
    rw [assign, h]
    dsimp only
    rw [hinner, Option.map_some, made]
    rfl

/-- The entries that assignments to new keys make. -/
def madeAll : List (List String × Node) → Entries
  | [] => []
  | ([], _) :: rest => madeAll rest
  | (key :: keys, node) :: rest => made node key keys :: madeAll rest

/-- **Assignments to new keys** add their entries, in order. -/
theorem assignAll_new (hne : ∀ a ∈ assigned, a.1 ≠ [])
    (hd : (Entries.keys (entries ++ madeAll assigned)).Nodup) :
    assignAll assigned entries = some (entries ++ madeAll assigned) := by
  induction assigned generalizing entries with
  | nil => rw [assignAll, madeAll, List.append_nil]
  | cons a assigned ih =>
    obtain ⟨path, node⟩ := a
    cases path with
    | nil => exact absurd rfl (hne _ List.mem_cons_self)
    | cons key keys =>
      rw [madeAll, List.append_cons] at hd ⊢
      have hkey : Entries.get? entries key = none := by
        rw [Entries.get?_eq_none_iff]
        intro hmem
        rw [Entries.keys_append, Entries.keys_append, List.append_assoc] at hd
        refine (List.nodup_append.1 hd).2.2 key hmem key ?_ rfl
        simp [made_fst]
      rw [assignAll, assign_new hkey, Option.bind_some]
      exact ih (fun b hb => hne b (List.mem_cons_of_mem _ hb)) hd

theorem assignAll_append (more : List (List String × Node)) :
    assignAll (assigned ++ more) entries = (assignAll assigned entries).bind (assignAll more) := by
  induction assigned generalizing entries with
  | nil => rfl
  | cons a assigned ih =>
    obtain ⟨path, node⟩ := a
    show (assign node path entries).bind (assignAll (assigned ++ more)) =
      ((assign node path entries).bind (assignAll assigned)).bind (assignAll more)
    cases assign node path entries with
    | none => rfl
    | some next => exact ih

/-- Entries as assignments to single keys. -/
def singles (entries : Entries) : List (List String × Node) :=
  entries.map fun (key, node) => ([key], node)

theorem ne_nil_of_mem_singles : ∀ a ∈ singles entries, a.1 ≠ [] := by
  intro a ha
  obtain ⟨entry, -, rfl⟩ := List.mem_map.1 ha
  exact List.cons_ne_nil _ _

theorem assignAll_singles (h : (Entries.keys entries).Nodup) :
    assignAll (singles entries) [] = some entries := by
  have hmade : madeAll (singles entries) = entries := by
    clear h
    induction entries with
    | nil => rfl
    | cons entry entries ih =>
      show entry :: madeAll (singles entries) = _
      rw [ih]
  rw [assignAll_new ne_nil_of_mem_singles (by rw [hmade]; exact h), hmade, List.nil_append]

/-! ### A key in front -/

/-- The same assignments one table further down. -/
def under (key : String) (assigned : List (List String × Node)) : List (List String × Node) :=
  assigned.map fun (path, node) => (key :: path, node)

theorem ne_nil_of_mem_under : ∀ a ∈ under key assigned, a.1 ≠ [] := by
  intro a ha
  obtain ⟨b, -, rfl⟩ := List.mem_map.1 ha
  exact List.cons_ne_nil _ _

theorem assign_cons_dotted {acc : Entries} {path : List String} (hpath : path ≠ [])
    (h : Entries.get? entries key = none) :
    assign node (key :: path) (entries ++ [(key, .table .dotted acc)]) =
      (assign node path acc).map fun inner => entries ++ [(key, .table .dotted inner)] := by
  obtain ⟨next, keys, rfl⟩ := List.exists_cons_of_ne_nil hpath
  rw [assign, Entries.get?_append_self h]
  dsimp only
  congr
  funext inner
  exact Entries.put_append_self h

theorem assignAll_under_dotted {acc : Entries} (hne : ∀ a ∈ assigned, a.1 ≠ [])
    (h : Entries.get? entries key = none) :
    assignAll (under key assigned) (entries ++ [(key, .table .dotted acc)]) =
      (assignAll assigned acc).map fun inner => entries ++ [(key, .table .dotted inner)] := by
  induction assigned generalizing acc with
  | nil => rfl
  | cons a assigned ih =>
    obtain ⟨path, node⟩ := a
    show (assign node (key :: path) _).bind (assignAll (under key assigned)) =
      ((assign node path acc).bind (assignAll assigned)).map _
    rw [assign_cons_dotted (hne _ List.mem_cons_self) h]
    cases assign node path acc with
    | none => rfl
    | some next => exact ih fun b hb => hne b (List.mem_cons_of_mem _ hb)

/-- **Assignments with one more key in front** put the same together in a table under that
key. -/
theorem assignAll_under (hn : assigned ≠ []) (hne : ∀ a ∈ assigned, a.1 ≠ [])
    (h : Entries.get? entries key = none) : assignAll (under key assigned) entries =
      (assignAll assigned []).map fun inner => entries ++ [(key, .table .dotted inner)] := by
  obtain ⟨⟨path, node⟩, assigned, rfl⟩ := List.exists_cons_of_ne_nil hn
  obtain ⟨next, keys, rfl⟩ := List.exists_cons_of_ne_nil (hne _ List.mem_cons_self)
  have hrest : ∀ acc, assignAll (under key assigned) (entries ++ [(key, .table .dotted acc)]) =
      (assignAll assigned acc).map fun inner => entries ++ [(key, .table .dotted inner)] :=
    fun acc => assignAll_under_dotted (fun b hb => hne b (List.mem_cons_of_mem _ hb)) h
  show (assign node (key :: next :: keys) entries).bind (assignAll (under key assigned)) =
    ((assign node (next :: keys) []).bind (assignAll assigned)).map _
  rw [assign, h]
  dsimp only
  cases assign node (next :: keys) [] with
  | none => rfl
  | some acc => exact hrest acc

/-! ### Changes further down -/

/-- A header changes the table around the one that it declares. -/
theorem declare_append {path path' : List String} (h : path' ≠ []) :
    declare (path ++ path') = changeAt (declare path') path := by
  induction path with
  | nil => rfl
  | cons key path ih =>
    funext entries
    obtain ⟨next, keys, hkeys⟩ :=
      List.exists_cons_of_ne_nil (List.append_ne_nil_of_right_ne_nil path h)
    rw [List.cons_append, changeAt, ← ih, hkeys]
    rfl

/-- A change of a table that is there and not complete. -/
theorem change_table {f : Entries → Option Entries} {origin : Origin} (ho : origin ≠ .inline)
    (h : Entries.get? entries key = some (.table origin inner)) : change f key entries =
      (f inner).map fun inner => Entries.put entries key (.table origin inner) := by
  rw [change, h]
  cases origin with
  | inline => exact absurd rfl ho
  | header => rfl
  | implied => rfl
  | dotted => rfl

/-- A change of the last table among others. -/
theorem change_last {f : Entries → Option Entries} {origin : Origin} (ho : origin ≠ .inline)
    (h : Entries.get? entries key = none) :
    change f key (entries ++ [(key, .table origin inner)]) =
      (f inner).map fun inner => entries ++ [(key, .table origin inner)] := by
  rw [change_table ho (Entries.get?_append_self h)]
  congr
  funext inner'
  exact Entries.put_append_self h

/-- Two changes of the same table, one after the other. -/
theorem change_bind (f g : Entries → Option Entries) :
    change (fun inner => (f inner).bind g) key entries =
      (change f key entries).bind (change g key) := by
  -- Where the table is there already, it is replaced once instead of twice.
  have hold : ∀ (new : Entries → Node) (inner : Entries),
      (∀ inner', change g key (Entries.put entries key (new inner')) = (g inner').map fun inner'' =>
        Entries.put (Entries.put entries key (new inner')) key (new inner'')) →
      ((f inner).bind g).map (fun inner => Entries.put entries key (new inner)) =
        ((f inner).map fun inner => Entries.put entries key (new inner)).bind (change g key) := by
    intro new inner hg
    cases f inner with
    | none => rfl
    | some inner' =>
      rw [Option.bind_some, Option.map_some, Option.bind_some, hg]
      simp only [Entries.put_put]
  cases hk : Entries.get? entries key with
  | none =>
    rw [change, change, hk]
    dsimp only
    cases f [] with
    | none => rfl
    | some inner =>
      rw [Option.bind_some, Option.map_some, Option.bind_some, change, Entries.get?_append_self hk]
      simp only [Entries.put_append_self hk]
  | some old =>
    cases old with
    | scalar s => simp [change, hk]
    | array items => simp [change, hk]
    | table origin inner =>
      by_cases ho : origin = .inline
      · subst ho
        simp [change, hk]
      · rw [change_table ho hk, change_table ho hk]
        exact hold (.table origin) inner fun inner' => change_table ho Entries.get?_put_self
    | tables earlier last =>
      rw [change, change, hk]
      refine hold (.tables earlier) last fun inner' => ?_
      rw [change, Entries.get?_put_self]

theorem changeAt_bind (f g : Entries → Option Entries) (path : List String) :
    changeAt (fun inner => (f inner).bind g) path entries =
      (changeAt f path entries).bind (changeAt g path) := by
  induction path generalizing entries with
  | nil => rfl
  | cons key path ih =>
    show change (changeAt (fun inner => (f inner).bind g) path) key entries =
      (change (changeAt f path) key entries).bind (change (changeAt g path) key)
    rw [← change_bind]
    congr
    funext inner
    exact ih

/-- A change that changes nothing, in a table that can be changed. -/
theorem change_of_get? {f : Entries → Option Entries} {origin : Origin} (ho : origin ≠ .inline)
    (h : Entries.get? entries key = some (.table origin inner)) (hf : f inner = some inner) :
    change f key entries = some entries := by
  rw [change_table ho h, hf, Option.map_some, Entries.put_self h]

theorem changeAt_some {f : Entries → Option Entries} {path : List String} {entries' : Entries}
    (h : changeAt f path entries = some entries') :
    changeAt some path entries' = some entries' := by
  induction path generalizing entries entries' with
  | nil => rfl
  | cons key path ih =>
    cases descend_of_change h with
    | new hg ho hf h' =>
      subst h'
      exact change_of_get? ho (Entries.get?_append_self hg) (ih hf)
    | table hg ho hf h' =>
      subst h'
      exact change_of_get? ho Entries.get?_put_self (ih hf)
    | tables hg hf h' =>
      subst h'
      rw [changeAt, change, Entries.get?_put_self]
      dsimp only
      rw [ih hf, Option.map_some, Entries.put_self Entries.get?_put_self]

end Node

/-! ### The nodes of assigned terms -/

section AssignedNodes

variable {assigned more : List (List String × Term)} {nodes moreNodes : List (List String × Node)}

theorem assignedNodes?_cons {path : List String} {t : Term} {node : Node} (ht : t.node? = some node)
    (h : Term.assignedNodes? assigned = some nodes) :
    Term.assignedNodes? ((path, t) :: assigned) = some ((path, node) :: nodes) := by
  rw [Term.assignedNodes?, ht, h]

theorem assignedNodes?_append (h : Term.assignedNodes? assigned = some nodes)
    (hm : Term.assignedNodes? more = some moreNodes) :
    Term.assignedNodes? (assigned ++ more) = some (nodes ++ moreNodes) := by
  induction assigned generalizing nodes with
  | nil =>
    obtain rfl := Option.some.inj h
    exact hm
  | cons a assigned ih =>
    obtain ⟨path, t⟩ := a
    rw [Term.assignedNodes?] at h
    split at h
    · next node rest hnode hrest =>
      obtain rfl := Option.some.inj h
      exact assignedNodes?_cons hnode (ih hrest)
    · cases h

theorem assignedNodes?_under (key : String) (h : Term.assignedNodes? assigned = some nodes) :
    Term.assignedNodes? (assigned.map fun (path, t) => (key :: path, t)) =
      some (Node.under key nodes) := by
  induction assigned generalizing nodes with
  | nil =>
    obtain rfl := Option.some.inj h
    rfl
  | cons a assigned ih =>
    obtain ⟨path, t⟩ := a
    rw [Term.assignedNodes?] at h
    split at h
    · next node rest hnode hrest =>
      obtain rfl := Option.some.inj h
      exact assignedNodes?_cons hnode (ih hrest)
    · cases h

end AssignedNodes

/-! ### Sections -/

namespace Draft

open Node

/-- The statements that make assignments. -/
def assignments (assigned : List (List String × Term)) : List Statement :=
  assigned.map fun (path, t) => .entry path t

/-- **The assignments of a section** are made, one after the other, in its table. -/
theorem addAll_assignments {assigned : List (List String × Term)}
    {nodes : List (List String × Node)} {draft : Draft} {statements : List Statement}
    (hn : assigned ≠ []) (h : Term.assignedNodes? assigned = some nodes) :
    addAll (assignments assigned ++ statements) draft =
      (Node.changeAt (assignAll nodes) draft.target draft.root).bind fun root =>
        addAll statements ⟨root, draft.target⟩ := by
  induction assigned generalizing nodes draft with
  | nil => exact absurd rfl hn
  | cons a assigned ih =>
    obtain ⟨path, t⟩ := a
    rw [Term.assignedNodes?] at h
    split at h
    · next node rest hnode hrest =>
      obtain rfl := Option.some.inj h
      have hadd : draft.add (.entry path t) =
          (Node.changeAt (assign node path) draft.target draft.root).map (⟨·, draft.target⟩) := by
        rw [add, hnode, Option.bind_some]
      have hall : assignAll ((path, node) :: rest) =
          fun inner => (assign node path inner).bind (assignAll rest) := rfl
      show (draft.add (.entry path t)).bind (addAll (assignments assigned ++ statements)) = _
      rw [hall, changeAt_bind, hadd]
      cases hroot : Node.changeAt (assign node path) draft.target draft.root with
      | none => rfl
      | some root =>
        rw [Option.map_some, Option.bind_some, Option.bind_some]
        cases assigned with
        | nil =>
          -- No assignments are left, and making none changes nothing.
          obtain rfl := Option.some.inj hrest
          show addAll statements ⟨root, draft.target⟩ = (changeAt some draft.target root).bind _
          rw [changeAt_some hroot, Option.bind_some]
        | cons b assigned => exact ih (by simp) hrest
    · cases h

/-- The last section of a document. -/
theorem addAll_assignments_last {assigned : List (List String × Term)}
    {nodes : List (List String × Node)} {root root' : Entries} {target : List String}
    (hn : assigned ≠ []) (h : Term.assignedNodes? assigned = some nodes)
    (hroot : Node.changeAt (assignAll nodes) target root = some root') :
    addAll (assignments assigned) ⟨root, target⟩ = some ⟨root', target⟩ := by
  have hadd : addAll (assignments assigned ++ []) ⟨root, target⟩ =
      (Node.changeAt (assignAll nodes) target root).bind fun root => some ⟨root, target⟩ :=
    addAll_assignments hn h
  rw [List.append_nil] at hadd
  rw [hadd, hroot, Option.bind_some]

end Draft

end WorkspaceFacts.Toml
