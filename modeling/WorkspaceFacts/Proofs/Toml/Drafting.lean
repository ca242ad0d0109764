import WorkspaceFacts.Proofs.Entries
import WorkspaceFacts.Proofs.Lookup
import WorkspaceFacts.Toml.Document

/-!
# What a statement does to a draft

Every statement walks down the draft along a path and changes something at its end. On the
way it makes tables or enters those that are there, one key after the other, and each of
these steps is a `WorkspaceFacts.Toml.Node.Descend`, whichever statement takes it
(`WorkspaceFacts.Toml.Node.IsWalk`). Only the last step differs.

Two things are kept by such walks. A scalar, an array or an inline table stays where it is
and as it is, and no later path goes through it. And a draft stays sound: keys are
distinct, and an array of tables stands only where a header has put one
(`WorkspaceFacts.Toml.Node.Sound`).
-/

namespace WorkspaceFacts.Toml

namespace Node

/-- A node that no later statement can add to. -/
inductive IsComplete : Node → Prop
  | scalar (s : Scalar) : IsComplete (.scalar s)
  | array (items : List Node) : IsComplete (.array items)
  | inline (entries : Entries) : IsComplete (.table .inline entries)

/-- **A node stands at a path**, inside tables that later statements can add to. -/
inductive At (node : Node) : Entries → List String → Prop
  | last {entries : Entries} {key : String} (h : Entries.get? entries key = some node) :
      At node entries [key]
  | through {entries inner : Entries} {key : String} {origin : Origin} {path : List String}
      (h : Entries.get? entries key = some (.table origin inner)) (ho : origin ≠ .inline)
      (hat : At node inner path) : At node entries (key :: path)

/-- **One step down**: `f` changes the table under `key`, and the entries around it change
from `entries` to `entries'`. -/
inductive Descend (f : Entries → Option Entries) (key : String) (entries entries' : Entries) : Prop
  /-- The table is not there yet. -/
  | new {origin : Origin} {inner : Entries} (h : Entries.get? entries key = none)
      (ho : origin ≠ .inline) (hf : f [] = some inner)
      (h' : entries' = entries ++ [(key, .table origin inner)])
  /-- The table is there. -/
  | table {origin : Origin} {inner inner' : Entries}
      (h : Entries.get? entries key = some (.table origin inner)) (ho : origin ≠ .inline)
      (hf : f inner = some inner') (h' : entries' = Entries.put entries key (.table origin inner'))
  /-- The table is the last element of an array. -/
  | tables {earlier : List Entries} {last last' : Entries}
      (h : Entries.get? entries key = some (.tables earlier last)) (hf : f last = some last')
      (h' : entries' = Entries.put entries key (.tables earlier last'))

variable {node : Node} {f : Entries → Option Entries} {key : String} {entries entries' : Entries}

theorem descend_of_change (h : change f key entries = some entries') :
    Descend f key entries entries' := by
  unfold change at h
  split at h
  · next hg =>
    obtain ⟨inner, hf, rfl⟩ := Option.map_eq_some_iff.1 h
    exact .new hg (by simp) hf rfl
  · cases h
  · next origin inner hi hg =>
    obtain ⟨inner', hf, rfl⟩ := Option.map_eq_some_iff.1 h
    exact .table hg hi hf rfl
  · next earlier last hg =>
    obtain ⟨last', hf, rfl⟩ := Option.map_eq_some_iff.1 h
    exact .tables hg hf rfl
  · cases h

theorem descend_of_assign {next : String} {keys : List String}
    (h : assign node (key :: next :: keys) entries = some entries') :
    Descend (assign node (next :: keys)) key entries entries' := by
  unfold assign at h
  split at h
  · next hg =>
    obtain ⟨inner, hf, rfl⟩ := Option.map_eq_some_iff.1 h
    exact .new hg (by simp) hf rfl
  · next inner hg =>
    obtain ⟨inner', hf, rfl⟩ := Option.map_eq_some_iff.1 h
    exact .table hg (by simp) hf rfl
  · next inner hg =>
    split at h
    · cases h
    · obtain ⟨inner', hf, rfl⟩ := Option.map_eq_some_iff.1 h
      exact .table hg (by simp) hf rfl
  · next earlier last hg =>
    split at h
    · cases h
    · obtain ⟨last', hf, rfl⟩ := Option.map_eq_some_iff.1 h
      exact .tables hg hf rfl
  · cases h

/-- What makes an operation a walk along a path: it takes one step down for every key but the
last. -/
structure IsWalk (walk : List String → Entries → Option Entries) : Prop where
  nil (entries : Entries) : walk [] entries = none
  descend {key next : String} {keys : List String} {entries entries' : Entries}
    (h : walk (key :: next :: keys) entries = some entries') :
    Descend (walk (next :: keys)) key entries entries'

theorem isWalk_assign (node : Node) : IsWalk (assign node) := ⟨fun _ => rfl, descend_of_assign⟩

theorem isWalk_declare : IsWalk declare := ⟨fun _ => rfl, descend_of_change⟩

theorem isWalk_addElement : IsWalk addElement := ⟨fun _ => rfl, descend_of_change⟩

/-! ### Sound drafts -/

/-- **Sound entries** at a path: their keys are distinct, none of them makes a table stand
for a date-time, an array of tables stands only at the paths in `arrays`, and the tables
among them are sound in turn. What lies inside arrays of tables and inline tables is left
open. -/
inductive Sound (arrays : List String → Prop) : List String → Entries → Prop
  | mk {path : List String} {entries : Entries} (nodup : (Entries.keys entries).Nodup)
      (clean : dateTimeKey ∉ Entries.keys entries)
      (tables : ∀ key origin inner, Entries.get? entries key = some (.table origin inner) →
        origin ≠ .inline → Sound arrays (path ++ [key]) inner)
      (elements : ∀ key earlier last, Entries.get? entries key = some (.tables earlier last) →
        arrays (path ++ [key])) : Sound arrays path entries

/-- A node that may stand at a path of a sound draft. -/
def Fits (arrays : List String → Prop) (path : List String) (node : Node) : Prop :=
  (∀ origin inner, node = .table origin inner → origin ≠ .inline → Sound arrays path inner) ∧
    ∀ earlier last, node = .tables earlier last → arrays path

variable {arrays : List String → Prop} {path : List String}

theorem sound_iff : Sound arrays path entries ↔ (Entries.keys entries).Nodup ∧
    dateTimeKey ∉ Entries.keys entries ∧
    ∀ key n, Entries.get? entries key = some n → Fits arrays (path ++ [key]) n := by
  constructor
  · rintro ⟨nodup, clean, tables, elements⟩
    refine ⟨nodup, clean, fun key n h => ⟨?_, ?_⟩⟩
    · rintro origin inner rfl ho
      exact tables key origin inner h ho
    · rintro earlier last rfl
      exact elements key earlier last h
  · rintro ⟨nodup, clean, fits⟩
    exact ⟨nodup, clean, fun key origin inner h => (fits key _ h).1 origin inner rfl,
      fun key earlier last h => (fits key _ h).2 earlier last rfl⟩

theorem sound_nil : Sound arrays path [] :=
  sound_iff.2 ⟨List.nodup_nil, by simp, nofun⟩

theorem IsComplete.fits (h : node.IsComplete) : Fits arrays path node := by
  cases h with
  | scalar s => exact ⟨nofun, nofun⟩
  | array items => exact ⟨nofun, nofun⟩
  | inline inner =>
    refine ⟨fun origin _ h ho => ?_, nofun⟩
    cases h
    exact absurd rfl ho

theorem fits_table {origin : Origin} {inner : Entries} (h : Sound arrays path inner) :
    Fits arrays path (.table origin inner) := by
  refine ⟨fun _ _ he _ => ?_, nofun⟩
  cases he
  exact h

theorem fits_tables {earlier : List Entries} {last : Entries} (h : arrays path) :
    Fits arrays path (.tables earlier last) :=
  ⟨nofun, fun _ _ _ => h⟩

/-- Entries that differ from sound ones under one key only are sound. -/
theorem Sound.of_get? (hs : Sound arrays path entries) (nodup : (Entries.keys entries').Nodup)
    (clean : dateTimeKey ∉ Entries.keys entries')
    (same : ∀ other, key ≠ other → Entries.get? entries' other = Entries.get? entries other)
    (hg : Entries.get? entries' key = some node) (hn : Fits arrays (path ++ [key]) node) :
    Sound arrays path entries' := by
  obtain ⟨-, -, fits⟩ := sound_iff.1 hs
  refine sound_iff.2 ⟨nodup, clean, fun other n h => ?_⟩
  by_cases hk : key = other
  · subst hk
    obtain rfl := Option.some.inj (hg.symm.trans h)
    exact hn
  · exact fits other n (same other hk ▸ h)

theorem Sound.append (hs : Sound arrays path entries) (hg : Entries.get? entries key = none)
    (hk : key ≠ dateTimeKey) (hn : Fits arrays (path ++ [key]) node) :
    Sound arrays path (entries ++ [(key, node)]) := by
  obtain ⟨nodup, clean, -⟩ := sound_iff.1 hs
  have hmem := Entries.get?_eq_none_iff.1 hg
  refine hs.of_get? ?_ ?_ (fun other => Entries.get?_append_of_ne) (Entries.get?_append_self hg) hn
  · rw [Entries.keys_append, List.nodup_append]
    refine ⟨nodup, List.nodup_singleton _, fun a ha b hb => ?_⟩
    obtain rfl := List.mem_singleton.1 hb
    exact fun he => hmem (he ▸ ha)
  · simp [clean, Ne.symm hk]

theorem Sound.put {old : Node} (hs : Sound arrays path entries)
    (hg : Entries.get? entries key = some old) (hn : Fits arrays (path ++ [key]) node) :
    Sound arrays path (Entries.put entries key node) := by
  obtain ⟨nodup, clean, -⟩ := sound_iff.1 hs
  have hkeys : Entries.keys (Entries.put entries key node) = Entries.keys entries :=
    Entries.keys_put hg
  rw [← hkeys] at nodup clean
  exact hs.of_get? nodup clean (fun other => Entries.get?_put_of_ne) Entries.get?_put_self hn

/-- An entry that moves to the end. -/
theorem Sound.move {old : Node} (hs : Sound arrays path entries)
    (hg : Entries.get? entries key = some old) (hn : Fits arrays (path ++ [key]) node) :
    Sound arrays path (Entries.erase entries key ++ [(key, node)]) := by
  obtain ⟨nodup, clean, -⟩ := sound_iff.1 hs
  have hk : key ∈ Entries.keys entries := Entries.mem_keys_of_get? hg
  -- The keys are the same ones in another order.
  have hperm : (Entries.keys (Entries.erase entries key ++ [(key, node)])).Perm
      (Entries.keys entries) := by
    rw [Entries.keys_append, Entries.keys_erase]
    exact List.perm_append_comm.trans (List.perm_cons_erase hk).symm
  refine hs.of_get? (hperm.nodup_iff.2 nodup) (fun h => clean (hperm.mem_iff.1 h))
    (fun other hne => ?_) (Entries.get?_append_self (Entries.get?_erase_self nodup)) hn
  rw [Entries.get?_append_of_ne hne, Entries.get?_erase_of_ne hne]

/-! ### What walks keep -/

/-- A complete node stays where it is if the entries change under one key only, where they
had no complete node, and a table whose complete nodes all stay. -/
theorem At.of_get? (hn : node.IsComplete) {q : List String} (key : String)
    (hat : At node entries q)
    (same : ∀ other, key ≠ other → ∀ n, Entries.get? entries other = some n →
      Entries.get? entries' other = some n)
    (hkey : ∀ n, Entries.get? entries key = some n → ¬n.IsComplete ∧
      ∀ origin inner, n = .table origin inner → ∃ origin' inner',
        Entries.get? entries' key = some (.table origin' inner') ∧ origin' ≠ .inline ∧
          ∀ q, At node inner q → At node inner' q) : At node entries' q := by
  cases hat with
  | @last _ k h =>
    by_cases hk : key = k
    · subst hk
      exact absurd hn (hkey _ h).1
    · exact .last (same k hk _ h)
  | @through _ inner k origin q h ho hat =>
    by_cases hk : key = k
    · subst hk
      obtain ⟨origin', inner', h', ho', hq⟩ := (hkey _ h).2 origin inner rfl
      exact .through h' ho' (hq q hat)
    · exact .through (same k hk _ h) ho hat

theorem not_isComplete_table {origin : Origin} {inner : Entries} (ho : origin ≠ .inline) :
    ¬(Node.table origin inner).IsComplete := by
  intro h
  cases h
  exact ho rfl

theorem At.append (hn : node.IsComplete) {q : List String} {new : Node}
    (hat : At node entries q) (hg : Entries.get? entries key = none) :
    At node (entries ++ [(key, new)]) q := by
  refine hat.of_get? hn key (fun other hk n h => ?_) fun n h => ?_
  · rw [Entries.get?_append_of_ne hk, h]
  · rw [hg] at h
    cases h

theorem At.put (hn : node.IsComplete) {q : List String} {old new : Node}
    (hat : At node entries q) (hg : Entries.get? entries key = some old) (hold : ¬old.IsComplete)
    (hnew : ∀ origin inner, old = .table origin inner → ∃ origin' inner',
      new = .table origin' inner' ∧ origin' ≠ .inline ∧ ∀ q, At node inner q → At node inner' q) :
    At node (Entries.put entries key new) q := by
  refine hat.of_get? hn key (fun other hne n h => (Entries.get?_put_of_ne hne).trans h)
    fun n h => ?_
  obtain rfl := Option.some.inj (hg.symm.trans h)
  refine ⟨hold, fun origin inner he => ?_⟩
  obtain ⟨origin', inner', rfl, ho, hq⟩ := hnew origin inner he
  exact ⟨origin', inner', Entries.get?_put_self, ho, hq⟩

/-- What a change of sound entries at a path keeps: that they are sound, and all complete
nodes where they stand. -/
def Keeps (arrays : List String → Prop) (path : List String) (f : Entries → Option Entries) :
    Prop :=
  ∀ ⦃entries entries'⦄, f entries = some entries' → Sound arrays path entries →
    Sound arrays path entries' ∧
      ∀ node q, IsComplete node → At node entries q → At node entries' q

/-- A step down keeps what the change below keeps. -/
theorem Keeps.descend (hf : Keeps arrays (path ++ [key]) f) (hk : key ≠ dateTimeKey)
    (hd : Descend f key entries entries') (hs : Sound arrays path entries) :
    Sound arrays path entries' ∧
      ∀ node q, IsComplete node → At node entries q → At node entries' q := by
  obtain ⟨-, -, fits⟩ := sound_iff.1 hs
  cases hd with
  | new hg ho hfe h' =>
    subst h'
    exact ⟨hs.append hg hk (fits_table (hf hfe sound_nil).1),
      fun node q hn hat => hat.append hn hg⟩
  | @table origin inner inner' hg ho hfe h' =>
    subst h'
    obtain ⟨hsound, hkeep⟩ := hf hfe ((fits key _ hg).1 origin inner rfl ho)
    refine ⟨hs.put hg (fits_table hsound), fun node q hn hat => ?_⟩
    refine hat.put hn hg (not_isComplete_table ho) fun _ _ he => ?_
    cases he
    exact ⟨origin, inner', rfl, ho, fun q => hkeep node q hn⟩
  | @tables earlier last last' hg hfe h' =>
    subst h'
    -- Nothing stands at a path that leads into an array of tables, so nothing is lost there.
    exact ⟨hs.put hg (fits_tables ((fits key _ hg).2 earlier last rfl)),
      fun node q hn hat => hat.put hn hg nofun nofun⟩

theorem keeps_changeAt {keys : List String} (hk : dateTimeKey ∉ keys)
    (hf : Keeps arrays (path ++ keys) f) : Keeps arrays path (changeAt f keys) := by
  induction keys generalizing path with
  | nil => simpa [changeAt] using hf
  | cons key keys ih =>
    rw [List.mem_cons, not_or] at hk
    intro entries entries' h hs
    have below : Keeps arrays (path ++ [key]) (changeAt f keys) := ih hk.2 (by simpa using hf)
    exact below.descend (Ne.symm hk.1) (descend_of_change h) hs

/-- A walk keeps what its last step keeps. -/
theorem IsWalk.keeps {walk : List String → Entries → Option Entries} (hw : IsWalk walk)
    {keys : List String} (hk : dateTimeKey ∉ keys)
    (last : ∀ before key, keys = before ++ [key] → key ≠ dateTimeKey →
      Keeps arrays (path ++ before) (walk [key])) : Keeps arrays path (walk keys) := by
  induction keys generalizing path with
  | nil =>
    intro entries entries' h
    rw [hw.nil] at h
    cases h
  | cons key keys ih =>
    rw [List.mem_cons, not_or] at hk
    -- The last step of the whole walk is the last step of the walk below.
    cases keys with
    | nil => simpa using last [] key rfl (Ne.symm hk.1)
    | cons next keys =>
      have below : Keeps arrays (path ++ [key]) (walk (next :: keys)) := by
        refine ih hk.2 fun before k he hne => ?_
        simpa using last (key :: before) k (by rw [he]; rfl) hne
      intro entries entries' h hs
      exact below.descend (Ne.symm hk.1) (hw.descend h) hs

theorem keeps_assign {keys : List String} (hk : dateTimeKey ∉ keys) (hn : node.IsComplete) :
    Keeps arrays path (assign node keys) := by
  refine (isWalk_assign node).keeps hk fun before key _ hne entries entries' h hs => ?_
  simp only [assign] at h
  split at h
  · next hg =>
    obtain rfl := Option.some.inj h
    exact ⟨hs.append hg hne hn.fits, fun _ q hn hat => hat.append hn hg⟩
  · cases h

theorem keeps_declare {keys : List String} (hk : dateTimeKey ∉ keys) :
    Keeps arrays path (declare keys) := by
  refine isWalk_declare.keeps hk fun before key _ hne entries entries' h hs => ?_
  simp only [declare] at h
  split at h
  · next hg =>
    obtain rfl := Option.some.inj h
    exact ⟨hs.append hg hne (fits_table sound_nil), fun _ q hn hat => hat.append hn hg⟩
  · next inner hg =>
    -- The table moves, and it takes along what stands in it.
    obtain rfl := Option.some.inj h
    obtain ⟨nodup, -, fits⟩ := sound_iff.1 hs
    have hinner := (fits key _ hg).1 .implied inner rfl (by simp)
    refine ⟨hs.move hg (fits_table hinner), fun node q hn hat => ?_⟩
    refine hat.of_get? hn key (fun other hne n h => ?_) fun n h => ?_
    · rw [Entries.get?_append_of_ne hne, Entries.get?_erase_of_ne hne, h]
    · obtain rfl := Option.some.inj (hg.symm.trans h)
      refine ⟨not_isComplete_table (by simp), fun _ _ he => ?_⟩
      cases he
      exact ⟨.header, inner, Entries.get?_append_self (Entries.get?_erase_self nodup),
        by simp, fun q h => h⟩
  · cases h

theorem keeps_addElement {keys : List String} (hk : dateTimeKey ∉ keys)
    (ha : arrays (path ++ keys)) : Keeps arrays path (addElement keys) := by
  refine isWalk_addElement.keeps hk fun before key he hne entries entries' h hs => ?_
  have hlast : arrays (path ++ before ++ [key]) := by rwa [List.append_assoc, ← he]
  simp only [addElement] at h
  split at h
  · next hg =>
    obtain rfl := Option.some.inj h
    exact ⟨hs.append hg hne (fits_tables hlast), fun _ q hn hat => hat.append hn hg⟩
  · next earlier last hg =>
    obtain rfl := Option.some.inj h
    exact ⟨hs.put hg (fits_tables hlast), fun node q hn hat => hat.put hn hg nofun nofun⟩
  · cases h

/-! ### Where walks put a node -/

/-- A node that the change below puts in place stands one step further from above, unless
the step leads into an array of tables. -/
theorem Descend.at_cons (hd : Descend f key entries entries') (hs : Sound arrays path entries)
    (ha : ¬arrays (path ++ [key])) {q : List String}
    (hf : ∀ inner inner', Sound arrays (path ++ [key]) inner → f inner = some inner' →
      At node inner' q) : At node entries' (key :: q) := by
  obtain ⟨-, -, fits⟩ := sound_iff.1 hs
  cases hd with
  | new hg ho hfe h' =>
    subst h'
    exact .through (Entries.get?_append_self hg) ho (hf _ _ sound_nil hfe)
  | @table origin inner inner' hg ho hfe h' =>
    subst h'
    exact .through Entries.get?_put_self ho (hf _ _ ((fits key _ hg).1 origin inner rfl ho) hfe)
  | @tables earlier last last' hg hfe h' =>
    exact absurd ((fits key _ hg).2 earlier last rfl) ha

/-- An assigned node stands at its path. -/
theorem at_of_assign {keys : List String} (h : assign node keys entries = some entries')
    (hs : Sound arrays path entries) (ha : ∀ q, q <+: keys → q ≠ [] → ¬arrays (path ++ q)) :
    At node entries' keys := by
  induction keys generalizing path entries entries' with
  | nil => cases h
  | cons key keys ih =>
    cases keys with
    | nil =>
      simp only [assign] at h
      split at h
      · next hg =>
        obtain rfl := Option.some.inj h
        exact .last (Entries.get?_append_self hg)
      · cases h
    | cons next keys =>
      refine (descend_of_assign h).at_cons hs (ha [key] ⟨_, rfl⟩ (by simp)) ?_
      intro inner inner' hs' h'
      refine ih h' hs' fun q hq hne => ?_
      simpa using ha (key :: q) (List.cons_prefix_cons.2 ⟨rfl, hq⟩) (by simp)

/-- What a change at the end of a path puts in place stands behind that path. -/
theorem at_of_changeAt {keys q : List String} (h : changeAt f keys entries = some entries')
    (hs : Sound arrays path entries) (ha : ∀ r, r <+: keys → r ≠ [] → ¬arrays (path ++ r))
    (hf : ∀ inner inner', Sound arrays (path ++ keys) inner → f inner = some inner' →
      At node inner' q) : At node entries' (keys ++ q) := by
  induction keys generalizing path entries entries' with
  | nil => exact hf entries entries' (by simpa using hs) h
  | cons key keys ih =>
    refine (descend_of_change h).at_cons hs (ha [key] ⟨_, rfl⟩ (by simp)) ?_
    intro inner inner' hs' h'
    refine ih h' hs' (fun r hr hne => ?_) fun inner inner' hs'' =>
      hf inner inner' (by simpa using hs'')
    simpa using ha (key :: r) (List.cons_prefix_cons.2 ⟨rfl, hr⟩) (by simp)

/-! ### Where walks cannot go -/

theorem At.ne_nil {q : List String} (h : At node entries q) : q ≠ [] := by
  cases h <;> simp

/-- A step down that succeeds does not end at a complete node; the node stands further
below. -/
theorem At.descend {q : List String} (hat : At node entries (key :: q)) (hn : node.IsComplete)
    (hd : Descend f key entries entries') :
    ∃ inner inner', At node inner q ∧ f inner = some inner' := by
  cases hat with
  | last hg =>
    cases hd with
    | new hg' => cases hg.symm.trans hg'
    | table hg' ho =>
      obtain rfl := Option.some.inj (hg.symm.trans hg')
      exact absurd hn (not_isComplete_table ho)
    | tables hg' =>
      obtain rfl := Option.some.inj (hg.symm.trans hg')
      cases hn
  | through hg ho hat =>
    cases hd with
    | new hg' => cases hg.symm.trans hg'
    | table hg' _ hf =>
      cases Option.some.inj (hg.symm.trans hg')
      exact ⟨_, _, hat, hf⟩
    | tables hg' => cases hg.symm.trans hg'

/-- A change at the end of a path does not go through a complete node; one that stands
behind the path stands in the table that is changed. -/
theorem At.changeAt {keys q : List String} (hat : At node entries q) (hn : node.IsComplete)
    (h : changeAt f keys entries = some entries') : ¬q <+: keys ∧ ∀ r, q = keys ++ r →
      ∃ inner inner', At node inner r ∧ f inner = some inner' := by
  induction keys generalizing entries entries' q with
  | nil =>
    refine ⟨fun hp => hat.ne_nil (List.prefix_nil.1 hp), ?_⟩
    rintro r rfl
    exact ⟨_, _, hat, h⟩
  | cons key keys ih =>
    constructor
    · intro hp
      cases q with
      | nil => exact hat.ne_nil rfl
      | cons key' q =>
        obtain ⟨rfl, hp'⟩ := List.cons_prefix_cons.1 hp
        obtain ⟨inner, inner', hat', h'⟩ := hat.descend hn (descend_of_change h)
        exact (ih hat' h').1 hp'
    · rintro r rfl
      obtain ⟨inner, inner', hat', h'⟩ := hat.descend hn (descend_of_change h)
      exact (ih hat' h').2 r rfl

/-- Two paths of which one goes on where the other ends, or that are the same. -/
def Overlap (p q : List String) : Prop := p <+: q ∨ q <+: p

theorem overlap_cons {a b : String} {p q : List String} :
    Overlap (a :: p) (b :: q) ↔ a = b ∧ Overlap p q := by
  unfold Overlap
  rw [List.cons_prefix_cons, List.cons_prefix_cons]
  grind

theorem overlap_append {p q r : List String} (h : Overlap q (p ++ r)) :
    q <+: p ∨ ∃ s, q = p ++ s ∧ Overlap s r := by
  rcases h with ⟨t, h⟩ | ⟨t, rfl⟩
  · rcases List.append_eq_append_iff.1 h with ⟨s, rfl, -⟩ | ⟨s, rfl, rfl⟩
    · exact .inl ⟨s, rfl⟩
    · exact .inr ⟨s, rfl, .inl ⟨t, rfl⟩⟩
  · exact .inr ⟨r ++ t, by simp, .inr ⟨t, rfl⟩⟩

/-- A walk that overlaps with the way to a complete node gets to its last key on that way. -/
theorem IsWalk.meets {walk : List String → Entries → Option Entries} (hw : IsWalk walk)
    {keys q : List String} (hat : At node entries q) (hn : node.IsComplete)
    (h : walk keys entries = some entries') (ho : Overlap q keys) :
    ∃ before key r inner inner', keys = before ++ [key] ∧ q = before ++ key :: r ∧
      At node inner (key :: r) ∧ walk [key] inner = some inner' := by
  induction keys generalizing entries entries' q with
  | nil =>
    rw [hw.nil] at h
    cases h
  | cons key keys ih =>
    cases q with
    | nil => exact absurd rfl hat.ne_nil
    | cons key' q =>
      obtain ⟨rfl, hq⟩ := overlap_cons.1 ho
      cases keys with
      | nil => exact ⟨[], key', q, _, _, rfl, rfl, hat, h⟩
      | cons next keys =>
        obtain ⟨inner, inner', hat', h'⟩ := hat.descend hn (hw.descend h)
        obtain ⟨before, last, r, _, _, hkeys, rfl, hlast⟩ := ih hat' h' hq
        exact ⟨key' :: before, last, r, _, _, congrArg (key' :: ·) hkeys, rfl, hlast⟩

/-- A walk along the way to a complete node and further finds the node at its last key. -/
theorem IsWalk.meets_node {walk : List String → Entries → Option Entries} (hw : IsWalk walk)
    {keys q : List String} (hat : At node entries q) (hn : node.IsComplete)
    (h : walk keys entries = some entries') (hp : q <+: keys) :
    ∃ key inner inner', Entries.get? inner key = some node ∧ walk [key] inner = some inner' := by
  obtain ⟨before, key, r, inner, inner', rfl, rfl, hat', h'⟩ := hw.meets hat hn h (.inl hp)
  obtain ⟨-, hr⟩ := List.cons_prefix_cons.1 ((List.prefix_append_right_inj _).1 hp)
  obtain rfl := List.prefix_nil.1 hr
  refine ⟨key, inner, inner', ?_, h'⟩
  cases hat' with
  | last hg => exact hg
  | through _ _ hat => exact absurd rfl hat.ne_nil

/-- An assignment does not overlap with a complete node. -/
theorem At.not_overlap_assign {other : Node} {keys q : List String} (hat : At node entries q)
    (hn : node.IsComplete) (h : assign other keys entries = some entries') : ¬Overlap q keys := by
  intro ho
  obtain ⟨before, key, r, inner, inner', -, -, hat', h'⟩ := (isWalk_assign other).meets hat hn h ho
  obtain ⟨n, hg⟩ : ∃ n, Entries.get? inner key = some n := by
    cases hat' with
    | last hg => exact ⟨_, hg⟩
    | through hg => exact ⟨_, hg⟩
  rw [assign, hg] at h'
  cases h'

theorem At.not_overlap_entry {other : Node} {target keys q : List String}
    (hat : At node entries q) (hn : node.IsComplete)
    (h : Node.changeAt (assign other keys) target entries = some entries') :
    ¬Overlap q (target ++ keys) := by
  intro ho
  obtain ⟨hp, hr⟩ := hat.changeAt hn h
  rcases overlap_append ho with h' | ⟨r, hq, ho⟩
  · exact hp h'
  · obtain ⟨inner, inner', hat', h'⟩ := hr r hq
    exact hat'.not_overlap_assign hn h' ho

/-- A header does not name a complete node, nor anything below one. -/
theorem At.not_prefix_declare {keys q : List String} (hat : At node entries q)
    (hn : node.IsComplete) (h : declare keys entries = some entries') : ¬q <+: keys := by
  intro hp
  obtain ⟨key, inner, inner', hg, h'⟩ := isWalk_declare.meets_node hat hn h hp
  cases hn <;> simp [declare, hg] at h'

theorem At.not_prefix_addElement {keys q : List String} (hat : At node entries q)
    (hn : node.IsComplete) (h : addElement keys entries = some entries') : ¬q <+: keys := by
  intro hp
  obtain ⟨key, inner, inner', hg, h'⟩ := isWalk_addElement.meets_node hat hn h hp
  cases hn <;> simp [addElement, hg] at h'

/-! ### From a draft to values -/

theorem entries?_cons_eq_some_iff {n : Node} {table : Table} :
    Node.entries? ((key, n) :: entries) = some table ↔
      ∃ v rest, n.value? = some v ∧ Node.entries? entries = some rest ∧
        table = (key, v) :: rest := by
  rw [Node.entries?]
  cases n.value? <;> cases Node.entries? entries <;> simp [eq_comm]

theorem entries?_append {table table' : Table} (h : Node.entries? entries = some table)
    (h' : Node.entries? entries' = some table') :
    Node.entries? (entries ++ entries') = some (table ++ table') := by
  induction entries generalizing table with
  | nil =>
    obtain rfl := Option.some.inj h
    exact h'
  | cons entry entries ih =>
    obtain ⟨v, rest, hv, hrest, rfl⟩ := entries?_cons_eq_some_iff.1 h
    exact entries?_cons_eq_some_iff.2 ⟨v, _, hv, ih hrest, rfl⟩

/-- The value of every entry by itself. -/
theorem entries?_map {α : Type} {name : α → String} {node : α → Node} {value : α → Value}
    {all : List α} (h : ∀ a ∈ all, (node a).value? = some (value a)) :
    Node.entries? (all.map fun a => (name a, node a)) =
      some (all.map fun a => (name a, value a)) := by
  induction all with
  | nil => rfl
  | cons a all ih =>
    exact entries?_cons_eq_some_iff.2 ⟨value a, _, h a List.mem_cons_self,
      ih fun b hb => h b (List.mem_cons_of_mem _ hb), rfl⟩

/-- Entries that all have values. -/
theorem exists_entries? (h : ∀ key n, (key, n) ∈ entries → ∃ v, n.value? = some v) :
    ∃ table, Node.entries? entries = some table := by
  induction entries with
  | nil => exact ⟨[], rfl⟩
  | cons entry entries ih =>
    obtain ⟨v, hv⟩ := h entry.1 entry.2 List.mem_cons_self
    obtain ⟨rest, hrest⟩ := ih fun key n hmem => h key n (List.mem_cons_of_mem _ hmem)
    exact ⟨_, entries?_cons_eq_some_iff.2 ⟨v, rest, hv, hrest, rfl⟩⟩

theorem keys_of_entries? {table : Table} (h : Node.entries? entries = some table) :
    Entries.keys table = Entries.keys entries := by
  induction entries generalizing table with
  | nil =>
    obtain rfl := Option.some.inj h
    rfl
  | cons entry entries ih =>
    obtain ⟨v, rest, -, hrest, rfl⟩ := entries?_cons_eq_some_iff.1 h
    rw [Entries.keys_cons, Entries.keys_cons, ih hrest]

theorem get?_of_entries? {n : Node} {table : Table} (h : Node.entries? entries = some table)
    (hg : Entries.get? entries key = some n) :
    ∃ v, n.value? = some v ∧ Entries.get? table key = some v := by
  induction entries generalizing table with
  | nil => cases hg
  | cons entry entries ih =>
    obtain ⟨v, rest, hv, hrest, rfl⟩ := entries?_cons_eq_some_iff.1 h
    rw [Entries.get?_cons] at hg ⊢
    split at hg
    · next hk =>
      obtain rfl := Option.some.inj hg
      exact ⟨v, hv, if_pos hk⟩
    · next hk =>
      rw [if_neg hk]
      exact ih hrest hg

/-- A table whose first key is not the date-time key is a table of what its entries are. -/
theorem tableValue?_of_head?_ne (h : (Entries.keys entries).head? ≠ some dateTimeKey) :
    Node.tableValue? entries = (Node.entries? entries).map .table := by
  cases entries with
  | nil => rfl
  | cons entry entries =>
    obtain ⟨key, n⟩ := entry
    have hk : key ≠ dateTimeKey := fun he => h (he ▸ rfl)
    unfold Node.tableValue?
    rw [if_neg hk, Node.entries?]
    cases n.value? <;> cases Node.entries? entries <;> rfl

/-- A table of a draft, of whatever origin, that does not stand for a date-time. -/
theorem value?_table {origin : Origin} {table : Table} (h : Node.entries? entries = some table)
    (hc : dateTimeKey ∉ Entries.keys entries) :
    (Node.table origin entries).value? = some (.table table) := by
  rw [Node.value?, tableValue?_of_head?_ne fun hk => hc (List.mem_of_head? hk), h, Option.map_some]

theorem Sound.tableValue? (hs : Sound arrays path entries) :
    Node.tableValue? entries = (Node.entries? entries).map .table := by
  obtain ⟨-, clean, -⟩ := sound_iff.1 hs
  exact tableValue?_of_head?_ne fun h => clean (List.mem_of_head? h)

/-- **What stands at a path of a sound draft is found there** in the finished table. -/
theorem At.holds {q : List String} (hat : At node entries q) (hs : Sound arrays path entries)
    {table : Table} (h : Node.entries? entries = some table) :
    ∃ v, node.value? = some v ∧ Table.Holds table q v := by
  induction hat generalizing path table with
  | last hg =>
    obtain ⟨v, hv, hg'⟩ := get?_of_entries? h hg
    exact ⟨v, hv, .last hg'⟩
  | @through entries inner key origin q hg ho hat ih =>
    obtain ⟨-, -, fits⟩ := sound_iff.1 hs
    have hs' := (fits key _ hg).1 origin inner rfl ho
    obtain ⟨w, hw, hg'⟩ := get?_of_entries? h hg
    rw [Node.value?, hs'.tableValue?] at hw
    obtain ⟨innerTable, hi, rfl⟩ := Option.map_eq_some_iff.1 hw
    obtain ⟨v, hv, hold⟩ := ih hs' hi
    exact ⟨v, hv, .through hg' hold⟩

end Node

end WorkspaceFacts.Toml
