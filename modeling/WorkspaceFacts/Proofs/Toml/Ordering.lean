import WorkspaceFacts.Proofs.Toml.Distinct
import WorkspaceFacts.Proofs.Toml.Positions

/-!
# What a statement does to the order of keys

A draft is in order if the keys of all its tables stand in the order of their positions
(`WorkspaceFacts.Toml.Node.InOrder`). A walk with its mentions keeps that. It takes in a new key at
the end, or changes what is under a key whose position stays, or moves an implied table to the end
when that gets a header, and with it a later position.

The mentions have to agree with the draft on more than the order of keys. They tell which element
of an array of tables is the last one, so that a walk and its mentions go the same way; and they
tell which tables are implied, since these are the only ones that can still move
(`WorkspaceFacts.Toml.Node.Stage`).
-/

namespace WorkspaceFacts.Toml

variable {m : Mention} {mentions mentions' told : List Mention} {keys : List String}
  {key other : String}

/-! ### Keys in order -/

theorem within_append_below_self (key : String) (mentions told : List Mention) :
    within (.key key) (mentions ++ told.map (Mention.below [.key key])) =
      within (.key key) mentions ++ told := by
  rw [within_append, within_map_below_self, map_below_nil]

theorem within_append_below_of_ne (h : key ≠ other) (mentions told : List Mention) :
    within (.key other) (mentions ++ told.map (Mention.below [.key key])) =
      within (.key other) mentions := by
  rw [within_append, within_map_below_of_ne (fun he => h (Step.key.inj he)), List.append_nil]

theorem InKeyOrder.nodup (h : InKeyOrder mentions keys) : keys.Nodup :=
  h.increasing.imp fun {a b} hlt (he : a = b) => by
    subst he
    exact Nat.lt_irrefl _ hlt

theorem inKeyOrder_nil (h : ∀ key, within (.key key) mentions = []) : InKeyOrder mentions [] where
  mentioned key := by simp [h key]
  increasing := .nil

/-- Only what is mentioned behind the keys counts. -/
theorem InKeyOrder.congr (h : InKeyOrder mentions keys)
    (hw : ∀ key, within (.key key) mentions' = within (.key key) mentions) :
    InKeyOrder mentions' keys where
  mentioned key := by rw [hw, h.mentioned]
  increasing := by simpa only [hw] using h.increasing

/-- A key that keeps its position keeps its place. -/
theorem InKeyOrder.stay (h : InKeyOrder mentions keys) (hk : key ∈ keys)
    (hp : position (within (.key key) mentions ++ told) = position (within (.key key) mentions)) :
    InKeyOrder (mentions ++ told.map (Mention.below [.key key])) keys := by
  refine ⟨fun other => ?_, h.increasing.imp fun {a b} hlt => ?_⟩
  · by_cases hne : key = other
    · subst hne
      rw [within_append_below_self]
      exact iff_of_true hk (List.append_ne_nil_of_left_ne_nil ((h.mentioned key).1 hk) _)
    · rw [within_append_below_of_ne hne, h.mentioned]
  · have hpos : ∀ other,
        position (within (.key other) (mentions ++ told.map (Mention.below [.key key]))) =
          position (within (.key other) mentions) := by
      intro other
      by_cases hne : key = other
      · subst hne
        rw [within_append_below_self, hp]
      · rw [within_append_below_of_ne hne]
    rwa [hpos, hpos]

/-- A key whose position is that of a later mention goes to the end, wherever it has been. -/
theorem InKeyOrder.toEnd (h : InKeyOrder mentions keys) (hf : Follows mentions told)
    (hp : ∃ m ∈ told, position (within (.key key) mentions ++ told) = m.position) :
    InKeyOrder (mentions ++ told.map (Mention.below [.key key])) (keys.erase key ++ [key]) := by
  obtain ⟨m, hm, hp⟩ := hp
  refine ⟨fun other => ?_, List.pairwise_append.2 ⟨?_, List.pairwise_singleton _ _, ?_⟩⟩
  · rw [List.mem_append, List.mem_singleton]
    by_cases hne : key = other
    · subst hne
      rw [within_append_below_self]
      exact iff_of_true (.inr rfl) (List.append_ne_nil_of_right_ne_nil _ (List.ne_nil_of_mem hm))
    · rw [within_append_below_of_ne hne, ← h.mentioned, List.mem_erase_of_ne (Ne.symm hne)]
      exact or_iff_left (Ne.symm hne)
  · refine (h.increasing.sublist List.erase_sublist).imp_of_mem fun {a b} ha hb hlt => ?_
    have hane : key ≠ a := fun he => h.nodup.not_mem_erase (he ▸ ha)
    have hbne : key ≠ b := fun he => h.nodup.not_mem_erase (he ▸ hb)
    rwa [within_append_below_of_ne hane, within_append_below_of_ne hbne]
  · intro a ha b hb
    obtain rfl := List.mem_singleton.1 hb
    have hne : b ≠ a := fun he => h.nodup.not_mem_erase (he ▸ ha)
    rw [within_append_below_self, within_append_below_of_ne hne, hp]
    -- The position of the other key is that of a mention from before.
    obtain ⟨m', hm', hp'⟩ := exists_position_eq ((h.mentioned a).1 (List.mem_of_mem_erase ha))
    rw [hp']
    exact hf.within _ m' hm' m hm

namespace Node

/-! ### Nodes in order -/

/-- What the mentions of a table say about how it came about: it is implied if and only if it
can still be declared. -/
structure Stage (mentions : List Mention) (origin : Origin) : Prop where
  implied : origin = .implied → Implied mentions
  settled : origin ≠ .implied → Settled mentions

theorem stage_of_settled {origin : Origin} (ho : origin ≠ .implied) (h : Settled mentions) :
    Stage mentions origin := ⟨fun he => absurd he ho, fun _ => h⟩

/-- **The keys of every table in a node stand in the order of their positions**, at every depth,
and the mentions tell of every table how it can be added to: whether it can be declared, and
which element of an array of tables is the last one. -/
inductive InOrder : List Mention → Node → Prop
  | scalar (mentions : List Mention) (s : Scalar) : InOrder mentions (.scalar s)
  | array {mentions : List Mention} {items : List Node}
      (h : ∀ i n, items[i]? = some n → InOrder (within (.item i) mentions) n) :
      InOrder mentions (.array items)
  | table {mentions : List Mention} {origin : Origin} {entries : Entries}
      (stage : Stage mentions origin) (flat : elements mentions = 0)
      (keys : InKeyOrder mentions (Entries.keys entries))
      (h : ∀ key n, Entries.get? entries key = some n → InOrder (within (.key key) mentions) n) :
      InOrder mentions (.table origin entries)
  | tables {mentions : List Mention} {earlier : List Entries} {last : Entries}
      (settled : Settled mentions) (count : elements mentions = earlier.length + 1)
      (bounded : ∀ i, within (.item i) mentions ≠ [] → i ≤ earlier.length)
      (keys : ∀ i entries, (earlier ++ [last])[i]? = some entries →
        InKeyOrder (within (.item i) mentions) (Entries.keys entries))
      (h : ∀ i entries, (earlier ++ [last])[i]? = some entries → ∀ key n,
        Entries.get? entries key = some n →
          InOrder (within (.key key) (within (.item i) mentions)) n) :
      InOrder mentions (.tables earlier last)

/-- The entries of a table in order, at every depth. -/
structure InOrderEntries (mentions : List Mention) (entries : Entries) : Prop where
  keys : InKeyOrder mentions (Entries.keys entries)
  nodes : ∀ key n, Entries.get? entries key = some n → InOrder (within (.key key) mentions) n

variable {node old : Node} {entries entries' : Entries} {origin : Origin}

theorem inOrder_table_iff : InOrder mentions (.table origin entries) ↔
    Stage mentions origin ∧ elements mentions = 0 ∧ InOrderEntries mentions entries := by
  constructor
  · rintro (_ | _ | ⟨stage, flat, keys, h⟩)
    exact ⟨stage, flat, keys, h⟩
  · rintro ⟨stage, flat, keys, h⟩
    exact .table stage flat keys h

theorem inOrder_tables_iff {earlier : List Entries} {last : Entries} :
    InOrder mentions (.tables earlier last) ↔
      Settled mentions ∧ elements mentions = earlier.length + 1 ∧
        (∀ i, within (.item i) mentions ≠ [] → i ≤ earlier.length) ∧
        ∀ i entries, (earlier ++ [last])[i]? = some entries →
          InOrderEntries (within (.item i) mentions) entries := by
  constructor
  · rintro (_ | _ | _ | ⟨settled, count, bounded, keys, h⟩)
    exact ⟨settled, count, bounded, fun i entries he => ⟨keys i entries he, h i entries he⟩⟩
  · rintro ⟨settled, count, bounded, h⟩
    exact .tables settled count bounded (fun i entries he => (h i entries he).keys)
      fun i entries he => (h i entries he).nodes

/-! ### Changes under one key -/

theorem inOrderEntries_nil (h : ∀ key, within (.key key) mentions = []) :
    InOrderEntries mentions [] := ⟨inKeyOrder_nil h, nofun⟩

theorem InOrderEntries.congr (h : InOrderEntries mentions entries)
    (hw : ∀ key, within (.key key) mentions' = within (.key key) mentions) :
    InOrderEntries mentions' entries :=
  ⟨h.keys.congr hw, fun key n hg => hw key ▸ h.nodes key n hg⟩

/-- A new key has not been mentioned. -/
theorem InOrderEntries.within_eq_nil (h : InOrderEntries mentions entries)
    (hg : Entries.get? entries key = none) : within (.key key) mentions = [] := by
  by_contra hne
  exact Entries.get?_eq_none_iff.1 hg ((h.keys.mentioned key).2 hne)

theorem InOrderEntries.within_ne_nil (h : InOrderEntries mentions entries)
    (hg : Entries.get? entries key = some node) : within (.key key) mentions ≠ [] :=
  (h.keys.mentioned key).1 (Entries.mem_keys_of_get? hg)

/-- Entries that differ from those in order under one key only, and whose keys are in order. -/
theorem InOrderEntries.of_get? (h : InOrderEntries mentions entries)
    (hkeys : InKeyOrder (mentions ++ told.map (Mention.below [.key key])) (Entries.keys entries'))
    (same : ∀ other, key ≠ other → Entries.get? entries' other = Entries.get? entries other)
    (hg : Entries.get? entries' key = some node)
    (hn : InOrder (within (.key key) mentions ++ told) node) :
    InOrderEntries (mentions ++ told.map (Mention.below [.key key])) entries' := by
  refine ⟨hkeys, fun other n ho => ?_⟩
  by_cases hne : key = other
  · subst hne
    obtain rfl := Option.some.inj (hg.symm.trans ho)
    rwa [within_append_below_self]
  · rw [within_append_below_of_ne hne]
    exact h.nodes other n (same other hne ▸ ho)

/-- A new key at the end. -/
theorem InOrderEntries.append (h : InOrderEntries mentions entries) (hf : Follows mentions told)
    (hg : Entries.get? entries key = none) (htold : told ≠ []) (hn : InOrder told node) :
    InOrderEntries (mentions ++ told.map (Mention.below [.key key]))
      (entries ++ [(key, node)]) := by
  have hnil := h.within_eq_nil hg
  have hkeys : InKeyOrder (mentions ++ told.map (Mention.below [.key key]))
      ((Entries.keys entries).erase key ++ [key]) := by
    refine h.keys.toEnd hf ?_
    rw [hnil]
    exact exists_position_eq htold
  rw [List.erase_of_not_mem (Entries.get?_eq_none_iff.1 hg)] at hkeys
  refine h.of_get? ?_ (fun other => Entries.get?_append_of_ne) (Entries.get?_append_self hg) ?_
  · rwa [Entries.keys_append]
  · rwa [hnil]

/-- A change under a key that keeps its position. -/
theorem InOrderEntries.put (h : InOrderEntries mentions entries)
    (hg : Entries.get? entries key = some old)
    (hp : position (within (.key key) mentions ++ told) = position (within (.key key) mentions))
    (hn : InOrder (within (.key key) mentions ++ told) node) :
    InOrderEntries (mentions ++ told.map (Mention.below [.key key]))
      (Entries.put entries key node) := by
  refine h.of_get? ?_ (fun other => Entries.get?_put_of_ne) Entries.get?_put_self hn
  rw [Entries.keys_put hg]
  exact h.keys.stay (Entries.mem_keys_of_get? hg) hp

/-- An entry that moves to the end. -/
theorem InOrderEntries.move (h : InOrderEntries mentions entries) (hf : Follows mentions told)
    (hp : ∃ m ∈ told, position (within (.key key) mentions ++ told) = m.position)
    (hn : InOrder (within (.key key) mentions ++ told) node) :
    InOrderEntries (mentions ++ told.map (Mention.below [.key key]))
      (Entries.erase entries key ++ [(key, node)]) := by
  refine h.of_get? ?_ (fun other hne => ?_)
    (Entries.get?_append_self (Entries.get?_erase_self h.keys.nodup)) hn
  · rw [Entries.keys_append, Entries.keys_erase]
    exact h.keys.toEnd hf hp
  · rw [Entries.get?_append_of_ne hne, Entries.get?_erase_of_ne hne]

/-! ### One step down -/

theorem Stage.append (h : Stage mentions origin) (hne : mentions ≠ [])
    (htold : ∀ m ∈ told, ¬m.declares) : Stage (mentions ++ told) origin :=
  ⟨fun ho => (h.implied ho).append htold, fun ho => (h.settled ho).append hne told⟩

/-- Mentions that go on in a table leave the table what it is. -/
theorem inOrder_table_append (h : InOrder mentions (.table origin entries))
    (hne : mentions ≠ []) (hdeep : Deep told) (hin : InOrderEntries (mentions ++ told) entries') :
    InOrder (mentions ++ told) (.table origin entries') := by
  obtain ⟨stage, flat, -⟩ := inOrder_table_iff.1 h
  have hnot := hdeep.not_declares []
  have hflat := hdeep.elements_eq_zero []
  rw [map_below_nil] at hnot hflat
  exact inOrder_table_iff.2 ⟨stage.append hne hnot, by rw [elements_append, flat, hflat], hin⟩

/-- Mentions that go on in the last element leave the others what they are. -/
theorem inOrder_tables_append {earlier : List Entries} {last last' : Entries}
    (h : InOrder mentions (.tables earlier last)) (hne : mentions ≠ []) (hdeep : Deep told)
    (hin : InOrderEntries (within (.item earlier.length) mentions ++ told) last') :
    InOrder (mentions ++ told.map (Mention.below [.item earlier.length]))
      (.tables earlier last') := by
  obtain ⟨settled, count, bounded, elems⟩ := inOrder_tables_iff.1 h
  have hother : ∀ i, i ≠ earlier.length →
      within (.item i) (mentions ++ told.map (Mention.below [.item earlier.length])) =
        within (.item i) mentions := by
    intro i hi
    rw [within_append, within_map_below_of_ne (fun he => hi (Step.item.inj he).symm),
      List.append_nil]
  refine inOrder_tables_iff.2 ⟨settled.append hne _, ?_, fun i hi => ?_, fun i entries he => ?_⟩
  · rw [elements_append, hdeep.elements_eq_zero, count]
  · by_cases hlast : i = earlier.length
    · exact Nat.le_of_eq hlast
    · rw [hother i hlast] at hi
      exact bounded i hi
  · rcases Nat.lt_trichotomy i earlier.length with hi | rfl | hi
    · rw [List.getElem?_append_left hi] at he
      rw [hother i (Nat.ne_of_lt hi)]
      exact elems i entries (by rwa [List.getElem?_append_left hi])
    · rw [List.getElem?_concat_length] at he
      obtain rfl := Option.some.inj he
      rwa [within_append, within_map_below_self, map_below_nil]
    · rw [List.getElem?_eq_none (by rwa [List.length_append])] at he
      cases he

variable {f : Entries → Option Entries}

/-- **A step down keeps the order** if the change below does. A table that is made on the way
must be in the stage that its mentions tell. -/
theorem InOrderEntries.descend (h : InOrderEntries mentions entries)
    (hd : Descend f key entries entries') (hf : Follows mentions told)
    (hdeep : Deep told) (htold : told ≠ [])
    (hnew : Entries.get? entries key = none → ∃ origin inner,
      entries' = entries ++ [(key, .table origin inner)] ∧ Stage told origin)
    (below : ∀ inner inner', f inner = some inner' →
      InOrderEntries (enter (within (.key key) mentions)) inner →
        InOrderEntries (enter (within (.key key) mentions) ++ told) inner') :
    InOrderEntries (mentions ++
      told.map (Mention.below (.key key :: entering (within (.key key) mentions)))) entries' := by
  have hcons : told.map (Mention.below (.key key :: entering (within (.key key) mentions))) =
      (told.map (Mention.below (entering (within (.key key) mentions)))).map
        (Mention.below [.key key]) := map_below_append [.key key] _ _
  rw [hcons]
  -- None of the mentions declares what is under the key, so the key keeps its position.
  have hstay : within (.key key) mentions ≠ [] →
      position (within (.key key) mentions ++
        told.map (Mention.below (entering (within (.key key) mentions)))) =
          position (within (.key key) mentions) :=
    fun hne => position_append hne (hdeep.not_declares _)
  cases hd with
  | @new origin inner hg ho hfe h' =>
    have hnil := h.within_eq_nil hg
    obtain ⟨origin', inner', he, stage⟩ := hnew hg
    obtain ⟨rfl, rfl⟩ : origin = origin' ∧ inner = inner' := by simpa [h'] using he
    subst h'
    have hflat := hdeep.elements_eq_zero []
    rw [map_below_nil] at hflat
    rw [hnil, entering_of_flat rfl, map_below_nil]
    rw [hnil, enter_of_flat rfl] at below
    exact h.append hf hg htold (inOrder_table_iff.2
      ⟨stage, hflat, below [] inner hfe (inOrderEntries_nil fun _ => rfl)⟩)
  | @table origin inner inner' hg ho hfe h' =>
    subst h'
    have hne := h.within_ne_nil hg
    have htable := h.nodes key _ hg
    obtain ⟨-, flat, hin⟩ := inOrder_table_iff.1 htable
    rw [enter_of_flat flat] at below
    refine h.put hg (hstay hne) ?_
    rw [entering_of_flat flat, map_below_nil]
    exact inOrder_table_append htable hne hdeep (below inner inner' hfe hin)
  | @tables earlier last last' hg hfe h' =>
    subst h'
    have hne := h.within_ne_nil hg
    have htables := h.nodes key _ hg
    obtain ⟨-, count, -, elems⟩ := inOrder_tables_iff.1 htables
    rw [enter_of_elements_eq count] at below
    refine h.put hg (hstay hne) ?_
    rw [entering_of_elements_eq count]
    exact inOrder_tables_append htables hne hdeep
      (below last last' hfe (elems _ last List.getElem?_concat_length))

/-! ### Walks -/

/-- What the mentions of a table that is made on the way must be like. -/
structure Makes (walk : List String → Entries → Option Entries) (origin : Origin)
    (told : List Mention) : Prop where
  new {key next : String} {keys : List String} {entries entries' : Entries}
    (h : walk (key :: next :: keys) entries = some entries')
    (hg : Entries.get? entries key = none) :
    ∃ inner, entries' = entries ++ [(key, .table origin inner)]
  stage (key : String) (address : Address) :
    Stage (told.map (Mention.below (.key key :: address))) origin

/-- **A walk keeps the order** if its last step does. The statement is seen from the table where
the walk begins: `told` is what it mentions of the part that its path leads to. -/
theorem IsWalk.inOrderEntries {walk : List String → Entries → Option Entries} (hw : IsWalk walk)
    {last : List Mention → Address} (htold : told ≠ []) (hm : Makes walk origin told)
    (base : ∀ key mentions entries entries', walk [key] entries = some entries' →
      InOrderEntries mentions entries → Follows mentions told →
        InOrderEntries (mentions ++ told.map (Mention.below (address last [key] mentions)))
          entries')
    {keys : List String} (h : walk keys entries = some entries')
    (ho : InOrderEntries mentions entries) (hf : Follows mentions told) :
    InOrderEntries (mentions ++ told.map (Mention.below (address last keys mentions)))
      entries' := by
  induction keys generalizing mentions entries entries' with
  | nil =>
    rw [hw.nil] at h
    cases h
  | cons key keys ih =>
    cases keys with
    | nil => exact base key mentions entries entries' h ho hf
    | cons next keys =>
      have hcons : told.map (Mention.below (address last (key :: next :: keys) mentions)) =
          (told.map (Mention.below (address last (next :: keys)
            (enter (within (.key key) mentions))))).map
              (Mention.below (.key key :: entering (within (.key key) mentions))) :=
        map_below_append (.key key :: entering (within (.key key) mentions)) _ _
      rw [hcons]
      refine ho.descend (hw.descend h) ((follows_map_below _).2 hf)
        (deep_map_below_address last next keys _ told) (by simpa using htold) (fun hg => ?_)
        fun inner inner' h' hin => ih h' hin (hf.within _).enter
      obtain ⟨inner, he⟩ := hm.new h hg
      obtain ⟨rest, hrest⟩ :=
        exists_address_cons last next keys (enter (within (.key key) mentions))
      rw [hrest]
      exact ⟨origin, inner, he, hm.stage next rest⟩

theorem assign_eq_append {next : String} {keys : List String}
    (h : assign node (key :: next :: keys) entries = some entries')
    (hg : Entries.get? entries key = none) :
    ∃ inner, entries' = entries ++ [(key, .table .dotted inner)] := by
  rw [assign, hg] at h
  obtain ⟨inner, -, rfl⟩ := Option.map_eq_some_iff.1 h
  exact ⟨inner, rfl⟩

theorem change_eq_append (h : change f key entries = some entries')
    (hg : Entries.get? entries key = none) :
    ∃ inner, entries' = entries ++ [(key, .table .implied inner)] := by
  rw [change, hg] at h
  obtain ⟨inner, -, rfl⟩ := Option.map_eq_some_iff.1 h
  exact ⟨inner, rfl⟩

/-- **An assignment keeps the order.** -/
theorem inOrderEntries_assign (h : assign node keys entries = some entries')
    (ho : InOrderEntries mentions entries) (hf : Follows mentions told) (htold : told ≠ [])
    (ha : Assigned told) (hn : InOrder told node) :
    InOrderEntries (mentions ++ told.map (Mention.below (address toPart keys mentions)))
      entries' := by
  have hm : Makes (assign node) .dotted told :=
    ⟨assign_eq_append, fun key address =>
      stage_of_settled (by decide) (assigned_map_below.2 ha).settled⟩
  refine (isWalk_assign node).inOrderEntries htold hm
    (fun key mentions entries entries' h ho hf => ?_) h ho hf
  simp only [assign] at h
  split at h
  · next hg =>
    obtain rfl := Option.some.inj h
    exact ho.append hf hg htold hn
  · cases h

/-- The one mention of a longer header. -/
theorem stage_implied {n : Nat} {kind : Mention.Kind} (hk : kind ≠ .assignment) (key : String)
    (address : Address) :
    Stage ([⟨n, kind, []⟩].map (Mention.below (.key key :: address))) .implied := by
  refine ⟨fun _ => ⟨_, [], rfl, ?_, List.forall_mem_nil _⟩, fun ho => absurd rfl ho⟩
  cases kind with
  | header => rfl
  | arrayHeader => rfl
  | assignment => exact absurd rfl hk

/-- A header mentions the table itself, and it says nothing on what the table holds. -/
theorem within_append_self (h : m.address = []) (step : Step) (mentions : List Mention) :
    within step (mentions ++ [m]) = within step mentions := by
  rw [within_append, within_self_cons h, within_nil, List.append_nil]

/-- **A header keeps the order.** An implied table takes the position of the header and goes to
the end; what it holds stays as it is. -/
theorem inOrderEntries_declare {n : Nat} (h : declare keys entries = some entries')
    (ho : InOrderEntries mentions entries) (hf : Follows mentions [⟨n, .header, []⟩]) :
    InOrderEntries (mentions ++ [⟨n, .header, address toPart keys mentions⟩]) entries' := by
  have hm : Makes declare .implied [⟨n, .header, []⟩] :=
    ⟨change_eq_append, stage_implied (by decide)⟩
  have hself : [⟨n, .header, address toPart keys mentions⟩] =
      [⟨n, .header, []⟩].map (Mention.below (address toPart keys mentions)) := by
    rw [List.map_singleton, Mention.below, List.append_nil]
  rw [hself]
  refine isWalk_declare.inOrderEntries (List.cons_ne_nil _ _) hm
    (fun key mentions entries entries' h ho hf => ?_) h ho hf
  simp only [declare] at h
  split at h
  · next hg =>
    obtain rfl := Option.some.inj h
    exact ho.append hf hg (List.cons_ne_nil _ _) (inOrder_table_iff.2
      ⟨stage_of_settled (by decide) (settled_cons rfl []), rfl,
        inOrderEntries_nil fun key => within_self_cons rfl _ _⟩)
  · next inner hg =>
    obtain rfl := Option.some.inj h
    obtain ⟨stage, flat, hin⟩ := inOrder_table_iff.1 (ho.nodes key _ hg)
    have himplied := stage.implied rfl
    refine ho.move hf ⟨_, List.mem_singleton_self _, himplied.position rfl⟩
      (inOrder_table_iff.2 ⟨stage_of_settled (by decide) (himplied.settled rfl), ?_, ?_⟩)
    · rw [elements_append, flat]
      rfl
    · exact hin.congr fun key => within_append_self rfl _ _
  · cases h

/-- A new element at the end of an array of tables. -/
theorem inOrder_tables_open {n : Nat} {earlier : List Entries}
    (settled : Settled (mentions ++ [⟨n, .arrayHeader, [.item earlier.length]⟩]))
    (count : elements mentions = earlier.length)
    (bounded : ∀ i, within (.item i) mentions ≠ [] → i < earlier.length)
    (elems : ∀ i entries, earlier[i]? = some entries →
      InOrderEntries (within (.item i) mentions) entries) :
    InOrder (mentions ++ [⟨n, .arrayHeader, [.item earlier.length]⟩]) (.tables earlier []) := by
  have hother : ∀ i, i ≠ earlier.length →
      within (.item i) (mentions ++ [⟨n, .arrayHeader, [.item earlier.length]⟩]) =
        within (.item i) mentions := by
    intro i hi
    have hnil : within (.item i) [⟨n, .arrayHeader, [.item earlier.length]⟩] = [] :=
      within_map_below_of_ne (fun he => hi (Step.item.inj he).symm) [] [⟨n, .arrayHeader, []⟩]
    rw [within_append, hnil, List.append_nil]
  refine inOrder_tables_iff.2 ⟨settled, ?_, fun i hi => ?_, fun i entries he => ?_⟩
  · rw [elements_append, count]
    rfl
  · by_cases hlast : i = earlier.length
    · exact Nat.le_of_eq hlast
    · rw [hother i hlast] at hi
      exact Nat.le_of_lt (bounded i hi)
  · rcases Nat.lt_trichotomy i earlier.length with hi | rfl | hi
    · rw [List.getElem?_append_left hi] at he
      rw [hother i (Nat.ne_of_lt hi)]
      exact elems i entries he
    · rw [List.getElem?_concat_length] at he
      obtain rfl := Option.some.inj he
      -- So far nothing has been mentioned of the new element but its header.
      have hnil : within (.item earlier.length) mentions = [] :=
        by_contra fun hne => Nat.lt_irrefl _ (bounded _ hne)
      have hself : within (.item earlier.length)
          [⟨n, .arrayHeader, [.item earlier.length]⟩] = [⟨n, .arrayHeader, []⟩] :=
        within_map_below_self (.item earlier.length) [] [⟨n, .arrayHeader, []⟩]
      rw [within_append, hnil, hself, List.nil_append]
      exact inOrderEntries_nil fun key => within_self_cons rfl _ _
    · rw [List.getElem?_eq_none (by rwa [List.length_append])] at he
      cases he

/-- **A header in double brackets keeps the order.** The array keeps its position. -/
theorem inOrderEntries_addElement {n : Nat} (h : addElement keys entries = some entries')
    (ho : InOrderEntries mentions entries) (hf : Follows mentions [⟨n, .arrayHeader, []⟩]) :
    InOrderEntries (mentions ++ [⟨n, .arrayHeader, address toNewElement keys mentions⟩])
      entries' := by
  have hm : Makes addElement .implied [⟨n, .arrayHeader, []⟩] :=
    ⟨change_eq_append, stage_implied (by decide)⟩
  have hself : [⟨n, .arrayHeader, address toNewElement keys mentions⟩] =
      [⟨n, .arrayHeader, []⟩].map (Mention.below (address toNewElement keys mentions)) := by
    rw [List.map_singleton, Mention.below, List.append_nil]
  rw [hself]
  refine isWalk_addElement.inOrderEntries (List.cons_ne_nil _ _) hm
    (fun key mentions entries entries' h ho hf => ?_) h ho hf
  -- As seen from under the key, the header opens the element after those there are.
  have hopen : [⟨n, .arrayHeader, []⟩].map (Mention.below (address toNewElement [key] mentions)) =
      [⟨n, .arrayHeader, [.item (elements (within (.key key) mentions))]⟩].map
        (Mention.below [.key key]) := rfl
  have hf' : ∀ i, Follows mentions [⟨n, .arrayHeader, [.item i]⟩] :=
    fun i => (follows_map_below [.item i]).2 hf
  rw [hopen]
  simp only [addElement] at h
  split at h
  · next hg =>
    obtain rfl := Option.some.inj h
    rw [ho.within_eq_nil hg, elements_nil]
    have hfirst : InOrder ([] ++ [⟨n, .arrayHeader, [.item (List.length [])]⟩]) (.tables [] []) :=
      inOrder_tables_open (settled_cons rfl []) rfl (fun i hi => absurd rfl hi)
        fun i entries he => by simp at he
    exact ho.append (hf' 0) hg (List.cons_ne_nil _ _) hfirst
  · next earlier last hg =>
    obtain rfl := Option.some.inj h
    have hne := ho.within_ne_nil hg
    obtain ⟨settled, count, bounded, elems⟩ := inOrder_tables_iff.1 (ho.nodes key _ hg)
    have hlen : (earlier ++ [last]).length = earlier.length + 1 := List.length_append
    rw [count, ← hlen]
    refine ho.put hg (position_append hne ?_) (inOrder_tables_open (settled.append hne _) ?_
      (fun i hi => ?_) elems)
    · rw [List.forall_mem_singleton]
      exact Bool.false_ne_true
    · rw [count, hlen]
    · rw [hlen]
      exact Nat.lt_succ_of_le (bounded i hi)
  · cases h

theorem exists_of_changeAt {keys : List String} (h : changeAt f keys entries = some entries') :
    ∃ inner inner', f inner = some inner' := by
  induction keys generalizing entries entries' with
  | nil => exact ⟨entries, entries', h⟩
  | cons key keys ih =>
    rcases descend_of_change h with ⟨-, -, hf, -⟩ | ⟨-, -, hf, -⟩ | ⟨-, hf, -⟩ <;> exact ih hf

/-- **An assignment below the last header keeps the order.** The header has mentioned all tables
on the way there, so none of them is made. -/
theorem inOrderEntries_changeAt {path target : List String}
    (h : changeAt (assign node path) target entries = some entries')
    (ho : InOrderEntries mentions entries) (hl : Leads target mentions)
    (hf : Follows mentions told) (htold : told ≠ []) (ha : Assigned told) (hn : InOrder told node) :
    InOrderEntries (mentions ++ told.map (Mention.below (address toPart (target ++ path) mentions)))
      entries' := by
  have hpath : path ≠ [] := by
    rintro rfl
    obtain ⟨_, _, hnil⟩ := exists_of_changeAt h
    cases hnil
  induction target generalizing mentions entries entries' with
  | nil => exact inOrderEntries_assign h ho hf htold ha hn
  | cons key target ih =>
    obtain ⟨hne, hl⟩ := hl
    obtain ⟨next, keys, hnext⟩ : ∃ next keys, target ++ path = next :: keys :=
      List.exists_cons_of_ne_nil (List.append_ne_nil_of_right_ne_nil _ hpath)
    have hcons : told.map (Mention.below (address toPart (key :: target ++ path) mentions)) =
        (told.map (Mention.below (address toPart (target ++ path)
          (enter (within (.key key) mentions))))).map
            (Mention.below (.key key :: entering (within (.key key) mentions))) := by
      rw [List.cons_append, hnext]
      exact map_below_append (.key key :: entering (within (.key key) mentions)) _ _
    have hdeep : Deep (told.map (Mention.below (address toPart (target ++ path)
        (enter (within (.key key) mentions))))) := by
      rw [hnext]
      exact deep_map_below_address toPart next keys _ told
    rw [hcons]
    exact ho.descend (descend_of_change h) ((follows_map_below _).2 hf) hdeep (by simpa using htold)
      (fun hg => absurd (ho.within_eq_nil hg) hne)
      fun inner inner' h' hin => ih h' hin hl (hf.within _).enter

end Node

end WorkspaceFacts.Toml
