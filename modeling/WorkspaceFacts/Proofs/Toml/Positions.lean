import WorkspaceFacts.Proofs.Toml.Mentions

/-!
# Positions while a document grows

A statement adds mentions after those there are. This file says what that does to the mentions
behind a step, to the last element of an array of tables, and to the position of a part. A
position can only change in one way: a table that is implied (`WorkspaceFacts.Toml.Implied`) gets
a header of its own. Of all other parts the position is settled
(`WorkspaceFacts.Toml.Settled`).
-/

namespace WorkspaceFacts.Toml

variable {m : Mention} {mentions more told : List Mention} {step : Step} {above : Address}
  {key : String}

/-! ### Mentions from further above -/

theorem Mention.below_below (above above' : Address) (m : Mention) :
    (m.below above').below above = m.below (above ++ above') := by
  rw [below, below, below, List.append_assoc]

@[simp] theorem map_below_nil (mentions : List Mention) :
    mentions.map (Mention.below []) = mentions := List.map_id mentions

/-- To look from further above is to go up step by step. -/
theorem map_below_append (above above' : Address) (mentions : List Mention) :
    mentions.map (Mention.below (above ++ above')) =
      (mentions.map (Mention.below above')).map (Mention.below above) := by
  rw [List.map_map]
  exact List.map_congr_left fun m _ => (Mention.below_below above above' m).symm

/-- Mentions whose addresses all begin alike, as they are seen from where that leads. -/
theorem exists_map_below (above : Address) {addresses : List Address}
    (h : mentions.map Mention.address = addresses.map (above ++ ·)) :
    ∃ seen : List Mention, mentions = seen.map (Mention.below above) ∧
      seen.map Mention.address = addresses := by
  induction addresses generalizing mentions with
  | nil =>
    obtain rfl := List.map_eq_nil_iff.1 h
    exact ⟨[], rfl, rfl⟩
  | cons address addresses ih =>
    obtain ⟨m, mentions, rfl, hm, h⟩ := List.map_eq_cons_iff.1 h
    obtain ⟨seen, rfl, hseen⟩ := ih h
    refine ⟨⟨m.position, m.kind, address⟩ :: seen, ?_, by rw [List.map_cons, hseen]⟩
    have he : m.address = above ++ address := hm
    rw [List.map_cons, Mention.below, ← he]

/-! ### Mentions behind a step -/

@[simp] theorem within_nil (step : Step) : within step [] = [] := rfl

theorem within_append (step : Step) (mentions more : List Mention) :
    within step (mentions ++ more) = within step mentions ++ within step more :=
  List.filterMap_append

/-- A step undoes what the look from above it has added. -/
@[simp] theorem within_map_below_self (step : Step) (above : Address) (mentions : List Mention) :
    within step (mentions.map (Mention.below (step :: above))) =
      mentions.map (Mention.below above) := by
  induction mentions with
  | nil => rfl
  | cons m mentions ih =>
    rw [List.map_cons, List.map_cons, ← ih]
    exact List.filterMap_cons_some (if_pos rfl)

/-- Behind another step there is nothing to be seen. -/
theorem within_map_below_of_ne {first : Step} (h : first ≠ step) (above : Address)
    (mentions : List Mention) :
    within step (mentions.map (Mention.below (first :: above))) = [] := by
  induction mentions with
  | nil => rfl
  | cons m mentions ih =>
    rw [← ih]
    exact List.filterMap_cons_none (if_neg h)

/-- The mention of a part itself says nothing about what lies behind a step. -/
theorem within_self_cons (h : m.address = []) (step : Step) (mentions : List Mention) :
    within step (m :: mentions) = within step mentions := by
  refine List.filterMap_cons_none ?_
  rw [Mention.within?, h]

/-- What is seen behind a step keeps its place in the document and its kind. -/
theorem exists_of_mem_within (h : m ∈ within step mentions) :
    ∃ m' ∈ mentions, m.position = m'.position ∧ m.kind = m'.kind := by
  obtain ⟨m', hmem, hm⟩ := List.mem_filterMap.1 h
  refine ⟨m', hmem, ?_⟩
  unfold Mention.within? at hm
  split at hm
  · cases hm
  · split at hm
    · obtain rfl := Option.some.inj hm
      exact ⟨rfl, rfl⟩
    · cases hm

theorem withinAll_append (address : Address) (mentions more : List Mention) :
    withinAll address (mentions ++ more) =
      withinAll address mentions ++ withinAll address more := by
  induction address generalizing mentions more with
  | nil => rfl
  | cons step address ih =>
    have h := ih (within step mentions) (within step more)
    rw [← within_append] at h
    exact h

/-- The steps of an address lead back to where the mentions were seen from. -/
theorem withinAll_map_below (address : Address) (mentions : List Mention) :
    withinAll address (mentions.map (Mention.below address)) = mentions := by
  induction address with
  | nil => exact map_below_nil mentions
  | cons step address ih =>
    have h : withinAll (step :: address) (mentions.map (Mention.below (step :: address))) =
        withinAll address (within step (mentions.map (Mention.below (step :: address)))) := rfl
    rw [h, within_map_below_self, ih]

theorem exists_of_mem_withinAll {address : Address} (h : m ∈ withinAll address mentions) :
    ∃ m' ∈ mentions, m.position = m'.position ∧ m.kind = m'.kind := by
  induction address generalizing mentions with
  | nil => exact ⟨m, h, rfl, rfl⟩
  | cons step address ih =>
    obtain ⟨m', hm', hp, hk⟩ := ih h
    obtain ⟨m'', hm'', hp', hk'⟩ := exists_of_mem_within hm'
    exact ⟨m'', hm'', hp.trans hp', hk.trans hk'⟩

/-! ### Later mentions -/

/-- **All of the further mentions come later** in the document. -/
def Follows (mentions more : List Mention) : Prop :=
  ∀ m ∈ mentions, ∀ m' ∈ more, m.position < m'.position

theorem Follows.within (h : Follows mentions more) (step : Step) :
    Follows (within step mentions) more := by
  intro m hm m' hm'
  obtain ⟨m'', hm'', hp, -⟩ := exists_of_mem_within hm
  rw [hp]
  exact h m'' hm'' m' hm'

theorem Follows.enter (h : Follows mentions more) : Follows (enter mentions) more := by
  intro m hm m' hm'
  obtain ⟨m'', hm'', hp, -⟩ := exists_of_mem_withinAll hm
  rw [hp]
  exact h m'' hm'' m' hm'

theorem follows_map_below (above : Address) :
    Follows mentions (more.map (Mention.below above)) ↔ Follows mentions more := by
  simp only [Follows, List.forall_mem_map, Mention.below]

/-! ### Positions -/

/-- A position is that of a mention. -/
theorem exists_position_eq (h : mentions ≠ []) :
    ∃ m ∈ mentions, position mentions = m.position := by
  obtain ⟨first, later, rfl⟩ := List.exists_cons_of_ne_nil h
  rw [position]
  split
  · cases hfind : later.find? Mention.declares with
    | none => exact ⟨first, List.mem_cons_self, rfl⟩
    | some m => exact ⟨m, List.mem_cons_of_mem _ (List.mem_of_find?_eq_some hfind), rfl⟩
  · exact ⟨first, List.mem_cons_self, rfl⟩

/-- **The position is settled**, whatever comes later. -/
def Settled (mentions : List Mention) : Prop :=
  ∀ first later, mentions = first :: later → first.implies → ∃ m ∈ later, m.declares

/-- **A longer header has been there first**, and no header of the table itself so far. -/
def Implied (mentions : List Mention) : Prop :=
  ∃ first later, mentions = first :: later ∧ first.implies ∧ ∀ m ∈ later, ¬m.declares

/-- What is first mentioned by anything else than a longer header is settled from then on. -/
theorem settled_cons (h : m.implies = false) (mentions : List Mention) :
    Settled (m :: mentions) := by
  intro first later he hi
  obtain ⟨rfl, -⟩ := List.cons.inj he
  rw [h] at hi
  cases hi

/-- A settled position is not changed by anything that comes later. -/
theorem Settled.append (hs : Settled mentions) (h : mentions ≠ []) (more : List Mention) :
    Settled (mentions ++ more) := by
  obtain ⟨first, later, rfl⟩ := List.exists_cons_of_ne_nil h
  intro first' later' he hi
  obtain ⟨rfl, rfl⟩ := List.cons.inj he
  obtain ⟨m, hm, hd⟩ := hs first later rfl hi
  exact ⟨m, List.mem_append_left _ hm, hd⟩

theorem Implied.append (hi : Implied mentions) (h : ∀ m ∈ more, ¬m.declares) :
    Implied (mentions ++ more) := by
  obtain ⟨first, later, rfl, hf, hl⟩ := hi
  exact ⟨first, later ++ more, rfl, hf, List.forall_mem_append.2 ⟨hl, h⟩⟩

/-- The header of an implied table settles its position. -/
theorem Implied.settled (hi : Implied mentions) (hd : m.declares) : Settled (mentions ++ [m]) := by
  obtain ⟨first, later, rfl, -, -⟩ := hi
  intro first' later' he _
  obtain ⟨-, rfl⟩ := List.cons.inj he
  exact ⟨m, List.mem_append_right _ (List.mem_singleton_self m), hd⟩

/-- Mentions that do not declare the part leave it its position. -/
theorem position_append (h : mentions ≠ []) (hmore : ∀ m ∈ more, ¬m.declares) :
    position (mentions ++ more) = position mentions := by
  obtain ⟨first, later, rfl⟩ := List.exists_cons_of_ne_nil h
  have hnone : more.find? Mention.declares = none := List.find?_eq_none.2 hmore
  rw [List.cons_append, position, position, List.find?_append, hnone, Option.or_none]

/-- A header of its own gives an implied table its position. -/
theorem Implied.position (hi : Implied mentions) (hd : m.declares) :
    position (mentions ++ [m]) = m.position := by
  obtain ⟨first, later, rfl, hf, hl⟩ := hi
  have hnone : later.find? Mention.declares = none := List.find?_eq_none.2 hl
  rw [List.cons_append, Toml.position, if_pos hf, List.find?_append, hnone, Option.none_or,
    List.find?_cons_of_pos hd]
  rfl

/-! ### Headers that go on -/

/-- The mentions all go on to what stands under a key. -/
def Deep (mentions : List Mention) : Prop :=
  ∀ m ∈ mentions, ∃ key rest, m.address = .key key :: rest

/-- A header that goes on is not the one of the table itself. -/
theorem Deep.not_declares (h : Deep mentions) (above : Address) :
    ∀ m ∈ mentions.map (Mention.below above), ¬m.declares := by
  rw [List.forall_mem_map]
  intro m hm
  obtain ⟨key, rest, ha⟩ := h m hm
  have hne : above ++ m.address ≠ [] := by simp [ha]
  unfold Mention.declares Mention.below
  split
  · next he => exact absurd he hne
  · simp

/-- A header that goes on opens no new element. -/
theorem Deep.elements_eq_zero (h : Deep mentions) (above : Address) :
    elements (mentions.map (Mention.below above)) = 0 := by
  rw [elements, List.countP_eq_zero, List.forall_mem_map]
  intro m hm
  obtain ⟨key, rest, ha⟩ := h m hm
  have hne : ∀ i, above ++ m.address ≠ [.item i] := by
    intro i he
    rcases above with _ | ⟨first, above⟩ <;> simp [ha] at he
  unfold Mention.opens Mention.below
  split
  · next he => exact absurd he (hne _)
  · simp

/-! ### Elements of arrays of tables -/

@[simp] theorem elements_nil : elements [] = 0 := rfl

theorem elements_append (mentions more : List Mention) :
    elements (mentions ++ more) = elements mentions + elements more := List.countP_append

/-- A path that goes through an array of tables enters its last element. -/
theorem entering_of_elements_eq {n : Nat} (h : elements mentions = n + 1) :
    entering mentions = [.item n] := by
  rw [entering, h]

theorem entering_of_flat (h : elements mentions = 0) : entering mentions = [] := by
  rw [entering, h]

theorem enter_of_elements_eq {n : Nat} (h : elements mentions = n + 1) :
    enter mentions = within (.item n) mentions := by
  rw [enter, entering_of_elements_eq h]
  rfl

theorem enter_of_flat (h : elements mentions = 0) : enter mentions = mentions := by
  rw [enter, entering_of_flat h]
  rfl

/-- Mentions that go on in the last element leave it the last one. -/
theorem enter_append (h : Deep told) :
    enter (mentions ++ told.map (Mention.below (entering mentions))) = enter mentions ++ told := by
  have he : entering (mentions ++ told.map (Mention.below (entering mentions))) =
      entering mentions := by
    rw [entering, elements_append, h.elements_eq_zero, Nat.add_zero, ← entering]
  rw [enter, he, withinAll_append, withinAll_map_below, ← enter]

/-! ### Assignments -/

/-- All of the mentions are parts of assignments. -/
def Assigned (mentions : List Mention) : Prop := ∀ m ∈ mentions, m.kind = .assignment

theorem Assigned.within (h : Assigned mentions) (step : Step) :
    Assigned (within step mentions) := by
  intro m hm
  obtain ⟨m', hm', -, hk⟩ := exists_of_mem_within hm
  exact hk.trans (h m' hm')

theorem Assigned.withinAll (h : Assigned mentions) (address : Address) :
    Assigned (withinAll address mentions) := by
  intro m hm
  obtain ⟨m', hm', -, hk⟩ := exists_of_mem_withinAll hm
  exact hk.trans (h m' hm')

theorem assigned_map_below :
    Assigned (mentions.map (Mention.below above)) ↔ Assigned mentions := by
  simp only [Assigned, List.forall_mem_map, Mention.below]

/-- Assignments open no element of an array of tables. -/
theorem Assigned.elements_eq_zero (h : Assigned mentions) : elements mentions = 0 := by
  rw [elements, List.countP_eq_zero]
  intro m hm
  unfold Mention.opens
  rw [h m hm]
  simp

/-- Assignments imply no table that could get a header of its own later. -/
theorem Assigned.settled (h : Assigned mentions) : Settled mentions := by
  rintro first later rfl hi
  unfold Mention.implies at hi
  rw [h first List.mem_cons_self] at hi
  simp at hi

/-! ### Key paths -/

theorem exists_address_cons (last : List Mention → Address) (key : String) (keys : List String)
    (mentions : List Mention) : ∃ rest, address last (key :: keys) mentions = .key key :: rest := by
  cases keys with
  | nil => exact ⟨_, rfl⟩
  | cons next keys => exact ⟨_, rfl⟩

/-- Where there are assignments only, a key path leads straight on. -/
theorem Assigned.address_eq (h : Assigned mentions) (path : List String) :
    address toPart path mentions = path.map .key := by
  induction path generalizing mentions with
  | nil => rfl
  | cons key path ih =>
    cases path with
    | nil => rfl
    | cons next keys =>
      have hflat := (h.within (.key key)).elements_eq_zero
      rw [address, entering_of_flat hflat, enter_of_flat hflat, ih (h.within (.key key)),
        List.nil_append]
      rfl

/-- The mentions of a header go on behind every key of its path but the last one. -/
theorem deep_map_below_address (last : List Mention → Address) (key : String)
    (keys : List String) (mentions told : List Mention) :
    Deep (told.map (Mention.below (address last (key :: keys) mentions))) := by
  obtain ⟨rest, h⟩ := exists_address_cons last key keys mentions
  intro m hm
  obtain ⟨m', -, rfl⟩ := List.mem_map.1 hm
  exact ⟨key, rest ++ m'.address, by rw [Mention.below, h, List.cons_append]⟩

/-- **The table at the path has been mentioned**, and so have all tables on the way. -/
def Leads : List String → List Mention → Prop
  | [], _ => True
  | key :: keys, mentions =>
    within (.key key) mentions ≠ [] ∧ Leads keys (enter (within (.key key) mentions))

/-- A header leads to its table from then on. -/
theorem leads_address (last : List Mention → Address) (path : List String)
    (mentions : List Mention) (htold : told ≠ []) :
    Leads path (mentions ++ told.map (Mention.below (address last path mentions))) := by
  induction path generalizing mentions with
  | nil => trivial
  | cons key path ih =>
    cases path with
    | nil =>
      refine ⟨?_, trivial⟩
      rw [address, within_append, within_map_below_self]
      exact List.append_ne_nil_of_right_ne_nil _ (mt List.map_eq_nil_iff.1 htold)
    | cons next keys =>
      have hdeep := deep_map_below_address last next keys (enter (within (.key key) mentions)) told
      unfold Leads
      rw [address, within_append, within_map_below_self, map_below_append, enter_append hdeep]
      exact ⟨List.append_ne_nil_of_right_ne_nil _ (by simpa using htold), ih _⟩

theorem leads_header (n : Nat) (kind : Mention.Kind) (last : List Mention → Address)
    (path : List String) (mentions : List Mention) :
    Leads path (mentions ++ [⟨n, kind, address last path mentions⟩]) := by
  have h := leads_address last path mentions (List.cons_ne_nil ⟨n, kind, []⟩ [])
  rwa [List.map_singleton, Mention.below, List.append_nil] at h

/-- An assignment leaves open what has been open. -/
theorem Leads.append {path : List String} (h : Leads path mentions) (ha : Assigned more) :
    Leads path (mentions ++ more) := by
  induction path generalizing mentions more with
  | nil => trivial
  | cons key path ih =>
    obtain ⟨hne, hl⟩ := h
    have ha' := ha.within (.key key)
    have he : entering (within (.key key) mentions ++ within (.key key) more) =
        entering (within (.key key) mentions) := by
      rw [entering, elements_append, ha'.elements_eq_zero, Nat.add_zero, ← entering]
    unfold Leads
    rw [within_append, enter, he, withinAll_append, ← enter]
    exact ⟨List.append_ne_nil_of_left_ne_nil hne _, ih hl (ha'.withinAll _)⟩

/-! ### Numbered mentions -/

section Numbered

variable {kind : Mention.Kind}

theorem map_address_mentionsFrom (start : Nat) (addresses : List Address) :
    (mentionsFrom start kind addresses).map Mention.address = addresses := by
  induction addresses generalizing start with
  | nil => rfl
  | cons address addresses ih => rw [mentionsFrom, List.map_cons, ih]

theorem mentionsFrom_map_append (start : Nat) (addresses : List Address) :
    mentionsFrom start kind (addresses.map (above ++ ·)) =
      (mentionsFrom start kind addresses).map (Mention.below above) := by
  induction addresses generalizing start with
  | nil => rfl
  | cons address addresses ih =>
    rw [List.map_cons, mentionsFrom, mentionsFrom, List.map_cons, ih]
    rfl

theorem length_mentionsFrom (start : Nat) (addresses : List Address) :
    (mentionsFrom start kind addresses).length = addresses.length := by
  rw [← List.length_map Mention.address, map_address_mentionsFrom]

theorem kind_of_mem_mentionsFrom {start : Nat} {addresses : List Address}
    (h : m ∈ mentionsFrom start kind addresses) : m.kind = kind := by
  induction addresses generalizing start with
  | nil => cases h
  | cons address addresses ih =>
    rcases List.mem_cons.1 h with rfl | h
    · rfl
    · exact ih h

/-- The numbers are given out from the start on, each of them once. -/
theorem position_of_mem_mentionsFrom {start : Nat} {addresses : List Address}
    (h : m ∈ mentionsFrom start kind addresses) :
    start ≤ m.position ∧ m.position < start + addresses.length := by
  induction addresses generalizing start with
  | nil => cases h
  | cons address addresses ih =>
    rw [List.length_cons]
    rcases List.mem_cons.1 h with rfl | h
    · exact ⟨Nat.le_refl start, Nat.lt_add_of_pos_right (Nat.succ_pos _)⟩
    · obtain ⟨hl, hu⟩ := ih h
      omega

theorem pairwise_mentionsFrom (start : Nat) (addresses : List Address) :
    (mentionsFrom start kind addresses).Pairwise (·.position < ·.position) := by
  induction addresses generalizing start with
  | nil => exact .nil
  | cons address addresses ih =>
    exact .cons (fun m hm => (position_of_mem_mentionsFrom hm).1) (ih (start + 1))

end Numbered

end WorkspaceFacts.Toml
