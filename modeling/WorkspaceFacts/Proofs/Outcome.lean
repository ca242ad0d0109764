import Mathlib.Data.List.Forall2
import Mathlib.Tactic.Tauto
import WorkspaceFacts.Trace

/-!
# The outcome of work that leaves a trace

What work ends in depends on the outcomes of its parts only, and on their order. This
file says so for the three ways in which work is put together, in the form in which the
facts about single steps are used: a composite has a result exactly if every part has
one, and otherwise it ends in the error of the first part that has none.
-/

namespace WorkspaceFacts

/-! ### The first item of its kind -/

section First

variable {α β : Type} {P R : α → Prop} {a : α} {as : List α}

/-- **An item of the list meets `R`, and all items before it meet `P`.** -/
def First (P R : α → Prop) (as : List α) : Prop :=
  ∃ before a after, as = before ++ a :: after ∧ (∀ b ∈ before, P b) ∧ R a

theorem not_first_nil : ¬First P R [] := by
  rintro ⟨before, a, after, h, -⟩
  exact List.append_ne_nil_of_right_ne_nil _ (List.cons_ne_nil _ _) h.symm

theorem first_cons : First P R (a :: as) ↔ R a ∨ P a ∧ First P R as := by
  constructor
  · rintro ⟨before, b, after, h, hbefore, hb⟩
    rcases before with _ | ⟨c, before⟩
    · obtain ⟨rfl, -⟩ := List.cons.inj h
      exact .inl hb
    · obtain ⟨rfl, rfl⟩ := List.cons.inj h
      obtain ⟨hc, hbefore⟩ := List.forall_mem_cons.1 hbefore
      exact .inr ⟨hc, before, b, after, rfl, hbefore, hb⟩
  · rintro (ha | ⟨ha, before, b, after, rfl, hbefore, hb⟩)
    · exact ⟨[], a, as, rfl, List.forall_mem_nil _, ha⟩
    · exact ⟨a :: before, b, after, rfl, List.forall_mem_cons.2 ⟨ha, hbefore⟩, hb⟩

theorem first_map {f : α → β} {P R : β → Prop} :
    First P R (as.map f) ↔ First (fun a => P (f a)) (fun a => R (f a)) as := by
  induction as with
  | nil => exact iff_of_false not_first_nil not_first_nil
  | cons a as ih => rw [List.map_cons, first_cons, first_cons, ih]

theorem first_append {bs : List α} :
    First P R (as ++ bs) ↔ First P R as ∨ (∀ a ∈ as, P a) ∧ First P R bs := by
  induction as with
  | nil => simp [not_first_nil]
  | cons a as ih =>
    rw [List.cons_append, first_cons, first_cons, ih, List.forall_mem_cons]
    tauto

/-- The first one of many lists in a row is the first one of the first list that has one. -/
theorem first_flatMap {f : α → List β} {P R : β → Prop} : First P R (as.flatMap f) ↔
    First (fun a => ∀ b ∈ f a, P b) (fun a => First P R (f a)) as := by
  induction as with
  | nil => exact iff_of_false not_first_nil not_first_nil
  | cons a as ih => rw [List.flatMap_cons, first_append, first_cons, ih]

/-- Lists whose items correspond have the same first ones. -/
theorem first_iff_of_forall₂ {S : α → β → Prop} {P' R' : β → Prop} {bs : List β}
    (h : List.Forall₂ S as bs) (hp : ∀ a b, S a b → (P a ↔ P' b))
    (hr : ∀ a b, S a b → (R a ↔ R' b)) : First P R as ↔ First P' R' bs := by
  induction h with
  | nil => exact iff_of_false not_first_nil not_first_nil
  | cons hab _ ih => rw [first_cons, first_cons, hp _ _ hab, hr _ _ hab, ih]

theorem forall_mem_iff_of_forall₂ {S : α → β → Prop} {P' : β → Prop} {bs : List β}
    (h : List.Forall₂ S as bs) (hp : ∀ a b, S a b → (P a ↔ P' b)) :
    (∀ a ∈ as, P a) ↔ ∀ b ∈ bs, P' b := by
  induction h with
  | nil => exact iff_of_true (List.forall_mem_nil _) (List.forall_mem_nil _)
  | cons hab _ ih => rw [List.forall_mem_cons, List.forall_mem_cons, hp _ _ hab, ih]

end First

namespace Traced

variable {α β : Type}

@[simp] theorem outcome_of (r : Except ManifestError α) : (of r).outcome = r := rfl

@[simp] theorem outcome_tell (event : Event) : (tell event).outcome = .ok () := rfl

@[simp] theorem outcome_pure (a : α) : (pure a : Traced α).outcome = .ok a := rfl

/-- One piece of work after another has a result if both have. -/
theorem outcome_bind_eq_ok_iff {work : Traced α} {next : α → Traced β} {b : β} :
    (work >>= next).outcome = .ok b ↔ ∃ a, work.outcome = .ok a ∧ (next a).outcome = .ok b := by
  change (bind work next).outcome = .ok b ↔ _
  unfold bind
  split
  · next a ha => simp [ha]
  · next e he => simp [he]

/-- An event changes nothing about the outcome. -/
@[simp] theorem outcome_tell_bind (event : Event) (next : Unit → Traced β) :
    (tell event >>= next).outcome = (next ()).outcome := rfl

/-- One piece of work after another ends as their outcomes do, one after the other. -/
theorem outcome_bind (work : Traced α) (next : α → Traced β) :
    (work >>= next).outcome = work.outcome.bind fun a => (next a).outcome := by
  obtain ⟨events, outcome⟩ := work
  cases outcome <;> rfl

/-- Work without events passes its result on. -/
theorem outcome_of_bind (r : Except ManifestError α) (next : α → Traced β) :
    (of r >>= next).outcome = r.bind fun a => (next a).outcome :=
  outcome_bind (of r) next

/-- Work on a list has a result if the work on every item has, and the results stand in
the order of the items. -/
theorem outcome_each_eq_ok_iff {work : α → Traced β} {as : List α} {bs : List β} :
    (each work as).outcome = .ok bs ↔ List.Forall₂ (fun a b => (work a).outcome = .ok b) as bs := by
  induction as generalizing bs with
  | nil =>
    rw [List.forall₂_nil_left_iff]
    exact ⟨fun h => (Except.ok.inj h).symm, fun h => h ▸ rfl⟩
  | cons a as ih =>
    rw [each, outcome_bind_eq_ok_iff, List.forall₂_cons_left_iff]
    constructor
    · rintro ⟨b, hb, h⟩
      obtain ⟨bs', hbs, h⟩ := outcome_bind_eq_ok_iff.1 h
      exact ⟨b, bs', hb, ih.1 hbs, (Except.ok.inj h).symm⟩
    · rintro ⟨b, bs', hb, hbs, rfl⟩
      exact ⟨b, hb, outcome_bind_eq_ok_iff.2 ⟨bs', ih.2 hbs, rfl⟩⟩

/-- One piece of work after another fails if the first does, or else if the second does. -/
theorem outcome_bind_eq_error_iff {work : Traced α} {next : α → Traced β} {e : ManifestError} :
    (work >>= next).outcome = .error e ↔ work.outcome = .error e ∨
      ∃ a, work.outcome = .ok a ∧ (next a).outcome = .error e := by
  change (bind work next).outcome = .error e ↔ _
  unfold bind
  split
  · next a ha => simp [ha]
  · next e' he => simp [he]

/-- A last step that only puts the result in another form does not fail. -/
theorem outcome_bind_pure_eq_error_iff {work : Traced α} {f : α → β} {e : ManifestError} :
    (work >>= fun a => (pure (f a) : Traced β)).outcome = .error e ↔ work.outcome = .error e := by
  rw [outcome_bind_eq_error_iff]
  refine or_iff_left ?_
  rintro ⟨a, -, h⟩
  cases h

theorem exists_outcome_bind_pure_iff {work : Traced α} {f : α → β} :
    (∃ b, (work >>= fun a => (pure (f a) : Traced β)).outcome = .ok b) ↔
      ∃ a, work.outcome = .ok a := by
  simp only [outcome_bind_eq_ok_iff]
  constructor
  · rintro ⟨b, a, ha, -⟩
    exact ⟨a, ha⟩
  · rintro ⟨a, ha⟩
    exact ⟨f a, a, ha, rfl⟩

/-- Work on a list has a result if the work on every item has. -/
theorem exists_outcome_each_iff {work : α → Traced β} {as : List α} :
    (∃ bs, (each work as).outcome = .ok bs) ↔ ∀ a ∈ as, ∃ b, (work a).outcome = .ok b := by
  simp only [outcome_each_eq_ok_iff]
  induction as with
  | nil => exact iff_of_true ⟨[], .nil⟩ (List.forall_mem_nil _)
  | cons a as ih =>
    rw [List.forall_mem_cons, ← ih]
    constructor
    · rintro ⟨_, h⟩
      obtain ⟨b, bs, hb, hbs, -⟩ := List.forall₂_cons_left_iff.1 h
      exact ⟨⟨b, hb⟩, bs, hbs⟩
    · rintro ⟨⟨b, hb⟩, bs, hbs⟩
      exact ⟨b :: bs, .cons hb hbs⟩

/-- Work on a list fails as the work on the first item does that has no result. -/
theorem outcome_each_eq_error_iff {work : α → Traced β} {as : List α} {e : ManifestError} :
    (each work as).outcome = .error e ↔
      First (fun a => ∃ b, (work a).outcome = .ok b) (fun a => (work a).outcome = .error e) as := by
  induction as with
  | nil => exact iff_of_false nofun not_first_nil
  | cons a as ih =>
    rw [each, outcome_bind_eq_error_iff, first_cons, ← ih, ← exists_and_right]
    exact or_congr_right (exists_congr fun b => and_congr_right fun _ =>
      outcome_bind_pure_eq_error_iff)

/-- Two lists are related through a third one if their items are related through items. -/
theorem exists_forall₂_iff {γ : Type} {R : α → β → Prop} {S : β → γ → Prop} {as : List α}
    {cs : List γ} : (∃ bs, List.Forall₂ R as bs ∧ List.Forall₂ S bs cs) ↔
      List.Forall₂ (fun a c => ∃ b, R a b ∧ S b c) as cs := by
  constructor
  · rintro ⟨bs, hab, hbc⟩
    induction hab generalizing cs with
    | nil =>
      obtain rfl := List.forall₂_nil_left_iff.1 hbc
      exact .nil
    | cons hr _ ih =>
      obtain ⟨c, cs', hs, hbc', rfl⟩ := List.forall₂_cons_left_iff.1 hbc
      exact .cons ⟨_, hr, hs⟩ (ih hbc')
  · intro h
    induction h with
    | nil => exact ⟨[], .nil, .nil⟩
    | cons hac _ ih =>
      obtain ⟨b, hr, hs⟩ := hac
      obtain ⟨bs, hab, hbc⟩ := ih
      exact ⟨b :: bs, .cons hr hab, .cons hs hbc⟩

end Traced

end WorkspaceFacts
