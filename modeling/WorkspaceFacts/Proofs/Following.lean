import WorkspaceFacts.Proofs.Outcome

/-!
# Work that follows steps

Reading files, looking up versions and going through the rules of a group have one thing in
common: the **steps** are known before the work begins, and only how far the work gets is not.
A step passes or not, which can be told from the step alone; the first one that does not pass is
the last one that is made; and every step that is made adds its events
(`WorkspaceFacts.Traced.Follows`). So the events of such work are those of the steps up to the
first that does not pass, and work that is put together from such work is such work again.
-/

namespace WorkspaceFacts

/-! ### As far as the first that does not pass -/

/-- **The items of a list up to the first that does not meet `P`**, that one included: all of
them if every item does. -/
inductive Through {α : Type} (P : α → Prop) : List α → List α → Prop
  | nil : Through P [] []
  | stop {a : α} {as : List α} (h : ¬P a) : Through P (a :: as) [a]
  | go {a : α} {as reached : List α} (h : P a) (hs : Through P as reached) :
      Through P (a :: as) (a :: reached)

namespace Through

variable {α : Type} {P : α → Prop} {as bs reached reached' : List α}

theorem unique (h : Through P as reached) (h' : Through P as reached') : reached = reached' := by
  induction h generalizing reached' with
  | nil =>
    cases h'
    rfl
  | stop ha =>
    cases h' with
    | stop => rfl
    | go ha' => exact absurd ha' ha
  | go ha _ ih =>
    cases h' with
    | stop ha' => exact absurd ha ha'
    | go _ hs' => rw [ih hs']

/-- Items that meet `P` are passed, and what is behind them decides. -/
theorem append_of_forall (ha : ∀ a ∈ as, P a) (h : Through P bs reached) :
    Through P (as ++ bs) (as ++ reached) := by
  induction as with
  | nil => exact h
  | cons a as ih =>
    obtain ⟨ha, has⟩ := List.forall_mem_cons.1 ha
    exact .go ha (ih has)

/-- Nothing behind an item that does not meet `P` is reached. -/
theorem append_of_not_forall (h : Through P as reached) (ha : ¬∀ a ∈ as, P a) (bs : List α) :
    Through P (as ++ bs) reached := by
  induction h with
  | nil => exact absurd (List.forall_mem_nil P) ha
  | stop hn => exact .stop hn
  | go hp _ ih => exact .go hp (ih fun has => ha (List.forall_mem_cons.2 ⟨hp, has⟩))

theorem self_of_forall (h : ∀ a ∈ as, P a) : Through P as as := by
  simpa using append_of_forall h nil

end Through

namespace Traced

variable {α β σ : Type}

/-! ### The events of work in parts -/

theorem events_bind_of_ok {work : Traced α} {a : α} (h : work.outcome = .ok a)
    (next : α → Traced β) : (work >>= next).events = work.events ++ (next a).events := by
  change (bind work next).events = _
  rw [bind, h]

theorem events_bind_of_error {work : Traced α} {e : ManifestError} (h : work.outcome = .error e)
    (next : α → Traced β) : (work >>= next).events = work.events := by
  change (bind work next).events = _
  rw [bind, h]

/-- It makes no difference how three pieces of work in a row are put together. -/
theorem bind_bind {γ : Type} (work : Traced α) (next : α → Traced β) (last : β → Traced γ) :
    (work >>= next) >>= last = work >>= fun a => next a >>= last := by
  obtain ⟨events, e | a⟩ := work
  · rfl
  · change bind (bind ⟨events, .ok a⟩ next) last = bind ⟨events, .ok a⟩ fun a => bind (next a) last
    rcases h : (next a).outcome with e | b
    · simp [bind, h]
    · simp [bind, h]

/-! ### Following steps -/

variable {P : σ → Prop} {told : σ → List Event} {steps steps' : List σ} {work : Traced α}

/-- **The work follows steps.** It has a result if every step passes, that is, meets `P`, and it
tells what the steps tell that are made: those up to the first that does not pass. -/
structure Follows (P : σ → Prop) (told : σ → List Event) (steps : List σ) (work : Traced α) :
    Prop where
  succeeds : (∃ a, work.outcome = .ok a) ↔ ∀ step ∈ steps, P step
  tells : ∃ reached, Through P steps reached ∧ work.events = reached.flatMap told

theorem follows_pure (a : α) : Follows P told [] (pure a : Traced α) :=
  ⟨iff_of_true ⟨a, rfl⟩ (List.forall_mem_nil P), [], .nil, rfl⟩

/-- Work that is one step. -/
theorem follows_singleton {step : σ} (h : (∃ a, work.outcome = .ok a) ↔ P step)
    (he : work.events = told step) : Follows P told [step] work := by
  refine ⟨by rw [h, List.forall_mem_singleton], [step], ?_, ?_⟩
  · by_cases hp : P step
    · exact .go hp .nil
    · exact .stop hp
  · rw [he, List.flatMap_singleton]

theorem Follows.not_forall_of_error {e : ManifestError} (h : Follows P told steps work)
    (he : work.outcome = .error e) : ¬∀ step ∈ steps, P step := by
  intro hall
  obtain ⟨a, ha⟩ := h.succeeds.2 hall
  cases he.symm.trans ha

/-- **One piece of work after another follows the steps of the one and then of the other**, of
which only the first piece need be known if it fails. -/
theorem Follows.bind {next : α → Traced β} (h : Follows P told steps work)
    (h' : ∀ a, work.outcome = .ok a → Follows P told steps' (next a)) :
    Follows P told (steps ++ steps') (work >>= next) := by
  obtain ⟨reached, hr, he⟩ := h.tells
  rcases hw : work.outcome with e | a
  · have hn := h.not_forall_of_error hw
    refine ⟨iff_of_false ?_ ?_, reached, hr.append_of_not_forall hn steps', ?_⟩
    · rintro ⟨b, hb⟩
      obtain ⟨a, ha, -⟩ := outcome_bind_eq_ok_iff.1 hb
      cases hw.symm.trans ha
    · exact fun hall => hn (List.forall_mem_append.1 hall).1
    · rw [events_bind_of_error hw, he]
  · have hall : ∀ step ∈ steps, P step := h.succeeds.1 ⟨a, hw⟩
    obtain ⟨hok', reached', hr', he'⟩ := h' a hw
    refine ⟨?_, steps ++ reached', hr'.append_of_forall hall, ?_⟩
    · rw [List.forall_mem_append, and_iff_right hall, ← hok']
      simp only [outcome_bind_eq_ok_iff, hw, Except.ok.injEq, exists_eq_left']
    · rw [events_bind_of_ok hw, he, he', hr.unique (.self_of_forall hall), List.flatMap_append]

/-- A last step that only puts the result in another form is none. -/
theorem Follows.bind_pure (h : Follows P told steps work) (f : α → β) :
    Follows P told steps (work >>= fun a => pure (f a)) := by
  have hall := h.bind fun a _ => follows_pure (f a)
  rwa [List.append_nil] at hall

/-- Work on a list follows the steps of the work on its items. -/
theorem follows_each {work : α → Traced β} {steps : α → List σ} (as : List α)
    (h : ∀ a ∈ as, Follows P told (steps a) (work a)) :
    Follows P told (as.flatMap steps) (each work as) := by
  induction as with
  | nil => exact follows_pure []
  | cons a as ih =>
    obtain ⟨ha, has⟩ := List.forall_mem_cons.1 h
    exact ha.bind fun b _ => (ih has).bind_pure (b :: ·)

/-- Work that has a result has made all its steps. -/
theorem Follows.events_of_ok {a : α} (h : Follows P told steps work) (ha : work.outcome = .ok a) :
    work.events = steps.flatMap told := by
  obtain ⟨hok, reached, hr, he⟩ := h
  rw [he, hr.unique (.self_of_forall (hok.1 ⟨a, ha⟩))]

/-- **What is picked out of the events can be told step by step.** It is what the steps yield, as
far as the work gets, if a step that passes adds what it yields, and one that does not pass adds
at most that. -/
theorem Follows.filterMap_events {γ : Type} {pick : Event → Option γ} {yield : σ → List γ}
    (h : Follows P told steps work)
    (hp : ∀ step, P step → (told step).filterMap pick = yield step)
    (hn : ∀ step, ¬P step → (told step).filterMap pick <+: yield step) :
    work.events.filterMap pick <+: steps.flatMap yield ∧
      ∀ a, work.outcome = .ok a → work.events.filterMap pick = steps.flatMap yield := by
  constructor
  · obtain ⟨-, reached, hr, he⟩ := h
    rw [he, List.filterMap_flatMap]
    clear he
    induction hr with
    | nil => exact List.prefix_rfl
    | stop hstep =>
      rw [List.flatMap_singleton, List.flatMap_cons]
      exact (hn _ hstep).trans (List.prefix_append _ _)
    | go hstep _ ih =>
      rw [List.flatMap_cons, List.flatMap_cons, hp _ hstep]
      exact (List.prefix_append_right_inj _).2 ih
  · intro a ha
    rw [h.events_of_ok ha, List.filterMap_flatMap]
    exact List.flatMap_congr fun step hmem => hp step (h.succeeds.1 ⟨a, ha⟩ step hmem)

theorem Follows.filterMap_events_eq_nil {γ : Type} {pick : Event → Option γ}
    (h : Follows P told steps work) (hp : ∀ step, (told step).filterMap pick = []) :
    work.events.filterMap pick = [] := by
  obtain ⟨-, reached, -, he⟩ := h
  rw [he, List.filterMap_flatMap, List.flatMap_eq_nil_iff]
  exact fun step _ => hp step

end Traced

end WorkspaceFacts
