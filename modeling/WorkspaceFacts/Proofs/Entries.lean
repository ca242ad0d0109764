import Mathlib.Data.List.Nodup
import WorkspaceFacts.Toml.Value

/-!
# Looking up what was changed

The look-up in entries after an addition at the end, after a change in place and after a
removal. A key that is not concerned keeps its value, and only the removal asks for the
keys to be distinct.
-/

namespace WorkspaceFacts

namespace Entries

variable {α : Type} {entries : List (String × α)} {key other : String} {value old : α}

@[simp] theorem keys_nil : keys ([] : List (String × α)) = [] := rfl

@[simp] theorem keys_cons (entry : String × α) (entries : List (String × α)) :
    keys (entry :: entries) = entry.1 :: keys entries := rfl

@[simp] theorem keys_append (entries entries' : List (String × α)) :
    keys (entries ++ entries') = keys entries ++ keys entries' := List.map_append

/-- The keys stay when every value is replaced. -/
theorem keys_map {β : Type} (f : α → β) (entries : List (String × α)) :
    keys (entries.map fun (key, value) => (key, f value)) = keys entries := by
  rw [keys, keys, List.map_map]
  rfl

@[simp] theorem get?_nil (key : String) : get? ([] : List (String × α)) key = none := rfl

theorem get?_cons (k : String) (v : α) (entries : List (String × α)) (key : String) :
    get? ((k, v) :: entries) key = if k = key then some v else get? entries key := rfl

/-- A look-up fails exactly for the keys that are not there. -/
theorem get?_eq_none_iff : get? entries key = none ↔ key ∉ keys entries := by
  induction entries with
  | nil => simp
  | cons entry entries ih =>
    rw [get?_cons, keys_cons, List.mem_cons, not_or, eq_comm (a := key)]
    split
    · next h => simp [h]
    · next h => simp [h, ih]

theorem mem_keys_of_get? (h : get? entries key = some value) : key ∈ keys entries := by
  by_contra hk
  rw [get?_eq_none_iff.2 hk] at h
  cases h

/-- Under distinct keys the look-up finds every entry. -/
theorem get?_of_mem (hn : (keys entries).Nodup) (h : (key, value) ∈ entries) :
    get? entries key = some value := by
  induction entries with
  | nil => cases h
  | cons entry entries ih =>
    rw [keys_cons, List.nodup_cons] at hn
    rw [get?_cons]
    rcases List.mem_cons.1 h with rfl | h
    · rw [if_pos rfl]
    · have hk : key ∈ keys entries := List.mem_map_of_mem h
      rw [if_neg fun he : entry.1 = key => hn.1 (he ▸ hk), ih hn.2 h]

theorem mem_of_get? (h : get? entries key = some value) : (key, value) ∈ entries := by
  induction entries with
  | nil => cases h
  | cons entry entries ih =>
    rw [get?_cons] at h
    split at h
    · next hk =>
      obtain rfl := Option.some.inj h
      rw [← hk]
      exact List.mem_cons_self
    · exact List.mem_cons_of_mem _ (ih h)

/-! ### An addition at the end -/

/-- The look-up goes on behind the entries only if it finds nothing among them. -/
theorem get?_append (entries entries' : List (String × α)) (key : String) :
    get? (entries ++ entries') key = (get? entries key).or (get? entries' key) := by
  induction entries with
  | nil => rfl
  | cons entry entries ih =>
    rw [List.cons_append, get?_cons, get?_cons, ih]
    split <;> rfl

theorem get?_append_self (h : get? entries key = none) :
    get? (entries ++ [(key, value)]) key = some value := by
  rw [get?_append, h, get?_cons, if_pos rfl]
  rfl

theorem get?_append_of_ne (h : key ≠ other) :
    get? (entries ++ [(key, value)]) other = get? entries other := by
  rw [get?_append, get?_cons, if_neg h, get?_nil, Option.or_none]

/-! ### A change in place -/

theorem get?_put_self : get? (put entries key value) key = some value := by
  induction entries with
  | nil => exact if_pos rfl
  | cons entry entries ih =>
    rw [put]
    split
    · next h => rw [get?_cons, if_pos h]
    · next h => rw [get?_cons, if_neg h, ih]

/-- A change in place leaves the other keys alone. -/
theorem get?_put_of_ne (h : key ≠ other) :
    get? (put entries key value) other = get? entries other := by
  induction entries with
  | nil => exact if_neg h
  | cons entry entries ih =>
    rw [put]
    split
    · next hk => rw [get?_cons, get?_cons, if_neg (hk ▸ h), if_neg (hk ▸ h)]
    · rw [get?_cons, get?_cons, ih]

/-- An entry that is changed stays where it is. -/
theorem put_append_self (h : get? entries key = none) :
    put (entries ++ [(key, old)]) key value = entries ++ [(key, value)] := by
  induction entries with
  | nil => exact if_pos rfl
  | cons entry entries ih =>
    rw [get?_cons] at h
    split at h
    · cases h
    · next hk => rw [List.cons_append, put, if_neg hk, ih h, List.cons_append]

/-- Of two changes in place the later one counts. -/
theorem put_put : put (put entries key old) key value = put entries key value := by
  induction entries with
  | nil => simp [put]
  | cons entry entries ih =>
    rw [put, put]
    split
    · next hk => rw [put, if_pos hk]
    · next hk => rw [put, if_neg hk, ih]

/-- A change in place that changes nothing. -/
theorem put_self (h : get? entries key = some value) : put entries key value = entries := by
  induction entries with
  | nil => cases h
  | cons entry entries ih =>
    rw [get?_cons] at h
    rw [put]
    split at h
    · next hk =>
      obtain rfl := Option.some.inj h
      rw [if_pos hk]
    · next hk => rw [if_neg hk, ih h]

/-- A change in place keeps the keys and their order. -/
theorem keys_put (h : get? entries key = some old) :
    keys (put entries key value) = keys entries := by
  induction entries with
  | nil => cases h
  | cons entry entries ih =>
    rw [get?_cons] at h
    rw [put]
    split at h
    · next hk => rw [if_pos hk, keys_cons, keys_cons]
    · next hk => rw [if_neg hk, keys_cons, keys_cons, ih h]

theorem mem_put {entry : String × α} (h : entry ∈ put entries key value) :
    entry ∈ entries ∨ entry = (key, value) := by
  induction entries with
  | nil => exact .inr (List.mem_singleton.1 h)
  | cons first entries ih =>
    rw [put] at h
    split at h
    · next hk =>
      rcases List.mem_cons.1 h with rfl | h
      · exact .inr (by rw [hk])
      · exact .inl (List.mem_cons_of_mem _ h)
    · rcases List.mem_cons.1 h with rfl | h
      · exact .inl List.mem_cons_self
      · exact (ih h).imp (List.mem_cons_of_mem _) id

/-! ### A removal -/

/-- A removal leaves the other keys alone. -/
theorem get?_erase_of_ne (h : key ≠ other) :
    get? (erase entries key) other = get? entries other := by
  induction entries with
  | nil => rfl
  | cons entry entries ih =>
    rw [erase]
    split
    · next hk => rw [get?_cons, if_neg (hk ▸ h)]
    · rw [get?_cons, get?_cons, ih]

theorem keys_erase (entries : List (String × α)) (key : String) :
    keys (erase entries key) = (keys entries).erase key := by
  induction entries with
  | nil => rfl
  | cons entry entries ih =>
    rw [erase, keys_cons, List.erase_cons]
    split
    · next hk => rw [if_pos (by simpa using hk)]
    · next hk => rw [if_neg (by simpa using hk), keys_cons, ih]

theorem mem_of_mem_erase {entry : String × α} (h : entry ∈ erase entries key) :
    entry ∈ entries := by
  induction entries with
  | nil => exact h
  | cons first entries ih =>
    rw [erase] at h
    split at h
    · exact List.mem_cons_of_mem _ h
    · rcases List.mem_cons.1 h with rfl | h
      · exact List.mem_cons_self
      · exact List.mem_cons_of_mem _ (ih h)

/-- A removal takes off the first entry under the key only, so the keys have to be distinct. -/
theorem get?_erase_self (h : (keys entries).Nodup) : get? (erase entries key) key = none := by
  rw [get?_eq_none_iff, keys_erase]
  exact h.not_mem_erase

end Entries

end WorkspaceFacts
