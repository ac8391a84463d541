/-!
# Tables

A table assigns values to keys and remembers the order in which the keys came in. Setting a key
that is already there keeps its place; a key that was removed and is set again goes to the end.
-/

set_option autoImplicit false

namespace DialectBridge

/-- Keys with their values, in the order in which the keys came in. -/
structure Table (κ α : Type) where
  entries : List (κ × α) := []
  deriving Repr

namespace Table

variable {κ α : Type} [DecidableEq κ]

/-- The table without entries. -/
def empty : Table κ α := ⟨[]⟩

/-- The value of a key. -/
def get? (t : Table κ α) (key : κ) : Option α :=
  (t.entries.find? fun entry => entry.1 = key).map (·.2)

/-- Sets a key in a list of entries. -/
def putEntry (key : κ) (value : α) : List (κ × α) → List (κ × α)
  | [] => [(key, value)]
  | entry :: rest =>
    if entry.1 = key then (key, value) :: rest else entry :: putEntry key value rest

/-- The table with the value of a key set. -/
def put (t : Table κ α) (key : κ) (value : α) : Table κ α := ⟨putEntry key value t.entries⟩

/-- The table without a key. -/
def erase (t : Table κ α) (key : κ) : Table κ α := ⟨t.entries.filter fun entry => entry.1 ≠ key⟩

/-- The keys in their order. -/
def keys (t : Table κ α) : List κ := t.entries.map (·.1)

/-- The number of keys. -/
def size (t : Table κ α) : Nat := t.entries.length

omit [DecidableEq κ] in
/-- The table of the entries that satisfy a condition. -/
def filter (t : Table κ α) (condition : κ → α → Bool) : Table κ α :=
  ⟨t.entries.filter fun entry => condition entry.1 entry.2⟩

/-- A key that was set has its new value. -/
@[simp]
theorem get?_put_self (t : Table κ α) (key : κ) (value : α) :
    (t.put key value).get? key = some value := by
  obtain ⟨entries⟩ := t
  induction entries with
  | nil => simp [put, putEntry, get?]
  | cons entry rest ih =>
    by_cases same : entry.1 = key
    · simp [put, putEntry, get?, same]
    · simpa [put, putEntry, get?, same] using ih

/-- Setting a key leaves the others alone. -/
theorem get?_put_of_ne (t : Table κ α) {key other : κ} (value : α) (h : other ≠ key) :
    (t.put key value).get? other = t.get? other := by
  obtain ⟨entries⟩ := t
  induction entries with
  | nil => simp [put, putEntry, get?, h.symm]
  | cons entry rest ih =>
    by_cases same : entry.1 = key
    · subst same
      simp [put, putEntry, get?, h.symm]
    · by_cases here : entry.1 = other
      · subst here
        simp [put, putEntry, get?, h]
      · simpa [put, putEntry, get?, same, here] using ih

/-- A key that was removed has no value. -/
@[simp]
theorem get?_erase_self (t : Table κ α) (key : κ) : (t.erase key).get? key = none := by
  simp [erase, get?, List.find?_eq_none]

/-- Removing a key leaves the others alone. -/
theorem get?_erase_of_ne (t : Table κ α) {key other : κ} (h : other ≠ key) :
    (t.erase key).get? other = t.get? other := by
  obtain ⟨entries⟩ := t
  induction entries with
  | nil => rfl
  | cons entry rest ih =>
    by_cases same : entry.1 = key
    · subst same
      simpa [erase, get?, h.symm] using ih
    · by_cases here : entry.1 = other
      · simp [erase, get?, here, h]
      · simpa [erase, get?, same, here] using ih

/-- The value of a key after one was set. -/
theorem get?_put (t : Table κ α) (key other : κ) (value : α) :
    (t.put key value).get? other = if other = key then some value else t.get? other := by
  by_cases same : other = key
  · rw [if_pos same, same, get?_put_self]
  · rw [if_neg same, get?_put_of_ne t value same]

/-- The value of a key after one was removed. -/
theorem get?_erase (t : Table κ α) (key other : κ) :
    (t.erase key).get? other = if other = key then none else t.get? other := by
  by_cases same : other = key
  · rw [if_pos same, same, get?_erase_self]
  · rw [if_neg same, get?_erase_of_ne t same]

/-- The keys are those that have a value. -/
theorem mem_keys_iff (t : Table κ α) (key : κ) : key ∈ t.keys ↔ (t.get? key).isSome := by
  simp [keys, get?]

/-- Removing a key that is not there changes nothing. -/
theorem erase_of_get?_eq_none (t : Table κ α) {key : κ} (absent : t.get? key = none) :
    t.erase key = t := by
  have others : ∀ entry ∈ t.entries, entry.1 ≠ key := by
    simpa [get?] using absent
  obtain ⟨entries⟩ := t
  simpa [erase] using others

/-! ## Every key comes once -/

/-- Setting a key adds it if it is new. -/
theorem keys_put (t : Table κ α) (key : κ) (value : α) :
    (t.put key value).keys = if key ∈ t.keys then t.keys else t.keys ++ [key] := by
  obtain ⟨entries⟩ := t
  induction entries with
  | nil => simp [put, putEntry, keys]
  | cons entry rest ih =>
    by_cases same : entry.1 = key
    · simp [put, putEntry, keys, same]
    · simp only [put, putEntry, keys, if_neg same, List.map_cons] at ih ⊢
      rw [ih]
      by_cases known : key ∈ rest.map (·.1)
      · simp [known]
      · simp [known, Ne.symm same]

theorem nodup_keys_put {t : Table κ α} (once : t.keys.Nodup) (key : κ) (value : α) :
    (t.put key value).keys.Nodup := by
  rw [keys_put]
  by_cases known : key ∈ t.keys
  · rwa [if_pos known]
  · rw [if_neg known, List.nodup_append]
    refine ⟨once, List.pairwise_singleton _ _, fun a old b new => ?_⟩
    rw [List.mem_singleton.1 new]
    exact fun same => known (same ▸ old)

omit [DecidableEq κ] in
theorem nodup_keys_filter {t : Table κ α} (once : t.keys.Nodup) (condition : κ → α → Bool) :
    (t.filter condition).keys.Nodup :=
  once.sublist (List.filter_sublist.map _)

/-- Where every key comes once, a table is filtered key by key. -/
theorem get?_filter {t : Table κ α} (once : t.keys.Nodup) (condition : κ → α → Bool) (key : κ) :
    (t.filter condition).get? key = (t.get? key).filter (condition key) := by
  obtain ⟨entries⟩ := t
  induction entries with
  | nil => rfl
  | cons entry rest ih =>
    obtain ⟨new, once⟩ := List.nodup_cons.1 once
    have tail := ih once
    by_cases same : entry.1 = key
    · have absent : (⟨rest⟩ : Table κ α).get? key = none := by
        rw [← Option.not_isSome_iff_eq_none, ← mem_keys_iff, ← same]
        exact new
      rw [absent] at tail
      by_cases kept : condition key entry.2 = true
      · simp [filter, get?, same, kept, Option.filter_some]
      · have cut : (⟨entry :: rest⟩ : Table κ α).filter condition =
            (⟨rest⟩ : Table κ α).filter condition := by
          simp [filter, same, kept]
        rw [cut, tail]
        simp [get?, same, kept, Option.filter_some]
    · by_cases kept : condition entry.1 entry.2 = true
      · simpa [filter, get?, same, kept] using tail
      · simpa [filter, get?, same, kept] using tail

/-- The table with the given entries, the later one where a key comes twice. -/
def ofList (entries : List (κ × α)) : Table κ α :=
  entries.foldl (fun t entry => t.put entry.1 entry.2) empty

end Table

end DialectBridge
