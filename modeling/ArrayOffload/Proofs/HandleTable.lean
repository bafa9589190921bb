import ArrayOffload.HandleTable

/-!
# Look-ups in tables of handles

What a look-up finds after an entry was set or erased, and which handles a table then has.
-/

namespace ArrayOffload.HandleTable

variable {α : Type}

/-- The handles of a table, in order. -/
def keys (table : HandleTable α) : List Nat := table.map (·.1)

theorem contains_iff {table : HandleTable α} {key : Nat} :
    table.contains key = true ↔ key ∈ table.keys := by
  simp [contains, keys]

theorem get?_cons (entry : Nat × α) (rest : HandleTable α) (key : Nat) :
    HandleTable.get? (entry :: rest) key =
      if key = entry.1 then some entry.2 else rest.get? key := by
  obtain ⟨k, v⟩ := entry
  by_cases h : key = k
  · simp [get?, h]
  · have hne : (key == k) = false := by simpa using h
    simp [get?, List.lookup_cons, hne, h]

theorem get?_append (left right : HandleTable α) (key : Nat) :
    HandleTable.get? (left ++ right) key = (left.get? key).or (right.get? key) := by
  induction left with
  | nil => simp [get?]
  | cons entry rest ih =>
    rw [List.cons_append, get?_cons, get?_cons, ih]
    split <;> simp

theorem mem_keys_iff {table : HandleTable α} {key : Nat} :
    key ∈ table.keys ↔ ∃ value, table.get? key = some value := by
  induction table with
  | nil => simp [keys, get?]
  | cons entry rest ih =>
    rw [get?_cons]
    by_cases h : key = entry.1
    · simp [keys, h]
    · simpa [keys, h] using ih

theorem get?_eq_none_iff {table : HandleTable α} {key : Nat} :
    table.get? key = none ↔ key ∉ table.keys := by
  rw [mem_keys_iff]
  cases table.get? key <;> simp

theorem get?_replace (table : HandleTable α) (key other : Nat) (value : α) :
    HandleTable.get? (table.map fun entry => if entry.1 = key then (key, value) else entry) other =
      if other = key then (table.get? key).map fun _ => value else table.get? other := by
  induction table with
  | nil => simp [get?]
  | cons entry rest ih =>
    rw [List.map_cons, get?_cons, ih, get?_cons, get?_cons]
    grind

/-- Setting an entry shows at its handle only. -/
theorem get?_set (table : HandleTable α) (key other : Nat) (value : α) :
    (table.set key value).get? other = if other = key then some value else table.get? other := by
  unfold set
  split
  · next present =>
    rw [contains_iff, mem_keys_iff] at present
    obtain ⟨old, found⟩ := present
    rw [get?_replace, found]
    rfl
  · next absent =>
    rw [contains_iff] at absent
    rw [get?_append, get?_cons]
    by_cases h : other = key
    · subst h
      simp [get?_eq_none_iff.mpr absent]
    · simp [h, get?]

theorem keys_set_of_mem {table : HandleTable α} {key : Nat} (value : α) (h : key ∈ table.keys) :
    (table.set key value).keys = table.keys := by
  rw [set, if_pos (contains_iff.mpr h), keys, List.map_map]
  refine List.map_congr_left fun entry _ => ?_
  simp only [Function.comp_apply]
  split
  · next equal => exact equal.symm
  · rfl

theorem keys_set_of_not_mem {table : HandleTable α} {key : Nat} (value : α)
    (h : key ∉ table.keys) : (table.set key value).keys = table.keys ++ [key] := by
  have absent : ¬ table.contains key = true := fun hc => h (contains_iff.mp hc)
  rw [set, if_neg absent]
  simp [keys]

theorem keys_erase (table : HandleTable α) (key : Nat) :
    (table.erase key).keys = table.keys.filter (· ≠ key) := by
  simp [erase, keys, List.filter_map, Function.comp_def]

theorem get?_erase_of_ne (table : HandleTable α) {key other : Nat} (h : other ≠ key) :
    (table.erase key).get? other = table.get? other := by
  induction table with
  | nil => rfl
  | cons entry rest ih =>
    rw [get?_cons, ← ih]
    by_cases heq : entry.1 = key
    · have hne : other ≠ entry.1 := heq ▸ h
      simp [erase, heq, h]
    · simp [erase, heq, get?_cons]

end ArrayOffload.HandleTable
