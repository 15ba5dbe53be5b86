/-!
Tables: entries in the order in which their keys came, each key once. A value inserted under a key
that is there leaves the key in its place. `get?_insert` and `get?_erase` say what is found after
each of the two ways to change a table.
-/

namespace EditorLint

abbrev Table (α : Type) := List (String × α)

namespace Table

variable {α : Type}

/-- The value under a key, if the key is there. -/
def get? (table : Table α) (key : String) : Option α :=
  List.lookup key table

/-- Sets the value under a key: in its old place if the key is there, else at the end. -/
def insert (table : Table α) (key : String) (value : α) : Table α :=
  match table with
  | [] => [(key, value)]
  | (k, old) :: rest => if k = key then (k, value) :: rest else (k, old) :: insert rest key value

/-- The table without a key. -/
def erase (table : Table α) (key : String) : Table α :=
  table.filter fun entry => entry.1 ≠ key

/-- The keys, in order. -/
def keys (table : Table α) : List String :=
  table.map (·.1)

@[simp]
theorem get?_nil (key : String) : get? ([] : Table α) key = none :=
  rfl

theorem get?_cons (entry : String × α) (table : Table α) (key : String)
    : get? (entry :: table) key = if key = entry.1 then some entry.2 else get? table key := by
  obtain ⟨first, value⟩ := entry
  cases same : key == first with
  | true => simp [get?, eq_of_beq same]
  | false =>
      have differ : key ≠ first := by simpa using same
      simp [get?, List.lookup_cons, same, differ]

/-- An inserted value is found under its key, and other keys find what they found. -/
theorem get?_insert (table : Table α) (key other : String) (value : α)
    : get? (table.insert key value) other = if other = key then some value else get? table other := by
  induction table with
  | nil => simp [insert, get?_cons]
  | cons entry rest ih =>
      by_cases same : entry.1 = key
      · by_cases asked : other = key <;> simp [insert, get?_cons, same, asked]
      · by_cases asked : other = entry.1
        · simp [insert, get?_cons, same, asked]
        · simp [insert, get?_cons, same, asked, ih]

/-- An erased key finds nothing, and other keys find what they found. -/
theorem get?_erase (table : Table α) (key other : String)
    : get? (table.erase key) other = if other = key then none else get? table other := by
  induction table with
  | nil => simp [erase]
  | cons entry rest ih =>
      simp only [erase] at ih
      by_cases same : entry.1 = key
      · by_cases asked : other = key
        · simpa [erase, same, asked] using ih
        · simpa [erase, get?_cons, same, asked] using ih
      · by_cases asked : other = entry.1
        · simp [erase, get?_cons, same, asked]
        · simpa [erase, get?_cons, same, asked] using ih

/-- What is found under a key is an entry. -/
theorem mem_of_get? {table : Table α} {key : String} {value : α} (found : table.get? key = some value)
    : (key, value) ∈ table := by
  induction table with
  | nil => simp at found
  | cons entry rest ih =>
      rw [get?_cons] at found
      split at found
      next same => simp [same, ← Option.some.inj found]
      next => exact List.mem_cons_of_mem entry (ih found)

/-- An entry of a table in which a value was inserted is that value's, or was there. -/
theorem mem_insert {table : Table α} {key : String} {value : α} {entry : String × α}
    (member : entry ∈ table.insert key value)
    : entry = (key, value) ∨ entry ∈ table := by
  induction table with
  | nil => exact Or.inl (List.mem_singleton.mp member)
  | cons first rest ih =>
      obtain ⟨k, old⟩ := first
      rw [insert] at member
      split at member
      next same =>
        rcases List.mem_cons.mp member with new | behind
        · exact Or.inl (same ▸ new)
        · exact Or.inr (List.mem_cons_of_mem _ behind)
      next =>
        rcases List.mem_cons.mp member with here | behind
        · exact Or.inr (here ▸ List.mem_cons_self)
        · exact (ih behind).imp_right (List.mem_cons_of_mem _)

/-- An inserted value leaves a key that is there in its place, and puts another one behind all. -/
theorem keys_insert (table : Table α) (key : String) (value : α)
    : (table.insert key value).keys
      = if key ∈ table.keys then table.keys else table.keys ++ [key] := by
  induction table with
  | nil => rfl
  | cons entry rest ih =>
      obtain ⟨first, old⟩ := entry
      simp only [keys] at ih
      by_cases same : first = key
      · simp [insert, keys, same]
      · by_cases behind : key ∈ rest.map (·.1)
        · simp [insert, keys, same, ih, behind]
        · simp [insert, keys, same, ih, behind, Ne.symm same]

/-- A value inserted under a new key is the last one. -/
theorem insert_of_not_mem {table : Table α} {key : String} (new : key ∉ table.keys) (value : α)
    : table.insert key value = table ++ [(key, value)] := by
  induction table with
  | nil => rfl
  | cons entry rest ih =>
      obtain ⟨differ, behind⟩ : key ≠ entry.1 ∧ key ∉ keys rest := by simpa [keys] using new
      rw [insert, if_neg differ.symm, ih behind, List.cons_append]

/-- Each key stays there once. -/
theorem nodup_keys_insert {table : Table α} (once : table.keys.Nodup) (key : String) (value : α)
    : (table.insert key value).keys.Nodup := by
  rw [keys_insert]
  split
  · exact once
  next new =>
    refine List.nodup_append.mpr ⟨once, by simp, ?_⟩
    intro old inside other added same
    obtain rfl := List.mem_singleton.mp added
    exact new (same ▸ inside)

/-- An entry is what is found under its key, if each key is there once. -/
theorem get?_of_mem {table : Table α} (once : table.keys.Nodup) {key : String} {value : α}
    (member : (key, value) ∈ table)
    : table.get? key = some value := by
  induction table with
  | nil => cases member
  | cons entry rest ih =>
      obtain ⟨apart, others⟩ := List.nodup_cons.mp once
      rw [get?_cons]
      rcases List.mem_cons.mp member with rfl | behind
      · simp
      · have differ : key ≠ entry.1 := by
          intro same
          exact apart (List.mem_map.mpr ⟨_, behind, same⟩)
        rw [if_neg differ]
        exact ih others behind

end Table

end EditorLint
