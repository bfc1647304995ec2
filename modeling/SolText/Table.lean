/-!
# Tables

Values under keys. Starting from the empty table, `insert` and `erase` keep each key at most once.

* `get?_insert`, `get?_erase`: what is found after a change.
-/

namespace SolText

variable {κ α : Type} [DecidableEq κ]

/-- Values under keys. -/
structure Table (κ α : Type) where
  entries : List (κ × α) := []

namespace Table

/-- The value under a key. -/
def get? (table : Table κ α) (key : κ) : Option α := table.entries.lookup key

/-- Whether there is a value under a key. -/
def contains (table : Table κ α) (key : κ) : Bool := (table.get? key).isSome

/-- The table without a key. -/
def erase (table : Table κ α) (key : κ) : Table κ α :=
  ⟨table.entries.filter fun entry => entry.1 ≠ key⟩

/-- The table with a value under a key, in the place of any other. -/
def insert (table : Table κ α) (key : κ) (value : α) : Table κ α :=
  ⟨(key, value) :: (table.erase key).entries⟩

/-- The number of keys. -/
def size (table : Table κ α) : Nat := table.entries.length

/-- Whether there are no keys. -/
def isEmpty (table : Table κ α) : Bool := table.entries.isEmpty

/-- The table of the given entries; of equal keys the last counts. -/
def ofList (entries : List (κ × α)) : Table κ α :=
  entries.foldl (fun table entry => table.insert entry.1 entry.2) {}

theorem get?_erase (table : Table κ α) (key other : κ) :
    (table.erase key).get? other = if other = key then none else table.get? other := by
  obtain ⟨entries⟩ := table
  simp only [get?, erase]
  induction entries with
  | nil => simp
  | cons entry rest ih =>
    obtain ⟨k, a⟩ := entry
    by_cases hk : k = key
    · subst hk
      rw [List.filter_cons_of_neg (by simp), ih]
      by_cases ho : other = k
      · simp [ho]
      · rw [if_neg ho, if_neg ho, List.lookup_cons, beq_eq_false_iff_ne.2 ho]
    · rw [List.filter_cons_of_pos (by simpa using hk), List.lookup_cons, List.lookup_cons, ih]
      by_cases ho : other = k
      · simp [ho, hk]
      · rw [beq_eq_false_iff_ne.2 ho]

theorem get?_insert (table : Table κ α) (key other : κ) (value : α) :
    (table.insert key value).get? other = if other = key then some value else table.get? other := by
  have he : (table.insert key value).get? other =
      if other = key then some value else (table.erase key).get? other := by
    by_cases h : other = key
    · simp [h, get?, insert]
    · rw [if_neg h, get?, insert, List.lookup_cons, beq_eq_false_iff_ne.2 h]
      rfl
  rw [he, get?_erase]
  by_cases h : other = key <;> simp [h]

end Table

end SolText
