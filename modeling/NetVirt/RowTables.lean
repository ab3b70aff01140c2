import Mathlib.Data.List.Nodup

/-!
# Tables of rows with a unique key

A table of a relational database is the list of its rows, no two of them with the same
key. The statements below keep the key unique: an insertion whose key is taken is refused,
and an update does not change keys. Each comes with the rows it leaves.
-/

namespace NetVirt.RowTables

universe u v
variable {Row : Type u} {Key : Type v}

/-- A table whose rows have different keys. -/
structure RowTable (key : Row → Key) where
  rows : List Row
  unique : (rows.map key).Nodup

namespace RowTable

variable {key : Row → Key}

@[ext]
theorem ext (left right : RowTable key) (same : left.rows = right.rows) : left = right := by
  cases left
  cases right
  simpa using same

variable (table : RowTable key)

/-- Rows with the same key are the same row. -/
theorem row_unique {one other : Row} (oneIn : one ∈ table.rows) (otherIn : other ∈ table.rows)
    (same : key one = key other) : one = other :=
  List.inj_on_of_nodup_map table.unique oneIn otherIn same

/-- The first row of `SELECT`. -/
def first (wanted : Row → Bool) : Option Row := table.rows.find? wanted

/-- `SELECT` -/
def select (wanted : Row → Bool) : List Row := table.rows.filter wanted

/-- `DELETE` -/
def delete (unwanted : Row → Bool) : RowTable key where
  rows := table.rows.filter fun row => !unwanted row
  unique := table.unique.sublist (List.filter_sublist.map key)

/-- `UPDATE` -/
def update (changed : Row → Bool) (change : Row → Row) (keeps : ∀ row, key (change row) = key row) :
    RowTable key where
  rows := table.rows.map fun row => if changed row then change row else row
  unique := by
    have same : (key ∘ fun row => if changed row then change row else row) = key := by
      funext row
      by_cases concerned : changed row
      · simp [concerned, keeps]
      · simp [concerned]
    rw [List.map_map, same]
    exact table.unique

/-- `INSERT`, refused when the key is taken. -/
def insert [DecidableEq Key] (row : Row) : Option (RowTable key) :=
  if taken : key row ∈ table.rows.map key then none
  else some
    { rows := table.rows ++ [row]
      unique := by
        rw [List.map_append, List.map_singleton, List.nodup_append]
        refine ⟨table.unique, List.nodup_singleton _, ?_⟩
        rintro one inside other last rfl
        exact taken (List.mem_singleton.mp last ▸ inside) }

/-! ## The rows that a statement reads and leaves -/

/-- When only one row can be wanted, the first row is that one. -/
theorem first_eq_some (wanted : Row → Bool)
    (only : ∀ one other, wanted one = true → wanted other = true → key one = key other)
    (row : Row) :
    table.first wanted = some row ↔ row ∈ table.rows ∧ wanted row = true := by
  constructor
  · intro found
    exact ⟨List.mem_of_find?_eq_some found, List.find?_some found⟩
  · rintro ⟨inside, suits⟩
    cases found : table.first wanted with
    | none => exact absurd suits (List.find?_eq_none.mp found row inside)
    | some other =>
      have otherIn := List.mem_of_find?_eq_some found
      have otherSuits := List.find?_some found
      rw [table.row_unique otherIn inside (only other row otherSuits suits)]

@[simp]
theorem mem_select (wanted : Row → Bool) (row : Row) :
    row ∈ table.select wanted ↔ row ∈ table.rows ∧ wanted row = true :=
  List.mem_filter

@[simp]
theorem mem_delete (unwanted : Row → Bool) (row : Row) :
    row ∈ (table.delete unwanted).rows ↔ row ∈ table.rows ∧ unwanted row = false := by
  simp [delete]

/-- Deleting nothing leaves the table as it is. -/
theorem delete_nothing (unwanted : Row → Bool)
    (nothing : ∀ row ∈ table.rows, unwanted row = false) : table.delete unwanted = table := by
  apply ext
  apply List.filter_eq_self.mpr
  intro row inside
  simp [nothing row inside]

variable (changed : Row → Bool) (change : Row → Row) (keeps : ∀ row, key (change row) = key row)

theorem mem_update (row : Row) : row ∈ (table.update changed change keeps).rows ↔
    ∃ old ∈ table.rows, (if changed old then change old else old) = row :=
  List.mem_map

/-- Updating nothing leaves the table as it is. -/
theorem update_nothing
    (nothing : ∀ row ∈ table.rows, changed row = true → change row = row) :
    table.update changed change keeps = table := by
  apply ext
  calc table.rows.map (fun row => if changed row then change row else row)
      _ = table.rows.map id := by
        apply List.map_congr_left
        intro row inside
        by_cases concerned : changed row
        · simp [concerned, nothing row inside]
        · simp [concerned]
      _ = table.rows := List.map_id _

variable [DecidableEq Key]

/-- The row with a key. -/
def lookup (wanted : Key) : Option Row := table.first fun row => decide (key row = wanted)

theorem lookup_eq_some (wanted : Key) (row : Row) :
    table.lookup wanted = some row ↔ row ∈ table.rows ∧ key row = wanted := by
  rw [lookup, first_eq_some, decide_eq_true_iff]
  intro one other isOne isOther
  exact (of_decide_eq_true isOne).trans (of_decide_eq_true isOther).symm

/-- An update changes the row with a key if it is concerned. -/
theorem lookup_update (wanted : Key) : (table.update changed change keeps).lookup wanted =
    (table.lookup wanted).map fun row => if changed row then change row else row := by
  have same : ∀ row, key (if changed row then change row else row) = key row := by
    intro row
    by_cases concerned : changed row
    · simp [concerned, keeps]
    · simp [concerned]
  simp only [lookup, first, update, List.find?_map, Function.comp_def, same]

/-- An accepted insertion adds the row, whose key was free. -/
theorem insert_eq_some (row : Row) (after : RowTable key)
    (accepted : table.insert row = some after) :
    (∀ old ∈ table.rows, key old ≠ key row) ∧ after.rows = table.rows ++ [row] := by
  unfold insert at accepted
  split at accepted
  · cases accepted
  · next free =>
    cases accepted
    refine ⟨fun old inside same => free ?_, rfl⟩
    exact same ▸ List.mem_map_of_mem inside

/-- An insertion is refused exactly when the key is taken. -/
theorem insert_eq_none (row : Row) :
    table.insert row = none ↔ ∃ old ∈ table.rows, key old = key row := by
  unfold insert
  split
  · next taken => simpa using taken
  · next free => simpa using free

end RowTable

/-! ## Conditions with NULL

A column that may be NULL is an option, and so is the truth of a condition on it. A statement
concerns the rows for which its condition is true.
-/

section Conditions
variable {Value : Type u}

/-- A comparison with NULL is unknown. -/
def compared (relation : Value → Value → Bool) (left right : Option Value) : Option Bool :=
  left.bind fun left => right.map fun right => relation left right

/-- `AND`: a false side decides, and then an unknown one. -/
def both : Option Bool → Option Bool → Option Bool
  | some false, _ => some false
  | some true, right => right
  | none, some false => some false
  | none, _ => none

/-- `OR`: a true side decides, and then an unknown one. -/
def either : Option Bool → Option Bool → Option Bool
  | some true, _ => some true
  | some false, right => right
  | none, some true => some true
  | none, _ => none

theorem compared_true (relation : Value → Value → Bool) (left right : Option Value) :
    compared relation left right = some true ↔
      ∃ one other, left = some one ∧ right = some other ∧ relation one other = true := by
  cases left <;> cases right <;> simp [compared]

theorem both_true (left right : Option Bool) :
    both left right = some true ↔ left = some true ∧ right = some true := by
  rcases left with - | - | - <;> rcases right with - | - | - <;> simp [both]

theorem either_true (left right : Option Bool) :
    either left right = some true ↔ left = some true ∨ right = some true := by
  rcases left with - | - | - <;> rcases right with - | - | - <;> simp [either]

end Conditions

end NetVirt.RowTables
