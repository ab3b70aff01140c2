import Mathlib.Data.List.Basic
import Mathlib.Logic.Function.Basic

/-!
# Tables that refuse duplicate keys

A hash table of keys and items, seen as the partial map it stores. Inserting a key that
is there already changes nothing; erasing one that is not there changes nothing either.
-/

namespace NetVirt.Tables

universe u v
variable {Key : Type u} {Item : Type v}

/-- The item of each key. -/
def Table (Key : Type u) (Item : Type v) : Type max u v := Key → Option Item

namespace Table

def empty : Table Key Item := fun _ => none

def find (table : Table Key Item) (key : Key) : Option Item := table key

@[ext]
theorem ext (left right : Table Key Item) (same : ∀ key, left.find key = right.find key) :
    left = right :=
  funext same

variable [DecidableEq Key]

def insert (table : Table Key Item) (key : Key) (item : Item) : Table Key Item :=
  if (table.find key).isSome then table
  else fun other => if other = key then some item else table.find other

def erase (table : Table Key Item) (key : Key) : Table Key Item :=
  fun other => if other = key then none else table.find other

/-- A key that is there refuses another item. -/
theorem insert_present (table : Table Key Item) (key : Key) (item : Item)
    (present : (table.find key).isSome) : table.insert key item = table :=
  if_pos present

/-- An inserted key has the new item only if it had none. -/
theorem find_insert (table : Table Key Item) (key other : Key) (item : Item) :
    (table.insert key item).find other =
      if other = key then some ((table.find key).getD item) else table.find other := by
  unfold insert
  by_cases same : other = key
  · subst same
    cases present : table.find other with
    | none => simp [find]
    | some kept => simp [present]
  · cases present : table.find key with
    | none => simp [find, same]
    | some kept => simp [same]

theorem find_erase (table : Table Key Item) (key other : Key) :
    (table.erase key).find other = if other = key then none else table.find other := rfl

/-- What is found after an erasure was there before, under another key. -/
theorem find_of_erase (table : Table Key Item) (key other : Key) (item : Item)
    (found : (table.erase key).find other = some item) :
    other ≠ key ∧ table.find other = some item := by
  rw [find_erase] at found
  by_cases same : other = key
  · rw [if_pos same] at found
    cases found
  · rw [if_neg same] at found
    exact ⟨same, found⟩

/-- The keys left after erasing several are those not named. -/
theorem find_eraseAll (table : Table Key Item) (keys : List Key) (other : Key) :
    (keys.foldl erase table).find other = if other ∈ keys then none else table.find other := by
  induction keys generalizing table with
  | nil => simp
  | cons key rest inductionHypothesis =>
    rw [List.foldl_cons, inductionHypothesis, find_erase]
    by_cases later : other ∈ rest
    · simp [later]
    · simp [later]

/-! ## The keys that items keep -/

/-- The table has exactly the keys that each item keeps a list of. -/
structure Owned (table : Table Key Item) (keys : Item → List Key) : Prop where
  exact : ∀ key item, table.find key = some item ↔ key ∈ keys item
  nodup : ∀ item, (keys item).Nodup

omit [DecidableEq Key] in
theorem owned_empty (keys : Item → List Key) (nothing : ∀ item, keys item = []) :
    Owned empty keys where
  exact key item := by simp [empty, find, nothing]
  nodup item := by simp [nothing]

section Owned
variable {table : Table Key Item} {keys : Item → List Key} (owned : table.Owned keys)
include owned

omit [DecidableEq Key] in
/-- No two items keep the same key. -/
theorem Owned.unique (key : Key) (item other : Item) (own : key ∈ keys item)
    (shared : key ∈ keys other) : item = other :=
  Option.some.inj (((owned.exact key item).mpr own).symm.trans ((owned.exact key other).mpr shared))

variable [DecidableEq Item]

/-- A key that is not there is inserted for an item, and added to its list. -/
theorem Owned.learn (key : Key) (item : Item) (absent : table.find key = none) :
    (table.insert key item).Owned (Function.update keys item (key :: keys item)) where
  exact other kept := by
    have unkept : key ∉ keys kept := by
      intro inside
      rw [(owned.exact key kept).mpr inside] at absent
      cases absent
    rw [find_insert, absent, Option.getD_none]
    by_cases same : other = key
    · subst same
      rw [if_pos rfl]
      by_cases own : kept = item
      · simp [own]
      · simp [own, unkept, Ne.symm own]
    · rw [if_neg same, owned.exact]
      by_cases own : kept = item
      · simp [own, same]
      · simp [own]
  nodup kept := by
    by_cases own : kept = item
    · subst own
      rw [Function.update_self, List.nodup_cons]
      refine ⟨fun inside => ?_, owned.nodup kept⟩
      rw [(owned.exact key kept).mpr inside] at absent
      cases absent
    · rw [Function.update_of_ne own]
      exact owned.nodup kept

/-- The keys of an item are erased, and its list with them. -/
theorem Owned.forget (item : Item) :
    ((keys item).foldl erase table).Owned (Function.update keys item []) where
  exact key kept := by
    rw [find_eraseAll]
    by_cases own : kept = item
    · subst own
      by_cases inside : key ∈ keys kept
      · simp [inside]
      · simp [inside, owned.exact]
    · rw [Function.update_of_ne own, ← owned.exact key kept]
      by_cases inside : key ∈ keys item
      · have found := (owned.exact key item).mpr inside
        simp [inside, found, Ne.symm own]
      · rw [if_neg inside]
  nodup kept := by
    by_cases own : kept = item
    · simp [own]
    · simpa [own] using owned.nodup kept

end Owned

end Table

end NetVirt.Tables
