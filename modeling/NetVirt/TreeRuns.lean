import Mathlib.Data.List.Perm.Subperm
import NetVirt.Runs
import NetVirt.Tables
import NetVirt.TreeRemovals

/-!
# What a tree stores

A tree of tree.h is for a table that refuses a key it has. After any calls that remove only
elements of the tree, it stores the table that the calls make; no NULL pointer is followed, and
no loop takes more rounds than twice the logarithm of the number of elements and two.
-/

namespace NetVirt.RbTrees

open Runs Tables

universe u v
variable {Elem : Type u} [DecidableEq Elem] {Key : Type v} [DecidableEq Key]

/-- The rounds that are enough for a tree of so many elements. -/
def roundsFor (count : Nat) : Nat := 2 * Nat.log 2 (count + 1) + 2

theorem roundsFor_mono {count larger : Nat} (less : count ≤ larger) :
    roundsFor count ≤ roundsFor larger := by
  have log := Nat.log_mono_right (b := 2) (Nat.succ_le_succ less)
  simp only [roundsFor, Nat.succ_eq_add_one] at log ⊢
  omega

/-- The tree stores a table of so many elements at most. -/
def Stores (key : Elem → Key) (cmp : Key → Key → Int) (head : Head Elem)
    (table : Table Key Elem) (count : Nat) : Prop :=
  ∃ tree, Formed key cmp head tree ∧ tree.elems.length ≤ count ∧
    ∀ sought elem, table.find sought = some elem ↔ elem ∈ tree.elems ∧ key elem = sought

section Stores
variable {key : Elem → Key} {cmp : Key → Key → Int} {head : Head Elem} {table : Table Key Elem}
  {count : Nat}

omit [DecidableEq Elem] [DecidableEq Key] in
theorem stores_empty (entry : Elem → Entry Elem) :
    Stores key cmp ⟨none, entry⟩ .empty 0 := by
  refine ⟨.nil, ⟨⟨rfl, trivial, List.nodup_nil, List.nodup_nil, ?_⟩, ⟨rfl, 0, .nil⟩,
    List.Pairwise.nil⟩, Nat.le_refl 0, fun sought elem => ?_⟩
  · exact fun elem inside => by cases inside
  · simp [Table.find, Table.empty, RbTree.elems]

omit [DecidableEq Elem] [DecidableEq Key] in
theorem height_lt_rounds {tree : RbTree Elem} {rounds : Nat} (valid : RedBlack tree)
    (few : tree.elems.length ≤ count) (enough : roundsFor count ≤ rounds) :
    tree.height + 1 < rounds := by
  have high := valid.height_le
  have grows := roundsFor_mono few
  simp only [roundsFor] at grows enough
  omega

variable (compares : Comparison cmp) (stores : Stores key cmp head table count)
include compares stores

omit [DecidableEq Elem] [DecidableEq Key] in
theorem Stores.find (sought : Key) (rounds : Nat) (enough : roundsFor count ≤ rounds) :
    rbFind rounds head (fun elem => cmp sought (key elem)) = some (table.find sought) := by
  obtain ⟨tree, formed, few, exact⟩ := stores
  have low := height_lt_rounds formed.valid few enough
  obtain ⟨found, searched, found_iff⟩ := formed.rbFind_eq compares sought rounds (by omega)
  rw [searched]
  exact congrArg some (Option.ext fun elem => (found_iff elem).trans (exact sought elem).symm)

theorem Stores.insert (elm : Elem) (rounds : Nat) (enough : roundsFor count ≤ rounds) :
    ∃ after, rbInsert rounds head (fun elem => cmp (key elm) (key elem)) elm =
        some (after, table.find (key elm)) ∧
      Stores key cmp after (table.insert (key elm) elm) (count + 1) := by
  obtain ⟨tree, formed, few, exact⟩ := stores
  have low := height_lt_rounds formed.valid few enough
  cases formed.rbInsert_eq compares elm rounds (by omega) with
  | inl present =>
    obtain ⟨other, inside, same, inserted⟩ := present
    have known := (exact (key elm) other).mpr ⟨inside, same⟩
    refine ⟨head, by rw [inserted, known], tree, formed, by omega, fun sought elem => ?_⟩
    rw [Table.insert_present table (key elm) elm (by rw [known]; rfl)]
    exact exact sought elem
  | inr absent =>
    obtain ⟨fresh, after, larger, inserted, formed', members⟩ := absent
    have unknown : table.find (key elm) = none := by
      rw [Option.eq_none_iff_forall_not_mem]
      intro other known
      obtain ⟨inside, same⟩ := (exact (key elm) other).mp known
      exact fresh other inside same
    have size : larger.elems.length = tree.elems.length + 1 := by
      have apart : elm ∉ tree.elems := fun inside => fresh elm inside rfl
      have perm : larger.elems.Perm (elm :: tree.elems) := by
        refine (List.perm_ext_iff_of_nodup formed'.place.nodup
          (List.nodup_cons.mpr ⟨apart, formed.place.nodup⟩)).mpr fun other => ?_
        rw [members, List.mem_cons]
      rw [perm.length_eq, List.length_cons]
    refine ⟨after, by rw [inserted, unknown], larger, formed', by omega,
      fun sought elem => ?_⟩
    rw [Table.find_insert, unknown, Option.getD_none, members]
    by_cases same : sought = key elm
    · subst same
      rw [if_pos rfl, Option.some.injEq]
      constructor
      · rintro rfl
        exact ⟨Or.inl rfl, rfl⟩
      · rintro ⟨rfl | inside, same⟩
        · rfl
        · exact absurd same (fresh elem inside)
    · rw [if_neg same, exact]
      constructor
      · rintro ⟨inside, named⟩
        exact ⟨Or.inr inside, named⟩
      · rintro ⟨rfl | inside, named⟩
        · exact absurd named.symm same
        · exact ⟨inside, named⟩

theorem Stores.remove (elm : Elem) (there : table.find (key elm) = some elm) (rounds : Nat)
    (enough : roundsFor count ≤ rounds) :
    ∃ after, rbRemove rounds head elm = some (after, elm) ∧
      Stores key cmp after (table.erase (key elm)) count := by
  obtain ⟨tree, formed, few, exact⟩ := stores
  have low := height_lt_rounds formed.valid few enough
  obtain ⟨inside, _⟩ := (exact _ _).mp there
  obtain ⟨after, smaller, removed, formed', members⟩ :=
    formed.rbRemove_eq compares elm inside rounds low
  have size : smaller.elems.length ≤ tree.elems.length :=
    (List.subperm_of_subset formed'.place.nodup fun other within =>
      ((members other).mp within).1).length_le
  refine ⟨after, removed, smaller, formed', by omega, fun sought elem => ?_⟩
  rw [Table.find_erase, members]
  by_cases same : sought = key elm
  · subst same
    rw [if_pos rfl]
    constructor
    · intro none
      cases none
    · rintro ⟨⟨within, apart⟩, named⟩
      have twice := (exact _ _).mpr ⟨within, named⟩
      rw [there] at twice
      exact absurd (Option.some.inj twice).symm apart
  · rw [if_neg same, exact]
    constructor
    · rintro ⟨within, named⟩
      refine ⟨⟨within, ?_⟩, named⟩
      rintro rfl
      exact same named.symm
    · rintro ⟨⟨within, _⟩, named⟩
      exact ⟨within, named⟩

end Stores

/-! ## Runs -/

inductive TreeCall (Elem : Type u) where
  | insert (elm : Elem)
  | remove (elm : Elem)

def treeStep (rounds : Nat) (key : Elem → Key) (cmp : Key → Key → Int) (head : Head Elem) :
    TreeCall Elem → Option (Head Elem)
  | .insert elm =>
    (rbInsert rounds head (fun elem => cmp (key elm) (key elem)) elm).map Prod.fst
  | .remove elm => (rbRemove rounds head elm).map Prod.fst

/-- What a tree is for. Only elements of the tree may be removed. -/
def tableStep (key : Elem → Key) (table : Table Key Elem) :
    TreeCall Elem → Option (Table Key Elem)
  | .insert elm => some (table.insert (key elm) elm)
  | .remove elm => if table.find (key elm) = some elm then some (table.erase (key elm)) else none

section Runs
variable {key : Elem → Key} {cmp : Key → Key → Int} (compares : Comparison cmp)
include compares

theorem Stores.step {head : Head Elem} {table after : Table Key Elem} {count : Nat}
    (stores : Stores key cmp head table count) (call : TreeCall Elem) (rounds : Nat)
    (enough : roundsFor count ≤ rounds) (taken : tableStep key table call = some after) :
    ∃ next, treeStep rounds key cmp head call = some next ∧
      Stores key cmp next after (count + 1) := by
  cases call with
  | insert elm =>
    cases taken
    obtain ⟨next, inserted, stores⟩ := stores.insert compares elm rounds enough
    exact ⟨next, by rw [treeStep, inserted, Option.map_some], stores⟩
  | remove elm =>
    rw [tableStep] at taken
    by_cases there : table.find (key elm) = some elm
    · rw [if_pos there, Option.some.injEq] at taken
      subst taken
      obtain ⟨next, removed, tree, formed, few, exact⟩ :=
        stores.remove compares elm there rounds enough
      exact ⟨next, by rw [treeStep, removed, Option.map_some], tree, formed, by omega, exact⟩
    · rw [if_neg there] at taken
      cases taken

/-- A tree stores the table that the calls make.

Proof: induction over the calls. A tree that stores a table of that many calls is balanced, so
each loop ends within the rounds; the call leads to a tree that stores the next table, a
lookup descends along the order to the key's element. -/
theorem tree_stores_table (entry : Elem → Entry Elem) (calls : List (TreeCall Elem))
    (table : Table Key Elem) (kept : run (tableStep key) .empty calls = some table)
    (rounds : Nat) (enough : roundsFor calls.length ≤ rounds) :
    ∃ head, run (treeStep rounds key cmp) ⟨none, entry⟩ calls = some head ∧
      Stores key cmp head table calls.length ∧
      ∀ sought, rbFind rounds head (fun elem => cmp sought (key elem)) =
        some (table.find sought) := by
  have onward : ∀ (calls : List (TreeCall Elem)) (head : Head Elem) (early : Table Key Elem)
      (count : Nat), Stores key cmp head early count →
      run (tableStep key) early calls = some table → roundsFor (count + calls.length) ≤ rounds →
      ∃ last, run (treeStep rounds key cmp) head calls = some last ∧
        Stores key cmp last table (count + calls.length) := by
    intro calls
    induction calls with
    | nil =>
      intro head early count stores kept _
      cases kept
      exact ⟨head, rfl, stores⟩
    | cons call rest inductionHypothesis =>
      intro head early count stores kept enough
      obtain ⟨middle, taken, kept⟩ := Option.bind_eq_some_iff.mp kept
      have now : roundsFor count ≤ rounds :=
        (roundsFor_mono (Nat.le_add_right _ _)).trans enough
      obtain ⟨next, step, stores⟩ := stores.step compares call rounds now taken
      rw [List.length_cons, Nat.add_comm rest.length, ← Nat.add_assoc] at enough ⊢
      obtain ⟨last, reached, stores⟩ := inductionHypothesis next middle _ stores kept enough
      exact ⟨last, by rw [run, step, Option.bind_some, reached], stores⟩
  obtain ⟨head, reached, stores⟩ := onward calls ⟨none, entry⟩ .empty 0 (stores_empty entry) kept
    (by rwa [Nat.zero_add])
  rw [Nat.zero_add] at stores
  exact ⟨head, reached, stores, fun sought => stores.find compares sought rounds enough⟩

end Runs

/-- Numbers, which are their own keys. -/
def difference (number other : Nat) : Int := number - other

theorem compares_difference : Comparison difference where
  zero_iff number other := by simp only [difference]; omega
  flip number other := by simp only [difference]; omega
  trans number middle other := by simp only [difference]; omega

/-- The root has two children when it is removed. -/
theorem root_removed :
    ∃ head, run (treeStep (roundsFor 4) id difference) ⟨none, fun _ => ⟨none, none, none, .black⟩⟩
        [.insert 2, .insert 1, .insert 3, .remove 2] = some head ∧
      Stores id difference head
        ((((Table.empty.insert 2 2).insert 1 1).insert 3 3).erase 2) 4 ∧
      ∀ sought, rbFind (roundsFor 4) head (fun elem => difference sought (id elem)) =
        some (((((Table.empty.insert 2 2).insert 1 1).insert 3 3).erase 2).find sought) :=
  tree_stores_table compares_difference _ _ _ (by rfl) _ (Nat.le_refl _)

end NetVirt.RbTrees
