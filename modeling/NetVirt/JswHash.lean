import NetVirt.Buckets
import NetVirt.Runs
import NetVirt.Tables

/-!
# The hash table with separate chaining

jsw_hlib.c. A table has a chain for each bucket that is not empty; a key goes to the front of
the chain of its hash. Items may be NULL, which is also what a search without a result
returns: a key under which NULL is stored is not found, and can be inserted again, so that a
table is in general a stack of items for every key. As long as no NULL is inserted it is the
partial map that `Tables.Table` is. Allocations succeed.
-/

namespace NetVirt.Jsw

open Buckets

universe u v w
variable {Key : Type u} {Item : Type v} {View : Type w}

/-- `jsw_node_t`, without the link: a chain is the list of its nodes. -/
structure Node (Key : Type u) (Item : Type v) where
  key : Key
  item : Option Item
deriving DecidableEq

/-- `jsw_head_t` -/
structure Head (Key : Type u) (Item : Type v) where
  first : List (Node Key Item)
  size : Nat
deriving DecidableEq

/-- The functions that `jsw_hnew` is given, apart from those that release memory. -/
structure Callbacks (Key : Type u) (Item : Type v) where
  hash : Key → UInt32
  cmp : Key → Key → Int
  keydup : Key → Key
  itemdup : Option Item → Option Item

/-- `jsw_hash_t`. The link of a traversal is given by the nodes of its chain from there on. -/
structure Hash (Key : Type u) (Item : Type v) where
  table : List (Option (Head Key Item))
  size : Nat
  curri : Nat
  currl : List (Node Key Item)

/-- The nodes of a bucket. -/
def chain : Option (Head Key Item) → List (Node Key Item)
  | none => []
  | some head => head.first

/-- All nodes, one bucket after the other. -/
def Hash.nodes (htab : Hash Key Item) : List (Node Key Item) := elements chain htab.table

def jswHnew (size : Nat) : Hash Key Item :=
  { table := List.replicate size none, size := 0, curri := 0, currl := [] }

/-- What `jsw_hdelete` releases, in this order. -/
def jswHdelete (htab : Hash Key Item) : List (Node Key Item) := htab.nodes

/-- Reset the traversal markers to the first chain there is. -/
def jswHreset (htab : Hash Key Item) : Hash Key Item :=
  let index := htab.table.findIdx Option.isSome
  { htab with
    curri := index
    currl := chain (htab.table.getD index none) }

/-- Traverse forward by one key. At the end of a chain the next one is looked for. -/
def jswHnext (htab : Hash Key Item) : Int × Hash Key Item :=
  match htab.currl with
  | [] => (1, htab)
  | _ :: next :: rest => (1, { htab with currl := next :: rest })
  | [_] =>
    let index := htab.curri + 1 + (htab.table.drop (htab.curri + 1)).findIdx Option.isSome
    if index = htab.table.length then (0, { htab with curri := index, currl := [] })
    else (1, { htab with curri := index, currl := chain (htab.table.getD index none) })

/-- `jsw_hkey` and `jsw_hitem`: the current node, if there is one. -/
def Hash.current (htab : Hash Key Item) : Option (Node Key Item) := htab.currl.head?

section Operations
variable (callbacks : Callbacks Key Item)

/-- The index of a key's bucket. -/
def Hash.bucket (htab : Hash Key Item) (key : Key) : Nat :=
  (callbacks.hash key).toNat % htab.table.length

/-- The node is one of the key. -/
def Callbacks.matching (key : Key) (node : Node Key Item) : Bool :=
  decide (callbacks.cmp key node.key = 0)

def jswHfind (htab : Hash Key Item) (key : Key) : Option Item :=
  ((chain (htab.table.getD (htab.bucket callbacks key) none)).find?
    (callbacks.matching key)).bind Node.item

/-- A new node goes to the front of its chain, which is created if there is none. -/
def jswHinsert (htab : Hash Key Item) (key : Key) (item : Option Item) :
    Int × Hash Key Item :=
  if (jswHfind callbacks htab key).isSome then (0, htab)
  else
    let index := htab.bucket callbacks key
    let head := (htab.table.getD index none).getD { first := [], size := 0 }
    let node := { key := callbacks.keydup key, item := callbacks.itemdup item }
    (1, { htab with
      table := htab.table.set index
        (some { first := node :: head.first, size := head.size + 1 })
      size := htab.size + 1 })

/-- The search for a node behind the first one of a chain, which is then taken out: the node,
and the others. -/
def unlink (key : Key) : List (Node Key Item) → Option (Node Key Item × List (Node Key Item))
  | [] => none
  | next :: rest =>
    if callbacks.cmp key next.key = 0 then some (next, rest)
    else (unlink key rest).map fun found => (found.1, next :: found.2)

/-- `jsw_herase`, with the node whose key and item are released. A chain that became empty is
removed. There is no result where the chain of an empty bucket would be read. -/
def jswHerase (htab : Hash Key Item) (key : Key) :
    Option (Int × Option (Node Key Item) × Hash Key Item) :=
  let index := htab.bucket callbacks key
  match htab.table.getD index none with
  | none => some (0, none, htab)
  | some head =>
    match head.first with
    | [] => none
    | it :: rest =>
      if callbacks.cmp key it.key = 0 then
        let slot := match rest with
          | [] => none
          | _ => some { first := rest, size := head.size - 1 }
        let erased := jswHreset { htab with table := htab.table.set index slot }
        some (1, some it, { erased with size := erased.size - 1 })
      else
        match unlink callbacks key rest with
        | none => some (0, none, htab)
        | some (save, others) =>
          let slot := some { first := it :: others, size := head.size - 1 }
          let erased := jswHreset { htab with table := htab.table.set index slot }
          some (1, some save, { erased with size := erased.size - 1 })

end Operations

/-! ## The invariant -/

/-- What the table relies on in its callbacks: keys are compared by something that they show,
which their hashes and their copies depend on. -/
structure Congruent (callbacks : Callbacks Key Item) (view : Key → View) : Prop where
  cmp : ∀ key other, callbacks.cmp key other = 0 ↔ view key = view other
  hash : ∀ key other, view key = view other → callbacks.hash key = callbacks.hash other
  keydup : ∀ key, view (callbacks.keydup key) = view key

/-- Chains are not empty, know their lengths and hold the keys of their bucket. -/
structure Formed (callbacks : Callbacks Key Item) (htab : Hash Key Item) : Prop where
  capacity : 0 < htab.table.length
  chains : ∀ head, some head ∈ htab.table → head.first ≠ [] ∧ head.size = head.first.length
  placed : ∀ index slot, htab.table[index]? = some slot → ∀ node ∈ chain slot,
    htab.bucket callbacks node.key = index
  size : htab.size = htab.nodes.length

/-- The nodes of a key, the newest first. -/
def Hash.stack (callbacks : Callbacks Key Item) (htab : Hash Key Item) (key : Key) :
    List (Node Key Item) :=
  htab.nodes.filter (callbacks.matching key)

section Stacks
variable {callbacks : Callbacks Key Item} {view : Key → View}
  (congruent : Congruent callbacks view)
include congruent

theorem matching_iff (key : Key) (node : Node Key Item) :
    callbacks.matching key node = true ↔ view key = view node.key := by
  rw [Callbacks.matching, decide_eq_true_iff, congruent.cmp]

/-- Keys that show the same have the same nodes. -/
theorem matching_congr {key other : Key} (same : view key = view other) :
    callbacks.matching key = callbacks.matching other := by
  funext node
  rw [Bool.eq_iff_iff, matching_iff congruent, matching_iff congruent, same]

theorem matching_apart {key other : Key} (apart : view other ≠ view key)
    (node : Node Key Item) (matched : callbacks.matching key node = true) :
    callbacks.matching other node = false := by
  rw [← Bool.not_eq_true, matching_iff congruent]
  intro same
  exact apart (same.trans ((matching_iff congruent key node).mp matched).symm)

variable {htab : Hash Key Item} (formed : Formed callbacks htab)
include formed

omit congruent in
theorem slot_there (key : Key) :
    htab.table[htab.bucket callbacks key]? =
      some (htab.table.getD (htab.bucket callbacks key) none) := by
  have inside : htab.bucket callbacks key < htab.table.length := Nat.mod_lt _ formed.capacity
  rw [List.getD_eq_getElem?_getD, List.getElem?_eq_getElem inside, Option.getD_some]

/-- The nodes of a key are those of its bucket. -/
theorem stack_eq (key : Key) :
    htab.stack callbacks key =
      (chain (htab.table.getD (htab.bucket callbacks key) none)).filter
        (callbacks.matching key) := by
  refine filter_elements chain htab.table _ _ (slot_there formed key) _
    fun other slot found elsewhere node lies => ?_
  rw [← Bool.not_eq_true, matching_iff congruent]
  intro same
  have home := formed.placed other slot found node lies
  rw [Hash.bucket, ← congruent.hash key node.key same] at home
  exact elsewhere home.symm

/-- What is found of a key is the newest item, unless that is NULL. -/
theorem find_eq (key : Key) :
    jswHfind callbacks htab key = (htab.stack callbacks key).head?.bind Node.item := by
  rw [jswHfind, stack_eq congruent formed, List.head?_filter]

omit congruent in
/-- A bucket is given another chain of its keys. -/
theorem replaced_formed (key : Key) (slot : Option (Head Key Item)) (next : Hash Key Item)
    (table : next.table = htab.table.set (htab.bucket callbacks key) slot)
    (chained : ∀ head, slot = some head → head.first ≠ [] ∧ head.size = head.first.length)
    (home : ∀ node ∈ chain slot,
      htab.bucket callbacks node.key = htab.bucket callbacks key)
    (size : next.size = next.nodes.length) : Formed callbacks next where
  capacity := by
    rw [table, List.length_set]
    exact formed.capacity
  chains head inside := by
    rw [table] at inside
    rcases List.mem_or_eq_of_mem_set inside with kept | new
    · exact formed.chains head kept
    · exact chained head new.symm
  placed index found there node lies := by
    rw [Hash.bucket, table, List.length_set]
    rw [table, List.getElem?_set] at there
    split at there
    · next same =>
      split at there
      · obtain rfl := Option.some.inj there
        rw [← same]
        exact home node lies
      · cases there
    · exact formed.placed index found there node lies
  size := size

/-- The nodes of a key in a table with another chain. -/
theorem replaced_stack (key other : Key) (slot : Option (Head Key Item)) (next : Hash Key Item)
    (table : next.table = htab.table.set (htab.bucket callbacks key) slot)
    (kept : Formed callbacks next) :
    next.stack callbacks other =
      if htab.bucket callbacks other = htab.bucket callbacks key then
        (chain slot).filter (callbacks.matching other)
      else htab.stack callbacks other := by
  have same : next.bucket callbacks other = htab.bucket callbacks other := by
    rw [Hash.bucket, Hash.bucket, table, List.length_set]
  have inside : htab.bucket callbacks key < htab.table.length := Nat.mod_lt _ formed.capacity
  rw [stack_eq congruent kept, same, table]
  split
  · next home =>
    rw [home, List.getD_eq_getElem?_getD, List.getElem?_set_self inside, Option.getD_some]
  · next apart =>
    rw [List.getD_eq_getElem?_getD, List.getElem?_set_ne (Ne.symm apart),
      ← List.getD_eq_getElem?_getD, stack_eq congruent formed]

/-! ## What the operations do to the stacks -/

/-- The node was put on the stack of the key. -/
structure Pushed (callbacks : Callbacks Key Item) (view : Key → View) (htab : Hash Key Item)
    (key : Key) (node : Node Key Item) (next : Hash Key Item) : Prop where
  formed : Formed callbacks next
  same : ∀ other, view other = view key →
    next.stack callbacks other = node :: htab.stack callbacks other
  apart : ∀ other, view other ≠ view key →
    next.stack callbacks other = htab.stack callbacks other
  nodes : next.nodes.Perm (node :: htab.nodes)

/-- The newest node was taken from the stack of the key. -/
structure Popped (callbacks : Callbacks Key Item) (view : Key → View) (htab : Hash Key Item)
    (key : Key) (node : Node Key Item) (next : Hash Key Item) : Prop where
  formed : Formed callbacks next
  newest : (htab.stack callbacks key).head? = some node
  same : ∀ other, view other = view key →
    next.stack callbacks other = (htab.stack callbacks other).tail
  apart : ∀ other, view other ≠ view key →
    next.stack callbacks other = htab.stack callbacks other
  nodes : htab.nodes.Perm (node :: next.nodes)

omit formed in
theorem bucket_congr {key other : Key} (same : view other = view key) :
    htab.bucket callbacks other = htab.bucket callbacks key := by
  rw [Hash.bucket, Hash.bucket, congruent.hash other key same]

/-- A chain with one more node in front. -/
theorem pushed_of (key : Key) (node : Node Key Item) (keyed : view node.key = view key)
    (slot : Option (Head Key Item)) (next : Hash Key Item)
    (table : next.table = htab.table.set (htab.bucket callbacks key) slot)
    (chained : ∀ head, slot = some head → head.first ≠ [] ∧ head.size = head.first.length)
    (pushed : chain slot =
      node :: chain (htab.table.getD (htab.bucket callbacks key) none))
    (size : next.size = htab.size + 1) : Pushed callbacks view htab key node next := by
  have there := slot_there formed key
  obtain ⟨before, after, all, changed⟩ := elements_around chain htab.table _ _ there
  have one : next.nodes = before ++ chain slot ++ after := by
    rw [Hash.nodes, table, changed]
  have perm : next.nodes.Perm (node :: htab.nodes) := by
    rw [one, pushed, Hash.nodes, all]
    simp only [List.append_assoc, List.cons_append]
    exact List.perm_middle
  have kept : Formed callbacks next := by
    refine replaced_formed formed key slot next table chained (fun other lies => ?_) ?_
    · rw [pushed] at lies
      rcases List.mem_cons.mp lies with rfl | old
      · exact bucket_congr congruent keyed
      · exact formed.placed _ _ there other old
    · rw [size, formed.size, perm.length_eq, List.length_cons]
  refine ⟨kept, fun other same => ?_, fun other apart => ?_, perm⟩
  · rw [replaced_stack congruent formed key other slot next table kept,
      if_pos (bucket_congr congruent same), pushed, List.filter_cons_of_pos,
      stack_eq congruent formed, bucket_congr congruent same]
    rw [matching_iff congruent, keyed, same]
  · rw [replaced_stack congruent formed key other slot next table kept]
    split
    · next met =>
      rw [pushed, List.filter_cons_of_neg, stack_eq congruent formed, met]
      rw [matching_iff congruent, keyed]
      exact apart
    · rfl

/-- A chain without the newest node of a key. -/
theorem popped_of (key : Key) (node : Node Key Item) (slot : Option (Head Key Item))
    (next : Hash Key Item)
    (table : next.table = htab.table.set (htab.bucket callbacks key) slot)
    (chained : ∀ head, slot = some head → head.first ≠ [] ∧ head.size = head.first.length)
    (newest : (chain (htab.table.getD (htab.bucket callbacks key) none)).find?
      (callbacks.matching key) = some node)
    (popped : chain slot = (chain (htab.table.getD (htab.bucket callbacks key) none)).eraseP
      (callbacks.matching key))
    (size : next.size = htab.size - 1) : Popped callbacks view htab key node next := by
  have there := slot_there formed key
  obtain ⟨before, after, all, changed⟩ := elements_around chain htab.table _ _ there
  have one : next.nodes = before ++ chain slot ++ after := by
    rw [Hash.nodes, table, changed]
  have perm : htab.nodes.Perm (node :: next.nodes) := by
    rw [one, popped, Hash.nodes, all]
    have taken := perm_eraseP _ _ node newest
    refine ((taken.append_left before).append_right after).trans ?_
    simp only [List.append_assoc, List.cons_append]
    exact List.perm_middle
  have kept : Formed callbacks next := by
    refine replaced_formed formed key slot next table chained (fun other lies => ?_) ?_
    · rw [popped] at lies
      exact formed.placed _ _ there other (List.mem_of_mem_eraseP lies)
    · rw [size, formed.size, perm.length_eq, List.length_cons, Nat.add_sub_cancel]
  refine ⟨kept, ?_, fun other same => ?_, fun other apart => ?_, perm⟩
  · rw [stack_eq congruent formed, List.head?_filter, newest]
  · rw [replaced_stack congruent formed key other slot next table kept,
      if_pos (bucket_congr congruent same), popped, stack_eq congruent formed,
      bucket_congr congruent same, matching_congr congruent same, filter_eraseP_same]
  · rw [replaced_stack congruent formed key other slot next table kept]
    split
    · next met =>
      rw [popped, filter_eraseP_other _ _ _ (matching_apart congruent apart),
        stack_eq congruent formed, met]
    · rfl

/-- A key is inserted unless an item of it is found. -/
theorem insert_spec (key : Key) (item : Option Item) :
    ((jswHfind callbacks htab key).isSome ∧
        jswHinsert callbacks htab key item = (0, htab)) ∨
      jswHfind callbacks htab key = none ∧
        ∃ next, jswHinsert callbacks htab key item = (1, next) ∧
          Pushed callbacks view htab key ⟨callbacks.keydup key, callbacks.itemdup item⟩ next := by
  cases found : jswHfind callbacks htab key with
  | some present => exact Or.inl ⟨rfl, if_pos (by rw [found]; rfl)⟩
  | none =>
    refine Or.inr ⟨rfl, _, if_neg (by rw [found]; exact Bool.false_ne_true), ?_⟩
    have there := slot_there formed key
    refine pushed_of congruent formed key _ (congruent.keydup key) _ _ rfl ?_ ?_ rfl
    · intro head same
      obtain rfl := Option.some.inj same
      refine ⟨List.cons_ne_nil _ _, ?_⟩
      cases slot : htab.table.getD (htab.bucket callbacks key) none with
      | none => rfl
      | some old =>
        rw [slot] at there
        simp [(formed.chains old (List.mem_of_getElem? there)).2]
    · cases htab.table.getD (htab.bucket callbacks key) none <;> rfl

omit congruent formed in
/-- The nodes behind the first one are searched for the newest of a key. -/
theorem unlink_eq (key : Key) (nodes : List (Node Key Item)) :
    unlink callbacks key nodes =
      (nodes.find? (callbacks.matching key)).map fun node =>
        (node, nodes.eraseP (callbacks.matching key)) := by
  induction nodes with
  | nil => rfl
  | cons first rest inductionHypothesis =>
    unfold unlink
    by_cases same : callbacks.cmp key first.key = 0
    · have matched : callbacks.matching key first = true := decide_eq_true same
      simp [same, matched]
    · have unmatched : callbacks.matching key first = false := decide_eq_false same
      simp [same, unmatched, inductionHypothesis, Option.map_map, Function.comp_def]

/-- A key is erased if it has a node. -/
theorem erase_spec (key : Key) :
    (htab.stack callbacks key = [] ∧ jswHerase callbacks htab key = some (0, none, htab)) ∨
      ∃ node next, jswHerase callbacks htab key = some (1, some node, next) ∧
        Popped callbacks view htab key node next := by
  have there := slot_there formed key
  have held := stack_eq congruent formed key
  cases slot : htab.table.getD (htab.bucket callbacks key) none with
  | none =>
    rw [slot] at held
    exact Or.inl ⟨held, by simp only [jswHerase, slot]⟩
  | some head =>
    rw [slot] at held there
    obtain ⟨some', counted⟩ := formed.chains head (List.mem_of_getElem? there)
    cases nodes : head.first with
    | nil => exact False.elim (some' nodes)
    | cons it rest =>
      have chained : chain (some head) = it :: rest := nodes
      rw [nodes, List.length_cons] at counted
      rw [chained] at held
      simp only [jswHerase, slot, nodes]
      by_cases same : callbacks.cmp key it.key = 0
      · have matched : callbacks.matching key it = true := decide_eq_true same
        rw [if_pos same]
        refine Or.inr ⟨it, _, rfl, popped_of congruent formed key it _ _ rfl ?_ ?_ ?_ rfl⟩
        · intro shorter first
          cases rest with
          | nil => cases first
          | cons second others =>
            obtain rfl := Option.some.inj first
            exact ⟨List.cons_ne_nil _ _, by simp [counted]⟩
        · rw [slot, chained, List.find?_cons_of_pos matched]
        · rw [slot, chained, List.eraseP_cons_of_pos matched]
          cases rest <;> rfl
      · have unmatched : ¬callbacks.matching key it = true := by
          rw [Callbacks.matching, decide_eq_true_iff]
          exact same
        rw [if_neg same, unlink_eq]
        cases newest : rest.find? (callbacks.matching key) with
        | none =>
          refine Or.inl ⟨?_, rfl⟩
          rw [held, List.filter_cons_of_neg unmatched, List.filter_eq_nil_iff]
          exact List.find?_eq_none.mp newest
        | some node =>
          refine Or.inr ⟨node, _, rfl, popped_of congruent formed key node _ _ rfl ?_ ?_ ?_ rfl⟩
          · intro shorter first
            obtain rfl := Option.some.inj first
            have taken := (perm_eraseP rest _ node newest).length_eq
            refine ⟨List.cons_ne_nil _ _, ?_⟩
            simp only [List.length_cons] at taken ⊢
            omega
          · rw [slot, chained, List.find?_cons_of_neg unmatched, newest]
          · rw [slot, chained, List.eraseP_cons_of_neg unmatched]
            rfl

end Stacks

end NetVirt.Jsw
