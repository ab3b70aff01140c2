import NetVirt.JswHash

/-!
# The life of a hash table

A table from its creation over any insertions and erasures to its deletion. At any time it
is a stack of items for every key, of which the newest is found; as long as no item is NULL
it is a partial map. Every key and item that it copied is in the table or was released, and
all are released once it is deleted, each once. A traversal meets every node once.
-/

namespace NetVirt.Jsw

open Buckets Runs Tables

universe u v w
variable {Key : Type u} {Item : Type v} {View : Type w}

/-- A call of a table's owner. -/
inductive Event (Key : Type u) (Item : Type v) where
  | insert (key : Key) (item : Option Item)
  | erase (key : Key)

/-- A table, with the nodes that were made for it and those that were released. -/
structure Life (Key : Type u) (Item : Type v) where
  htab : Hash Key Item
  created : List (Node Key Item)
  released : List (Node Key Item)

def Life.new (size : Nat) : Life Key Item :=
  { htab := jswHnew size, created := [], released := [] }

def step (callbacks : Callbacks Key Item) (life : Life Key Item) :
    Event Key Item → Option (Life Key Item)
  | .insert key item =>
    let (code, htab) := jswHinsert callbacks life.htab key item
    some { life with
      htab := htab
      created := if code = 1 then
          { key := callbacks.keydup key, item := callbacks.itemdup item } :: life.created
        else life.created }
  | .erase key => do
    let (_, node, htab) ← jswHerase callbacks life.htab key
    return { life with htab := htab, released := node.toList ++ life.released }

/-! ## The items of every key -/

/-- What a table is for: a stack of items for everything that keys show. -/
abbrev Stacks (View : Type w) (Item : Type v) : Type max w v := View → List (Option Item)

section Stacks
variable [DecidableEq View]

/-- An item is put in front, unless the one in front is not NULL. -/
def Stacks.insert (store : Stacks View Item) (view : View) (item : Option Item) :
    Stacks View Item :=
  if ((store view).head?.bind id).isSome then store
  else Function.update store view (item :: store view)

def Stacks.erase (store : Stacks View Item) (view : View) : Stacks View Item :=
  Function.update store view (store view).tail

def Stacks.apply (callbacks : Callbacks Key Item) (view : Key → View)
    (store : Stacks View Item) : Event Key Item → Stacks View Item
  | .insert key item => store.insert (view key) (callbacks.itemdup item)
  | .erase key => store.erase (view key)

/-- The table holds these stacks, and what was made for it is in it or was released. -/
structure Holds (callbacks : Callbacks Key Item) (view : Key → View) (life : Life Key Item)
    (store : Stacks View Item) : Prop where
  formed : Formed callbacks life.htab
  items : ∀ key, (life.htab.stack callbacks key).map Node.item = store (view key)
  custody : life.created.Perm (life.htab.nodes ++ life.released)

variable {callbacks : Callbacks Key Item} {view : Key → View}
  (congruent : Congruent callbacks view)

theorem new_nodes (size : Nat) : (jswHnew size : Hash Key Item).nodes = [] := by
  rw [Hash.nodes, elements, List.flatMap_eq_nil_iff]
  intro slot inside
  rw [List.eq_of_mem_replicate inside]
  rfl

omit [DecidableEq View] in
theorem holds_new (size : Nat) (positive : 0 < size) :
    Holds callbacks view (Life.new size) (fun _ => []) where
  formed :=
    { capacity := by simpa [Life.new, jswHnew] using positive
      chains := fun head inside => by
        cases List.eq_of_mem_replicate inside
      placed := fun index slot there node lies => by
        rw [List.eq_of_mem_replicate (List.mem_of_getElem? there)] at lies
        cases lies
      size := by
        rw [Life.new, new_nodes]
        rfl }
  items key := by
    rw [Hash.stack, Life.new, new_nodes]
    rfl
  custody := by
    rw [Life.new, new_nodes]
    exact List.Perm.nil

include congruent

omit [DecidableEq View] in
/-- What is found is the newest item. -/
theorem Holds.find {life : Life Key Item} {store : Stacks View Item}
    (holds : Holds callbacks view life store) (key : Key) :
    jswHfind callbacks life.htab key = (store (view key)).head?.bind id := by
  rw [find_eq congruent holds.formed, ← holds.items, List.head?_map]
  cases (life.htab.stack callbacks key).head? <;> rfl

omit [DecidableEq View] in
/-- A key is inserted exactly where nothing but NULL is found. -/
theorem inserts_iff {htab : Hash Key Item} (formed : Formed callbacks htab) (key : Key)
    (item : Option Item) :
    (jswHinsert callbacks htab key item).1 = 1 ↔ jswHfind callbacks htab key = none := by
  rcases insert_spec congruent formed key item with
    ⟨there, same⟩ | ⟨absent, next, inserted, _⟩
  · obtain ⟨old, shown⟩ := Option.isSome_iff_exists.mp there
    simp [same, shown]
  · simp [inserted, absent]

theorem Holds.step {life : Life Key Item} {store : Stacks View Item}
    (holds : Holds callbacks view life store) (event : Event Key Item) :
    ∃ next, Jsw.step callbacks life event = some next ∧
      Holds callbacks view next (store.apply callbacks view event) := by
  cases event with
  | insert key item =>
    have found := holds.find congruent key
    rcases insert_spec congruent holds.formed key item with
      ⟨present, same⟩ | ⟨absent, htab, inserted, pushed⟩
    · refine ⟨life, by simp [Jsw.step, same], ?_⟩
      rw [Stacks.apply, Stacks.insert, if_pos (found ▸ present)]
      exact holds
    · have free : ¬((store (view key)).head?.bind id).isSome = true := by
        rw [← found, absent]
        exact Bool.false_ne_true
      refine ⟨⟨htab, ⟨callbacks.keydup key, callbacks.itemdup item⟩ :: life.created,
        life.released⟩, by simp [Jsw.step, inserted], pushed.formed, fun other => ?_, ?_⟩
      · rw [Stacks.apply, Stacks.insert, if_neg free]
        by_cases same : view other = view key
        · rw [pushed.same other same, List.map_cons, holds.items, same, Function.update_self]
        · rw [pushed.apart other same, holds.items, Function.update_of_ne same]
      · exact (holds.custody.cons _).trans (pushed.nodes.symm.append_right life.released)
  | erase key =>
    rcases erase_spec congruent holds.formed key with
      ⟨nothing, same⟩ | ⟨node, htab, erased, popped⟩
    · refine ⟨life, by simp [Jsw.step, same], holds.formed, fun other => ?_, holds.custody⟩
      have none : store (view key) = [] := by rw [← holds.items, nothing]; rfl
      rw [Stacks.apply, Stacks.erase, none, List.tail_nil, ← none, Function.update_eq_self,
        holds.items]
    · refine ⟨_, by simp only [Jsw.step, erased]; rfl, popped.formed, fun other => ?_, ?_⟩
      · rw [Stacks.apply, Stacks.erase]
        by_cases same : view other = view key
        · rw [popped.same other same, List.map_tail, holds.items, same, Function.update_self]
        · rw [popped.apart other same, holds.items, Function.update_of_ne same]
      · refine holds.custody.trans ((popped.nodes.append_right life.released).trans ?_)
        exact List.perm_middle.symm

/-- Over its whole life a table holds the stacks that its owner's calls make. -/
theorem run_keeps (size : Nat) (positive : 0 < size) (events : List (Event Key Item)) :
    ∃ life, Runs.run (Jsw.step callbacks) (Life.new size) events = some life ∧
      Holds callbacks view life
        (events.foldl (Stacks.apply callbacks view) fun _ => []) := by
  have onward : ∀ (events : List (Event Key Item)) (life : Life Key Item)
      (store : Stacks View Item), Holds callbacks view life store →
      ∃ last, Runs.run (Jsw.step callbacks) life events = some last ∧
        Holds callbacks view last (events.foldl (Stacks.apply callbacks view) store) := by
    intro events
    induction events with
    | nil => exact fun life store holds => ⟨life, rfl, holds⟩
    | cons event rest inductionHypothesis =>
      intro life store holds
      obtain ⟨next, taken, after⟩ := holds.step congruent event
      obtain ⟨last, reached, kept⟩ := inductionHypothesis next _ after
      exact ⟨last, by simp [Runs.run, taken, reached], kept⟩
  exact onward events _ _ (holds_new size positive)

/-- After any calls, NULL items included, a table is well-formed, holds the stacks that the
calls make, and has released what it does not hold. Under a key the newest item is found, and
NULL is as good as none: the next insertion is refused exactly where something is found.

Proof: a new table holds empty stacks; an insertion pushes the item or refuses, and an erasure
pops, in the chain of the key's bucket alone. The lookup stops at the first node of the key,
the newest. -/
theorem run_holds (size : Nat) (positive : 0 < size) (events : List (Event Key Item)) :
    ∃ life, Runs.run (Jsw.step callbacks) (Life.new size) events = some life ∧
      Holds callbacks view life
        (events.foldl (Stacks.apply callbacks view) fun _ => []) ∧
      ∀ key, jswHfind callbacks life.htab key =
          (events.foldl (Stacks.apply callbacks view) (fun _ => []) (view key)).head?.bind id ∧
        ∀ item, (jswHinsert callbacks life.htab key item).1 = 1 ↔
          jswHfind callbacks life.htab key = none := by
  obtain ⟨life, reached, holds⟩ := run_keeps congruent size positive events
  exact ⟨life, reached, holds, fun key =>
    ⟨holds.find congruent key, inserts_iff congruent holds.formed key⟩⟩

/-! ## Items that are not NULL -/

/-- What a call does to a partial map. -/
def mapApply (callbacks : Callbacks Key Item) (view : Key → View) (table : Table View Item) :
    Event Key Item → Table View Item
  | .insert key item =>
    match callbacks.itemdup item with
    | none => table
    | some copy => table.insert (view key) copy
  | .erase key => table.erase (view key)

/-- No call stores NULL. -/
def Present (callbacks : Callbacks Key Item) : Event Key Item → Prop
  | .insert _ item => (callbacks.itemdup item).isSome
  | .erase _ => True

omit congruent in
/-- Without NULL a stack has one item at most, that of the map. -/
theorem stacks_of_map (store : Stacks View Item) (table : Table View Item)
    (same : ∀ view, store view = (table.find view).toList.map some) (event : Event Key Item)
    (present : Present callbacks event) (shown : View) :
    store.apply callbacks view event shown =
      ((mapApply callbacks view table event).find shown).toList.map some := by
  cases event with
  | erase key =>
    simp only [Stacks.apply, Stacks.erase, mapApply, Table.find_erase]
    by_cases other : shown = view key
    · subst other
      rw [Function.update_self, same, if_pos rfl]
      cases table.find (view key) <;> rfl
    · rw [Function.update_of_ne other, if_neg other, same]
  | insert key item =>
    obtain ⟨copy, copied⟩ := Option.isSome_iff_exists.mp present
    have front : ((store (view key)).head?.bind id) = table.find (view key) := by
      rw [same]
      cases table.find (view key) <;> rfl
    simp only [Stacks.apply, Stacks.insert, mapApply, copied, Table.find_insert, front]
    by_cases other : shown = view key
    · subst other
      cases found : table.find (view key) with
      | none => simp [same, found]
      | some old => simp [same, found]
    · cases found : table.find (view key) with
      | none => simp [same, other]
      | some old => simp [same, other]

omit congruent in
theorem run_stacks_of_map (events : List (Event Key Item)) (store : Stacks View Item)
    (table : Table View Item) (present : ∀ event ∈ events, Present callbacks event)
    (same : ∀ view, store view = (table.find view).toList.map some) (shown : View) :
    events.foldl (Stacks.apply callbacks view) store shown =
      ((events.foldl (mapApply callbacks view) table).find shown).toList.map some := by
  induction events generalizing store table with
  | nil => exact same shown
  | cons event rest inductionHypothesis =>
    exact inductionHypothesis _ _
      (fun other inside => present other (List.mem_cons_of_mem event inside))
      (stacks_of_map store table same event (present event List.mem_cons_self))

/-- A table that is never given NULL is the partial map of its owner's calls. A key is
inserted exactly if it was not found, and erased exactly if it was. -/
theorem run_finds (size : Nat) (positive : 0 < size) (events : List (Event Key Item))
    (present : ∀ event ∈ events, Present callbacks event) :
    ∃ life, Runs.run (Jsw.step callbacks) (Life.new size) events = some life ∧ ∀ key,
      jswHfind callbacks life.htab key =
        (events.foldl (mapApply callbacks view) Table.empty).find (view key) ∧
      (∀ item, (jswHinsert callbacks life.htab key item).1 = 1 ↔
        jswHfind callbacks life.htab key = none) ∧
      ∃ code node next, jswHerase callbacks life.htab key = some (code, node, next) ∧
        (code = 1 ↔ jswHfind callbacks life.htab key ≠ none) := by
  obtain ⟨life, reached, holds⟩ := run_keeps congruent size positive events
  refine ⟨life, reached, fun key => ?_⟩
  have items := holds.items key
  rw [run_stacks_of_map events (fun _ => []) Table.empty present (fun _ => rfl)] at items
  have found := find_eq congruent holds.formed key
  refine ⟨?_, inserts_iff congruent holds.formed key, ?_⟩
  · rw [holds.find congruent,
      run_stacks_of_map events (fun _ => []) Table.empty present (fun _ => rfl)]
    cases (events.foldl (mapApply callbacks view) Table.empty).find (view key) <;> rfl
  · rcases erase_spec congruent holds.formed key with
      ⟨nothing, same⟩ | ⟨node, next, erased, popped⟩
    · exact ⟨0, none, life.htab, same, by simp [found, nothing]⟩
    · have newest := congrArg List.head? items
      rw [List.head?_map, popped.newest] at newest
      rw [found, popped.newest]
      refine ⟨1, some node, next, erased, iff_of_true rfl ?_⟩
      intro null
      cases shown : (events.foldl (mapApply callbacks view) Table.empty).find (view key) with
      | none => simp [shown] at newest
      | some item =>
        simp only [shown, Option.map_some, Option.toList_some, List.map_cons, List.map_nil,
          List.head?_cons, Option.some.injEq] at newest
        simp [newest] at null

/-- Of what was made for a table, everything is released once the table is deleted, each node
once.

Proof: along the run, what was made is what is in the chains and what was released;
jsw_hdelete releases the chains. -/
theorem run_released (size : Nat) (positive : 0 < size) (events : List (Event Key Item)) :
    ∃ life, Runs.run (Jsw.step callbacks) (Life.new size) events = some life ∧
      life.created.Perm (jswHdelete life.htab ++ life.released) ∧
      life.htab.size = (jswHdelete life.htab).length := by
  obtain ⟨life, reached, holds⟩ := run_keeps congruent size positive events
  exact ⟨life, reached, holds.custody, holds.formed.size⟩

end Stacks

/-! ## Traversals -/

/-- The nodes from the current one on. -/
def Hash.upcoming (htab : Hash Key Item) : List (Node Key Item) :=
  htab.currl ++ elements chain (htab.table.drop (htab.curri + 1))

/-- The loop of a traversal: the current node is looked at, then the next one is gone to,
as long as there is one. -/
def visit : Nat → Hash Key Item → Option (List (Option (Node Key Item)))
  | 0, _ => none
  | turns + 1, htab =>
    let (code, next) := jswHnext htab
    if code = 0 then some [htab.current]
    else (visit turns next).map (htab.current :: ·)

section Traversals
variable {callbacks : Callbacks Key Item} {htab : Hash Key Item}
  (formed : Formed callbacks htab)

/-- Behind the buckets without a chain comes the next chain. -/
theorem elements_skip (table : List (Option (Head Key Item))) :
    elements chain table =
      chain (table.getD (table.findIdx Option.isSome) none) ++
        elements chain (table.drop (table.findIdx Option.isSome + 1)) := by
  induction table with
  | nil => rfl
  | cons slot rest inductionHypothesis =>
    cases slot with
    | some head => rfl
    | none =>
      rw [elements, List.flatMap_cons, ← elements, inductionHypothesis]
      simp [List.findIdx_cons, chain]

/-- The marker is on a node of a bucket. -/
structure Standing (htab : Hash Key Item) : Prop where
  node : htab.currl ≠ []
  bucket : htab.curri < htab.table.length

theorem getD_findIdx (table : List (Option (Head Key Item)))
    (found : table.findIdx Option.isSome < table.length) :
    ∃ head, table.getD (table.findIdx Option.isSome) none = some head ∧ some head ∈ table := by
  have holds : (table[table.findIdx Option.isSome]).isSome := List.findIdx_getElem
  obtain ⟨head, there⟩ := Option.isSome_iff_exists.mp holds
  refine ⟨head, ?_, there ▸ List.getElem_mem found⟩
  rw [List.getD_eq_getElem?_getD, List.getElem?_eq_getElem found, there]
  rfl

include formed

/-- The marker is moved to the next node; the code is 0 exactly behind the last one. -/
theorem next_spec (moved : Hash Key Item) (same : moved.table = htab.table)
    (standing : Standing moved) :
    (jswHnext moved).2.table = htab.table ∧
      (jswHnext moved).2.upcoming = moved.upcoming.tail ∧
      ((jswHnext moved).1 = 0 ∧ moved.upcoming.tail = [] ∨
        (jswHnext moved).1 = 1 ∧ Standing (jswHnext moved).2) := by
  have inside := standing.bucket
  unfold jswHnext Hash.upcoming
  cases nodes : moved.currl with
  | nil => exact False.elim (standing.node nodes)
  | cons it rest =>
    cases rest with
    | cons second others =>
      exact ⟨same, rfl, Or.inr ⟨rfl, List.cons_ne_nil _ _, inside⟩⟩
    | nil =>
      obtain ⟨behind, cut⟩ : ∃ behind, behind = moved.table.drop (moved.curri + 1) := ⟨_, rfl⟩
      have length : behind.length = moved.table.length - (moved.curri + 1) := by
        rw [cut, List.length_drop]
      have skipped := elements_skip behind
      simp only [← cut]
      by_cases last : behind.findIdx Option.isSome = behind.length
      · rw [if_pos (by omega)]
        have none : elements chain behind = [] := by
          rw [skipped, last, List.getD_eq_getElem?_getD, List.getElem?_eq_none (Nat.le_refl _),
            List.drop_eq_nil_of_le (Nat.le_succ _)]
          rfl
        have beyond : moved.table.drop (moved.curri + 1 + behind.findIdx Option.isSome + 1) = [] :=
          List.drop_eq_nil_of_le (by omega)
        refine ⟨same, ?_, Or.inl ⟨rfl, ?_⟩⟩
        · rw [beyond, none]
          rfl
        · rw [none]
          rfl
      · have found : behind.findIdx Option.isSome < behind.length :=
          Nat.lt_of_le_of_ne List.findIdx_le_length last
        obtain ⟨head, there, among⟩ := getD_findIdx behind found
        have get : moved.table.getD (moved.curri + 1 + behind.findIdx Option.isSome) none =
            some head := by
          rw [← there, cut, List.getD_eq_getElem?_getD, List.getD_eq_getElem?_getD,
            List.getElem?_drop]
        have onward : elements chain (moved.table.drop
            (moved.curri + 1 + behind.findIdx Option.isSome + 1)) =
            elements chain (behind.drop (behind.findIdx Option.isSome + 1)) := by
          rw [cut, List.drop_drop, Nat.add_assoc]
        rw [if_neg (by omega)]
        refine ⟨same, ?_, Or.inr ⟨rfl, ?_, ?_⟩⟩
        · simp only [get, onward, List.cons_append, List.nil_append, List.tail_cons]
          rw [skipped, there]
        · simp only [get]
          rw [cut, same] at among
          exact (formed.chains head (List.mem_of_mem_drop among)).1
        · simp only
          omega

/-- From a node on, the loop meets it and all behind it. -/
theorem visit_upcoming (moved : Hash Key Item) (same : moved.table = htab.table)
    (standing : Standing moved) :
    visit moved.upcoming.length moved = some (moved.upcoming.map some) := by
  obtain ⟨count, counted⟩ : ∃ count, count = moved.upcoming.length := ⟨_, rfl⟩
  rw [← counted]
  induction count generalizing moved with
  | zero =>
    have none := List.eq_nil_of_length_eq_zero counted.symm
    exact False.elim (standing.node (List.append_eq_nil_iff.mp none).1)
  | succ count inductionHypothesis =>
    obtain ⟨kept, tail, decided⟩ := next_spec formed moved same standing
    obtain ⟨it, others, nodes⟩ := List.exists_cons_of_ne_nil standing.node
    have first : moved.upcoming = it :: moved.upcoming.tail := by
      rw [Hash.upcoming, nodes]
      rfl
    have current : moved.current = some it := by
      rw [Hash.current, nodes]
      rfl
    rw [first, List.length_cons] at counted
    rw [first, List.map_cons, visit]
    rcases decided with ⟨code, none⟩ | ⟨code, onward⟩
    · simp [code, current, none]
    · have rest := inductionHypothesis (jswHnext moved).2 kept onward (by rw [tail]; omega)
      simp [code, current, rest, tail]

/-- A traversal meets every node once, bucket by bucket. On a table without nodes its loop
never ends, because going on from no node at all counts as a success.

Proof: what a traversal has still to visit are the nodes behind its current one, which
jsw_hnext goes on to. At the start these are all nodes. Without nodes, jsw_hnext leaves the
traversal as it is and reports success. -/
theorem traversal_exact :
    (htab.nodes ≠ [] →
      visit htab.nodes.length (jswHreset htab) = some (htab.nodes.map some)) ∧
    (htab.nodes = [] → ∀ turns, visit turns (jswHreset htab) = none) := by
  have skipped := elements_skip htab.table
  have all : (jswHreset htab).upcoming = htab.nodes := skipped.symm
  constructor
  · intro nonempty
    rw [← all]
    refine visit_upcoming formed (jswHreset htab) rfl ?_
    by_cases found : htab.table.findIdx Option.isSome < htab.table.length
    · obtain ⟨head, there, among⟩ := getD_findIdx htab.table found
      refine ⟨?_, found⟩
      simp only [jswHreset, there]
      exact (formed.chains head among).1
    · refine False.elim (nonempty ?_)
      rw [Hash.nodes, skipped, List.getD_eq_getElem?_getD,
        List.getElem?_eq_none (Nat.le_of_not_lt found),
        List.drop_eq_nil_of_le (by omega)]
      rfl
  · intro none turns
    have nothing : (jswHreset htab).currl = [] := by
      rw [← all] at none
      exact (List.append_eq_nil_iff.mp none).1
    have again : jswHnext (jswHreset htab) = (1, jswHreset htab) := by
      unfold jswHnext
      rw [nothing]
    induction turns with
    | zero => rfl
    | succ turns inductionHypothesis => simp [visit, again, inductionHypothesis]

end Traversals

end NetVirt.Jsw
