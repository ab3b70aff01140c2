import NetVirt.LinkedLists

/-!
# Lists whose first node points back to the last

Doubly linked lists in which the `prev` of the first node is the last node, so that a node is
appended without a walk. The first node's pointer has to be kept when the last node goes, and
when the first one does.
-/

namespace NetVirt.LinkedLists

universe u
variable {Id : Type u}

/-- The head leads this list. Every node points back to the one before it, and the first one to
the last. -/
structure Looped (links : Links Id) (list : List Id) : Prop where
  head : links.head = list.head?
  run : Run links list.getLast? list none
  distinct : list.Nodup

theorem looped_nil (links : Links Id) (empty : links.head = none) : Looped links [] :=
  { head := empty, run := trivial, distinct := List.nodup_nil }

/-- A looped list depends on the head and the pointers of its own nodes only. -/
theorem Looped.congr {links other : Links Id} {list : List Id} (looped : Looped links list)
    (head : other.head = links.head) (next : ∀ node ∈ list, other.next node = links.next node)
    (prev : ∀ node ∈ list, other.prev node = links.prev node) : Looped other list :=
  { head := head.trans looped.head
    run := run_congr links other _ none list next prev looped.run
    distinct := looped.distinct }

/-- A list with a node has a last one. -/
theorem last_or (first : Id) (rest : List Id) (other : Option Id) :
    (first :: rest).getLast?.or other = (first :: rest).getLast? := by
  simp [List.getLast?_cons]

/-- The neighbours of a node. Before the first one comes the last. -/
theorem Looped.neighbours {links : Links Id} {node : Id} {front back : List Id}
    (looped : Looped links (front ++ node :: back)) :
    links.prev node = front.getLast?.or (node :: back).getLast? ∧
      links.next node = back.head? := by
  obtain ⟨_, previous, following, _⟩ := (run_append links _ none front (node :: back)).mp looped.run
  constructor
  · rw [previous, List.getLast?_append]
    cases front.getLast? <;> cases ends : (node :: back).getLast? <;> simp_all
  · rw [following, Option.or_none]

section Operations
variable [DecidableEq Id]

/-- Put a node behind the one that the head points back to. -/
def Links.append (links : Links Id) (node : Id) : Links Id :=
  match links.head with
  | none =>
    { head := some node
      next := Function.update links.next node none
      prev := Function.update links.prev node (some node) }
  | some first =>
    { head := some first
      next := redirect (Function.update links.next node none) (links.prev first) (some node)
      prev := Function.update (Function.update links.prev node (links.prev first)) first
        (some node) }

/-- Redirect the pointers to a node to its neighbours. The pointer back to the last node is the
head's, and is redirected first. -/
def Links.detach (links : Links Id) (node : Id) : Links Id :=
  { head := if links.head = some node then links.next node else links.head
    next := if links.head = some node then links.next
      else redirect links.next (links.prev node) (links.next node)
    prev := redirect
      (if links.head.bind links.prev = some node
        then redirect links.prev links.head (links.prev node) else links.prev)
      (links.next node) (links.prev node) }

/-- Redirecting both ends of a run. -/
theorem run_redirect_ends (links other : Links Id) (before after ahead beyond : Option Id)
    (list : List Id) (distinct : list.Nodup)
    (next : ∀ node ∈ list, other.next node = redirect links.next list.getLast? beyond node)
    (prev : ∀ node ∈ list, other.prev node = redirect links.prev list.head? ahead node)
    (run : Run links before list after) : Run other ahead list beyond := by
  let between : Links Id := { head := links.head, next := other.next, prev := links.prev }
  have late : Run between before list beyond :=
    run_redirect_last links between before after beyond list distinct next (fun _ _ => rfl) run
  exact run_redirect_first between other before ahead beyond list distinct (fun _ _ => rfl)
    prev late

/-- The appended node is the last one. -/
theorem Looped.append {links : Links Id} {list : List Id} {node : Id}
    (looped : Looped links list) (fresh : node ∉ list) :
    Looped (links.append node) (list ++ [node]) := by
  have distinct : (list ++ [node]).Nodup := by
    rw [← List.concat_eq_append, List.nodup_concat]
    exact ⟨fresh, looped.distinct⟩
  cases list with
  | nil =>
    have empty : links.head = none := looped.head
    refine { head := ?_, run := ⟨?_, ?_, trivial⟩, distinct := distinct }
    · simp [Links.append, empty]
    · simp [Links.append, empty]
    · simp [Links.append, empty]
  | cons first rest =>
    have head : links.head = some first := looped.head
    have loop : links.prev first = (first :: rest).getLast? := looped.run.1
    have other : node ≠ first := fun same => fresh (same ▸ List.mem_cons_self)
    have apart : (first :: rest).getLast? ≠ some node := fun same =>
      fresh (List.mem_of_getLast? same)
    refine { head := ?_, run := ?_, distinct := distinct }
    · simp [Links.append, head]
    · rw [List.getLast?_concat]
      apply (run_append _ _ none (first :: rest) [node]).mpr
      refine ⟨?_, ?_, ?_, trivial⟩
      · refine run_redirect_ends links _ _ none _ _ (first :: rest) looped.distinct
          (fun known inside => ?_) (fun known inside => ?_) looped.run
        · have different : known ≠ node := fun same => fresh (same ▸ inside)
          simp only [Links.append, head, loop]
          by_cases last : (first :: rest).getLast? = some known
          · rw [last, List.head?_cons, Option.some_or, redirect_self, redirect_self]
          · rw [redirect_of_ne _ _ _ _ last, redirect_of_ne _ _ _ _ last,
              Function.update_of_ne different]
        · have different : known ≠ node := fun same => fresh (same ▸ inside)
          simp only [Links.append, head, List.head?_cons, redirect]
          by_cases same : known = first
          · rw [same, Function.update_self, Function.update_self]
          · rw [Function.update_of_ne same, Function.update_of_ne same,
              Function.update_of_ne different]
      · simp only [Links.append, head]
        rw [Function.update_of_ne other, Function.update_self, loop, last_or]
      · simp only [Links.append, head, loop]
        rw [redirect_of_ne _ _ _ _ apart, Function.update_self]
        rfl

/-- Without its first node, a list is led by the next one, which points back to the last. -/
theorem Looped.detach_first {links : Links Id} {node : Id} {back : List Id}
    (looped : Looped links (node :: back)) : Looped (links.detach node) back := by
  have whole : Looped links ([] ++ node :: back) := looped
  obtain ⟨previous, following⟩ := whole.neighbours
  have head : links.head = some node := looped.head
  obtain ⟨outside, distinct⟩ := List.nodup_cons.mp looped.distinct
  refine { head := ?_, run := ?_, distinct := distinct }
  · simp [Links.detach, head, following]
  · cases back with
    | nil => trivial
    | cons second rest =>
      have loop : links.prev node = (second :: rest).getLast? := by
        simpa [List.getLast?_cons] using previous
      obtain ⟨_, _, late⟩ := looped.run
      refine run_redirect_first links _ _ _ none (second :: rest) distinct
        (fun known inside => ?_) (fun known inside => ?_) late
      · simp [Links.detach, head]
      · have last : (second :: rest).getLast? ≠ some node := fun same =>
          outside (List.mem_of_getLast? same)
        simp only [Links.detach, head, Option.bind_some, loop, if_neg last, following]

/-- Without its last node, a list is led by the same node, which points back to the one before. -/
theorem Looped.detach_last {links : Links Id} {node : Id} {front : List Id}
    (looped : Looped links (front ++ [node])) (more : front ≠ []) :
    Looped (links.detach node) front := by
  obtain ⟨previous, following⟩ := looped.neighbours
  obtain ⟨early, _⟩ := (run_append links _ none front [node]).mp looped.run
  obtain ⟨distinct, _, apart⟩ := List.nodup_append.mp looped.distinct
  obtain ⟨first, rest, rfl⟩ := List.exists_cons_of_ne_nil more
  have head : links.head = some first := looped.head
  have other : first ≠ node := apart first List.mem_cons_self node List.mem_cons_self
  have loop : links.prev first = some node := by
    rw [looped.run.1, List.cons_append, ← List.cons_append, List.getLast?_concat]
  have before : links.prev node = (first :: rest).getLast? := by rw [previous, last_or]
  refine { head := ?_, run := ?_, distinct := distinct }
  · simp [Links.detach, head, other]
  · refine run_redirect_ends links _ _ _ _ _ (first :: rest) distinct
      (fun known inside => ?_) (fun known inside => ?_) early
    · simp [Links.detach, head, other, before, following]
    · simp [Links.detach, head, loop, before, following, redirect]

/-- Without a node in the middle, the ends stay. -/
theorem Looped.detach_middle {links : Links Id} {node : Id} {front back : List Id}
    (looped : Looped links (front ++ node :: back)) (earlier : front ≠ []) (later : back ≠ []) :
    Looped (links.detach node) (front ++ back) := by
  obtain ⟨previous, following⟩ := looped.neighbours
  obtain ⟨early, _, _, late⟩ := (run_append links _ none front (node :: back)).mp looped.run
  obtain ⟨distinctFront, distinctBack, apart⟩ := List.nodup_append.mp looped.distinct
  rw [List.nodup_cons] at distinctBack
  obtain ⟨first, rest, rfl⟩ := List.exists_cons_of_ne_nil earlier
  obtain ⟨second, further, rfl⟩ := List.exists_cons_of_ne_nil later
  have head : links.head = some first := looped.head
  have other : first ≠ node := apart first List.mem_cons_self node List.mem_cons_self
  have before : links.prev node = (first :: rest).getLast? := by rw [previous, last_or]
  have ends : (first :: rest ++ node :: second :: further).getLast? =
      (second :: further).getLast? := by
    rw [List.getLast?_append, List.getLast?_cons_cons, last_or]
  have last : (second :: further).getLast? ≠ some node := fun same =>
    distinctBack.1 (List.mem_of_getLast? same)
  have loop : links.prev first = (second :: further).getLast? := looped.run.1.trans ends
  have joined : (first :: rest ++ second :: further).getLast? = (second :: further).getLast? := by
    rw [List.getLast?_append, last_or]
  refine { head := ?_, run := ?_, distinct := ?_ }
  · simp [Links.detach, head, other]
  · rw [joined]
    apply (run_append _ _ none (first :: rest) (second :: further)).mpr
    constructor
    · refine run_redirect_last links _ _ _ _ (first :: rest) distinctFront
        (fun known inside => ?_) (fun known inside => ?_) (ends ▸ early)
      · simp [Links.detach, head, other, before, following]
      · simp only [Links.detach, head, Option.bind_some, loop, if_neg last, following]
        apply redirect_of_ne
        intro same
        exact apart known inside known
          (List.mem_cons_of_mem node (List.mem_of_head? same)) rfl
    · rw [last_or]
      refine run_redirect_first links _ _ _ none (second :: further) distinctBack.2
        (fun known inside => ?_) (fun known inside => ?_) late
      · simp only [Links.detach, head, Option.some.injEq, if_neg other, before]
        apply redirect_of_ne
        intro same
        exact apart known (List.mem_of_getLast? same) known (List.mem_cons_of_mem node inside) rfl
      · simp only [Links.detach, head, Option.bind_some, loop, if_neg last, before, following]
  · refine List.nodup_append.mpr ⟨distinctFront, distinctBack.2, fun one inside two within => ?_⟩
    exact apart one inside two (List.mem_cons_of_mem node within)

/-- Detaching a node joins the nodes around it, wherever in the list it is. -/
theorem Looped.detach {links : Links Id} {node : Id} {front back : List Id}
    (looped : Looped links (front ++ node :: back)) :
    Looped (links.detach node) (front ++ back) := by
  by_cases earlier : front = []
  · subst earlier
    exact looped.detach_first
  · by_cases later : back = []
    · subst later
      rw [List.append_nil]
      exact looped.detach_last earlier
    · exact looped.detach_middle earlier later

end Operations

end NetVirt.LinkedLists
