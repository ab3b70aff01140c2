import Mathlib.Data.List.Nodup
import Mathlib.Logic.Function.Basic

/-!
# Intrusive doubly linked lists

Nodes carry their own `next` and `prev` pointers; the list has a head pointer and nothing
else. A node is pushed at the front, and removed by redirecting its neighbours' pointers
and, when it has none before it, the head.

Removing a node that is in no list, or in a list that is not the head's, redirects the
head all the same. The nodes then fall into several chains, of which the head leads at
most one. The laws below keep that family of chains, so that what the head leads is a
finite list without repetition after every sequence of operations; when only nodes of the
head's own chain are removed, the family is that one chain.
-/

namespace NetVirt.LinkedLists

universe u
variable {Id : Type u}

/-- The head pointer and the pointers of every node. -/
structure Links (Id : Type u) where
  head : Option Id
  next : Id → Option Id
  prev : Id → Option Id

/-- The pointers form this list between the node before it and the node after it. -/
def Run (links : Links Id) : Option Id → List Id → Option Id → Prop
  | _, [], _ => True
  | before, node :: rest, after => links.prev node = before ∧
      links.next node = rest.head?.or after ∧ Run links (some node) rest after

/-- The nodes form these lists, each with its own ends, without a node in common, and the
head points to the front of one of them. -/
structure Chains (links : Links Id) (chains : List (List Id)) : Prop where
  runs : ∀ chain ∈ chains, Run links none chain none
  apart : chains.flatten.Nodup
  led : ∃ chain ∈ chains, links.head = chain.head?

/-- A run depends on the pointers of its own nodes only. -/
theorem run_congr (links other : Links Id) (before after : Option Id) (list : List Id)
    (next : ∀ node ∈ list, other.next node = links.next node)
    (prev : ∀ node ∈ list, other.prev node = links.prev node)
    (run : Run links before list after) : Run other before list after := by
  induction list generalizing before with
  | nil => trivial
  | cons node rest inductionHypothesis =>
    obtain ⟨previous, following, remaining⟩ := run
    refine ⟨?_, ?_, ?_⟩
    · rw [prev node List.mem_cons_self, previous]
    · rw [next node List.mem_cons_self, following]
    · exact inductionHypothesis (some node)
        (fun other inside => next other (List.mem_cons_of_mem node inside))
        (fun other inside => prev other (List.mem_cons_of_mem node inside)) remaining

/-- A run over two lists meets between the last node of one and the first of the other. -/
theorem run_append (links : Links Id) (before after : Option Id) (front back : List Id) :
    Run links before (front ++ back) after ↔
      Run links before front (back.head?.or after) ∧
        Run links (front.getLast?.or before) back after := by
  induction front generalizing before with
  | nil => simp [Run]
  | cons node rest inductionHypothesis =>
    have last : (node :: rest).getLast?.or before = rest.getLast?.or (some node) := by
      rw [List.getLast?_cons]
      cases rest.getLast? <;> rfl
    simp only [List.cons_append, Run, inductionHypothesis (some node), List.head?_append,
      Option.or_assoc, last, and_assoc]

section Operations
variable [DecidableEq Id]

/-- Store a pointer in a node, if there is one. -/
def redirect (pointers : Id → Option Id) : Option Id → Option Id → Id → Option Id
  | none, _ => pointers
  | some node, target => Function.update pointers node target

/-- Put a node in front of the head. Its own `prev` is left as it was. -/
def Links.push (links : Links Id) (node : Id) : Links Id :=
  { head := some node
    next := Function.update links.next node links.head
    prev := redirect links.prev links.head (some node) }

/-- Take a node out. Its own pointers are left as they were. -/
def Links.remove (links : Links Id) (node : Id) : Links Id :=
  { head := if links.prev node = none then links.next node else links.head
    next := redirect links.next (links.prev node) (links.next node)
    prev := redirect links.prev (links.next node) (links.prev node) }

theorem redirect_of_ne (pointers : Id → Option Id) (target value : Option Id) (node : Id)
    (other : target ≠ some node) : redirect pointers target value node = pointers node := by
  cases target with
  | none => rfl
  | some place =>
    have different : node ≠ place := fun same => other (same ▸ rfl)
    exact Function.update_of_ne different _ _

theorem redirect_self (pointers : Id → Option Id) (value : Option Id) (node : Id) :
    redirect pointers (some node) value node = value := by
  simp [redirect]

/-- Pushing in front of a list. -/
theorem push_run (links : Links Id) (node : Id) (list : List Id)
    (fresh : node ∉ list) (unlinked : links.prev node = none)
    (head : links.head = list.head?) (distinct : list.Nodup)
    (run : Run links none list none) : Run (links.push node) none (node :: list) none := by
  have kept : ∀ other ∈ list, (links.push node).next other = links.next other := by
    intro other inside
    have different : other ≠ node := fun same => fresh (same ▸ inside)
    exact Function.update_of_ne different _ _
  refine ⟨?_, ?_, ?_⟩
  · rw [← unlinked]
    apply redirect_of_ne
    rw [head]
    exact fun same => fresh (List.mem_of_head? same)
  · simp [Links.push, head]
  · cases list with
    | nil => trivial
    | cons first rest =>
      obtain ⟨_, following, remaining⟩ := run
      refine ⟨?_, ?_, ?_⟩
      · simp [Links.push, head, redirect_self]
      · rw [kept first List.mem_cons_self, following]
      · refine run_congr links _ _ _ rest (fun other inside =>
          kept other (List.mem_cons_of_mem first inside)) ?_ remaining
        intro other inside
        apply redirect_of_ne
        simp only [head, List.head?_cons, ne_eq, Option.some.injEq]
        exact fun same => (List.nodup_cons.mp distinct).1 (same ▸ inside)

/-- Redirecting the last node of a run changes what comes after it. -/
theorem run_redirect_last (links other : Links Id) (before after beyond : Option Id)
    (list : List Id) (distinct : list.Nodup)
    (next : ∀ node ∈ list, other.next node = redirect links.next list.getLast? beyond node)
    (prev : ∀ node ∈ list, other.prev node = links.prev node)
    (run : Run links before list after) : Run other before list beyond := by
  rcases List.eq_nil_or_concat list with rfl | ⟨front, last, rfl⟩
  · trivial
  · rw [List.concat_eq_append] at *
    rw [List.getLast?_concat] at next
    have apart : last ∉ front := by
      rw [← List.concat_eq_append, List.nodup_concat] at distinct
      exact distinct.1
    obtain ⟨early, previous, _⟩ := (run_append links before after front [last]).mp run
    apply (run_append other before beyond front [last]).mpr
    refine ⟨?_, ?_, ?_, trivial⟩
    · refine run_congr links other _ _ front (fun node inside => ?_) (fun node inside =>
        prev node (List.mem_append_left _ inside)) early
      rw [next node (List.mem_append_left _ inside)]
      exact redirect_of_ne _ _ _ _ fun same => apart (Option.some.inj same ▸ inside)
    · rw [prev last (List.mem_append_right _ List.mem_cons_self), previous]
    · rw [next last (List.mem_append_right _ List.mem_cons_self), redirect_self]
      simp

/-- Redirecting the first node of a run changes what comes before it. -/
theorem run_redirect_first (links other : Links Id) (before ahead after : Option Id)
    (list : List Id) (distinct : list.Nodup)
    (next : ∀ node ∈ list, other.next node = links.next node)
    (prev : ∀ node ∈ list, other.prev node = redirect links.prev list.head? ahead node)
    (run : Run links before list after) : Run other ahead list after := by
  cases list with
  | nil => trivial
  | cons first rest =>
    obtain ⟨_, following, remaining⟩ := run
    rw [List.head?_cons] at prev
    refine ⟨?_, ?_, ?_⟩
    · rw [prev first List.mem_cons_self, redirect_self]
    · rw [next first List.mem_cons_self, following]
    · refine run_congr links other _ _ rest (fun node inside =>
        next node (List.mem_cons_of_mem first inside)) (fun node inside => ?_) remaining
      rw [prev node (List.mem_cons_of_mem first inside)]
      exact redirect_of_ne _ _ _ _ fun same =>
        (List.nodup_cons.mp distinct).1 (Option.some.inj same ▸ inside)

omit [DecidableEq Id] in
/-- The neighbours of a node of a list are the ends of the two parts around it. -/
theorem run_neighbours (links : Links Id) (node : Id) (front back : List Id)
    (run : Run links none (front ++ node :: back) none) :
    links.prev node = front.getLast? ∧ links.next node = back.head? := by
  obtain ⟨_, previous, following, _⟩ := (run_append links none none front (node :: back)).mp run
  exact ⟨by simpa using previous, by simpa using following⟩

omit [DecidableEq Id] in
/-- On a list, `prev` is the inverse of `next`. -/
theorem run_inverse (links : Links Id) (list : List Id) (run : Run links none list none)
    (node other : Id) (inside : node ∈ list) (within : other ∈ list) :
    links.next node = some other ↔ links.prev other = some node := by
  constructor
  · intro points
    obtain ⟨front, back, rfl⟩ := List.append_of_mem inside
    rw [(run_neighbours links node front back run).2] at points
    obtain ⟨rest, rfl⟩ := List.head?_eq_some_iff.mp points
    have previous := (run_neighbours links other (front ++ [node]) rest (by simpa using run)).1
    simpa using previous
  · intro points
    obtain ⟨front, back, rfl⟩ := List.append_of_mem within
    rw [(run_neighbours links other front back run).1] at points
    obtain ⟨rest, rfl⟩ := List.getLast?_eq_some_iff.mp points
    have following := (run_neighbours links node rest (other :: back) (by simpa using run)).2
    simpa using following

/-- Removing a node of a list joins the two parts around it. -/
theorem remove_run (links : Links Id) (node : Id) (front back : List Id)
    (distinct : (front ++ node :: back).Nodup)
    (run : Run links none (front ++ node :: back) none) :
    Run (links.remove node) none (front ++ back) none := by
  obtain ⟨previous, following⟩ := run_neighbours links node front back run
  obtain ⟨early, _, _, late⟩ := (run_append links none none front (node :: back)).mp run
  obtain ⟨distinctFront, distinctBack, apart⟩ := List.nodup_append.mp distinct
  rw [List.nodup_cons] at distinctBack
  apply (run_append _ none none front back).mpr
  constructor
  · refine run_redirect_last links _ none _ _ front distinctFront (fun other inside => ?_)
      (fun other inside => ?_) early
    · simp only [Links.remove, previous, following, Option.or_none]
    · simp only [Links.remove, following]
      apply redirect_of_ne
      intro same
      exact apart other inside other
        (List.mem_cons_of_mem node (List.mem_of_head? same)) rfl
  · refine run_redirect_first links _ _ _ none back distinctBack.2 (fun other inside => ?_)
      (fun other inside => ?_) late
    · simp only [Links.remove, previous]
      apply redirect_of_ne
      intro same
      exact apart other (List.mem_of_getLast? same) other (List.mem_cons_of_mem node inside) rfl
    · simp only [Links.remove, previous, following, Option.or_none]

/-- Removing a node leaves the lists alone that neither hold it nor its neighbours. -/
theorem remove_run_apart (links : Links Id) (node : Id) (list : List Id)
    (previous : ∀ other ∈ list, links.prev node ≠ some other)
    (following : ∀ other ∈ list, links.next node ≠ some other)
    (run : Run links none list none) : Run (links.remove node) none list none :=
  run_congr links _ none none list
    (fun other inside => redirect_of_ne _ _ _ _ (previous other inside))
    (fun other inside => redirect_of_ne _ _ _ _ (following other inside)) run

omit [DecidableEq Id] in
/-- The order in which the chains are named does not matter. -/
theorem Chains.perm {links : Links Id} {chains others : List (List Id)}
    (formed : Chains links chains) (same : chains.Perm others) : Chains links others := by
  obtain ⟨chain, inside, head⟩ := formed.led
  exact { runs := fun chain inside => formed.runs chain (same.mem_iff.mpr inside)
          apart := same.flatten.nodup_iff.mp formed.apart
          led := ⟨chain, same.mem_iff.mp inside, head⟩ }

omit [DecidableEq Id] in
/-- Pointers outside of the chains do not matter. -/
theorem Chains.congr {links other : Links Id} {chains : List (List Id)}
    (formed : Chains links chains) (head : other.head = links.head)
    (next : ∀ node ∈ chains.flatten, other.next node = links.next node)
    (prev : ∀ node ∈ chains.flatten, other.prev node = links.prev node) :
    Chains other chains := by
  refine { runs := fun chain inside => ?_, apart := formed.apart, led := head ▸ formed.led }
  exact run_congr links other none none chain
    (fun node within => next node (List.mem_flatten_of_mem inside within))
    (fun node within => prev node (List.mem_flatten_of_mem inside within))
    (formed.runs chain inside)

omit [DecidableEq Id] in
/-- A head that leads a list without repetition. -/
theorem chains_single (links : Links Id) (list : List Id) :
    Chains links [list] ↔ links.head = list.head? ∧ Run links none list none ∧ list.Nodup := by
  constructor
  · intro formed
    obtain ⟨chain, inside, head⟩ := formed.led
    obtain rfl := List.mem_singleton.mp inside
    exact ⟨head, formed.runs _ inside, by simpa using formed.apart⟩
  · rintro ⟨head, run, distinct⟩
    refine { runs := ?_, apart := by simpa using distinct, led := ⟨list, by simp, head⟩ }
    intro chain inside
    obtain rfl := List.mem_singleton.mp inside
    exact run

omit [DecidableEq Id] in
/-- Pointers lead one list from a node. -/
theorem run_unique (links : Links Id) (before : Option Id) (list other : List Id)
    (first : list.head? = other.head?) (run : Run links before list none)
    (beside : Run links before other none) : list = other := by
  induction list generalizing before other with
  | nil => exact (List.head?_eq_none_iff.mp first.symm).symm
  | cons node rest inductionHypothesis =>
    cases other with
    | nil => simp at first
    | cons same others =>
      obtain rfl : node = same := by simpa using first
      obtain ⟨_, following, remaining⟩ := run
      obtain ⟨_, again, left⟩ := beside
      have next : rest.head? = others.head? := by simpa using following.symm.trans again
      rw [inductionHypothesis (some node) others next remaining left]

/-- A new node goes in front of the chain that the head leads. -/
theorem Chains.push {links : Links Id} {chain : List Id} {rest : List (List Id)} {node : Id}
    (formed : Chains links (chain :: rest)) (head : links.head = chain.head?)
    (fresh : node ∉ (chain :: rest).flatten) (unlinked : links.prev node = none) :
    Chains (links.push node) ((node :: chain) :: rest) := by
  rw [List.flatten_cons] at fresh
  have apart := formed.apart
  rw [List.flatten_cons] at apart
  obtain ⟨distinct, _, separate⟩ := List.nodup_append.mp apart
  refine { runs := fun other inside => ?_, apart := ?_, led := ?_ }
  · rcases List.mem_cons.mp inside with rfl | inside
    · exact push_run links node chain (fun within => fresh (List.mem_append_left _ within))
        unlinked head distinct (formed.runs chain List.mem_cons_self)
    · refine run_congr links _ none none other (fun place within => ?_)
        (fun place within => ?_) (formed.runs other (List.mem_cons_of_mem chain inside))
      · refine Function.update_of_ne (fun same => fresh ?_) _ _
        exact List.mem_append_right _ (List.mem_flatten_of_mem inside (same ▸ within))
      · apply redirect_of_ne
        rw [head]
        intro same
        exact separate place (List.mem_of_head? same) place
          (List.mem_flatten_of_mem inside within) rfl
  · rw [List.flatten_cons, List.cons_append, List.nodup_cons]
    exact ⟨fresh, apart⟩
  · exact ⟨node :: chain, List.mem_cons_self, rfl⟩

/-- A node taken out of one chain leaves the others as they were. -/
theorem Chains.remove {links : Links Id} {front back : List Id} {rest : List (List Id)}
    {node : Id} (formed : Chains links ((front ++ node :: back) :: rest)) :
    Chains (links.remove node) ((front ++ back) :: rest) := by
  have run := formed.runs _ List.mem_cons_self
  obtain ⟨previous, following⟩ := run_neighbours links node front back run
  have apart := formed.apart
  rw [List.flatten_cons] at apart
  obtain ⟨distinct, _, separate⟩ := List.nodup_append.mp apart
  refine { runs := fun other inside => ?_, apart := ?_, led := ?_ }
  · rcases List.mem_cons.mp inside with rfl | inside
    · exact remove_run links node front back distinct run
    · refine remove_run_apart links node other (fun place within => ?_) (fun place within => ?_)
        (formed.runs other (List.mem_cons_of_mem _ inside))
      · rw [previous]
        intro same
        exact separate place (List.mem_append_left _ (List.mem_of_getLast? same)) place
          (List.mem_flatten_of_mem inside within) rfl
      · rw [following]
        intro same
        exact separate place (List.mem_append_right _
          (List.mem_cons_of_mem node (List.mem_of_head? same))) place
          (List.mem_flatten_of_mem inside within) rfl
  · rw [List.flatten_cons]
    refine apart.sublist (List.Sublist.append ?_ (List.Sublist.refl _))
    exact List.Sublist.append (List.Sublist.refl _) (List.sublist_cons_self node back)
  · simp only [Links.remove, previous, following]
    cases front with
    | nil => exact ⟨back, List.mem_cons_self, by simp⟩
    | cons first others =>
      obtain ⟨chain, inside, head⟩ := formed.led
      rw [if_neg (by simp)]
      rcases List.mem_cons.mp inside with rfl | inside
      · exact ⟨_, List.mem_cons_self, by simpa using head⟩
      · exact ⟨chain, List.mem_cons_of_mem _ inside, head⟩

/-- The same, with the chain as it was. -/
theorem Chains.erase {links : Links Id} {chain : List Id} {rest : List (List Id)} {node : Id}
    (formed : Chains links (chain :: rest)) (inside : node ∈ chain) :
    Chains (links.remove node) (chain.erase node :: rest) := by
  obtain ⟨front, back, _, rfl, erased⟩ := List.exists_erase_eq inside
  rw [erased]
  exact formed.remove

/-- A node without neighbours takes the head from the chains. -/
theorem Chains.remove_stranger {links : Links Id} {chains : List (List Id)} {node : Id}
    (formed : Chains links chains) (alone : links.next node = none)
    (unlinked : links.prev node = none) : Chains (links.remove node) ([] :: chains) := by
  refine { runs := fun other inside => ?_, apart := formed.apart, led := ?_ }
  · rcases List.mem_cons.mp inside with rfl | inside
    · trivial
    · exact remove_run_apart links node other (by simp [unlinked]) (by simp [alone])
        (formed.runs other inside)
  · exact ⟨[], List.mem_cons_self, by simp [Links.remove, unlinked, alone]⟩

/-- The chains hold exactly the nodes with a property. -/
def Threaded (links : Links Id) (Member : Id → Prop) : Prop :=
  ∃ chains, Chains links chains ∧ ∀ node, node ∈ chains.flatten ↔ Member node

/-- Pushing a node adds it to the nodes in chains. -/
theorem threaded_push (links : Links Id) (Member : Id → Prop) (node : Id)
    (threaded : Threaded links Member) (fresh : ¬ Member node)
    (unlinked : links.prev node = none) :
    Threaded (links.push node) fun other => other = node ∨ Member other := by
  obtain ⟨chains, formed, members⟩ := threaded
  obtain ⟨chain, inside, head⟩ := formed.led
  have first : chains.Perm (chain :: chains.erase chain) := List.perm_cons_erase inside
  refine ⟨_, (formed.perm first).push head ?_ unlinked, ?_⟩
  · rw [← first.flatten.mem_iff, members]
    exact fresh
  · intro other
    rw [List.flatten_cons, List.cons_append, List.mem_cons, ← List.flatten_cons,
      ← first.flatten.mem_iff, members]

/-- Removing a node takes it from the nodes in chains, if it was there. -/
theorem threaded_remove (links : Links Id) (Member : Id → Prop) (node : Id)
    (threaded : Threaded links Member)
    (known : Member node ∨ links.next node = none ∧ links.prev node = none) :
    Threaded (links.remove node) fun other => other ≠ node ∧ Member other := by
  obtain ⟨chains, formed, members⟩ := threaded
  by_cases member : Member node
  · obtain ⟨chain, inside, within⟩ := List.mem_flatten.mp ((members node).mpr member)
    have first := List.perm_cons_erase inside
    have arranged := formed.perm first
    have apart := arranged.apart
    rw [List.flatten_cons] at apart
    obtain ⟨distinct, _, separate⟩ := List.nodup_append.mp apart
    refine ⟨_, arranged.erase within, ?_⟩
    intro other
    change _ ↔ other ≠ node ∧ Member other
    rw [← members other, first.flatten.mem_iff, List.flatten_cons, List.flatten_cons,
      List.mem_append, List.mem_append, distinct.mem_erase_iff]
    constructor
    · rintro (⟨different, here⟩ | elsewhere)
      · exact ⟨different, Or.inl here⟩
      · exact ⟨fun same => separate node within other elsewhere same.symm, Or.inr elsewhere⟩
    · rintro ⟨different, here | elsewhere⟩
      · exact Or.inl ⟨different, here⟩
      · exact Or.inr elsewhere
  · obtain ⟨alone, unlinked⟩ := known.resolve_left member
    refine ⟨_, formed.remove_stranger alone unlinked, ?_⟩
    intro other
    rw [List.flatten_cons, List.nil_append, members other]
    constructor
    · exact fun inside => ⟨fun same => member (same ▸ inside), inside⟩
    · exact And.right

end Operations

/-- Without a head and without nodes in chains there is the empty chain. -/
theorem threaded_empty (links : Links Id) (Member : Id → Prop) (head : links.head = none)
    (nobody : ∀ node, ¬ Member node) : Threaded links Member := by
  refine ⟨[[]], { runs := ?_, apart := by simp, led := ⟨[], by simp, head⟩ }, ?_⟩
  · intro chain inside
    obtain rfl := List.mem_singleton.mp inside
    trivial
  · intro node
    simp [nobody node]

/-- What the chains say of the pointers depends on the nodes in chains only. -/
theorem threaded_congr (links other : Links Id) (Member Same : Id → Prop)
    (threaded : Threaded links Member) (members : ∀ node, Same node ↔ Member node)
    (head : other.head = links.head)
    (next : ∀ node, Member node → other.next node = links.next node)
    (prev : ∀ node, Member node → other.prev node = links.prev node) :
    Threaded other Same := by
  obtain ⟨chains, formed, inside⟩ := threaded
  refine ⟨chains, formed.congr head (fun node within => next node ((inside node).mp within))
    (fun node within => prev node ((inside node).mp within)), ?_⟩
  intro node
  rw [inside, members]

/-- The nodes of a run point to each other or past its ends. -/
theorem run_closed (links : Links Id) (before after : Option Id) (list : List Id)
    (run : Run links before list after) (node : Id) (inside : node ∈ list) :
    (∀ other, links.next node = some other → other ∈ list ∨ after = some other) ∧
      ∀ other, links.prev node = some other → other ∈ list ∨ before = some other := by
  induction list generalizing before with
  | nil => cases inside
  | cons first rest inductionHypothesis =>
    obtain ⟨previous, following, remaining⟩ := run
    rcases List.mem_cons.mp inside with rfl | later
    · constructor
      · intro other points
        rw [following, Option.or_eq_some_iff] at points
        rcases points with leading | ⟨_, beyond⟩
        · exact Or.inl (List.mem_cons_of_mem _ (List.mem_of_head? leading))
        · exact Or.inr beyond
      · intro other points
        exact Or.inr (previous ▸ points)
    · obtain ⟨forward, backward⟩ := inductionHypothesis (some first) remaining later
      constructor
      · intro other points
        exact (forward other points).imp_left (List.mem_cons_of_mem first)
      · intro other points
        rcases backward other points with within | first
        · exact Or.inl (List.mem_cons_of_mem _ within)
        · exact Or.inl (Option.some.inj first ▸ List.mem_cons_self)

/-- The head and the pointers of nodes in chains lead to nodes in chains. -/
theorem threaded_closed (links : Links Id) (Member : Id → Prop)
    (threaded : Threaded links Member) :
    (∀ other, links.head = some other → Member other) ∧
      (∀ node other, Member node → links.next node = some other → Member other) ∧
      ∀ node other, Member node → links.prev node = some other → Member other := by
  obtain ⟨chains, formed, members⟩ := threaded
  refine ⟨?_, ?_, ?_⟩
  · intro other leads
    obtain ⟨chain, inside, head⟩ := formed.led
    rw [head] at leads
    exact (members other).mp (List.mem_flatten_of_mem inside (List.mem_of_head? leads))
  · intro node other member points
    obtain ⟨chain, inside, within⟩ := List.mem_flatten.mp ((members node).mpr member)
    have closed := run_closed links none none chain (formed.runs chain inside) node within
    rcases closed.1 other points with there | nowhere
    · exact (members other).mp (List.mem_flatten_of_mem inside there)
    · cases nowhere
  · intro node other member points
    obtain ⟨chain, inside, within⟩ := List.mem_flatten.mp ((members node).mpr member)
    have closed := run_closed links none none chain (formed.runs chain inside) node within
    rcases closed.2 other points with there | nowhere
    · exact (members other).mp (List.mem_flatten_of_mem inside there)
    · cases nowhere

/-- What the head leads is a list without repetition of nodes in chains. -/
theorem threaded_list (links : Links Id) (Member : Id → Prop)
    (threaded : Threaded links Member) :
    ∃ list, links.head = list.head? ∧ Run links none list none ∧ list.Nodup ∧
      ∀ node ∈ list, Member node := by
  obtain ⟨chains, formed, members⟩ := threaded
  obtain ⟨chain, inside, head⟩ := formed.led
  refine ⟨chain, head, formed.runs chain inside, ?_, ?_⟩
  · exact (List.nodup_flatten.mp formed.apart).1 chain inside
  · exact fun node within => (members node).mp (List.mem_flatten_of_mem inside within)

/-- Follow `next` from a pointer. A node without pointers was freed; a walk over more
nodes than the bound does not end. -/
def walk (next : Id → Option (Option Id)) : Nat → Option Id → Option (List Id)
  | _, none => some []
  | 0, some _ => none
  | bound + 1, some node => do
    let following ← next node
    let rest ← walk next bound following
    return node :: rest

@[simp]
theorem walk_none (next : Id → Option (Option Id)) (bound : Nat) :
    walk next bound none = some [] := by
  cases bound <;> rfl

/-- A walk from the front of a chain visits its nodes. -/
theorem walk_run (links : Links Id) (next : Id → Option (Option Id)) (bound : Nat)
    (before : Option Id) (list : List Id)
    (present : ∀ node ∈ list, next node = some (links.next node))
    (enough : list.length ≤ bound) (run : Run links before list none) :
    walk next bound list.head? = some list := by
  induction list generalizing before bound with
  | nil => exact walk_none next bound
  | cons node rest inductionHypothesis =>
    cases bound with
    | zero => simp at enough
    | succ bound =>
      obtain ⟨_, following, remaining⟩ := run
      have later := inductionHypothesis bound (some node)
        (fun other inside => present other (List.mem_cons_of_mem node inside))
        (Nat.le_of_succ_le_succ enough) remaining
      simp [walk, present node List.mem_cons_self, following, later]

/-- A walk visits nodes that have pointers. -/
theorem walk_present (next : Id → Option (Option Id)) (bound : Nat) (first : Option Id)
    (list : List Id) (walked : walk next bound first = some list) :
    ∀ node ∈ list, (next node).isSome := by
  induction bound generalizing first list with
  | zero =>
    cases first with
    | none =>
      rw [walk_none] at walked
      obtain rfl := Option.some.inj walked
      simp
    | some node => cases walked
  | succ bound inductionHypothesis =>
    cases first with
    | none =>
      obtain rfl := Option.some.inj walked
      simp
    | some node =>
      obtain ⟨following, present, walked⟩ := Option.bind_eq_some_iff.mp walked
      obtain ⟨rest, later, walked⟩ := Option.bind_eq_some_iff.mp walked
      obtain rfl := Option.some.inj walked
      intro other inside
      rcases List.mem_cons.mp inside with rfl | inside
      · simp [present]
      · exact inductionHypothesis following rest later other inside

end NetVirt.LinkedLists
