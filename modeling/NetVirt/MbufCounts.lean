import NetVirt.MbufLists
import Mathlib.Algebra.Ring.Nat

/-!
# The count of the buffers of a connection

The count of a list is a field of its head, and every buffer has the field. `mbuf_new` leaves it
at 0. It is set when a buffer becomes the head of an empty list, and a buffer that becomes the head
because the one before it was deleted does not take over the count.
-/

namespace NetVirt.Mbufs

open LinkedLists Runs

variable {Content : Type}

/-- A size_t that is returned as an int keeps its low 32 bits. -/
def asInt (count : BitVec 64) : Int := (count.setWidth 32).toInt

/-- `mbuf_count` -/
def mbufCount (mem : Memory Content) : Option Int :=
  match mem.head with
  | none => some 0
  | some head => (mem.mbufs head).map fun mbuf => asInt mbuf.count

/-- The test of `net_on_input`, under which on_input is called. -/
def messageQueued (mem : Memory Content) : Option Bool :=
  (mbufCount mem).map fun count => decide (0 < count)

/-- The buffers that `mbuf_new` returned, with what it was given for them. -/
def newMbufs (made : MbufId → Option (MemType × Content)) (m : MbufId) : Option (Mbuf Content) :=
  (made m).map fun given => mbufNew given.1 given.2

/-! ## The counts -/

def Memory.counts (mem : Memory Content) (m : MbufId) : Option (BitVec 64) :=
  (mem.mbufs m).map Mbuf.count

theorem mbufCount_empty {mem : Memory Content} (empty : mem.head = none) :
    mbufCount mem = some 0 := by
  rw [mbufCount, empty]

theorem mbufCount_head {mem : Memory Content} {head : MbufId} (led : mem.head = some head) :
    mbufCount mem = (mem.counts head).map asInt := by
  rw [mbufCount, led, Memory.counts, Option.map_map]
  rfl

/-- The counts after one buffer was stored. -/
theorem store_counts {mem after : Memory Content} {m : MbufId}
    {change : Mbuf Content → Mbuf Content} {count : BitVec 64 → BitVec 64}
    (stored : mem.store m change = some after)
    (counted : ∀ mbuf, (change mbuf).count = count mbuf.count) : after.head = mem.head ∧
      after.counts = Function.update mem.counts m ((mem.counts m).map count) := by
  obtain ⟨mbuf, found, rfl⟩ := Option.map_eq_some_iff.mp stored
  refine ⟨rfl, (read_update (Option.map Mbuf.count) mem.mbufs m _).trans ?_⟩
  rw [Memory.counts, found, Option.map_some, Option.map_some, Option.map_some, counted]
  rfl

/-- A pointer is not a count. -/
theorem store_keeps_counts {mem after : Memory Content} {m : MbufId}
    {change : Mbuf Content → Mbuf Content} (stored : mem.store m change = some after)
    (kept : ∀ mbuf, (change mbuf).count = mbuf.count) :
    after.head = mem.head ∧ after.counts = mem.counts := by
  have same : ∀ mbuf, (change mbuf).count = id mbuf.count := kept
  obtain ⟨head, counts⟩ := store_counts stored same
  refine ⟨head, counts.trans ?_⟩
  rw [Option.map_id, id, Function.update_eq_self]

theorem setNext_counts {mem after : Memory Content} {m : MbufId} {target : Option MbufId}
    (stored : mem.setNext m target = some after) :
    after.head = mem.head ∧ after.counts = mem.counts :=
  store_keeps_counts stored fun _ => rfl

theorem setPrev_counts {mem after : Memory Content} {m : MbufId} {target : Option MbufId}
    (stored : mem.setPrev m target = some after) :
    after.head = mem.head ∧ after.counts = mem.counts :=
  store_keeps_counts stored fun _ => rfl

theorem setCount_counts {mem after : Memory Content} {m : MbufId}
    {count : BitVec 64 → BitVec 64} (stored : mem.setCount m count = some after) :
    after.head = mem.head ∧
      after.counts = Function.update mem.counts m ((mem.counts m).map count) :=
  store_counts stored fun _ => rfl

/-- `mbuf_add` starts the count at a new head, and counts up at an old one. -/
theorem mbufAdd_counts {mem after : Memory Content} {m : MbufId} {result : Int}
    (added : mbufAdd mem m = some (result, after)) : after.head = mem.head.or (some m) ∧
      after.counts = match mem.head with
        | none => Function.update mem.counts m ((mem.counts m).map fun _ => 1)
        | some head => Function.update mem.counts head ((mem.counts head).map (· + 1)) := by
  cases led : mem.head with
  | none =>
    simp only [mbufAdd, led, Option.bind_eq_bind, Option.bind_eq_some_iff, Option.pure_def,
      Option.some.injEq, Prod.mk.injEq] at added
    obtain ⟨one, set, two, looped, three, counted, _, rfl⟩ := added
    obtain ⟨first, same⟩ := setNext_counts set
    obtain ⟨second, still⟩ := setPrev_counts looped
    obtain ⟨third, counts⟩ := setCount_counts counted
    refine ⟨third.trans (second.trans first), ?_⟩
    rw [counts, still, same]
    rfl
  | some head =>
    simp only [mbufAdd, led, Option.bind_eq_bind, Option.bind_eq_some_iff, Option.pure_def,
      Option.some.injEq, Prod.mk.injEq] at added
    obtain ⟨one, set, _, _, two, before, _, _, last, _, three, linked, four, looped, five,
      counted, _, rfl⟩ := added
    obtain ⟨first, same⟩ := setNext_counts set
    obtain ⟨second, still⟩ := setPrev_counts before
    obtain ⟨third, unchanged⟩ := setNext_counts linked
    obtain ⟨fourth, kept⟩ := setPrev_counts looped
    obtain ⟨fifth, counts⟩ := setCount_counts counted
    refine ⟨fifth.trans (fourth.trans (third.trans (second.trans (first.trans led)))), ?_⟩
    rw [counts, kept, unchanged, still, same]

/-! ## Deletions -/

theorem redirectLast_counts {mem after : Memory Content} {head m : MbufId}
    (redirected : redirectLast mem head m = some after) : after.counts = mem.counts := by
  simp only [redirectLast, Option.bind_eq_bind, Option.bind_eq_some_iff] at redirected
  obtain ⟨last, _, chosen⟩ := redirected
  split at chosen
  · obtain ⟨_, _, stored⟩ := Option.bind_eq_some_iff.mp chosen
    exact (setPrev_counts stored).2
  · rw [← Option.some.inj chosen]

theorem redirectNext_counts {mem after : Memory Content} {head m : MbufId}
    (redirected : redirectNext mem head m = some after) : after.counts = mem.counts := by
  rw [redirectNext] at redirected
  split at redirected
  · simp only [Option.bind_eq_bind, Option.bind_eq_some_iff] at redirected
    obtain ⟨_, _, _, _, _, _, stored⟩ := redirected
    exact (setNext_counts stored).2
  · rw [← Option.some.inj redirected]

theorem redirectPrev_counts {mem after : Memory Content} {m : MbufId}
    (redirected : redirectPrev mem m = some after) : after.counts = mem.counts := by
  simp only [redirectPrev, Option.bind_eq_bind, Option.bind_eq_some_iff] at redirected
  obtain ⟨behind, _, chosen⟩ := redirected
  cases behind with
  | none => rw [← Option.some.inj chosen]
  | some following =>
    obtain ⟨_, _, stored⟩ := Option.bind_eq_some_iff.mp chosen
    exact (setPrev_counts stored).2

theorem moveHead_counts {mem after : Memory Content} {head m : MbufId}
    (moved : moveHead mem head m = some after) : after.counts = mem.counts := by
  simp only [moveHead, Option.bind_eq_bind, Option.bind_eq_some_iff, Option.pure_def,
    Option.some.injEq] at moved
  obtain ⟨behind, _, rfl⟩ := moved
  split <;> split <;> rfl

/-- The counts after the head's is counted down, when there is a head. -/
def countedDown (counts : MbufId → Option (BitVec 64)) (head : Option MbufId) :
    MbufId → Option (BitVec 64) :=
  match head with
  | none => counts
  | some first => Function.update counts first ((counts first).map (· - 1))

theorem countedDown_of_ne (counts : MbufId → Option (BitVec 64)) {head : Option MbufId}
    {m : MbufId} (apart : head ≠ some m) : countedDown counts head m = counts m := by
  cases head with
  | none => rfl
  | some first => exact Function.update_of_ne (fun same => apart (congrArg some same.symm)) _ _

theorem countDown_counts {mem after : Memory Content} (counted : countDown mem = some after) :
    after.head = mem.head ∧ after.counts = countedDown mem.counts mem.head := by
  cases led : mem.head with
  | none =>
    simp only [countDown, led, Option.some.injEq] at counted
    exact counted ▸ ⟨led, rfl⟩
  | some head =>
    simp only [countDown, led] at counted
    obtain ⟨same, counts⟩ := setCount_counts counted
    exact ⟨same.trans led, counts⟩

/-- `mbuf_del` counts down at the head that is left. -/
theorem mbufDel_counts {mem after : Memory Content} {m : MbufId} {result : Int}
    (some_head : mem.head.isSome) (deleted : mbufDel mem (some m) = some (result, after)) :
    after.counts = Function.update (countedDown mem.counts after.head) m none := by
  obtain ⟨head, led⟩ := Option.isSome_iff_exists.mp some_head
  simp only [mbufDel, led, Option.bind_eq_bind, Option.bind_eq_some_iff, Option.pure_def,
    Option.some.injEq, Prod.mk.injEq] at deleted
  obtain ⟨one, looped, two, skipped, three, joined, four, moved, five, counted, six, freed, _,
    rfl⟩ := deleted
  obtain ⟨mbuf, _, rfl⟩ := Option.map_eq_some_iff.mp freed
  obtain ⟨same, counts⟩ := countDown_counts counted
  have kept : four.counts = mem.counts := by
    rw [moveHead_counts moved, redirectPrev_counts joined, redirectNext_counts skipped,
      redirectLast_counts looped]
  refine (read_update (Option.map Mbuf.count) five.mbufs m none).trans ?_
  change Function.update five.counts m none = Function.update (countedDown _ five.head) m none
  rw [counts, kept, same]

/-! ## The count after a call -/

/-- The count is as an int what it is modulo 2 ^ 32, if that is less than 2 ^ 31. -/
theorem asInt_eq_iff (count : BitVec 64) (length : Nat) :
    asInt count = length ↔ count.toNat % 2 ^ 32 = length ∧ length < 2 ^ 31 := by
  rw [asInt, BitVec.toInt_setWidth, Int.bmod]
  omega

/-- Counting up and down modulo 2 ^ 32. -/
theorem low_add (count : BitVec 64) :
    (count + 1).toNat % 2 ^ 32 = (count.toNat % 2 ^ 32 + 1) % 2 ^ 32 := by
  have one : (1 : BitVec 64).toNat = 1 := rfl
  rw [BitVec.toNat_add, one]
  omega

theorem low_sub (count : BitVec 64) :
    (count - 1).toNat % 2 ^ 32 = (count.toNat % 2 ^ 32 + (2 ^ 32 - 1)) % 2 ^ 32 := by
  have one : (1 : BitVec 64).toNat = 1 := rfl
  rw [BitVec.toNat_sub, one]
  omega

/-- The count is that of the waiting buffers, and on_input is called if there are any. -/
structure Counted (mem : Memory Content) (waiting : List MbufId) : Prop where
  length : mbufCount mem = some (waiting.length : Int)
  queued : messageQueued mem = some (decide (waiting ≠ []))

/-- The test follows the count. -/
theorem counted_iff (mem : Memory Content) (waiting : List MbufId) :
    Counted mem waiting ↔ mbufCount mem = some (waiting.length : Int) := by
  refine ⟨Counted.length, fun length => ⟨length, ?_⟩⟩
  rw [messageQueued, length, Option.map_some]
  cases waiting with
  | nil => rfl
  | cons first rest =>
    have positive : (0 : Int) < (first :: rest).length := by
      rw [List.length_cons]
      omega
    simp only [positive, ne_eq, List.cons_ne_nil, not_false_eq_true]

theorem counted_empty {mem : Memory Content} (empty : mem.head = none) : Counted mem [] := by
  rw [counted_iff, mbufCount_empty empty]
  rfl

/-- The head has the count, modulo 2 ^ 32. -/
theorem counted_head_iff {mem : Memory Content} {waiting : List MbufId} {head : MbufId}
    {count : BitVec 64} (led : mem.head = some head) (found : mem.counts head = some count) :
    Counted mem waiting ↔ count.toNat % 2 ^ 32 = waiting.length ∧ waiting.length < 2 ^ 31 := by
  rw [counted_iff, mbufCount_head led, found, Option.map_some, Option.some.injEq, asInt_eq_iff]

/-- The memory after calls that left this queue. A buffer that is not the head has the count that
it was made with. -/
structure Fresh (made : MbufId → Option (MemType × Content)) (queue : Queue)
    (mem : Memory Content) : Prop where
  follows : Follows (newMbufs made) queue mem
  unused : ∀ m, mem.head ≠ some m → m ∉ queue.deleted →
    mem.counts m = (made m).map fun _ => 0

variable {made : MbufId → Option (MemType × Content)} {queue : Queue}
  {mem after : Memory Content} {m : MbufId}

theorem Fresh.head (fresh : Fresh made queue mem) : mem.head = queue.waiting.head? :=
  fresh.follows.holds.looped.head

/-- There is a count for every buffer that is waiting. -/
theorem Fresh.found (fresh : Fresh made queue mem) (inside : m ∈ queue.waiting) :
    ∃ count, mem.counts m = some count := by
  have present := fresh.follows.holds.present m inside
  cases stored : mem.mbufs m with
  | none => simp [Memory.contents, stored] at present
  | some mbuf => exact ⟨mbuf.count, by rw [Memory.counts, stored, Option.map_some]⟩

theorem start_fresh (made : MbufId → Option (MemType × Content)) :
    Fresh made .initial (start (newMbufs made)) := by
  refine ⟨start_follows _, fun m _ _ => ?_⟩
  simp only [Memory.counts, start, newMbufs, Option.map_map]
  rfl

/-- After an addition only the head has a count of its own. -/
theorem Fresh.add (fresh : Fresh made queue mem)
    (allowed : permitted (newMbufs made) queue (.mbufAdd m))
    (taken : step mem (.mbufAdd m) = some after) :
    Fresh made (queue.advance (.mbufAdd m)) after := by
  obtain ⟨next, reached, followed⟩ := fresh.follows.add allowed.1 allowed.2
  obtain rfl := Option.some.inj (taken.symm.trans reached)
  obtain ⟨⟨code, _⟩, added, rfl⟩ := Option.map_eq_some_iff.mp taken
  obtain ⟨head, counts⟩ := mbufAdd_counts added
  refine ⟨followed, fun other apart alive => ?_⟩
  rw [head] at apart
  rw [counts]
  cases led : mem.head with
  | none =>
    have different : other ≠ m := fun same => apart (by rw [led, Option.none_or, same])
    simp only [Function.update_of_ne different]
    exact fresh.unused other (by simp [led]) alive
  | some first =>
    have different : other ≠ first := fun same => apart (by rw [led, Option.some_or, same])
    simp only [Function.update_of_ne different]
    exact fresh.unused other (fun same => apart (by rw [same, Option.some_or])) alive

/-- Where a buffer is in its queue, and what its deletion leaves. -/
theorem Fresh.del (fresh : Fresh made queue mem)
    (allowed : permitted (newMbufs made) queue (.mbufDel m))
    (taken : step mem (.mbufDel m) = some after) :
    Fresh made (queue.advance (.mbufDel m)) after ∧
      after.counts = Function.update (countedDown mem.counts after.head) m none ∧
      ∃ front back, queue.waiting = front ++ m :: back ∧
        (queue.advance (.mbufDel m)).waiting = front ++ back ∧ m ∉ front ++ back := by
  obtain ⟨next, reached, followed⟩ := fresh.follows.del allowed
  obtain rfl := Option.some.inj (taken.symm.trans reached)
  obtain ⟨⟨code, _⟩, deleted, rfl⟩ := Option.map_eq_some_iff.mp taken
  obtain ⟨front, back, split⟩ := List.append_of_mem allowed
  have distinct : (front ++ m :: back).Nodup := split ▸ fresh.follows.holds.looped.distinct
  have left := waiting_del queue m front back distinct split
  have outside : m ∉ front ++ back := (List.nodup_cons.mp (List.nodup_middle.mp distinct)).1
  have leads : mem.head.isSome := by
    rw [fresh.head, split]
    cases front <;> rfl
  have counts := mbufDel_counts leads deleted
  refine ⟨⟨followed, fun other apart alive => ?_⟩, counts, front, back, split, left, outside⟩
  have kept : other ∉ queue.deleted ∧ other ≠ m := by simpa [Queue.advance, not_or] using alive
  rw [counts, Function.update_of_ne kept.2, countedDown_of_ne _ apart]
  refine fresh.unused other (fun first => ?_) kept.1
  rw [fresh.head, split] at first
  cases front with
  | nil => exact kept.2 (Option.some.inj first).symm
  | cons head rest =>
    -- the head stays, and it is the other buffer
    refine apart ((followed.holds.looped.head).trans ?_)
    rw [left]
    exact first

/-- The count is not kept when the head is deleted and another buffer becomes the head, nor beyond
the largest int. -/
def keepsCount (queue : Queue) : Event → Prop
  | .mbufAdd _ => queue.waiting.length + 1 < 2 ^ 31
  | .mbufDel m => queue.waiting.head? = some m → queue.waiting = [m]

theorem add_counted_iff (fresh : Fresh made queue mem) (counted : Counted mem queue.waiting)
    (allowed : permitted (newMbufs made) queue (.mbufAdd m))
    (taken : step mem (.mbufAdd m) = some after) :
    Counted after (queue.advance (.mbufAdd m)).waiting ↔ keepsCount queue (.mbufAdd m) := by
  have alive : m ∉ queue.deleted := fun gone => allowed.2 (fresh.follows.within gone)
  obtain ⟨⟨code, added⟩, calls, rfl⟩ := Option.map_eq_some_iff.mp taken
  obtain ⟨head, counts⟩ := mbufAdd_counts calls
  rw [keepsCount, waiting_add queue m alive]
  cases waiting : queue.waiting with
  | nil =>
    have led : mem.head = none := by rw [fresh.head, waiting, List.head?_nil]
    obtain ⟨given, known⟩ := Option.isSome_iff_exists.mp allowed.1
    have own : mem.counts m = some 0 := by
      obtain ⟨content, make, _⟩ := Option.map_eq_some_iff.mp known
      rw [fresh.unused m (by simp [led]) alive, make, Option.map_some]
    simp only [led, Option.none_or, own, Option.map_some] at head counts
    have one : added.counts m = some 1 := by rw [counts, Function.update_self]
    rw [List.nil_append, counted_head_iff head one]
    simp
  | cons first rest =>
    have led : mem.head = some first := by rw [fresh.head, waiting, List.head?_cons]
    have inside : first ∈ queue.waiting := by rw [waiting]; exact List.mem_cons_self
    obtain ⟨count, found⟩ := fresh.found inside
    simp only [led, Option.some_or, found, Option.map_some] at head counts
    have more : added.counts first = some (count + 1) := by rw [counts, Function.update_self]
    obtain ⟨low, _⟩ := (counted_head_iff led found).mp counted
    rw [waiting] at low
    rw [counted_head_iff head more, low_add, low, List.length_append, List.length_singleton]
    omega

theorem del_counted_iff (fresh : Fresh made queue mem) (counted : Counted mem queue.waiting)
    (allowed : permitted (newMbufs made) queue (.mbufDel m))
    (taken : step mem (.mbufDel m) = some after) :
    Counted after (queue.advance (.mbufDel m)).waiting ↔ keepsCount queue (.mbufDel m) := by
  obtain ⟨next, counts, front, back, split, left, outside⟩ := fresh.del allowed taken
  have known : ∀ other ∈ front ++ back, other ∈ queue.waiting ∧ other ∉ queue.deleted ∧
      other ≠ m := by
    intro other inside
    have waits : other ∈ queue.waiting := by
      rw [split, List.mem_append, List.mem_cons]
      exact (List.mem_append.mp inside).imp_right Or.inr
    exact ⟨waits, by simpa using (List.mem_filter.mp waits).2, fun same => outside (same ▸ inside)⟩
  have ahead := next.head
  rw [left] at ahead
  rw [keepsCount, left, split]
  cases front with
  | nil =>
    cases back with
    | nil => simpa using counted_empty ahead
    | cons head rest =>
      -- the new head has the count that it was made with, less one
      obtain ⟨waits, alive, apart⟩ := known head (by simp)
      obtain ⟨count, found⟩ := fresh.found waits
      have other : mem.head ≠ some head := by
        rw [fresh.head, split]
        exact fun same => apart (Option.some.inj same).symm
      have unset : count = 0 := by
        rw [fresh.unused head other alive] at found
        obtain ⟨_, _, same⟩ := Option.map_eq_some_iff.mp found
        exact same.symm
      have down : after.counts head = some (0 - 1) := by
        rw [counts, Function.update_of_ne apart, ahead]
        simp only [countedDown, List.nil_append, List.head?_cons, Function.update_self, found,
          unset, Option.map_some]
      rw [counted_head_iff ahead down, low_sub]
      refine iff_of_false ?_ (by simp)
      rintro ⟨low, small⟩
      have zero : (0 : BitVec 64).toNat = 0 := rfl
      rw [← low, zero] at small
      omega
  | cons head rest =>
    obtain ⟨_, alive, apart⟩ := known head (by simp)
    have led : mem.head = some head := by rw [fresh.head, split]; rfl
    obtain ⟨count, found⟩ := fresh.found (m := head) (by rw [split]; exact List.mem_cons_self)
    have down : after.counts head = some (count - 1) := by
      rw [counts, Function.update_of_ne apart, ahead]
      simp only [countedDown, List.cons_append, List.head?_cons, Function.update_self, found,
        Option.map_some]
    obtain ⟨low, small⟩ := (counted_head_iff led found).mp counted
    simp only [split, List.length_append, List.length_cons] at low small
    rw [counted_head_iff ahead down, low_sub, low]
    simp only [List.length_append, List.length_cons]
    refine iff_of_true ⟨?_, ?_⟩ fun first => absurd (Option.some.inj first) apart
    · omega
    · omega

theorem calls_fresh (made : MbufId → Option (MemType × Content)) (events : List Event)
    (proper : Proper (newMbufs made) events) (mem : Memory Content)
    (reached : run step (start (newMbufs made)) events = some mem) :
    Fresh made (queueOf events) mem := by
  induction events using List.reverseRecOn generalizing mem with
  | nil =>
    obtain rfl := Option.some.inj reached
    exact start_fresh made
  | append_singleton past event inductionHypothesis =>
    obtain ⟨early, allowed⟩ := (guarded_snoc _ _ _ past event).mp proper
    obtain ⟨before, earlier, taken⟩ := run_snoc step _ mem past event reached
    have fresh := inductionHypothesis early before earlier
    have queue : queueOf (past ++ [event]) = (queueOf past).advance event := by simp [queueOf]
    rw [queue]
    cases event with
    | mbufAdd m => exact fresh.add allowed taken
    | mbufDel m => exact (fresh.del allowed taken).1

/-- In every state of a run `mbuf_count` is the number of the buffers that wait, and on_input is
called exactly when there are any, if and only if the head is deleted only when it is the last
buffer that waits, and fewer than 2 ^ 31 buffers wait at a time.

Proof: a state whose head has the right count is left in such a state exactly when the call
keeps the count: an addition below the bound, a deletion behind the head or of the last
buffer. The pointers are those of the list, as proved above. -/
theorem mbuf_count_length_iff (made : MbufId → Option (MemType × Content)) (events : List Event)
    (proper : Proper (newMbufs made) events) :
    (∀ past, past <+: events → ∃ mem, run step (start (newMbufs made)) past = some mem ∧
      Counted mem (queueOf past).waiting) ↔
      ∀ past event, past ++ [event] <+: events → keepsCount (queueOf past) event := by
  have exact_step := history_along_iff step
    (fun past mem => Proper (newMbufs made) past → Counted mem (queueOf past).waiting)
    (fun past _ event => Proper (newMbufs made) (past ++ [event]) →
      keepsCount (queueOf past) event)
    (start (newMbufs made)) (fun _ => counted_empty rfl) ?_ events
  · constructor
    · intro always past event within
      have whole := proper.early within
      obtain ⟨next, reached, _⟩ := calls_follow _ _ whole
      obtain ⟨mem, early, taken⟩ := run_snoc step _ next past event reached
      refine exact_step.mp (fun before inside state stopped _ => ?_) past event within mem next
        early taken whole
      obtain ⟨other, same, counted⟩ := always before inside
      obtain rfl := Option.some.inj (stopped.symm.trans same)
      exact counted
    · intro kept past within
      have early := proper.early within
      obtain ⟨mem, reached, _⟩ := calls_follow _ _ early
      refine ⟨mem, reached, exact_step.mpr ?_ past within mem reached early⟩
      exact fun before event inside _ _ _ _ _ => kept before event inside
  · intro past mem event next reached counted taken
    refine imp_congr_right fun whole => ?_
    obtain ⟨early, allowed⟩ := (guarded_snoc _ _ _ past event).mp whole
    have fresh := calls_fresh made past early mem reached
    have queue : queueOf (past ++ [event]) = (queueOf past).advance event := by simp [queueOf]
    rw [queue]
    cases event with
    | mbufAdd m => exact add_counted_iff fresh (counted early) allowed taken
    | mbufDel m => exact del_counted_iff fresh (counted early) allowed taken

def sampleMade (m : MbufId) : Option (MemType × Nat) := some (.byref, m)

/-- The last buffer is deleted before the head. -/
def backwardCalls : List Event := [.mbufAdd 0, .mbufAdd 1, .mbufDel 1]

theorem backwardCalls_kept : ∀ past event, past ++ [event] <+: backwardCalls →
    keepsCount (queueOf past) event := by
  intro past event within
  obtain ⟨late, split⟩ := within
  rcases past with _ | ⟨first, _ | ⟨second, _ | ⟨third, rest⟩⟩⟩
  all_goals simp [backwardCalls] at split
  all_goals simp [split, keepsCount, queueOf, Queue.initial, Queue.advance, Queue.waiting]

theorem mbuf_count_length_sample : ∃ mem,
    run step (start (newMbufs sampleMade)) backwardCalls = some mem ∧ Counted mem [0] := by
  have proper : Proper (newMbufs sampleMade) backwardCalls := by
    simp [Proper, backwardCalls, guarded_cons, guarded_nil, permitted, Queue.advance,
      Queue.initial, Queue.waiting, newMbufs, sampleMade]
  exact (mbuf_count_length_iff sampleMade backwardCalls proper).mpr backwardCalls_kept
    backwardCalls List.prefix_rfl

/-- The head is deleted while another buffer waits. -/
theorem mbuf_count_not_length :
    Proper (newMbufs sampleMade) [.mbufAdd 0, .mbufAdd 1, .mbufDel 0] ∧
      (queueOf [.mbufAdd 0, .mbufAdd 1, .mbufDel 0]).waiting = [1] ∧
      (run step (start (newMbufs sampleMade)) [.mbufAdd 0, .mbufAdd 1, .mbufDel 0]).bind
        mbufCount = some (-1) ∧
      (run step (start (newMbufs sampleMade)) [.mbufAdd 0, .mbufAdd 1, .mbufDel 0]).bind
        messageQueued = some false := by
  refine ⟨?_, by decide, by decide, by decide⟩
  simp [Proper, guarded_cons, guarded_nil, permitted, Queue.advance, Queue.initial,
    Queue.waiting, newMbufs, sampleMade]

end NetVirt.Mbufs
