import NetVirt.LoopedLists
import NetVirt.Runs

/-!
# The buffers of a connection

The functions of mbuf.c with the memory that they work on, and the loops of on_input, which
handle the buffer at the head of the queue and delete it. The head of a list points back to its
last buffer and has the count of them. A buffer that was deleted is not there any more, and a
function that reads it has no result. Allocation is assumed to succeed.
-/

namespace NetVirt.Mbufs

open LinkedLists Runs

abbrev MbufId := Nat

/-- MBUF_BYVAL and MBUF_BYREF -/
inductive MemType where
  | byval
  | byref
deriving DecidableEq

/-- The contents are the bytes that were copied, or what is pointed to. -/
structure Mbuf (Content : Type) where
  next : Option MbufId
  prev : Option MbufId
  count : BitVec 64
  memType : MemType
  extBuf : Content
deriving DecidableEq

/-- The contents of a buffer are released by free or by its own callback. -/
inductive Release (Content : Type) where
  | free (extBuf : Content)
  | freeCb (extBuf : Content)
deriving DecidableEq

variable {Content : Type}

def Mbuf.release (mbuf : Mbuf Content) : Release Content :=
  match mbuf.memType with
  | .byval => .free mbuf.extBuf
  | .byref => .freeCb mbuf.extBuf

def Release.extBuf : Release Content → Content
  | .free extBuf => extBuf
  | .freeCb extBuf => extBuf

@[simp]
theorem release_extBuf (mbuf : Mbuf Content) : mbuf.release.extBuf = mbuf.extBuf := by
  cases kind : mbuf.memType <;> simp [Mbuf.release, kind, Release.extBuf]

/-- The head of a list, the buffers that there are, and what was released so far. -/
structure Memory (Content : Type) where
  head : Option MbufId
  mbufs : MbufId → Option (Mbuf Content)
  released : List (Release Content)

/-! ## mbuf.c -/

/-- `mbuf_new` -/
def mbufNew (memType : MemType) (buf : Content) : Mbuf Content :=
  { next := none, prev := none, count := 0, memType := memType, extBuf := buf }

def Memory.next (mem : Memory Content) (m : MbufId) : Option (Option MbufId) :=
  (mem.mbufs m).map Mbuf.next

def Memory.prev (mem : Memory Content) (m : MbufId) : Option (Option MbufId) :=
  (mem.mbufs m).map Mbuf.prev

/-- Change the fields of a buffer. -/
def Memory.store (mem : Memory Content) (m : MbufId) (change : Mbuf Content → Mbuf Content) :
    Option (Memory Content) :=
  (mem.mbufs m).map fun mbuf =>
    { mem with mbufs := Function.update mem.mbufs m (some (change mbuf)) }

def Memory.setNext (mem : Memory Content) (m : MbufId) (target : Option MbufId) :
    Option (Memory Content) :=
  mem.store m fun mbuf => { mbuf with next := target }

def Memory.setPrev (mem : Memory Content) (m : MbufId) (target : Option MbufId) :
    Option (Memory Content) :=
  mem.store m fun mbuf => { mbuf with prev := target }

def Memory.setCount (mem : Memory Content) (m : MbufId) (count : BitVec 64 → BitVec 64) :
    Option (Memory Content) :=
  mem.store m fun mbuf => { mbuf with count := count mbuf.count }

/-- `mbuf_add` -/
def mbufAdd (mem : Memory Content) (m : MbufId) : Option (Int × Memory Content) :=
  match mem.head with
  | none => do
    let mem := { mem with head := some m }
    let mem ← mem.setNext m none
    let mem ← mem.setPrev m (some m)
    let mem ← mem.setCount m fun _ => 1
    return (0, mem)
  | some head => do
    let mem ← mem.setNext m none
    let mem ← mem.setPrev m (← mem.prev head)
    let last ← mem.prev head
    let mem ← mem.setNext (← last) (some m)
    let mem ← mem.setPrev head (some m)
    let mem ← mem.setCount head (· + 1)
    return (0, mem)

/-- The pointer of the head to the last buffer, when that is deleted. -/
def redirectLast (mem : Memory Content) (head m : MbufId) : Option (Memory Content) := do
  let last ← mem.prev head
  if last = some m then mem.setPrev head (← mem.prev m) else some mem

/-- The pointer of the buffer before. -/
def redirectNext (mem : Memory Content) (head m : MbufId) : Option (Memory Content) :=
  if m ≠ head then do
    let before ← mem.prev m
    mem.setNext (← before) (← mem.next m)
  else some mem

/-- The pointer of the buffer behind. -/
def redirectPrev (mem : Memory Content) (m : MbufId) : Option (Memory Content) := do
  let behind ← mem.next m
  match behind with
  | none => some mem
  | some following => do mem.setPrev following (← mem.prev m)

/-- The head pointer. It is tested again after it was moved. -/
def moveHead (mem : Memory Content) (head m : MbufId) : Option (Memory Content) := do
  let behind ← mem.next m
  let mem := if m = head then { mem with head := behind } else mem
  return if mem.head = some m ∧ behind = none then { mem with head := none } else mem

/-- One buffer less, if there are any. -/
def countDown (mem : Memory Content) : Option (Memory Content) :=
  match mem.head with
  | none => some mem
  | some head => mem.setCount head (· - 1)

/-- Release the contents and the buffer. -/
def releaseMbuf (mem : Memory Content) (m : MbufId) : Option (Memory Content) :=
  (mem.mbufs m).map fun mbuf =>
    { mem with
      mbufs := Function.update mem.mbufs m none
      released := mem.released ++ [mbuf.release] }

/-- `mbuf_del` -/
def mbufDel (mem : Memory Content) (mbuf : Option MbufId) : Option (Int × Memory Content) :=
  match mem.head, mbuf with
  | some head, some m => do
    let mem ← redirectLast mem head m
    let mem ← redirectNext mem head m
    let mem ← redirectPrev mem m
    let mem ← moveHead mem head m
    let mem ← countDown mem
    let mem ← releaseMbuf mem m
    return (0, mem)
  | _, _ => some (-1, mem)

/-- `mbuf_free`, for at most so many buffers. -/
def mbufFree : Nat → Memory Content → Option (Memory Content)
  | 0, mem => if mem.head = none then some mem else none
  | bound + 1, mem =>
    match mem.head with
    | none => some mem
    | some head => do
      let (_, mem) ← mbufDel mem (some head)
      mbufFree bound mem

/-! ## on_input -/

/-- The loop of `on_input`, for at most so many buffers. A handler that ends the connection has
no result: the queue is freed with the connection. -/
def handleQueue {World : Type} (handle : World → Content → Option World) :
    Nat → Memory Content → World → Option (Memory Content × World)
  | 0, mem, world => if mem.head = none then some (mem, world) else none
  | bound + 1, mem, world =>
    match mem.head with
    | none => some (mem, world)
    | some head => do
      let mbuf ← mem.mbufs head
      let world ← handle world mbuf.extBuf
      let (_, mem) ← mbufDel mem (some head)
      handleQueue handle bound mem world

/-- What DNDSMessage_get_pdu tells of a message, and what is done with it. A session in
SESSION_STATE_PURGE is disconnected. -/
structure Handlers (Content World : Type) where
  purged : World → Bool
  isDnm : Content → Bool
  isEthernet : Content → Bool
  dispatchOperation : World → Content → Option World
  forwardEthernet : World → Content → Option World

section OnInput
variable {World : Type} (handlers : Handlers Content World)

/-- The switch leaves a message alone that is neither. -/
def switchMessage (world : World) (msg : Content) : Option World :=
  if handlers.isDnm msg then handlers.dispatchOperation world msg
  else if handlers.isEthernet msg then handlers.forwardEthernet world msg
  else some world

/-- `on_input` of the switch. -/
def switchOnInput (bound : Nat) (mem : Memory Content) (world : World) :
    Option (Memory Content × World) :=
  if handlers.purged world then none
  else handleQueue (switchMessage handlers) bound mem world

/-- The agent terminates its session on a message that is neither. -/
def agentMessage (world : World) (msg : Content) : Option World :=
  if handlers.isDnm msg then handlers.dispatchOperation world msg
  else if handlers.isEthernet msg then handlers.forwardEthernet world msg
  else none

/-- `on_input` of the agent. -/
def agentOnInput (bound : Nat) (mem : Memory Content) (world : World) :
    Option (Memory Content × World) :=
  handleQueue (agentMessage handlers) bound mem world

end OnInput

/-! ## What the functions do to the pointers -/

def Memory.links (mem : Memory Content) : Links MbufId :=
  { head := mem.head
    next := fun m => (mem.next m).join
    prev := fun m => (mem.prev m).join }

/-- What the deletion of a buffer releases. -/
def Memory.contents (mem : Memory Content) (m : MbufId) : Option (Release Content) :=
  (mem.mbufs m).map Mbuf.release

/-- Only pointers and counts have changed. -/
structure Relinked (mem after : Memory Content) (links : Links MbufId) : Prop where
  links : after.links = links
  contents : after.contents = mem.contents
  released : after.released = mem.released

theorem next_of_present {mem : Memory Content} {m : MbufId} (present : (mem.contents m).isSome) :
    mem.next m = some (mem.links.next m) := by
  cases found : mem.mbufs m with
  | none => simp [Memory.contents, found] at present
  | some mbuf => simp [Memory.next, Memory.links, found]

theorem prev_of_present {mem : Memory Content} {m : MbufId} (present : (mem.contents m).isSome) :
    mem.prev m = some (mem.links.prev m) := by
  cases found : mem.mbufs m with
  | none => simp [Memory.contents, found] at present
  | some mbuf => simp [Memory.prev, Memory.links, found]

/-- What is read of every buffer after one of them was stored or freed. -/
theorem read_update {Value : Type} (read : Option (Mbuf Content) → Value)
    (mbufs : MbufId → Option (Mbuf Content)) (m : MbufId) (stored : Option (Mbuf Content)) :
    (fun other => read (Function.update mbufs m stored other)) =
      Function.update (fun other => read (mbufs other)) m (read stored) :=
  Function.comp_update read mbufs m stored

/-- A store that keeps the contents of the buffer. -/
theorem store_relinked {mem : Memory Content} {m : MbufId} (change : Mbuf Content → Mbuf Content)
    (kept : ∀ mbuf, (change mbuf).release = mbuf.release)
    (present : (mem.contents m).isSome) : ∃ mbuf after, mem.mbufs m = some mbuf ∧
      mem.store m change = some after ∧ Relinked mem after
        { head := mem.head
          next := Function.update mem.links.next m (change mbuf).next
          prev := Function.update mem.links.prev m (change mbuf).prev } := by
  cases found : mem.mbufs m with
  | none => simp [Memory.contents, found] at present
  | some mbuf =>
    refine ⟨mbuf, { mem with mbufs := Function.update mem.mbufs m (some (change mbuf)) }, rfl,
      by simp [Memory.store, found], ?_, ?_, rfl⟩
    · simp only [Memory.links, Links.mk.injEq, true_and]
      exact ⟨read_update (fun stored => (stored.map Mbuf.next).join) mem.mbufs m _,
        read_update (fun stored => (stored.map Mbuf.prev).join) mem.mbufs m _⟩
    · have same : mem.contents m = some (change mbuf).release := by
        rw [Memory.contents, found, Option.map_some, kept]
      refine (read_update (Option.map Mbuf.release) mem.mbufs m _).trans ?_
      rw [Option.map_some, ← same]
      exact Function.update_eq_self m mem.contents

theorem setNext_relinked {mem : Memory Content} {m : MbufId} (target : Option MbufId)
    (present : (mem.contents m).isSome) : ∃ after, mem.setNext m target = some after ∧
      Relinked mem after
        { mem.links with next := Function.update mem.links.next m target } := by
  obtain ⟨mbuf, after, found, stored, relinked⟩ := store_relinked
    (fun mbuf => { mbuf with next := target }) (fun _ => rfl) present
  have same : mem.links.prev m = mbuf.prev := by simp [Memory.links, Memory.prev, found]
  rw [← same, Function.update_eq_self] at relinked
  exact ⟨after, stored, relinked⟩

theorem setPrev_relinked {mem : Memory Content} {m : MbufId} (target : Option MbufId)
    (present : (mem.contents m).isSome) : ∃ after, mem.setPrev m target = some after ∧
      Relinked mem after
        { mem.links with prev := Function.update mem.links.prev m target } := by
  obtain ⟨mbuf, after, found, stored, relinked⟩ := store_relinked
    (fun mbuf => { mbuf with prev := target }) (fun _ => rfl) present
  have same : mem.links.next m = mbuf.next := by simp [Memory.links, Memory.next, found]
  rw [← same, Function.update_eq_self] at relinked
  exact ⟨after, stored, relinked⟩

theorem setCount_relinked {mem : Memory Content} {m : MbufId} (count : BitVec 64 → BitVec 64)
    (present : (mem.contents m).isSome) : ∃ after, mem.setCount m count = some after ∧
      Relinked mem after mem.links := by
  obtain ⟨mbuf, after, found, stored, relinked⟩ := store_relinked
    (fun mbuf => { mbuf with count := count mbuf.count }) (fun _ => rfl) present
  have next : mem.links.next m = mbuf.next := by simp [Memory.links, Memory.next, found]
  have prev : mem.links.prev m = mbuf.prev := by simp [Memory.links, Memory.prev, found]
  rw [← next, ← prev, Function.update_eq_self, Function.update_eq_self] at relinked
  exact ⟨after, stored, relinked⟩

/-- The buffers of a list are there, and in this order. -/
structure Holds (mem : Memory Content) (list : List MbufId) : Prop where
  looped : Looped mem.links list
  present : ∀ m ∈ list, (mem.contents m).isSome

/-- `mbuf_add` puts a buffer behind the others. -/
theorem mbufAdd_appends {mem : Memory Content} {list : List MbufId} {m : MbufId}
    (holds : Holds mem list) (fresh : m ∉ list) (own : (mem.contents m).isSome) :
    ∃ after, mbufAdd mem m = some (0, after) ∧ Relinked mem after (mem.links.append m) := by
  cases list with
  | nil =>
    have empty : mem.head = none := holds.looped.head
    have present : (({ mem with head := some m } : Memory Content).contents m).isSome := own
    obtain ⟨one, set, first⟩ := setNext_relinked none present
    obtain ⟨two, looped, second⟩ := setPrev_relinked (some m) (first.contents ▸ present)
    obtain ⟨three, counted, third⟩ := setCount_relinked (fun _ => 1)
      (second.contents ▸ first.contents ▸ present)
    refine ⟨three, ?_, ?_, ?_, ?_⟩
    · simp only [mbufAdd, empty, set, looped, counted, Option.bind_eq_bind, Option.bind_some,
        Option.pure_def]
    · rw [third.links, second.links, first.links]
      simp [Links.append, Memory.links, Memory.next, Memory.prev, empty]
    · rw [third.contents, second.contents, first.contents]
      rfl
    · rw [third.released, second.released, first.released]
  | cons head rest =>
    have led : mem.head = some head := holds.looped.head
    have other : m ≠ head := fun same => fresh (same ▸ List.mem_cons_self)
    have present := holds.present head List.mem_cons_self
    obtain ⟨last, ends⟩ : ∃ last, (head :: rest).getLast? = some last :=
      ⟨_, List.getLast?_eq_some_getLast (List.cons_ne_nil head rest)⟩
    have loop : mem.links.prev head = some last := holds.looped.run.1.trans ends
    have final := holds.present last (List.mem_of_getLast? ends)
    obtain ⟨one, set, first⟩ := setNext_relinked none own
    have backward : one.prev head = some (some last) := by
      rw [prev_of_present (first.contents ▸ present), first.links]
      exact congrArg some loop
    obtain ⟨two, before, second⟩ := setPrev_relinked (some last) (first.contents ▸ own)
    have contents := second.contents.trans first.contents
    have tail : two.prev head = some (some last) := by
      rw [prev_of_present (contents ▸ present), second.links, first.links]
      simp only [Function.update_of_ne other.symm, loop]
    obtain ⟨three, linked, third⟩ := setNext_relinked (some m) (contents ▸ final)
    obtain ⟨four, looped, fourth⟩ := setPrev_relinked (some m)
      (third.contents ▸ contents ▸ present)
    obtain ⟨five, counted, fifth⟩ := setCount_relinked (· + 1)
      (fourth.contents ▸ third.contents ▸ contents ▸ present)
    refine ⟨five, ?_, ?_, ?_, ?_⟩
    · simp only [mbufAdd, led, set, backward, before, tail, linked, looped, counted,
        Option.bind_eq_bind, Option.bind_some, Option.pure_def]
    · rw [fifth.links, fourth.links, third.links, second.links, first.links]
      have leads : mem.links.head = some head := led
      simp [Links.append, leads, loop, redirect]
    · rw [fifth.contents, fourth.contents, third.contents, contents]
    · rw [fifth.released, fourth.released, third.released, second.released, first.released]

theorem redirectLast_relinked {mem : Memory Content} {head m : MbufId}
    (top : (mem.contents head).isSome) (own : (mem.contents m).isSome) :
    ∃ after, redirectLast mem head m = some after ∧ Relinked mem after { mem.links with
      prev := if mem.links.prev head = some m
        then Function.update mem.links.prev head (mem.links.prev m) else mem.links.prev } := by
  simp only [redirectLast, prev_of_present top, prev_of_present own, Option.bind_eq_bind,
    Option.bind_some]
  split
  · exact setPrev_relinked _ top
  · exact ⟨mem, rfl, rfl, rfl, rfl⟩

/-- The buffer that is deleted is the head, or there is one before it. -/
theorem redirectNext_relinked {mem : Memory Content} (head : MbufId) {m : MbufId}
    (own : (mem.contents m).isSome)
    (before : m ≠ head → ∃ last, mem.links.prev m = some last ∧ (mem.contents last).isSome) :
    ∃ after, redirectNext mem head m = some after ∧ Relinked mem after { mem.links with
      next := if m = head then mem.links.next
        else redirect mem.links.next (mem.links.prev m) (mem.links.next m) } := by
  by_cases same : m = head
  · rw [redirectNext, if_neg (not_not_intro same), if_pos same]
    exact ⟨mem, rfl, rfl, rfl, rfl⟩
  · obtain ⟨last, previous, present⟩ := before same
    simp only [redirectNext, if_pos same, if_neg same, prev_of_present own, next_of_present own,
      previous, Option.bind_eq_bind, Option.bind_some]
    exact setNext_relinked _ present

theorem redirectPrev_relinked {mem : Memory Content} {m : MbufId}
    (own : (mem.contents m).isSome)
    (behind : ∀ following, mem.links.next m = some following →
      (mem.contents following).isSome) :
    ∃ after, redirectPrev mem m = some after ∧ Relinked mem after { mem.links with
      prev := redirect mem.links.prev (mem.links.next m) (mem.links.prev m) } := by
  simp only [redirectPrev, next_of_present own, prev_of_present own, Option.bind_eq_bind,
    Option.bind_some]
  cases ahead : mem.links.next m with
  | none => exact ⟨mem, rfl, rfl, rfl, rfl⟩
  | some following => exact setPrev_relinked _ (behind following ahead)

/-- The redirected pointer back to the last buffer is not the buffer's own, or as it was. -/
theorem loop_keeps_own (links : Links MbufId) (head m : MbufId) :
    (if links.prev head = some m then Function.update links.prev head (links.prev m)
      else links.prev) m = links.prev m := by
  split
  · by_cases same : m = head
    · rw [same, Function.update_self]
    · rw [Function.update_of_ne same]
  · rfl

/-- The second test of the head fails: a buffer does not come behind itself. -/
theorem moveHead_relinked {mem : Memory Content} {head m : MbufId} (led : mem.head = some head)
    (own : (mem.contents m).isSome) (apart : mem.links.next m ≠ some m) :
    ∃ after, moveHead mem head m = some after ∧ Relinked mem after { mem.links with
      head := if m = head then mem.links.next m else mem.links.head } := by
  simp only [moveHead, next_of_present own, Option.bind_eq_bind, Option.bind_some]
  by_cases same : m = head
  · refine ⟨{ mem with head := mem.links.next m }, ?_, ?_, rfl, rfl⟩
    · subst same
      simp [apart]
    · simp [same, Memory.links, Memory.next, Memory.prev]
  · refine ⟨mem, ?_, ?_, rfl, rfl⟩
    · simp [same, led, Ne.symm same]
    · simp [same]

theorem countDown_relinked {mem : Memory Content}
    (present : ∀ head, mem.head = some head → (mem.contents head).isSome) :
    ∃ after, countDown mem = some after ∧ Relinked mem after mem.links := by
  cases led : mem.head with
  | none => exact ⟨mem, by simp [countDown, led], rfl, rfl, rfl⟩
  | some head =>
    obtain ⟨after, counted, relinked⟩ := setCount_relinked (· - 1) (present head led)
    exact ⟨after, by simp only [countDown, led, counted], relinked⟩

/-- Before the deleted buffer comes another one, or it is the only one or the head. -/
theorem previous_of_deleted {mem : Memory Content} {head m : MbufId} {front back : List MbufId}
    (holds : Holds mem (front ++ m :: back)) (led : mem.head = some head) (other : m ≠ head) :
    ∃ last, mem.links.prev m = some last ∧ last ∈ front := by
  obtain ⟨previous, _⟩ := holds.looped.neighbours
  cases front with
  | nil => exact absurd (Option.some.inj (holds.looped.head.symm.trans led)) other
  | cons first rest =>
    obtain ⟨last, ends⟩ : ∃ last, (first :: rest).getLast? = some last :=
      ⟨_, List.getLast?_eq_some_getLast (List.cons_ne_nil first rest)⟩
    refine ⟨last, ?_, List.mem_of_getLast? ends⟩
    rw [previous, ends, Option.some_or]

/-- The redirections detach a buffer from its list, before the head is moved. -/
theorem redirections_detach {mem : Memory Content} {head m : MbufId} {front back : List MbufId}
    (holds : Holds mem (front ++ m :: back)) (led : mem.head = some head) :
    ∃ one two three, redirectLast mem head m = some one ∧ redirectNext one head m = some two ∧
      redirectPrev two m = some three ∧ three.links.next m = mem.links.next m ∧
      Relinked mem three { mem.links.detach m with head := some head } := by
  obtain ⟨_, following⟩ := holds.looped.neighbours
  obtain ⟨_, distinct, apart⟩ := List.nodup_append.mp holds.looped.distinct
  have leads : mem.links.head = some head := led
  have first : head ∈ front ++ m :: back := List.mem_of_head? (holds.looped.head.symm.trans led)
  have own := holds.present m (List.mem_append_right _ List.mem_cons_self)
  have previous := previous_of_deleted holds led
  obtain ⟨one, looped, last⟩ := redirectLast_relinked (holds.present head first) own
  have before : one.links.prev m = mem.links.prev m := by
    rw [last.links]
    exact loop_keeps_own mem.links head m
  obtain ⟨two, skipped, next⟩ := redirectNext_relinked head (last.contents ▸ own)
    fun other => by
      obtain ⟨known, points, inside⟩ := previous other
      rw [before, last.contents]
      exact ⟨known, points, holds.present known (List.mem_append_left _ inside)⟩
  have contents := next.contents.trans last.contents
  have behind : two.links.next m = mem.links.next m := by
    rw [next.links, last.links]
    by_cases same : m = head
    · simp only [if_pos same]
    · simp only [if_neg same]
      obtain ⟨known, points, inside⟩ := previous same
      have different : some known ≠ some m := fun equal =>
        apart known inside m List.mem_cons_self (Option.some.inj equal)
      have unlooped := loop_keeps_own mem.links head m
      rw [unlooped, points, redirect_of_ne _ _ _ _ different]
  obtain ⟨three, joined, prev⟩ := redirectPrev_relinked (contents ▸ own) fun beyond ahead => by
    rw [behind, following] at ahead
    exact contents ▸ holds.present beyond
      (List.mem_append_right _ (List.mem_cons_of_mem m (List.mem_of_head? ahead)))
  refine ⟨one, two, three, looped, skipped, joined, ?_, ?_, prev.contents.trans contents, ?_⟩
  · rw [prev.links, behind]
  · have second : two.links = { head := some head
                                next := (mem.links.detach m).next
                                prev := one.links.prev } := by
      rw [next.links, before, last.links]
      by_cases same : m = head
      · simp [Links.detach, leads, same]
      · simp [Links.detach, leads, same, Ne.symm same]
    have after : two.links.prev m = mem.links.prev m := by rw [second, before]
    rw [prev.links, behind, after, second, last.links]
    simp [Links.detach, leads, redirect]
  · rw [prev.released, next.released, last.released]

theorem releaseMbuf_others {mem : Memory Content} {m : MbufId}
    (own : (mem.contents m).isSome) : ∃ after, releaseMbuf mem m = some after ∧
      after.head = mem.head ∧ (∀ other, other ≠ m → after.mbufs other = mem.mbufs other) ∧
      after.contents = Function.update mem.contents m none ∧
      after.released = mem.released ++ (mem.contents m).toList := by
  cases found : mem.mbufs m with
  | none => simp [Memory.contents, found] at own
  | some mbuf =>
    refine ⟨{ mem with
        mbufs := Function.update mem.mbufs m none
        released := mem.released ++ [mbuf.release] }, by rw [releaseMbuf, found, Option.map_some],
      rfl, fun other different => ?_, ?_, ?_⟩
    · exact Function.update_of_ne different _ _
    · exact read_update (Option.map Mbuf.release) mem.mbufs m none
    · simp [Memory.contents, found]

/-- `mbuf_del` takes a buffer out of its list, wherever it is, and releases it. -/
theorem mbufDel_detaches {mem : Memory Content} {m : MbufId} {front back : List MbufId}
    (holds : Holds mem (front ++ m :: back)) : ∃ after, mbufDel mem (some m) = some (0, after) ∧
      Holds after (front ++ back) ∧ after.contents = Function.update mem.contents m none ∧
      after.released = mem.released ++ (mem.contents m).toList := by
  obtain ⟨head, led⟩ : ∃ head, mem.head = some head := by
    rw [← Option.isSome_iff_exists, show mem.head = _ from holds.looped.head]
    simp
  have own := holds.present m (List.mem_append_right _ List.mem_cons_self)
  obtain ⟨_, distinct, apart⟩ := List.nodup_append.mp holds.looped.distinct
  have outside : m ∉ front ++ back := by
    intro inside
    rcases List.mem_append.mp inside with inside | inside
    · exact apart m inside m List.mem_cons_self rfl
    · exact (List.nodup_cons.mp distinct).1 inside
  obtain ⟨one, two, three, last, next, prev, behind, detached⟩ := redirections_detach holds led
  have stays : three.head = some head := congrArg Links.head detached.links
  have unlooped : three.links.next m ≠ some m := by
    rw [behind, holds.looped.neighbours.2]
    exact fun same => (List.nodup_cons.mp distinct).1 (List.mem_of_head? same)
  obtain ⟨four, moved, heads⟩ := moveHead_relinked stays (detached.contents ▸ own) unlooped
  have links : four.links = mem.links.detach m := by
    have leads : mem.links.head = some head := led
    rw [heads.links, behind, detached.links]
    by_cases same : m = head
    · simp [Links.detach, leads, same]
    · simp [Links.detach, leads, same, Ne.symm same]
  have contents := heads.contents.trans detached.contents
  have looped : Looped four.links (front ++ back) := links ▸ holds.looped.detach
  have present : ∀ other ∈ front ++ back, (mem.contents other).isSome := by
    intro other inside
    rw [List.mem_append] at inside
    exact holds.present other (List.mem_append.mpr (inside.imp_right (List.mem_cons_of_mem m)))
  obtain ⟨five, counted, same⟩ := countDown_relinked fun first (leads : four.head = some first) =>
    contents ▸ present first (List.mem_of_head? (looped.head.symm.trans leads))
  have final := same.contents.trans contents
  obtain ⟨six, freed, leads, others, left, log⟩ := releaseMbuf_others (final ▸ own)
  have kept : ∀ other ∈ front ++ back, six.mbufs other = five.mbufs other :=
    fun other inside => others other fun same => outside (same ▸ inside)
  refine ⟨six, ?_, ⟨?_, fun other inside => ?_⟩, ?_, ?_⟩
  · simp only [mbufDel, led, last, next, prev, moved, counted, freed, Option.bind_eq_bind,
      Option.bind_some, Option.pure_def]
  · refine (same.links ▸ looped).congr leads (fun other inside => ?_) (fun other inside => ?_)
    · simp only [Memory.links, Memory.next, kept other inside]
    · simp only [Memory.links, Memory.prev, kept other inside]
  · have different : other ≠ m := fun equal => outside (equal ▸ inside)
    rw [left, final, Function.update_of_ne different]
    exact present other inside
  · rw [left, final]
  · rw [log, final, same.released, heads.released, detached.released]

/-! ## Draining -/

/-- A queue is emptied from its head: its buffers are handled once each, in order, and released.
The bound is any that the queue does not exceed. -/
theorem Holds.drained {mem : Memory Content} {list : List MbufId} (holds : Holds mem list) :
    ∃ emptied, emptied.head = none ∧
      emptied.released = mem.released ++ list.filterMap mem.contents ∧
      ∀ bound, list.length ≤ bound → mbufFree bound mem = some emptied ∧
        ∀ (World : Type) (handle : World → Content → Option World) (world : World),
          handleQueue handle bound mem world =
            (((list.filterMap mem.contents).map Release.extBuf).foldlM handle world).map
              fun world => (emptied, world) := by
  induction list generalizing mem with
  | nil =>
    have empty : mem.head = none := holds.looped.head
    refine ⟨mem, empty, by simp, fun bound _ => ⟨?_, fun World handle world => ?_⟩⟩
    · cases bound <;> simp [mbufFree, empty]
    · cases bound <;> simp [handleQueue, empty]
  | cons m rest inductionHypothesis =>
    have whole : Holds mem ([] ++ m :: rest) := holds
    obtain ⟨after, deleted, held, contents, log⟩ := mbufDel_detaches whole
    have led : mem.head = some m := holds.looped.head
    obtain ⟨release, known⟩ := Option.isSome_iff_exists.mp
      (holds.present m List.mem_cons_self)
    obtain ⟨mbuf, found, rfl⟩ := Option.map_eq_some_iff.mp known
    have outside := (List.nodup_cons.mp holds.looped.distinct).1
    have others : rest.filterMap after.contents = rest.filterMap mem.contents := by
      refine List.filterMap_congr fun other inside => ?_
      have different : other ≠ m := fun same => outside (same ▸ inside)
      rw [contents, Function.update_of_ne different]
    obtain ⟨emptied, empty, releases, drains⟩ := inductionHypothesis held
    refine ⟨emptied, empty, ?_, fun bound enough => ?_⟩
    · rw [releases, log, others, List.filterMap_cons, known]
      simp
    · cases bound with
      | zero => simp at enough
      | succ bound =>
        obtain ⟨freed, handled⟩ := drains bound (Nat.le_of_succ_le_succ enough)
        constructor
        · simp [mbufFree, led, deleted, freed]
        · intro World handle world
          simp only [handleQueue, led, found, deleted, List.filterMap_cons, known, List.map_cons,
            release_extBuf, List.foldlM_cons, Option.bind_eq_bind, Option.bind_some,
            handled World handle, others]
          cases handle world mbuf.extBuf with
          | none => rfl
          | some next => rfl

/-- `on_input` empties the queue, unless the connection is ended on the way. -/
theorem on_input_drains {World : Type} (handlers : Handlers Content World) {mem : Memory Content}
    {list : List MbufId} (holds : Holds mem list) (world : World) (bound : Nat)
    (enough : list.length ≤ bound) : ∃ emptied, emptied.head = none ∧
      (handlers.purged world = false → switchOnInput handlers bound mem world =
        (((list.filterMap mem.contents).map Release.extBuf).foldlM
          (switchMessage handlers) world).map fun world => (emptied, world)) ∧
      agentOnInput handlers bound mem world =
        (((list.filterMap mem.contents).map Release.extBuf).foldlM
          (agentMessage handlers) world).map fun world => (emptied, world) := by
  obtain ⟨emptied, empty, _, drains⟩ := holds.drained
  have handled := (drains bound enough).2 World
  refine ⟨emptied, empty, fun live => ?_, handled (agentMessage handlers) world⟩
  rw [switchOnInput, live, ← handled (switchMessage handlers) world]
  rfl

/-! ## Sequences of calls -/

inductive Event where
  | mbufAdd (m : MbufId)
  | mbufDel (m : MbufId)
deriving DecidableEq

def step (mem : Memory Content) : Event → Option (Memory Content)
  | .mbufAdd m => (mbufAdd mem m).map Prod.snd
  | .mbufDel m => (mbufDel mem (some m)).map Prod.snd

/-- An empty list, and buffers in no list. -/
def start (mbufs : MbufId → Option (Mbuf Content)) : Memory Content :=
  { head := none, mbufs := mbufs, released := [] }

/-- The buffers that were added so far, and those that were deleted, each in this order. -/
structure Queue where
  added : List MbufId
  deleted : List MbufId

def Queue.initial : Queue := { added := [], deleted := [] }

/-- The buffers that were added and not deleted, in the order in which they were added. -/
def Queue.waiting (queue : Queue) : List MbufId := queue.added.filter (· ∉ queue.deleted)

def Queue.advance (queue : Queue) : Event → Queue
  | .mbufAdd m => { queue with added := queue.added ++ [m] }
  | .mbufDel m => { queue with deleted := queue.deleted ++ [m] }

def queueOf (events : List Event) : Queue := events.foldl Queue.advance .initial

/-- A buffer that is added is in no list; one that is deleted is in this one. -/
def permitted (mbufs : MbufId → Option (Mbuf Content)) (queue : Queue) : Event → Prop
  | .mbufAdd m => (mbufs m).isSome ∧ m ∉ queue.added
  | .mbufDel m => m ∈ queue.waiting

def Proper (mbufs : MbufId → Option (Mbuf Content)) (events : List Event) : Prop :=
  Guarded Queue.advance .initial (permitted mbufs) events

/-- The memory after calls that left this queue. -/
structure Follows (mbufs : MbufId → Option (Mbuf Content)) (queue : Queue)
    (mem : Memory Content) : Prop where
  holds : Holds mem queue.waiting
  contents : ∀ m, m ∉ queue.deleted → mem.contents m = (mbufs m).map Mbuf.release
  known : ∀ m ∈ queue.added, (mbufs m).isSome
  released : mem.released = queue.deleted.filterMap fun m => (mbufs m).map Mbuf.release
  within : queue.deleted ⊆ queue.added
  distinct : queue.deleted.Nodup

theorem start_follows (mbufs : MbufId → Option (Mbuf Content)) :
    Follows mbufs .initial (start mbufs) :=
  { holds := { looped := looped_nil _ rfl, present := fun _ inside => nomatch inside }
    contents := fun _ _ => rfl
    known := fun _ inside => nomatch inside
    released := rfl
    within := fun _ inside => inside
    distinct := List.nodup_nil }

theorem waiting_add (queue : Queue) (m : MbufId) (fresh : m ∉ queue.deleted) :
    (queue.advance (.mbufAdd m)).waiting = queue.waiting ++ [m] := by
  change (queue.added ++ [m]).filter (fun other => other ∉ queue.deleted) = _
  rw [List.filter_append, List.filter_cons_of_pos (by simpa using fresh), List.filter_nil]
  rfl

theorem waiting_del (queue : Queue) (m : MbufId) (front back : List MbufId)
    (distinct : (front ++ m :: back).Nodup) (split : queue.waiting = front ++ m :: back) :
    (queue.advance (.mbufDel m)).waiting = front ++ back := by
  have others : (queue.advance (.mbufDel m)).waiting = queue.waiting.filter (· ≠ m) := by
    simp only [Queue.waiting, Queue.advance, List.filter_filter]
    refine List.filter_congr fun other _ => ?_
    simp [not_or, and_comm]
  obtain ⟨_, later, apart⟩ := List.nodup_append.mp distinct
  have early : front.filter (· ≠ m) = front := by
    refine List.filter_eq_self.mpr fun other inside => ?_
    simpa using apart other inside m List.mem_cons_self
  have late : back.filter (· ≠ m) = back := by
    refine List.filter_eq_self.mpr fun other inside => ?_
    have different : other ≠ m := fun same => (List.nodup_cons.mp later).1 (same ▸ inside)
    simpa using different
  rw [others, split, List.filter_append, List.filter_cons_of_neg (by simp), early, late]

/-- An addition follows the queue. -/
theorem Follows.add {mbufs : MbufId → Option (Mbuf Content)} {queue : Queue}
    {mem : Memory Content} {m : MbufId} (follows : Follows mbufs queue mem)
    (present : (mbufs m).isSome) (fresh : m ∉ queue.added) :
    ∃ after, step mem (.mbufAdd m) = some after ∧
      Follows mbufs (queue.advance (.mbufAdd m)) after := by
  have alive : m ∉ queue.deleted := fun gone => fresh (follows.within gone)
  have outside : m ∉ queue.waiting := fun inside => fresh (List.mem_filter.mp inside).1
  have own : (mem.contents m).isSome := by simpa [follows.contents m alive] using present
  obtain ⟨after, added, relinked⟩ := mbufAdd_appends follows.holds outside own
  refine ⟨after, by rw [step, added, Option.map_some], ?_⟩
  refine
    { holds := ⟨?_, fun other inside => ?_⟩
      contents := fun other left => ?_
      known := fun other inside => ?_
      released := relinked.released.trans follows.released
      within := fun other gone => List.mem_append_left _ (follows.within gone)
      distinct := follows.distinct }
  · rw [waiting_add queue m alive, relinked.links]
    exact follows.holds.looped.append outside
  · rw [waiting_add queue m alive, List.mem_append, List.mem_singleton] at inside
    rw [relinked.contents]
    rcases inside with inside | rfl
    · exact follows.holds.present other inside
    · exact own
  · rw [relinked.contents, follows.contents other left]
  · rcases List.mem_append.mp inside with inside | inside
    · exact follows.known other inside
    · rwa [List.mem_singleton.mp inside]

/-- A deletion follows the queue. -/
theorem Follows.del {mbufs : MbufId → Option (Mbuf Content)} {queue : Queue}
    {mem : Memory Content} {m : MbufId} (follows : Follows mbufs queue mem)
    (inside : m ∈ queue.waiting) : ∃ after, step mem (.mbufDel m) = some after ∧
      Follows mbufs (queue.advance (.mbufDel m)) after := by
  obtain ⟨front, back, split⟩ := List.append_of_mem inside
  have holds : Holds mem (front ++ m :: back) := split ▸ follows.holds
  have alive : m ∉ queue.deleted := by simpa using (List.mem_filter.mp inside).2
  obtain ⟨after, deleted, held, contents, log⟩ := mbufDel_detaches holds
  refine ⟨after, by rw [step, deleted, Option.map_some], ?_⟩
  refine
    { holds := ?_
      contents := fun other left => ?_
      known := follows.known
      released := ?_
      within := fun other gone => ?_
      distinct := ?_ }
  · rwa [waiting_del queue m front back holds.looped.distinct split]
  · have apart : other ∉ queue.deleted ∧ other ≠ m := by
      simpa [Queue.advance, not_or] using left
    rw [contents, Function.update_of_ne apart.2, follows.contents other apart.1]
  · change after.released = (queue.deleted ++ [m]).filterMap _
    rw [log, follows.released, follows.contents m alive, List.filterMap_append]
    cases found : mbufs m <;> simp [found]
  · rcases List.mem_append.mp gone with gone | gone
    · exact follows.within gone
    · rw [List.mem_singleton.mp gone]
      exact (List.mem_filter.mp inside).1
  · change (queue.deleted ++ [m]).Nodup
    rw [← List.concat_eq_append, List.nodup_concat]
    exact ⟨alive, follows.distinct⟩

theorem calls_follow (mbufs : MbufId → Option (Mbuf Content)) (events : List Event)
    (proper : Proper mbufs events) : ∃ mem, run step (start mbufs) events = some mem ∧
      Follows mbufs (queueOf events) mem := by
  induction events using List.reverseRecOn with
  | nil => exact ⟨start mbufs, rfl, start_follows mbufs⟩
  | append_singleton past event inductionHypothesis =>
    obtain ⟨early, allowed⟩ := (guarded_snoc _ _ _ past event).mp proper
    obtain ⟨before, reached, follows⟩ := inductionHypothesis early
    have queue : queueOf (past ++ [event]) = (queueOf past).advance event := by simp [queueOf]
    rw [queue]
    cases event with
    | mbufAdd m =>
      obtain ⟨after, taken, followed⟩ := follows.add allowed.1 allowed.2
      exact ⟨after, run_extend _ _ _ _ _ _ reached taken, followed⟩
    | mbufDel m =>
      obtain ⟨after, taken, followed⟩ := follows.del allowed
      exact ⟨after, run_extend _ _ _ _ _ _ reached taken, followed⟩

/-- After every proper sequence of calls `next` leads over the buffers that were added and not
deleted, in the order in which they were added, `prev` leads back and from the head to the last,
and what was released are the contents of the deleted buffers, once each. Emptying the list
handles every buffer that is left once, in the order of arrival, and releases it; that a handler
ends the connection is all that stops it.

Proof: every proper call keeps the pointers a loop through the waiting buffers, from the head
around. The walk and the emptying follow that loop; what the calls do not touch keeps its
contents. -/
theorem mbuf_lists_fifo (mbufs : MbufId → Option (Mbuf Content)) (events : List Event)
    (proper : Proper mbufs events) :
    ∃ mem, run step (start mbufs) events = some mem ∧
      walk mem.next (queueOf events).waiting.length mem.head = some (queueOf events).waiting ∧
      Looped mem.links (queueOf events).waiting ∧
      mem.released = (queueOf events).deleted.filterMap (fun m => (mbufs m).map Mbuf.release) ∧
      (queueOf events).deleted.Nodup ∧
      ∃ emptied, emptied.head = none ∧
        emptied.released = mem.released ++
          (queueOf events).waiting.filterMap (fun m => (mbufs m).map Mbuf.release) ∧
        ∀ bound, (queueOf events).waiting.length ≤ bound → mbufFree bound mem = some emptied ∧
          ∀ (World : Type) (handle : World → Content → Option World) (world : World),
            handleQueue handle bound mem world =
              (((queueOf events).waiting.filterMap fun m => (mbufs m).map Mbuf.extBuf).foldlM
                handle world).map fun world => (emptied, world) := by
  obtain ⟨mem, reached, follows⟩ := calls_follow mbufs events proper
  obtain ⟨emptied, empty, log, drains⟩ := follows.holds.drained
  have contents : (queueOf events).waiting.filterMap mem.contents =
      (queueOf events).waiting.filterMap fun m => (mbufs m).map Mbuf.release := by
    refine List.filterMap_congr fun m inside => follows.contents m ?_
    simpa using (List.mem_filter.mp inside).2
  have messages : ((queueOf events).waiting.filterMap mem.contents).map Release.extBuf =
      (queueOf events).waiting.filterMap fun m => (mbufs m).map Mbuf.extBuf := by
    rw [contents, List.map_filterMap]
    refine List.filterMap_congr fun m _ => ?_
    cases mbufs m <;> simp
  have present : ∀ m ∈ (queueOf events).waiting, mem.next m = some (mem.links.next m) :=
    fun m inside => next_of_present (follows.holds.present m inside)
  refine ⟨mem, reached, ?_, follows.holds.looped, follows.released, follows.distinct, emptied,
    empty, by rw [log, contents], ?_⟩
  · rw [show mem.head = _ from follows.holds.looped.head]
    exact walk_run mem.links mem.next _ _ _ present (Nat.le_refl _) follows.holds.looped.run
  · rwa [messages] at drains

/-- Messages are queued, and deleted from the middle, the front and the end. -/
def sampleCalls : List Event :=
  [.mbufAdd 0, .mbufAdd 1, .mbufAdd 2, .mbufAdd 3, .mbufDel 1, .mbufDel 0, .mbufDel 3, .mbufAdd 4]

def sampleMbufs (m : MbufId) : Option (Mbuf Nat) := some (mbufNew .byref m)

theorem sampleCalls_proper : Proper sampleMbufs sampleCalls := by
  simp [Proper, sampleCalls, guarded_cons, guarded_nil, permitted, Queue.advance, Queue.initial,
    Queue.waiting, sampleMbufs]

theorem mbuf_lists_fifo_sample :
    ∃ mem, run step (start sampleMbufs) sampleCalls = some mem ∧
      walk mem.next 2 mem.head = some [2, 4] ∧ Looped mem.links [2, 4] ∧
      mem.released = [.freeCb 1, .freeCb 0, .freeCb 3] := by
  obtain ⟨mem, reached, visits, looped, released, _⟩ :=
    mbuf_lists_fifo sampleMbufs sampleCalls sampleCalls_proper
  have waiting : (queueOf sampleCalls).waiting = [2, 4] := by decide
  rw [waiting] at visits looped
  exact ⟨mem, reached, visits, looped, released⟩

end NetVirt.Mbufs
