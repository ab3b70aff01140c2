import NetVirt.ControlChannel
import Mathlib.Algebra.Ring.Nat
import Mathlib.Data.List.Infix

/-!
# The controller's end of a connection

The read callback takes one line out of the buffer each time data arrives, where the
switch's twin takes all that are complete. Lines that arrive together wait for later
arrivals, so that the messages are all dispatched exactly when at no time too few arrivals
are left for the lines that are still to come.
-/

namespace NetVirt.Nvctrler

open LineStreams Nvswitch

/-- The types NVSWITCH and NVAPI of an authenticated connection. -/
inductive PeerType where
  | nvswitch
  | nvapi
deriving DecidableEq

/-- The calls that on_read_cb hands a message to. -/
inductive Dispatch (Document : Type) where
  | dispatchNvswitch (jmsg : Document)
  | dispatchNvapi (jmsg : Document)
deriving DecidableEq

/-- The dispatch function of a type. -/
def PeerType.dispatch {Document : Type} : PeerType → Document → Dispatch Document
  | .nvswitch => .dispatchNvswitch
  | .nvapi => .dispatchNvapi

/-- The type of a `session_info`, which is not set before the peer is authenticated, the
input of its connection and the calls that were made. -/
structure Connection (Document : Type) where
  type : Option PeerType
  input : List UInt8
  calls : List (Dispatch Document)
  freed : Bool
deriving DecidableEq

section Reading
variable {Document : Type}

/-- An authenticated connection on which nothing has been received. -/
def Connection.authenticated (peer : PeerType) : Connection Document :=
  { type := some peer, input := [], calls := [], freed := false }

variable (jsonLoadb : List UInt8 → Option Document)

/-- `on_read_cb`. A line that is not JSON is dropped. -/
def onReadCb (connection : Connection Document) : Connection Document :=
  match readln lineFeed connection.input with
  | none => connection
  | some (str, rest) =>
    match jsonLoadb str with
    | none => { connection with input := rest }
    | some jmsg =>
      match connection.type with
      | some peer => { connection with
          input := rest
          calls := connection.calls ++ [peer.dispatch jmsg] }
      | none => { connection with
          input := rest
          freed := true }

/-- Data arrives and the callback runs, unless the connection was freed. -/
def arrival (connection : Connection Document) (segment : List UInt8) : Connection Document :=
  if connection.freed then connection
  else onReadCb jsonLoadb { connection with input := connection.input ++ segment }

/-- The lines that wait in the buffer after arrivals that complete the given numbers of
lines. -/
def waiting (counts : List Nat) : Nat :=
  counts.foldl (fun before completed => before + completed - 1) 0

theorem waiting_from (counts : List Nat) (start : Nat) :
    counts.foldl (fun before completed => before + completed - 1) start = 0 ↔
      start + counts.sum ≤ counts.length ∧ ∀ late, late <:+ counts → late.sum ≤ late.length := by
  induction counts generalizing start with
  | nil => simp
  | cons completed rest inductionHypothesis =>
    rw [List.foldl_cons, inductionHypothesis]
    simp only [List.suffix_cons_iff, forall_eq_or_imp, List.sum_cons, List.length_cons]
    constructor
    · rintro ⟨enough, later⟩
      exact ⟨by omega, by omega, later⟩
    · rintro ⟨enough, _, later⟩
      have remaining := later rest List.suffix_rfl
      exact ⟨by omega, later⟩

/-- No line waits at the end exactly when the last arrivals, however many of them are
taken, complete no more lines than they are. -/
theorem waiting_zero_iff (counts : List Nat) :
    waiting counts = 0 ↔ ∀ late, late <:+ counts → late.sum ≤ late.length := by
  rw [waiting, waiting_from]
  constructor
  · exact And.right
  · intro later
    have whole := later counts List.suffix_rfl
    exact ⟨by omega, later⟩

/-- The state of a connection on which the beginning of some messages has arrived: the first
of its complete lines have been dispatched in order, the others wait. -/
structure Behind (peer : PeerType) (messages : List (List UInt8)) (arrived : List UInt8)
    (backlog : Nat) (connection : Connection Document) : Prop where
  lines : ∃ done pending rest, done ++ pending <+: messages ∧ pending.length = backlog ∧
    lineFeed ∉ rest ∧ arrived = framed lineFeed (done ++ pending) ++ rest ∧
    connection.input = framed lineFeed pending ++ rest ∧
    connection.calls.map some = done.map fun line => (jsonLoadb line).map peer.dispatch
  type : connection.type = some peer
  served : connection.freed = false

/-- One callback dispatches the first of the lines that are there. -/
theorem onReadCb_framed (connection : Connection Document) (peer : PeerType)
    (type : connection.type = some peer) (pending : List (List UInt8)) (rest : List UInt8)
    (plain : Plain lineFeed pending) (valid : ∀ line ∈ pending, (jsonLoadb line).isSome)
    (unfinished : lineFeed ∉ rest) (input : connection.input = framed lineFeed pending ++ rest) :
    onReadCb jsonLoadb connection = { connection with
      input := framed lineFeed (pending.drop 1) ++ rest
      calls := connection.calls ++
        (pending.take 1).filterMap fun line => (jsonLoadb line).map peer.dispatch } := by
  cases pending with
  | nil =>
    have none_ready : readln lineFeed connection.input = none := by
      rw [input]
      exact readln_unfinished lineFeed rest unfinished
    simp [onReadCb, none_ready, ← input]
  | cons line later =>
    have ready : readln lineFeed connection.input =
        some (line, framed lineFeed later ++ rest) := by
      rw [input, framed, List.append_assoc, List.cons_append]
      exact readln_line lineFeed line _ (plain line List.mem_cons_self)
    obtain ⟨jmsg, read⟩ := Option.isSome_iff_exists.mp (valid line List.mem_cons_self)
    simp [onReadCb, ready, read, type]

/-- One arrival adds the lines it completes to those that wait, and one is served. -/
theorem arrival_behind (peer : PeerType) (messages : List (List UInt8))
    (plain : Plain lineFeed messages) (valid : ∀ message ∈ messages, (jsonLoadb message).isSome)
    (arrived segment late : List UInt8) (backlog : Nat) (connection : Connection Document)
    (behind : Behind jsonLoadb peer messages arrived backlog connection)
    (cut : arrived ++ segment ++ late = framed lineFeed messages) :
    Behind jsonLoadb peer messages (arrived ++ segment)
      (backlog + segment.count lineFeed - 1) (arrival jsonLoadb connection segment) := by
  obtain ⟨⟨done, pending, rest, early, length, unfinished, got, input, calls⟩, type, served⟩ :=
    behind
  obtain ⟨more, last, plainMore, ending, buffered⟩ := framed_exists lineFeed (rest ++ segment)
  have plainDone : Plain lineFeed (done ++ pending) := fun line inside =>
    plain line (early.subset inside)
  have all : arrived ++ segment = framed lineFeed (done ++ pending ++ more) ++ last := by
    rw [got, List.append_assoc, buffered, framed_append lineFeed (done ++ pending),
      List.append_assoc]
  -- The lines completed now are the messages that come next.
  have next : done ++ pending ++ more <+: messages := by
    obtain ⟨begun, left, within, partly, same⟩ :=
      framed_prefix lineFeed messages (arrived ++ segment) late plain cut
    have plainBoth : Plain lineFeed (done ++ pending ++ more) := fun line inside =>
      (List.mem_append.mp inside).elim (plainDone line) (plainMore line)
    obtain ⟨rfl, _⟩ := framed_unique lineFeed _ begun last left plainBoth
      (fun line inside => plain line (within.subset inside)) ending partly (all.symm.trans same)
    exact within
  have completed : segment.count lineFeed = more.length := by
    have counted := congrArg (List.count lineFeed) buffered
    simpa [List.count_append, count_framed lineFeed more plainMore,
      List.count_eq_zero.mpr unfinished, List.count_eq_zero.mpr ending] using counted
  have validNext : ∀ line ∈ pending ++ more, (jsonLoadb line).isSome := by
    intro line inside
    refine valid line (next.subset ?_)
    rw [List.append_assoc]
    exact List.mem_append_right done inside
  have plainNext : Plain lineFeed (pending ++ more) := fun line inside =>
    (List.mem_append.mp inside).elim
      (fun waiting => plainDone line (List.mem_append_right done waiting)) (plainMore line)
  have after := onReadCb_framed jsonLoadb { connection with input := connection.input ++ segment }
    peer type (pending ++ more) last plainNext validNext ending (by
      rw [input, List.append_assoc, buffered, framed_append, List.append_assoc])
  rw [arrival, if_neg (by simp [served]), after]
  refine ⟨⟨done ++ (pending ++ more).take 1, (pending ++ more).drop 1, last, ?_, ?_, ending, ?_,
    rfl, ?_⟩, type, served⟩
  · rw [List.append_assoc, List.take_append_drop, ← List.append_assoc]
    exact next
  · rw [List.length_drop, List.length_append, length, completed]
  · rw [List.append_assoc, List.take_append_drop, ← List.append_assoc]
    exact all
  · rw [List.map_append, List.map_append, calls]
    congr 1
    refine filterMap_valid (fun line => (jsonLoadb line).map peer.dispatch) _ fun line inside => ?_
    rw [Option.isSome_map]
    exact validNext line (List.mem_of_mem_take inside)

/-- After all arrivals the messages have been dispatched, in order and each once, exactly
when no number of last arrivals completes more lines than it has arrivals.

Proof: each arrival dispatches one line at most of those that are complete, so the lines
waiting after all arrivals follow from the newlines in each. None is left exactly when no
suffix of the arrivals brings more newlines than it has arrivals. -/
theorem lines_dispatched_iff (peer : PeerType) (messages : List (List UInt8))
    (plain : Plain lineFeed messages) (valid : ∀ message ∈ messages, (jsonLoadb message).isSome)
    (segments : List (List UInt8)) (cut : segments.flatten = framed lineFeed messages) :
    (segments.foldl (arrival jsonLoadb) (.authenticated peer)).calls.map some =
        messages.map (fun message => (jsonLoadb message).map peer.dispatch) ↔
      ∀ late, late <:+ segments → late.flatten.count lineFeed ≤ late.length := by
  have along : ∀ early, early <+: segments → Behind jsonLoadb peer messages early.flatten
      (waiting (early.map (List.count lineFeed)))
      (early.foldl (arrival jsonLoadb) (.authenticated peer)) := by
    intro early
    induction early using List.reverseRecOn with
    | nil => exact fun _ => ⟨⟨[], [], [], by simp, rfl, by simp, rfl, rfl, rfl⟩, rfl, rfl⟩
    | append_singleton past segment inductionHypothesis =>
      rintro ⟨late, rfl⟩
      have before := inductionHypothesis ⟨[segment] ++ late, by simp⟩
      rw [List.flatten_append, List.flatten_append] at cut
      have taken := arrival_behind jsonLoadb peer messages plain valid past.flatten segment
        late.flatten _ _ before (by simpa using cut)
      simpa [waiting] using taken
  obtain ⟨⟨done, pending, rest, early, length, unfinished, got, _, calls⟩, _, _⟩ :=
    along segments List.prefix_rfl
  obtain ⟨same, _⟩ := framed_unique lineFeed messages (done ++ pending) [] rest plain
    (fun line inside => plain line (early.subset inside)) (by simp) unfinished
    (by rw [List.append_nil, ← cut, got])
  have none_left : (segments.foldl (arrival jsonLoadb) (.authenticated peer)).calls.map some =
      messages.map (fun message => (jsonLoadb message).map peer.dispatch) ↔
      waiting (segments.map (List.count lineFeed)) = 0 := by
    rw [calls, same, ← length, List.length_eq_zero_iff]
    constructor
    · intro dispatched
      have lengths := congrArg List.length dispatched
      simpa using lengths
    · rintro rfl
      rw [List.append_nil]
  rw [none_left, waiting_zero_iff]
  constructor
  · intro enough late last
    have counted := enough (late.map (List.count lineFeed)) (last.map _)
    rwa [List.length_map, ← List.count_flatten] at counted
  · intro enough counts last
    obtain ⟨late, ending, rfl⟩ := List.suffix_map_iff.mp last
    rw [List.length_map, ← List.count_flatten]
    exact enough late ending

end Reading

/-- The texts of two messages, and the same in lines. -/
def sampleTexts : List (List UInt8) :=
  [SampleQuery.dumps .listallNetwork, SampleQuery.dumps .listallNode]

def sampleLines : List (List UInt8) := sampleTexts.map fun text => text ++ [lineFeed]

theorem sampleLines_dispatched :
    (sampleLines.foldl (arrival SampleQuery.loadb) (.authenticated .nvswitch)).calls.map some =
      sampleTexts.map fun text => (SampleQuery.loadb text).map PeerType.nvswitch.dispatch :=
  (lines_dispatched_iff SampleQuery.loadb .nvswitch sampleTexts (by unfold Plain; decide)
    (by decide) sampleLines (by decide)).mpr (by
      simp only [← List.mem_tails]
      decide)

/-- Two lines in one segment: the second stays in the buffer. -/
theorem sampleLines_together :
    [sampleLines.flatten].flatten = framed lineFeed sampleTexts ∧
    ([sampleLines.flatten].foldl (arrival SampleQuery.loadb)
      (.authenticated .nvswitch)).calls.map some ≠
        sampleTexts.map fun text => (SampleQuery.loadb text).map PeerType.nvswitch.dispatch := by
  decide

end NetVirt.Nvctrler
