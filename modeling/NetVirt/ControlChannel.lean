import NetVirt.Cert
import NetVirt.LineStreams
import NetVirt.Runs

/-!
# The switch's connection to the controller

Commands of the controller are lines of JSON. The control thread takes every complete line
out of the connection's buffer whenever data arrives. In the other direction the switch
writes its messages into a pipe; what the control thread reads there in one callback goes to
the controller as one line, whether it is a message, several or a part of one.

The JSON reader is a parameter. The functions of libevent and the writes are assumed to
succeed.
-/

namespace NetVirt.Nvswitch

open Cert LineStreams Runs

/-- The line end of EVBUFFER_EOL_LF. -/
def lineFeed : UInt8 := 10

/-- The writes of messages to a switch: each text, and a newline of its own. -/
def messageWrites (messages : List (List UInt8)) : List (List UInt8) :=
  messages.flatMap fun message => [message, [lineFeed]]

theorem messageWrites_flatten (messages : List (List UInt8)) :
    (messageWrites messages).flatten = framed lineFeed messages := by
  induction messages with
  | nil => rfl
  | cons message rest inductionHypothesis =>
    simp only [messageWrites] at inductionHypothesis
    simp [messageWrites, framed, inductionHypothesis]

/-! ## Commands of the controller -/

section Commands
variable {Document : Type}

/-- The input of `bufev_sock` and the messages that dispatch_op was called with. -/
structure Control (Document : Type) where
  input : List UInt8
  dispatched : List Document
  freed : Bool
deriving DecidableEq

def Control.initial : Control Document := { input := [], dispatched := [], freed := false }

variable (jsonLoadb : List UInt8 → Option Document)

/-- The loop of `on_read_cb`. A line that is not JSON ends it, and the connection. -/
def readLoop (control : Control Document) : Control Document :=
  if control.input.length = 0 then control
  else
    match _found : readln lineFeed control.input with
    | none => control
    | some (str, rest) =>
      match jsonLoadb str with
      | none => { control with
          input := rest
          freed := true }
      | some jmsg =>
        readLoop { control with
          input := rest
          dispatched := control.dispatched ++ [jmsg] }
termination_by control.input.length
decreasing_by exact readln_shorter lineFeed control.input str rest _found

/-- `on_read_cb` after data arrived. It is not called on a connection that was freed. -/
def onReadCb (control : Control Document) (segment : List UInt8) : Control Document :=
  if control.freed then control
  else readLoop jsonLoadb { control with input := control.input ++ segment }

theorem readLoop_unfinished (control : Control Document) (unfinished : lineFeed ∉ control.input) :
    readLoop jsonLoadb control = control := by
  rw [readLoop]
  split
  · rfl
  · split
    · rfl
    · next str rest found =>
      rw [readln_unfinished lineFeed _ unfinished] at found
      cases found

theorem readLoop_line (control : Control Document) (str rest : List UInt8) (jmsg : Document)
    (input : control.input = str ++ lineFeed :: rest) (plain : lineFeed ∉ str)
    (valid : jsonLoadb str = some jmsg) :
    readLoop jsonLoadb control = readLoop jsonLoadb { control with
      input := rest
      dispatched := control.dispatched ++ [jmsg] } := by
  rw [readLoop, if_neg (by simp [input])]
  split
  · next found =>
    rw [input, readln_line lineFeed str rest plain] at found
    cases found
  · next first after found =>
    rw [input, readln_line lineFeed str rest plain] at found
    obtain ⟨rfl, rfl⟩ := Prod.mk.inj (Option.some.inj found)
    simp only [valid]

/-- Whole lines are dispatched one after the other, and the beginning of the next is kept. -/
theorem readLoop_framed (whole : List (List UInt8)) (rest : List UInt8)
    (plain : Plain lineFeed whole) (valid : ∀ line ∈ whole, (jsonLoadb line).isSome)
    (unfinished : lineFeed ∉ rest) (dispatched : List Document) :
    readLoop jsonLoadb { input := framed lineFeed whole ++ rest, dispatched, freed := false } =
      { input := rest, dispatched := dispatched ++ whole.filterMap jsonLoadb, freed := false } := by
  induction whole generalizing dispatched with
  | nil => simpa [framed] using readLoop_unfinished jsonLoadb ⟨rest, dispatched, false⟩ unfinished
  | cons line later inductionHypothesis =>
    obtain ⟨jmsg, read⟩ := Option.isSome_iff_exists.mp (valid line List.mem_cons_self)
    have first := readLoop_line jsonLoadb
      { input := framed lineFeed (line :: later) ++ rest, dispatched, freed := false } line
      (framed lineFeed later ++ rest) jmsg (by simp [framed]) (plain line List.mem_cons_self) read
    rw [first, inductionHypothesis (fun other inside => plain other (.tail line inside))
      (fun other inside => valid other (.tail line inside))]
    simp [read]

/-- Of the messages, those that have arrived whole have been dispatched, each once and in
order, and the beginning of the next is in the buffer. -/
structure KeptUp (messages : List (List UInt8)) (arrived : List UInt8)
    (control : Control Document) : Prop where
  whole : ∃ whole, whole <+: messages ∧ arrived = framed lineFeed whole ++ control.input ∧
    control.dispatched.map some = whole.map jsonLoadb
  unfinished : lineFeed ∉ control.input
  served : control.freed = false

theorem filterMap_valid (lines : List (List UInt8))
    (valid : ∀ line ∈ lines, (jsonLoadb line).isSome) :
    (lines.filterMap jsonLoadb).map some = lines.map jsonLoadb := by
  induction lines with
  | nil => rfl
  | cons line rest inductionHypothesis =>
    obtain ⟨jmsg, read⟩ := Option.isSome_iff_exists.mp (valid line List.mem_cons_self)
    simp [read, inductionHypothesis fun other inside => valid other (.tail line inside)]

/-- One arrival keeps up with the messages. -/
theorem onReadCb_keepsUp (messages : List (List UInt8)) (plain : Plain lineFeed messages)
    (valid : ∀ message ∈ messages, (jsonLoadb message).isSome) (arrived segment late : List UInt8)
    (control : Control Document) (kept : KeptUp jsonLoadb messages arrived control)
    (cut : arrived ++ segment ++ late = framed lineFeed messages) :
    KeptUp jsonLoadb messages (arrived ++ segment) (onReadCb jsonLoadb control segment) := by
  obtain ⟨⟨whole, early, got, dispatched⟩, unfinished, served⟩ := kept
  obtain ⟨more, rest, plainMore, ending, buffered⟩ :=
    framed_exists lineFeed (control.input ++ segment)
  have all : arrived ++ segment = framed lineFeed (whole ++ more) ++ rest := by
    rw [got, List.append_assoc, buffered, framed_append, List.append_assoc]
  -- The lines found in the buffer are the messages that come next.
  have next : whole ++ more <+: messages := by
    obtain ⟨begun, left, within, partly, same⟩ :=
      framed_prefix lineFeed messages (arrived ++ segment) late plain cut
    have plainWhole : Plain lineFeed whole := fun line inside => plain line (early.subset inside)
    have plainBoth : Plain lineFeed (whole ++ more) := fun line inside =>
      (List.mem_append.mp inside).elim (plainWhole line) (plainMore line)
    obtain ⟨rfl, _⟩ := framed_unique lineFeed (whole ++ more) begun rest left plainBoth
      (fun line inside => plain line (within.subset inside)) ending partly
      (all.symm.trans same)
    exact within
  have validMore : ∀ line ∈ more, (jsonLoadb line).isSome := fun line inside =>
    valid line (next.subset (List.mem_append_right whole inside))
  have after : onReadCb jsonLoadb control segment =
      ⟨rest, control.dispatched ++ more.filterMap jsonLoadb, false⟩ := by
    rw [onReadCb, served, if_neg (by simp), buffered]
    exact readLoop_framed jsonLoadb more rest plainMore validMore ending control.dispatched
  rw [after]
  refine ⟨⟨whole ++ more, next, all, ?_⟩, ending, rfl⟩
  rw [List.map_append, List.map_append, dispatched, filterMap_valid jsonLoadb more validMore]

/-- However the controller's messages are cut on the way, the switch dispatches each when
its newline has arrived, and keeps what it has of the next.

Proof: induction over the arrivals: what was received so far is the framing of the messages
dispatched and an unfinished line. At the end the framing determines the messages. -/
theorem commands_dispatched (messages : List (List UInt8)) (plain : Plain lineFeed messages)
    (valid : ∀ message ∈ messages, (jsonLoadb message).isSome) (segments : List (List UInt8))
    (cut : segments.flatten = (messageWrites messages).flatten) :
    (∀ early, early <+: segments → KeptUp jsonLoadb messages early.flatten
      (early.foldl (onReadCb jsonLoadb) .initial)) ∧
    (segments.foldl (onReadCb jsonLoadb) .initial).dispatched.map some =
      messages.map jsonLoadb ∧
    (segments.foldl (onReadCb jsonLoadb) .initial).input = [] := by
  rw [messageWrites_flatten] at cut
  have along : ∀ early, early <+: segments → KeptUp jsonLoadb messages early.flatten
      (early.foldl (onReadCb jsonLoadb) .initial) := by
    intro early
    induction early using List.reverseRecOn with
    | nil =>
      exact fun _ => ⟨⟨[], List.nil_prefix, rfl, rfl⟩, by simp [Control.initial], rfl⟩
    | append_singleton past segment inductionHypothesis =>
      rintro ⟨late, rfl⟩
      rw [List.foldl_append, List.flatten_append]
      have before := inductionHypothesis ⟨[segment] ++ late, by simp⟩
      rw [List.flatten_append, List.flatten_append] at cut
      simpa using onReadCb_keepsUp jsonLoadb messages plain valid past.flatten segment
        late.flatten _ before (by simpa using cut)
  refine ⟨along, ?_⟩
  obtain ⟨⟨whole, early, got, dispatched⟩, unfinished, _⟩ := along segments List.prefix_rfl
  have same := framed_unique lineFeed messages whole [] _ plain
    (fun line inside => plain line (early.subset inside)) (by simp) unfinished
    (by rw [List.append_nil, ← cut, got])
  rw [same.1]
  exact ⟨dispatched, same.2.symm⟩

end Commands

/-- The queries of the initial listing. -/
inductive SampleQuery where
  | listallNetwork
  | listallNode
deriving DecidableEq

def SampleQuery.dumps : SampleQuery → List UInt8
  | .listallNetwork =>
    ascii "\x7b\"action\": \"listall-network\", \"response\": \"success\"\x7d".toList
  | .listallNode => ascii "\x7b\"action\": \"listall-node\", \"response\": \"success\"\x7d".toList

/-- A reader of these two. -/
def SampleQuery.loadb (text : List UInt8) : Option SampleQuery :=
  [.listallNetwork, .listallNode].find? fun query => query.dumps = text

/-- Two messages in three segments, cut inside each of them. -/
def sampleSegments : List (List UInt8) :=
  let stream := framed lineFeed
    [SampleQuery.dumps .listallNetwork, SampleQuery.dumps .listallNode]
  [stream.take 9, (stream.drop 9).take 70, stream.drop 79]

theorem sampleSegments_dispatched :
    (sampleSegments.foldl (onReadCb SampleQuery.loadb) .initial).dispatched.map some =
      [some .listallNetwork, some .listallNode] :=
  (commands_dispatched SampleQuery.loadb
    [SampleQuery.dumps .listallNetwork, SampleQuery.dumps .listallNode] (by
      intro line inside
      rcases List.mem_pair.mp inside with rfl | rfl
      · decide
      · decide)
    (by decide) sampleSegments (by decide)).2.1

/-! ## Messages to the controller -/

/-- sizeof(query_str) -/
def queryStrSize : Nat := 1024

/-- `strlen`. A buffer without a zero is read past its end. -/
def strlen (buffer : List UInt8) : Option Nat := buffer.findIdx? fun byte => byte = 0

/-- The input of the pipe's bufferevent, and what was written to `bufev_sock`. -/
structure Pipe where
  input : List UInt8
  written : List UInt8
deriving DecidableEq

def Pipe.initial : Pipe := { input := [], written := [] }

/-- `pipe_read_cb` -/
def pipeReadCb (pipe : Pipe) : Option Pipe := do
  let read := pipe.input.take queryStrSize
  let queryStr := read ++ List.replicate (queryStrSize - read.length) 0
  let length ← strlen queryStr
  return { input := pipe.input.drop queryStrSize
           written := pipe.written ++ queryStr.take length ++ [lineFeed] }

/-- Bytes of the pipe become available, and the callback runs. -/
def pipeArrival (pipe : Pipe) (segment : List UInt8) : Option Pipe :=
  pipeReadCb { pipe with input := pipe.input ++ segment }

theorem strlen_text (text : List UInt8) (room : Nat) (nonzero : (0 : UInt8) ∉ text) :
    strlen (text ++ List.replicate room 0) = if room = 0 then none else some text.length := by
  have text_only : text.findIdx? (fun byte => byte = 0) = none := by
    rw [List.findIdx?_eq_none_iff]
    intro byte inside
    simpa using fun zero : byte = 0 => nonzero (zero ▸ inside)
  rw [strlen, List.findIdx?_append, text_only]
  cases room with
  | zero => rfl
  | succ room => simp [List.replicate_succ, List.findIdx?_cons]

/-- From an empty buffer, what arrives is written as one line if it is shorter than the
callback's own buffer. -/
theorem pipeArrival_eq (written segment : List UInt8) (nonzero : (0 : UInt8) ∉ segment) :
    pipeArrival { input := [], written := written } segment =
      if segment.length < queryStrSize then
        some { input := [], written := written ++ (segment ++ [lineFeed]) }
      else none := by
  have text : (0 : UInt8) ∉ segment.take queryStrSize := fun inside =>
    nonzero (List.mem_of_mem_take inside)
  simp only [pipeArrival, pipeReadCb, List.nil_append, strlen_text _ _ text, List.length_take]
  by_cases short : segment.length < queryStrSize
  · have room : queryStrSize - min queryStrSize segment.length ≠ 0 := by omega
    have whole : segment.take queryStrSize = segment := List.take_of_length_le (by omega)
    have rest : segment.drop queryStrSize = [] := List.drop_of_length_le (by omega)
    have length : min queryStrSize segment.length = segment.length := by omega
    rw [if_neg room, whole, rest, length, if_pos short]
    simp
  · have full : queryStrSize - min queryStrSize segment.length = 0 := by omega
    simp [short, full]

/-- A run writes each arrival as a line, and is undefined once one fills the buffer. -/
theorem pipe_run (written : List UInt8) (segments : List (List UInt8))
    (nonzero : ∀ segment ∈ segments, (0 : UInt8) ∉ segment) :
    run pipeArrival { input := [], written := written } segments =
      if ∀ segment ∈ segments, segment.length < queryStrSize then
        some { input := [], written := written ++ framed lineFeed segments }
      else none := by
  induction segments generalizing written with
  | nil => simp [run, framed]
  | cons segment rest inductionHypothesis =>
    have first := pipeArrival_eq written segment (nonzero segment List.mem_cons_self)
    by_cases short : segment.length < queryStrSize
    · rw [if_pos short] at first
      simp only [run, first, Option.bind_some]
      rw [inductionHypothesis _ fun other inside => nonzero other (.tail segment inside)]
      simp [short, framed]
    · rw [if_neg short] at first
      simp [run, first, short]

/-- The messages of update_node_status and query_provisioning reach the controller as lines
of their own exactly when each arrives alone and whole, and is shorter than the buffer it is
read into. A text of json_dumps has neither zeros nor newlines.

Proof: the pipe writes each segment that it reads as a line, as long as it has room. Framed
lines without newlines determine their texts, so the lines are those of the messages only when
the segments are the messages. -/
theorem pipe_framed_iff (messages : List (List UInt8)) (plain : Plain lineFeed messages)
    (nonzero : ∀ message ∈ messages, (0 : UInt8) ∉ message) (segments : List (List UInt8))
    (cut : segments.flatten = messages.flatten) :
    (∃ pipe, run pipeArrival .initial segments = some pipe ∧
        pipe.written = framed lineFeed messages) ↔
      segments = messages ∧ ∀ message ∈ messages, message.length < queryStrSize := by
  have within : ∀ segment ∈ segments, ∀ byte ∈ segment, ∃ message ∈ messages, byte ∈ message := by
    intro segment inside byte there
    rw [← List.mem_flatten, ← cut]
    exact List.mem_flatten.mpr ⟨segment, inside, there⟩
  have plainSegments : Plain lineFeed segments := by
    intro segment inside there
    obtain ⟨message, sent, also⟩ := within segment inside _ there
    exact plain message sent also
  have reached := pipe_run [] segments fun segment inside there => by
    obtain ⟨message, sent, also⟩ := within segment inside _ there
    exact nonzero message sent also
  rw [Pipe.initial, reached]
  constructor
  · rintro ⟨pipe, done, written⟩
    split at done
    · next short =>
      obtain rfl := Option.some.inj done
      obtain ⟨rfl, _⟩ := framed_unique lineFeed segments messages [] [] plainSegments plain
        (by simp) (by simp) (by simpa using written)
      exact ⟨rfl, short⟩
    · cases done
  · rintro ⟨rfl, short⟩
    exact ⟨_, if_pos short, rfl⟩

/-- Two status messages of the switch. -/
def sampleStatuses : List (List UInt8) :=
  [['1'], ['2']].map fun uuid => ascii
    ("\x7b\"action\": \"update-node-status\", \"node\": \x7b\"status\": \"0\", ".toList ++
      "\"local-ipaddr\": \"10.0.0.1\", \"uuid\": \"".toList ++ uuid ++
      "\", \"networkuuid\": \"3\"\x7d\x7d".toList)

theorem sampleStatuses_texts : Plain lineFeed sampleStatuses ∧
    ∀ message ∈ sampleStatuses, (0 : UInt8) ∉ message := by
  unfold Plain
  decide +kernel

theorem sampleStatuses_framed : ∃ pipe, run pipeArrival .initial sampleStatuses = some pipe ∧
    pipe.written = framed lineFeed sampleStatuses :=
  (pipe_framed_iff sampleStatuses sampleStatuses_texts.1 sampleStatuses_texts.2 sampleStatuses
    rfl).mpr ⟨rfl, by decide +kernel⟩

/-- Two messages in one read become one line. -/
theorem sampleStatuses_run_together : ¬ ∃ pipe,
    run pipeArrival .initial [sampleStatuses.flatten] = some pipe ∧
      pipe.written = framed lineFeed sampleStatuses := by
  rintro ⟨pipe, reached, written⟩
  rw [Pipe.initial, pipe_run [] _ (by decide +kernel), if_pos (by decide +kernel)] at reached
  obtain rfl := Option.some.inj reached
  have together := framed_unique lineFeed [sampleStatuses.flatten] sampleStatuses [] []
    (by unfold Plain; decide +kernel) sampleStatuses_texts.1 (by simp) (by simp)
    (by simpa using written)
  exact absurd (congrArg List.length together.1) (by decide +kernel)

end NetVirt.Nvswitch
