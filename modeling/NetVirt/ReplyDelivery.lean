import NetVirt.Provisioning
import Mathlib.Data.List.Perm.Basic

/-!
# Delivery of provisioning replies

Sessions of one switch ask for provisioning, the controller answers the queries it has
received, the switch takes the answers, and clients disconnect, in any order. Each
document in flight carries the number of its request and the session that made it; the
program sees neither, and the numbers only serve to say what was sent for which request.

The transaction counter stays at 0, so the slot every reply is looked up in holds the
session that asked last, unless a reply has emptied it since.
-/

namespace NetVirt.ReplyDelivery

open Decimal Provisioning Runs

variable {Session : Type}

/-- What happened to slot 0 so far: a session was put there, or a reply emptied it. -/
inductive Mark (Session : Type) where
  | asked (session : Session)
  | answered
deriving DecidableEq

/-- A document in flight with the request it is about. -/
structure Tagged (Session Document : Type) where
  number : Nat
  requester : Session
  document : Document

/-- A provResponse sent on the connection of a session. -/
structure Sent (Session : Type) where
  number : Nat
  recipient : Session
  message : ProvResponse
deriving DecidableEq

structure System (Session : Type) where
  control : Control Session
  connected : List Session
  opened : List Session
  queries : List (Tagged Session Query)
  replies : List (Tagged Session Reply)
  requests : Nat
  sent : List (Sent Session)
  past : List (Mark Session)

def initial : System Session :=
  { control := .initial, connected := [], opened := [], queries := [], replies := [],
    requests := 0, sent := [], past := [] }

/-- Documents may overtake each other: an answer takes any query, a delivery any reply. -/
inductive Event (Session : Type) where
  | connect (session : Session)
  | request (session : Session) (provcode : List UInt8)
  | answer (index : Nat) (fetched : Option Credentials)
  | deliver (index : Nat)
  | disconnect (session : Session)

/-- The session that a provRequest is from asks the controller. -/
def request (system : System Session) (session : Session) (provcode : List UInt8) :
    Option (System Session) := do
  let (control, _, query) ← queryProvisioning system.control session provcode
  let asked := query.map fun document => Tagged.mk system.requests session document
  return { system with
    control := control
    queries := system.queries ++ asked.toList
    requests := system.requests + 1
    past := .asked session :: system.past }

/-- The switch takes a reply. -/
def deliver (system : System Session) (index : Nat) : Option (System Session) := do
  let reply ← system.replies[index]?
  let (control, _, message) ← provisioning system.control reply.document
  let sent := message.map fun (recipient, message) => Sent.mk reply.number recipient message
  return { system with
    control := control
    replies := system.replies.eraseIdx index
    sent := system.sent ++ sent.toList
    past := if (provResponse reply.document).isSome then .answered :: system.past
      else system.past }

/-- The session that a history of marks leaves in slot 0. -/
def held : List (Mark Session) → Option Session
  | .asked session :: _ => some session
  | _ => none

/-- Every document in flight names transaction 0, whose slot holds the last session that
asked. -/
structure Tracked (system : System Session) : Prop where
  counter : system.control.trackingId = 0
  slot : system.control.sessionTrackingTable 0 = held system.past
  queries : ∀ query ∈ system.queries, query.document.tid = formatInt 0
  replies : ∀ reply ∈ system.replies, reply.document.tid = some (formatInt 0)

/-- How often a request number waits for an answer, is answered, or has been sent. -/
def occurrences (system : System Session) (number : Nat) : Nat :=
  (system.queries.map Tagged.number).count number +
    (system.replies.map Tagged.number).count number +
      (system.sent.map Sent.number).count number

/-- No request is in two places, and the numbers to come are in none. -/
def Numbered (system : System Session) : Prop :=
  ∀ number, occurrences system number ≤ if number < system.requests then 1 else 0

/-- The text of transaction 0 fits, and leads back to slot 0. -/
theorem tid_zero : (formatInt 0).length < 10 ∧ slotIndex (formatInt 0) = some 0 := by
  constructor
  · decide
  · simp [slotIndex, atoi_formatInt]

/-- A query of transaction 0 puts its session into slot 0. -/
theorem queryProvisioning_cases (control : Control Session) (session : Session)
    (provcode : List UInt8) (counter : control.trackingId = 0) :
    ∃ code query, queryProvisioning control session provcode =
        some (control.track 0 (some session), code, query) ∧
      ∀ document ∈ query, document.tid = formatInt 0 := by
  cases accepted : Json.jsonString provcode with
  | none =>
    exact ⟨-1, none, by simp [queryProvisioning, counter, tid_zero.1, accepted], by simp⟩
  | some document =>
    refine ⟨0, some { tid := formatInt 0, provcode := document }, ?_, by simp⟩
    simp [queryProvisioning, counter, tid_zero.1, accepted]

/-- A reply of transaction 0 empties slot 0 and goes to the session found there; a reply
without a provResponse changes nothing. -/
theorem provisioning_cases (control : Control Session) (reply : Reply)
    (named : reply.tid = some (formatInt 0)) :
    provisioning control reply =
      match provResponse reply with
      | some message => some (control.track 0 none, 0,
          (control.sessionTrackingTable 0).map fun session => (session, message))
      | none => some (control, -1, none) := by
  cases accepted : provResponse reply with
  | none => simp [provisioning, accepted]
  | some message => simp [provisioning, accepted, named, tid_zero.2]

theorem initial_tracked : Tracked (initial : System Session) :=
  { counter := rfl, slot := rfl, queries := by simp [initial], replies := by simp [initial] }

theorem initial_numbered : Numbered (initial : System Session) := by
  simp [Numbered, occurrences, initial]

/-- What a request does: its session is in slot 0, and its query, if it is written, names
transaction 0. -/
theorem request_cases (system next : System Session) (session : Session)
    (provcode : List UInt8) (tracked : Tracked system)
    (taken : request system session provcode = some next) :
    ∃ query : Option Query, (∀ document ∈ query, document.tid = formatInt 0) ∧
      next = { system with
        control := system.control.track 0 (some session)
        queries := system.queries ++
          (query.map fun document => Tagged.mk system.requests session document).toList
        requests := system.requests + 1
        past := .asked session :: system.past } := by
  obtain ⟨code, query, result, named⟩ :=
    queryProvisioning_cases system.control session provcode tracked.counter
  refine ⟨query, named, ?_⟩
  rw [request, result] at taken
  exact (Option.some.inj taken).symm

/-- What a delivery does: a reply with a provResponse empties slot 0 and is sent to the
session held there, any other is dropped. -/
theorem deliver_cases (system next : System Session) (index : Nat) (tracked : Tracked system)
    (taken : deliver system index = some next) :
    ∃ reply, system.replies[index]? = some reply ∧
      ((provResponse reply.document = none ∧
        next = { system with replies := system.replies.eraseIdx index }) ∨
      ∃ message, provResponse reply.document = some message ∧
        next = { system with
          control := system.control.track 0 none
          replies := system.replies.eraseIdx index
          sent := system.sent ++ ((held system.past).map fun recipient =>
            Sent.mk reply.number recipient message).toList
          past := .answered :: system.past }) := by
  obtain ⟨reply, found, rest⟩ := Option.bind_eq_some_iff.mp taken
  refine ⟨reply, found, ?_⟩
  have named : reply.document.tid = some (formatInt 0) :=
    tracked.replies reply (List.mem_of_getElem? found)
  rw [provisioning_cases system.control reply.document named] at rest
  cases accepted : provResponse reply.document with
  | none =>
    left
    simp only [accepted] at rest
    exact ⟨rfl, by simpa using rest.symm⟩
  | some message =>
    right
    simp only [accepted, tracked.slot] at rest
    refine ⟨message, rfl, ?_⟩
    simpa [Option.map_map, Function.comp_def] using rest.symm

variable [DecidableEq Session]

def step (system : System Session) : Event Session → Option (System Session)
  | .connect session =>
    if session ∈ system.opened then none
    else some { system with
      connected := session :: system.connected
      opened := session :: system.opened }
  | .request session provcode =>
    if session ∈ system.connected then request system session provcode else none
  | .answer index fetched => do
    let query ← system.queries[index]?
    let reply := replyProvisioning query.document fetched
    return { system with
      queries := system.queries.eraseIdx index
      replies := system.replies ++ [Tagged.mk query.number query.requester reply] }
  | .deliver index => deliver system index
  | .disconnect session =>
    if session ∈ system.connected then
      some { system with connected := system.connected.filter (· ≠ session) }
    else none

/-- The reply's message goes to its requester alone, or to nobody when the requester has
disconnected. -/
def Delivered (system : System Session) : Event Session → Prop
  | .deliver index => ∀ reply ∈ system.replies[index]?,
      ∀ message ∈ provResponse reply.document, ∀ next ∈ deliver system index,
        next.sent = system.sent ++
          if reply.requester ∈ system.connected then
            [Sent.mk reply.number reply.requester message]
          else []
  | _ => True

/-- A successful reply is taken when its requester, still connected, was the last to ask
and no reply was taken since; or when it has disconnected, and the last thing that happened
to slot 0 was a reply. -/
def LastAsked (system : System Session) : Event Session → Prop
  | .deliver index => ∀ reply ∈ system.replies[index]?, provResponse reply.document ≠ none →
      held system.past =
        if reply.requester ∈ system.connected then some reply.requester else none
  | _ => True

instance (system : System Session) (event : Event Session) :
    Decidable (Delivered system event) := by
  cases event <;> unfold Delivered <;> infer_instance

instance (system : System Session) (event : Event Session) :
    Decidable (LastAsked system event) := by
  cases event <;> unfold LastAsked <;> infer_instance

/-- Every event keeps the documents in flight named after transaction 0. -/
theorem step_tracked (system : System Session) (event : Event Session)
    (next : System Session) (tracked : Tracked system)
    (taken : step system event = some next) : Tracked next := by
  cases event with
  | connect session =>
    simp only [step, Option.ite_none_left_eq_some] at taken
    obtain ⟨_, reached⟩ := taken
    obtain rfl := Option.some.inj reached
    exact { tracked with }
  | request session provcode =>
    simp only [step, Option.ite_none_right_eq_some] at taken
    obtain ⟨_, asked⟩ := taken
    obtain ⟨query, named, rfl⟩ := request_cases system next session provcode tracked asked
    constructor
    · exact tracked.counter
    · simp [Control.track, held]
    · intro waiting inside
      rcases List.mem_append.mp inside with old | new
      · exact tracked.queries waiting old
      · simp only [Option.mem_toList, Option.map_eq_some_iff] at new
        obtain ⟨document, written, rfl⟩ := new
        exact named document written
    · exact tracked.replies
  | answer index fetched =>
    obtain ⟨query, found, reached⟩ := Option.bind_eq_some_iff.mp taken
    obtain rfl := Option.some.inj reached
    have named := tracked.queries query (List.mem_of_getElem? found)
    constructor
    · exact tracked.counter
    · exact tracked.slot
    · exact fun waiting inside => tracked.queries waiting (List.mem_of_mem_eraseIdx inside)
    · intro reply inside
      rcases List.mem_append.mp inside with old | new
      · exact tracked.replies reply old
      · obtain rfl := List.mem_singleton.mp new
        cases fetched <;> simp [replyProvisioning, named]
  | deliver index =>
    obtain ⟨reply, _, dropped | sent⟩ := deliver_cases system next index tracked taken
    · obtain ⟨_, rfl⟩ := dropped
      exact { tracked with
        replies := fun reply inside =>
          tracked.replies reply (List.mem_of_mem_eraseIdx inside) }
    · obtain ⟨message, _, rfl⟩ := sent
      constructor
      · exact tracked.counter
      · simp [Control.track, held]
      · exact tracked.queries
      · exact fun reply inside => tracked.replies reply (List.mem_of_mem_eraseIdx inside)
  | disconnect session =>
    simp only [step, Option.ite_none_right_eq_some] at taken
    obtain ⟨_, reached⟩ := taken
    obtain rfl := Option.some.inj reached
    exact { tracked with }

omit [DecidableEq Session] in
/-- Taking a document out of its list takes one occurrence of its number. -/
theorem count_eraseIdx {Document : Type} (documents : List (Tagged Session Document))
    (index : Nat) (taken : Tagged Session Document) (found : documents[index]? = some taken)
    (number : Nat) :
    ((documents.eraseIdx index).map Tagged.number).count number +
        (if taken.number = number then 1 else 0) =
      (documents.map Tagged.number).count number := by
  obtain ⟨inside, rfl⟩ := List.getElem?_eq_some_iff.mp found
  have same := ((List.getElem_cons_eraseIdx_perm inside).map Tagged.number).count_eq number
  rw [List.map_cons, List.count_cons] at same
  simpa using same

/-- Every event keeps the numbers apart: a request takes a new one, and an answer or a
delivery moves a number from its list to the next or drops it. -/
theorem step_numbered (system : System Session) (event : Event Session)
    (next : System Session) (tracked : Tracked system) (numbered : Numbered system)
    (taken : step system event = some next) : Numbered next := by
  cases event with
  | connect session =>
    simp only [step, Option.ite_none_left_eq_some] at taken
    obtain ⟨_, reached⟩ := taken
    obtain rfl := Option.some.inj reached
    exact numbered
  | request session provcode =>
    simp only [step, Option.ite_none_right_eq_some] at taken
    obtain ⟨_, asked⟩ := taken
    obtain ⟨query, _, rfl⟩ := request_cases system next session provcode tracked asked
    intro number
    have before := numbered number
    unfold occurrences at before ⊢
    cases query <;> grind
  | answer index fetched =>
    obtain ⟨query, found, reached⟩ := Option.bind_eq_some_iff.mp taken
    obtain rfl := Option.some.inj reached
    intro number
    have before := numbered number
    have moved := count_eraseIdx system.queries index query found number
    unfold occurrences at before ⊢
    grind
  | deliver index =>
    obtain ⟨reply, found, dropped | sent⟩ := deliver_cases system next index tracked taken
    · obtain ⟨_, rfl⟩ := dropped
      intro number
      have before := numbered number
      have removed := count_eraseIdx system.replies index reply found number
      unfold occurrences at before ⊢
      grind
    · obtain ⟨message, _, rfl⟩ := sent
      intro number
      have before := numbered number
      have moved := count_eraseIdx system.replies index reply found number
      unfold occurrences at before ⊢
      cases held system.past <;> grind
  | disconnect session =>
    simp only [step, Option.ite_none_right_eq_some] at taken
    obtain ⟨_, reached⟩ := taken
    obtain rfl := Option.some.inj reached
    exact numbered

omit [DecidableEq Session] in
/-- The list of what is sent is the wanted one exactly when the slot holds the wanted
session. -/
theorem sent_to_held (slot wanted : Option Session) (number : Nat) (message : ProvResponse) :
    (slot.map fun recipient => Sent.mk number recipient message).toList =
        (wanted.map fun recipient => Sent.mk number recipient message).toList ↔
      slot = wanted := by
  cases slot <;> cases wanted <;> simp

omit [DecidableEq Session] in
/-- A delivery of a reply with a provResponse sends it to the session in slot 0. -/
theorem deliver_sent (system : System Session) (index : Nat) (reply : Tagged Session Reply)
    (message : ProvResponse) (tracked : Tracked system)
    (found : system.replies[index]? = some reply)
    (accepted : provResponse reply.document = some message) :
    ∃ next, deliver system index = some next ∧
      next.sent = system.sent ++ ((held system.past).map fun recipient =>
        Sent.mk reply.number recipient message).toList := by
  have named := tracked.replies reply (List.mem_of_getElem? found)
  simp [deliver, found, provisioning_cases system.control reply.document named, accepted,
    tracked.slot, Option.map_map, Function.comp_def]

/-- In a tracked state a delivery is right exactly when slot 0 was left as it should be. -/
theorem delivered_iff (system : System Session) (event : Event Session)
    (tracked : Tracked system) : Delivered system event ↔ LastAsked system event := by
  cases event with
  | connect | request | answer | disconnect => exact Iff.rfl
  | deliver index =>
    apply forall_congr'
    intro reply
    apply imp_congr_right
    intro found
    cases accepted : provResponse reply.document with
    | none => simp
    | some message =>
      obtain ⟨next, taken, sent⟩ :=
        deliver_sent system index reply message tracked found accepted
      have target := sent_to_held (held system.past)
        (if reply.requester ∈ system.connected then some reply.requester else none)
        reply.number message
      rw [apply_ite (Option.map _), apply_ite Option.toList] at target
      simpa [taken, sent] using target

/-- The provisioning replies of a run reach their requesters and nobody else, each at most
once, exactly when every successful reply finds the last session that asked to be its
requester.

Proof: in tracked systems, which every step leaves tracked, a step delivers exactly when its
condition holds, so the two hold along the same runs. That each number is sent once is a bound
on its occurrences among those waiting and those sent, kept by every step. -/
theorem replies_reach_requesters_iff (events : List (Event Session)) :
    (Meets step Delivered initial events ∧
      ∀ final, run step initial events = some final → (final.sent.map Sent.number).Nodup) ↔
    Meets step LastAsked initial events := by
  have same : Meets step Delivered initial events ↔ Meets step LastAsked initial events :=
    meets_congr step Tracked Delivered LastAsked step_tracked delivered_iff initial events
      initial_tracked
  constructor
  · exact fun both => same.mp both.1
  · intro met
    refine ⟨same.mpr met, ?_⟩
    intro final reached
    have numbered : Tracked final ∧ Numbered final :=
      invariant step (fun system => Tracked system ∧ Numbered system)
        (fun system event next both taken =>
          ⟨step_tracked system event next both.1 taken,
            step_numbered system event next both.1 both.2 taken⟩)
        initial final events ⟨initial_tracked, initial_numbered⟩ reached
    rw [List.nodup_iff_count]
    intro number
    have bound := numbered.2 number
    unfold occurrences at bound
    grind

/-- Two sessions ask before the first answer arrives: the first session's certificate and
private key are sent to the second one. -/
def twoOutstanding : List (Event Nat) :=
  [.connect 1, .connect 2, .request 1 [0x61], .request 2 [0x62],
    .answer 0 (some { certificate := [0x43], privateKey := [0x4B], trustedcert := [0x54],
                      ipAddress := [0x49] }), .deliver 0]

theorem first_reply_reaches_second_session : ¬ Meets step Delivered initial twoOutstanding := by
  decide

end NetVirt.ReplyDelivery
