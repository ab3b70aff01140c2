import NetVirt.Runs

/-!
# The release of a switch session

What happens to one connection that on_connect accepted, from the functions of session.c,
switch.c, netbus.c and udt.cpp that can release its session. The connection is secured: the
switch listens with NET_SECURE_ADH. The results of the TLS layer and of the decoder, and
whether each send on the connection succeeds, are given with the event.

A failed send calls net_on_disconnect from below, and the functions above go on with the
connection they were called with. Memory is not modelled: where one of them reads the session
or the connection after it was freed, it has no defined behaviour from there on.
-/

namespace NetVirt.SessionRelease

open Runs

/-- The values of dnop_PR, and any other that a peer sends. -/
inductive Operation where
  | nothing | authRequest | authResponse | netinfoRequest | netinfoResponse
  | provRequest | provResponse | p2pRequest | p2pResponse | terminateRequest
  | unknown (value : Nat)
deriving DecidableEq

inductive Pdu where
  | dnm (operation : Operation)
  | ethernet
  | other
deriving DecidableEq

/-- A decoded message. Its handler makes the given sends on the connection it came from. -/
structure Message where
  pdu : Pdu
  sends : List Bool
deriving DecidableEq

/-- The calls whose order is in question. -/
inductive Call where
  | dispatch (message : Message)
  | mbufDel
  | sessionFree
  | connectionFree
deriving DecidableEq

/-- A connection with its session, and the calls made so far. -/
structure Connection where
  queueMsg : List Message
  purged : Bool
  gone : Bool
  calls : List Call
deriving DecidableEq

/-- The connection that on_connect leaves. -/
def Connection.accepted : Connection :=
  { queueMsg := [], purged := false, gone := false, calls := [] }

/-- What a function leaves, or the calls that were made before its behaviour is undefined. -/
abbrev Result := Except (List Call) Connection

def Connection.call (c : Connection) (made : Call) : Connection :=
  { c with calls := c.calls ++ [made] }

/-- Reading the connection, which has to be there. -/
def Connection.read (c : Connection) : Result :=
  if c.gone then .error c.calls else .ok c

/-! ## The release -/

/-- `session_free`. It reads the session, so a second call has no defined behaviour. -/
def sessionFree (c : Connection) : Result :=
  if .sessionFree ∈ c.calls then .error (c.call .sessionFree).calls else .ok (c.call .sessionFree)

/-- `on_disconnect` of switch.c. Both of its paths free the session. -/
def onDisconnect (c : Connection) : Result := do
  let read ← c.read
  sessionFree read

/-- `net_connection_free`, which empties the queue. -/
def netConnectionFree (c : Connection) : Result := do
  let read ← c.read
  return { read.call .connectionFree with
    queueMsg := []
    gone := true }

/-- `net_disconnect`. -/
def netDisconnect (c : Connection) : Result := do
  let told ← onDisconnect c
  netConnectionFree told

/-- `session_terminate`: the callback in net_disconnect has freed the session already. -/
def sessionTerminate (c : Connection) : Result := do
  let closed ← netDisconnect c
  sessionFree closed

/-- `net_on_disconnect`, called when the transport finds the connection broken. -/
def netOnDisconnect (c : Connection) : Result := do
  let told ← onDisconnect c
  netConnectionFree told

/-! ## Sends on the connection -/

/-- `udtbus_send`, which has the connection released when the socket refuses the data. -/
def udtbusSend (sent : Bool) (c : Connection) : Result := do
  let read ← c.read
  if sent then return read else netOnDisconnect read

/-- `net_do_krypt`. After a failed send it returns at once; a call that has nothing to send
counts as sent. -/
def netDoKrypt (sent : Bool) (c : Connection) : Result := do
  let read ← c.read
  udtbusSend sent read

/-- `net_send_msg` and `net_step_up`: both use the connection after their send. -/
def netSendMsg (sent : Bool) (c : Connection) : Result := do
  let after ← udtbusSend sent c
  after.read

/-- The sends of a handler, one after the other. -/
def replies : List Bool → Connection → Result
  | [], c => .ok c
  | sent :: rest, c => do
    let after ← netSendMsg sent c
    replies rest after

/-! ## The input callback of the switch -/

/-- `dispatch_operation`. -/
def dispatchOperation (message : Message) (operation : Operation) (c : Connection) : Result :=
  match operation with
  | .provRequest => replies message.sends c
  | .authRequest => replies message.sends c
  | .netinfoRequest => replies message.sends c
  | _ => sessionTerminate c

/-- The switch statement of on_input. -/
def dispatch (message : Message) (c : Connection) : Result :=
  match message.pdu with
  | .dnm operation => dispatchOperation message operation (c.call (.dispatch message))
  | .ethernet => replies message.sends (c.call (.dispatch message))
  | .other => .ok c

/-- `mbuf_del` of the head of the queue. -/
def mbufDel (c : Connection) : Result :=
  if c.gone then .error (c.call .mbufDel).calls
  else .ok { c.call .mbufDel with queueMsg := c.queueMsg.tail }

/-- The loop of on_input over the messages of the queue. -/
def onInputLoop : List Message → Connection → Result
  | [], c => .ok c
  | message :: rest, c => do
    let handled ← dispatch message c
    let removed ← mbufDel handled
    onInputLoop rest removed

/-- `on_input` of switch.c. -/
def onInput (c : Connection) : Result :=
  if c.purged then netDisconnect c else onInputLoop c.queueMsg c

/-! ## The input callback of netbus -/

/-- The results 0, -1 and 1 of krypt_do_handshake. -/
inductive Handshake where
  | done | failed | pending
deriving DecidableEq

/-- What net_on_input finds when data arrives. -/
structure Arrival where
  /-- The result of the handshake, on a connection whose status is KRYPT_HANDSHAKE. -/
  handshake : Option Handshake
  handshakeSent : Bool
  /-- The acknowledgement of on_secure, when the session waits for it. -/
  acknowledged : List Bool
  /-- SSL_peek finds data behind the handshake. -/
  peek : Bool
  /-- One call of net_do_krypt for each round of the decryption loop. -/
  decryptSent : List Bool
  /-- The messages net_decode_msg queues, or none when it returns -1. -/
  decoded : Option (List Message)
  renegotiationSent : Bool
deriving DecidableEq

/-- `on_secure`. It leaves a session alone that is not waiting, such as a purged one. -/
def onSecure (acknowledged : List Bool) (c : Connection) : Result := do
  let read ← c.read
  if read.purged then return read else replies acknowledged read

/-- The decryption loop: the peer is read after every round, and is freed with the
connection. -/
def decryptLoop : List Bool → Connection → Result
  | [], c => .ok c
  | sent :: rest, c => do
    let after ← netDoKrypt sent c
    let read ← after.read
    decryptLoop rest read

/-- The end of net_on_input after a failed handshake or a failed decoding. -/
def endConnection (c : Connection) : Result := do
  let told ← onDisconnect c
  netConnectionFree told

/-- The part of net_on_input from net_decode_msg on. -/
def decodeInput (arrival : Arrival) (secure : Bool) (c : Connection) : Result := do
  let read ← c.read
  match arrival.decoded with
  | none => endConnection read
  | some batch =>
    let queued := { read with queueMsg := read.queueMsg ++ batch }
    if secure then
      let after ← netDoKrypt arrival.renegotiationSent queued
      let counted ← after.read
      if counted.queueMsg = [] then return counted else onInput counted
    else return queued

/-- The part of net_on_input for a secured connection. -/
def secureInput (arrival : Arrival) (c : Connection) : Result := do
  let decrypted ← decryptLoop arrival.decryptSent c
  decodeInput arrival true decrypted

/-- `net_on_input`. -/
def netOnInput (arrival : Arrival) (c : Connection) : Result :=
  match arrival.handshake with
  | none => secureInput arrival c
  | some status => do
    let shaken ← netDoKrypt arrival.handshakeSent c
    match status with
    | .done =>
      let secured ← onSecure arrival.acknowledged shaken
      let peeked ← secured.read
      if arrival.peek then secureInput arrival peeked else return peeked
    | .failed => endConnection shaken
    | .pending => decodeInput arrival false shaken

/-- What can happen to a connection: data arrives, the controller purges the session, the
handler of another session sends to this one, the peer closes or breaks the connection. -/
inductive Event where
  | input (arrival : Arrival)
  | purge
  | send (sent : Bool)
  | close
deriving DecidableEq

/-- The socket of a connection that is gone is closed: no event reaches it. -/
def step (c : Connection) (event : Event) : Result :=
  if c.gone then .ok c
  else match event with
    | .input arrival => netOnInput arrival c
    | .purge => .ok { c with purged := true }
    | .send sent => netSendMsg sent c
    | .close => netOnDisconnect c

/-- The events on an accepted connection, in order. -/
def events (happened : List Event) : Result := happened.foldlM step .accepted

/-! ## When a handler leaves the session in place -/

/-- The operations that dispatch_operation has a handler for. -/
def Operation.answered : Operation → Bool
  | .provRequest => true
  | .authRequest => true
  | .netinfoRequest => true
  | _ => false

/-- A message that does not have its session terminated, and whose handler's sends succeed. -/
def Message.harmless (message : Message) : Bool :=
  match message.pdu with
  | .dnm operation => operation.answered && message.sends.all id
  | .ethernet => message.sends.all id
  | .other => true

/-- The connection after its release. -/
def Connection.ended (c : Connection) : Connection :=
  { c with
    queueMsg := []
    gone := true
    calls := c.calls ++ [.sessionFree, .connectionFree] }

/-- A connection in use, with its session. -/
structure Open (c : Connection) : Prop where
  held : c.gone = false
  kept : .sessionFree ∉ c.calls

section Handlers
variable {c : Connection}

theorem Open.call (still : Open c) (made : Call) (other : made ≠ .sessionFree) :
    Open (c.call made) :=
  ⟨still.held, by simpa [Connection.call, still.kept] using other.symm⟩

theorem Open.read (still : Open c) : c.read = .ok c := by
  simp [Connection.read, still.held]

@[simp] theorem ended_read : c.ended.read = .error c.ended.calls := rfl

theorem onDisconnect_open (still : Open c) : onDisconnect c = .ok (c.call .sessionFree) := by
  simp [onDisconnect, still.read, sessionFree, still.kept, bind, Except.bind]

theorem netConnectionFree_called (still : Open c) :
    netConnectionFree (c.call .sessionFree) = .ok c.ended := by
  simp [netConnectionFree, Connection.read, Connection.call, Connection.ended, still.held, bind,
    Except.bind, pure, Except.pure]

theorem netDisconnect_open (still : Open c) : netDisconnect c = .ok c.ended := by
  rw [netDisconnect, onDisconnect_open still]
  exact netConnectionFree_called still

theorem netOnDisconnect_open (still : Open c) : netOnDisconnect c = .ok c.ended := by
  exact netDisconnect_open still

theorem endConnection_open (still : Open c) : endConnection c = .ok c.ended := by
  exact netDisconnect_open still

/-- The second session_free of session_terminate. -/
theorem sessionTerminate_open (still : Open c) :
    sessionTerminate c = .error (c.ended.calls ++ [.sessionFree]) := by
  rw [sessionTerminate, netDisconnect_open still]
  change sessionFree c.ended = _
  simp [sessionFree, Connection.ended, Connection.call]

theorem netDoKrypt_open (still : Open c) (sent : Bool) :
    netDoKrypt sent c = .ok (if sent then c else c.ended) := by
  cases sent <;> simp [netDoKrypt, udtbusSend, still.read, netOnDisconnect_open still, bind,
    Except.bind, pure, Except.pure]

theorem netSendMsg_open (still : Open c) (sent : Bool) :
    netSendMsg sent c = if sent then .ok c else .error c.ended.calls := by
  cases sent <;> simp [netSendMsg, udtbusSend, still.read, netOnDisconnect_open still, bind,
    Except.bind, pure, Except.pure]

theorem replies_open (still : Open c) (sends : List Bool) :
    replies sends c = if sends.all id then .ok c else .error c.ended.calls := by
  induction sends with
  | nil => rfl
  | cons sent rest inductionHypothesis =>
    rw [replies, netSendMsg_open still]
    cases sent with
    | false => rfl
    | true => simpa [bind, Except.bind] using inductionHypothesis

theorem decryptLoop_open (still : Open c) (sends : List Bool) :
    decryptLoop sends c = if sends.all id then .ok c else .error c.ended.calls := by
  induction sends with
  | nil => rfl
  | cons sent rest inductionHypothesis =>
    rw [decryptLoop, netDoKrypt_open still]
    cases sent with
    | false => rfl
    | true => simpa [bind, Except.bind, still.read] using inductionHypothesis

end Handlers

/-- A connection that is gone, its session freed just before it. -/
structure Ended (c : Connection) : Prop where
  gone : c.gone = true
  last : ∃ before, .sessionFree ∉ before ∧ c.calls = before ++ [.sessionFree, .connectionFree]

/-- The connections between two events. -/
def Settled (c : Connection) : Prop := Open c ∨ Ended c

theorem Open.ended {c : Connection} (still : Open c) : Ended c.ended :=
  ⟨rfl, c.calls, still.kept, rfl⟩

/-- What a function leaves is good exactly when a condition holds; otherwise the function has
no defined behaviour. -/
def Decides (Good : Connection → Prop) (safe : Prop) (result : Result) : Prop :=
  (safe ∧ ∃ next, result = .ok next ∧ Good next) ∨ (¬ safe ∧ ∃ calls, result = .error calls)

section Decisions
variable {Good Better : Connection → Prop} {safe later : Prop} {result : Result}

theorem Decides.leaves {next : Connection} (met : safe) (good : Good next) :
    Decides Good safe (.ok next) :=
  .inl ⟨met, next, rfl, good⟩

theorem Decides.fails {calls : List Call} (unmet : ¬ safe) : Decides Good safe (.error calls) :=
  .inr ⟨unmet, calls, rfl⟩

theorem Decides.congr (decided : Decides Good safe result) (same : safe ↔ later) :
    Decides Good later result := by
  rwa [Decides, same] at decided

theorem Decides.weaken (decided : Decides Good safe result)
    (enough : ∀ next, Good next → Better next) : Decides Better safe result := by
  obtain ⟨met, next, left, good⟩ | undefined := decided
  · exact .inl ⟨met, next, left, enough next good⟩
  · exact .inr undefined

/-- Two functions in sequence are defined when both conditions hold. -/
theorem Decides.bind (first : Decides Good safe result) (rest : Connection → Result)
    (second : ∀ next, Good next → Decides Better later (rest next)) :
    Decides Better (safe ∧ later) (result >>= rest) := by
  obtain ⟨met, next, rfl, good⟩ | ⟨unmet, calls, rfl⟩ := first
  · exact (second next good).congr (by simp [met])
  · exact .fails fun both => unmet both.1

end Decisions

section Input
variable {c : Connection}

theorem replies_decides (still : Open c) (sends : List Bool) :
    Decides Open (sends.all id = true) (replies sends c) := by
  rw [replies_open still]
  split
  · next sent => exact .leaves sent still
  · next refused => exact .fails refused

theorem dispatch_decides (still : Open c) (message : Message) :
    Decides Open (message.harmless = true) (dispatch message c) := by
  have called : Open (c.call (.dispatch message)) := still.call _ (by simp)
  obtain ⟨pdu, sends⟩ := message
  cases pdu with
  | ethernet => exact replies_decides called sends
  | other => exact .leaves rfl still
  | dnm operation =>
    have answer := replies_decides called sends
    have terminated : Decides Open False
        (sessionTerminate (c.call (.dispatch ⟨.dnm operation, sends⟩))) := by
      rw [sessionTerminate_open called]
      exact .fails id
    cases operation <;> first
      | exact answer.congr (by simp [Message.harmless, Operation.answered])
      | exact terminated.congr (by simp [Message.harmless, Operation.answered])

theorem mbufDel_decides (still : Open c) : Decides Open True (mbufDel c) := by
  have called : Open (c.call .mbufDel) := still.call _ (by simp)
  rw [mbufDel, if_neg (by simp [still.held])]
  exact .leaves trivial ⟨called.held, called.kept⟩

theorem onInputLoop_decides (messages : List Message) (still : Open c) :
    Decides Open (∀ message ∈ messages, message.harmless = true) (onInputLoop messages c) := by
  induction messages generalizing c with
  | nil => exact .leaves (by simp) still
  | cons message rest inductionHypothesis =>
    have all := (dispatch_decides still message).bind _ fun handled open' =>
      (mbufDel_decides open').bind (onInputLoop rest) fun removed remains =>
        inductionHypothesis remains
    exact all.congr (by simp)

/-- `on_input` is defined when the session is purged or the whole queue is harmless. -/
theorem onInput_decides (still : Open c) : Decides Settled
    (c.purged = false → ∀ message ∈ c.queueMsg, message.harmless = true) (onInput c) := by
  unfold onInput
  split
  · next purged =>
    rw [netDisconnect_open still]
    exact .leaves (by simp [purged]) (.inr still.ended)
  · next live =>
    exact ((onInputLoop_decides c.queueMsg still).weaken fun _ => .inl).congr (by simp [live])

end Input

/-! ## The condition on an event -/

/-- The sends of net_on_input while it decrypts and decodes what arrived. -/
def Arrival.readSends (arrival : Arrival) : List Bool :=
  arrival.decryptSent ++ if arrival.decoded.isSome then [arrival.renegotiationSent] else []

/-- The messages that on_input has before it, unless the session is purged. -/
def Arrival.readMessages (arrival : Arrival) (c : Connection) : List Message :=
  if c.purged then [] else (arrival.decoded.map (c.queueMsg ++ ·)).getD []

/-- Behind a handshake, data is read when there is some. -/
def Arrival.reads (arrival : Arrival) : Bool :=
  match arrival.handshake with
  | none => true
  | some .done => arrival.peek
  | some _ => false

/-- The sends on the connection before its messages are dispatched. -/
def Arrival.ownSends (arrival : Arrival) (c : Connection) : List Bool :=
  (if arrival.handshake.isSome then [arrival.handshakeSent] else []) ++
  (if arrival.handshake = some .done ∧ c.purged = false then arrival.acknowledged else []) ++
  (if arrival.reads then arrival.readSends else [])

/-- The messages that are dispatched. -/
def Arrival.dispatched (arrival : Arrival) (c : Connection) : List Message :=
  if arrival.reads then arrival.readMessages c else []

/-- Every send on the connection succeeds, and no message is dispatched that has the session
terminated. -/
def Safe (c : Connection) (event : Event) : Prop :=
  c.gone = false → match event with
    | .input arrival => (arrival.ownSends c).all id = true ∧
        (arrival.dispatched c).all Message.harmless = true
    | .send sent => sent = true
    | _ => True

instance (c : Connection) (event : Event) : Decidable (Safe c event) := by
  unfold Safe
  cases event <;> infer_instance

section Arrivals
variable {c : Connection}

/-- The input callback runs over the old queue and the batch behind it. -/
theorem decodeInput_decides (still : Open c) (arrival : Arrival) : Decides Settled
    ((arrival.decoded.isSome = true → arrival.renegotiationSent = true) ∧
      (arrival.readMessages c).all Message.harmless = true) (decodeInput arrival true c) := by
  unfold decodeInput
  rw [still.read]
  cases decoded : arrival.decoded with
  | none =>
    change Decides _ _ (endConnection c)
    rw [endConnection_open still]
    exact .leaves (by simp [Arrival.readMessages, decoded]) (.inr still.ended)
  | some batch =>
    have queued : Open { c with queueMsg := c.queueMsg ++ batch } := ⟨still.held, still.kept⟩
    change Decides _ _ (netDoKrypt arrival.renegotiationSent _ >>= _)
    rw [netDoKrypt_open queued]
    cases sent : arrival.renegotiationSent with
    | false => exact .fails fun safe => Bool.false_ne_true (safe.1 rfl)
    | true =>
      change Decides _ _ (Connection.read _ >>= _)
      rw [if_pos rfl, queued.read]
      change Decides _ _ (if c.queueMsg ++ batch = [] then _ else _)
      split
      · next empty =>
        exact .leaves (by simp [Arrival.readMessages, decoded, empty]) (.inl queued)
      · refine (onInput_decides queued).congr ?_
        cases purged : c.purged <;>
          simp [Arrival.readMessages, decoded, purged, or_imp, forall_and]

/-- While a handshake is pending the input callback is not called. -/
theorem pendingInput_decides (still : Open c) (arrival : Arrival) :
    Decides Settled True (decodeInput arrival false c) := by
  unfold decodeInput
  rw [still.read]
  cases decoded : arrival.decoded with
  | none =>
    change Decides _ _ (endConnection c)
    rw [endConnection_open still]
    exact .leaves trivial (.inr still.ended)
  | some batch => exact .leaves trivial (.inl ⟨still.held, still.kept⟩)

theorem secureInput_decides (still : Open c) (arrival : Arrival) : Decides Settled
    (arrival.readSends.all id = true ∧ (arrival.readMessages c).all Message.harmless = true)
    (secureInput arrival c) := by
  rw [secureInput, decryptLoop_open still]
  split
  · next sent =>
    refine (decodeInput_decides still arrival).congr ?_
    cases decoded : arrival.decoded <;> simp_all [Arrival.readSends]
  · next refused =>
    have all : arrival.readSends.all id = true → arrival.decryptSent.all id = true := by
      simp +contextual [Arrival.readSends]
    exact .fails fun both => refused (all both.1)

theorem onSecure_open (still : Open c) (acknowledged : List Bool) :
    onSecure acknowledged c =
      if c.purged = false → acknowledged.all id = true then .ok c else .error c.ended.calls := by
  rw [onSecure, still.read]
  cases purged : c.purged with
  | true => simp [bind, Except.bind, pure, Except.pure, purged]
  | false => simpa [bind, Except.bind, purged] using replies_open still acknowledged

/-- `net_on_input` is defined when its sends succeed and the messages are harmless. -/
theorem netOnInput_decides (still : Open c) (arrival : Arrival) : Decides Settled
    ((arrival.ownSends c).all id = true ∧
      (arrival.dispatched c).all Message.harmless = true) (netOnInput arrival c) := by
  have input := secureInput_decides still arrival
  unfold netOnInput
  cases shaken : arrival.handshake with
  | none =>
    exact input.congr (by simp [Arrival.ownSends, Arrival.dispatched, Arrival.reads, shaken])
  | some status =>
    change Decides _ _ (netDoKrypt arrival.handshakeSent c >>= _)
    rw [netDoKrypt_open still]
    cases sent : arrival.handshakeSent with
    | false =>
      have refused : ¬ (arrival.ownSends c).all id = true := by
        simp [Arrival.ownSends, shaken, sent]
      cases status <;> exact .fails fun both => refused both.1
    | true =>
      rw [if_pos rfl]
      cases status with
      | done =>
        change Decides _ _ (onSecure arrival.acknowledged c >>= _)
        rw [onSecure_open still]
        split
        · next told =>
          change Decides _ _ (c.read >>= _)
          rw [still.read]
          change Decides _ _ (if arrival.peek then _ else _)
          split
          · next found =>
            refine input.congr ?_
            cases purged : c.purged <;>
              simp_all [Arrival.ownSends, Arrival.dispatched, Arrival.reads]
          · next empty =>
            refine .leaves ?_ (.inl still)
            cases purged : c.purged <;>
              simp_all [Arrival.ownSends, Arrival.dispatched, Arrival.reads]
        · next silent =>
          refine .fails fun both => silent fun live => ?_
          have sends := both.1
          simp only [Arrival.ownSends, shaken, live, List.all_append, Bool.and_eq_true] at sends
          simpa using sends.1.2
      | failed =>
        change Decides _ _ (endConnection c)
        rw [endConnection_open still]
        exact .leaves (by simp [Arrival.ownSends, Arrival.dispatched, Arrival.reads, shaken, sent])
          (.inr still.ended)
      | pending =>
        refine (pendingInput_decides still arrival).congr ?_
        simp [Arrival.ownSends, Arrival.dispatched, Arrival.reads, shaken, sent]

end Arrivals

/-! ## Every sequence of events -/

/-- A call made for the session on behalf of a message. -/
def Call.Serves : Call → Prop
  | .dispatch _ => True
  | .mbufDel => True
  | _ => False

/-- The session is released once if the connection is gone and not at all before, and nothing
is dispatched to it or removed from its queue after that. -/
structure Orderly (gone : Bool) (calls : List Call) : Prop where
  once : calls.count .sessionFree = if gone then 1 else 0
  last : ∀ before after, calls = before ++ .sessionFree :: after →
    ∀ call ∈ after, ¬ call.Serves

/-- Behind an undefined behaviour any calls may follow. -/
def ReleasedOnce : Result → Prop
  | .ok c => Orderly c.gone c.calls
  | .error calls => ∀ following, Orderly true (calls ++ following)

/-- Nothing comes behind the first release but the end of the connection. -/
theorem after_release (before first after : List Call) (unfreed : .sessionFree ∉ before)
    (split : before ++ [.sessionFree, .connectionFree] = first ++ .sessionFree :: after) :
    after = [.connectionFree] := by
  induction before generalizing first with
  | nil =>
    cases first with
    | nil => simpa using split.symm
    | cons call rest => simp [List.cons_eq_append_iff] at split
  | cons call rest inductionHypothesis =>
    obtain ⟨other, unfreed⟩ := List.ne_and_not_mem_of_not_mem_cons unfreed
    cases first with
    | nil => exact absurd (List.cons.inj split).1.symm other
    | cons again first => exact inductionHypothesis first unfreed (List.cons.inj split).2

theorem Settled.orderly {c : Connection} (settled : Settled c) : Orderly c.gone c.calls := by
  obtain still | ⟨gone, before, unfreed, calls⟩ := settled
  · refine ⟨by simp [still.held, List.count_eq_zero.mpr still.kept], fun before after split => ?_⟩
    exact absurd (split ▸ by simp) still.kept
  · constructor
    · simp [gone, calls, List.count_append, List.count_eq_zero.mpr unfreed]
    · intro first after split call inside
      rw [after_release before first after unfreed (calls ▸ split), List.mem_singleton] at inside
      simp [inside, Call.Serves]

theorem undefined_not_orderly (calls : List Call) : ¬ ReleasedOnce (.error calls) := by
  intro released
  have count := (released [.sessionFree, .sessionFree]).once
  simp [List.count_append] at count

theorem step_decides {c : Connection} (settled : Settled c) (event : Event) :
    Decides Settled (Safe c event) (step c event) := by
  obtain still | ended := settled
  · have held := still.held
    unfold step
    rw [if_neg (by simp [held])]
    cases event with
    | input arrival => exact (netOnInput_decides still arrival).congr (by simp [Safe, held])
    | purge => exact .leaves (by simp [Safe]) (.inl ⟨held, still.kept⟩)
    | close =>
      simp only
      rw [netOnDisconnect_open still]
      exact .leaves (by simp [Safe]) (.inr still.ended)
    | send sent =>
      simp only
      rw [netSendMsg_open still]
      split
      · next taken => exact .leaves (by simp [Safe, taken]) (.inl still)
      · next refused => exact .fails (by simp [Safe, held, refused])
  · unfold step
    rw [if_pos ended.gone]
    exact .leaves (by simp [Safe, ended.gone]) (.inr ended)

theorem events_decides (happened : List Event) (c : Connection) (settled : Settled c) :
    Decides Settled (Meets (fun c event => (step c event).toOption) Safe c happened)
      (happened.foldlM step c) := by
  induction happened generalizing c with
  | nil => exact .leaves trivial settled
  | cons event rest inductionHypothesis =>
    rw [List.foldlM_cons]
    obtain ⟨safe, next, taken, after⟩ | ⟨refused, calls, taken⟩ := step_decides settled event
    · rw [taken]
      refine (inductionHypothesis next after).congr ?_
      simp [Meets, safe, taken, Except.toOption]
    · rw [taken]
      exact .fails fun met => refused met.1

/-- Whatever happens on an accepted connection, its session is released exactly once by the
time it is gone, with nothing dispatched or removed afterwards, if and only if no send on the
connection fails and no message is dispatched that has its session terminated.

Proof: every event that meets the condition leaves a connection in use or released in order,
and one that does not ends in undefined behaviour, from which nothing recovers. The run so
decides both sides. -/
theorem released_once_iff (happened : List Event) : ReleasedOnce (events happened) ↔
    Meets (fun c event => (step c event).toOption) Safe .accepted happened := by
  have accepted : Settled .accepted := .inl ⟨rfl, by simp [Connection.accepted]⟩
  obtain ⟨met, c, left, settled⟩ | ⟨unmet, calls, undefined⟩ :=
    events_decides happened .accepted accepted
  · rw [events, left]
    exact iff_of_true settled.orderly met
  · rw [events, undefined]
    exact iff_of_false (undefined_not_orderly calls) unmet

/-- A handshake that succeeds. -/
def secured : Event :=
  .input
    { handshake := some .done
      handshakeSent := true
      acknowledged := []
      peek := false
      decryptSent := []
      decoded := none
      renegotiationSent := true }

/-- A batch of messages on a secured connection. -/
def batch (messages : List Message) : Event :=
  .input
    { handshake := none
      handshakeSent := true
      acknowledged := []
      peek := false
      decryptSent := [true]
      decoded := some messages
      renegotiationSent := true }

/-- An authentication, and a peer that closes its connection. -/
example : (events [secured, batch [⟨.dnm .authRequest, [true, true]⟩], .close]).toOption.map
    (fun c => c.calls) = some [.dispatch ⟨.dnm .authRequest, [true, true]⟩, .mbufDel,
      .sessionFree, .connectionFree] := by
  decide

/-- A terminateRequest has the session freed twice. -/
theorem terminated_twice : ¬ ReleasedOnce
    (events [secured, batch [⟨.dnm .terminateRequest, []⟩]]) := by
  have undefined : events [secured, batch [⟨.dnm .terminateRequest, []⟩]] =
      .error [.dispatch ⟨.dnm .terminateRequest, []⟩, .sessionFree, .connectionFree,
        .sessionFree] := rfl
  rw [undefined]
  exact undefined_not_orderly _

end NetVirt.SessionRelease
