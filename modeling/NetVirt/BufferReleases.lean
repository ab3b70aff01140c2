import NetVirt.BufferBounds
import NetVirt.SessionRelease

/-!
# Input that ends a connection

`net_on_input` is followed twice: for what it stores in the sizes of a connection, and for when
it releases the connection's session. Here the two meet. An input that leaves sizes, or frees
the connection that has them, is told to the session's side as what it found: the result of the
handshake, whether SSL_peek found something, and how many messages were decoded. Every send
succeeds, as the sizes are followed only then, and no message has its session terminated.
-/

namespace NetVirt.SessionRelease

/-! ## Harmless messages and their queue -/

section Queue
variable {c : Connection}

/-- A harmless message leaves the queue to mbuf_del. -/
theorem dispatch_harmless (still : Open c) (message : Message)
    (harmless : message.harmless = true) :
    ∃ next, dispatch message c = .ok next ∧ Open next ∧ next.queueMsg = c.queueMsg := by
  have called : Open (c.call (.dispatch message)) := still.call _ (by simp)
  obtain ⟨pdu, sends⟩ := message
  have answer : sends.all id = true → replies sends (c.call (.dispatch ⟨pdu, sends⟩)) =
      .ok (c.call (.dispatch ⟨pdu, sends⟩)) := by
    intro sent
    rw [replies_open called, if_pos sent]
  cases pdu with
  | ethernet => exact ⟨_, answer harmless, called, rfl⟩
  | other => exact ⟨c, rfl, still, rfl⟩
  | dnm operation =>
    simp only [Message.harmless, Bool.and_eq_true] at harmless
    cases operation <;> first
      | exact ⟨_, answer harmless.2, called, rfl⟩
      | simp [Operation.answered] at harmless

theorem onInputLoop_harmless (messages : List Message) (still : Open c)
    (harmless : ∀ message ∈ messages, message.harmless = true) :
    ∃ next, onInputLoop messages c = .ok next ∧ Open next ∧
      next.queueMsg = c.queueMsg.drop messages.length := by
  induction messages generalizing c with
  | nil => exact ⟨c, rfl, still, rfl⟩
  | cons message rest inductionHypothesis =>
    obtain ⟨handled, taken, open', queue⟩ :=
      dispatch_harmless still message (harmless message List.mem_cons_self)
    have removed : mbufDel handled =
        .ok { handled.call .mbufDel with queueMsg := handled.queueMsg.tail } := by
      rw [mbufDel, if_neg (by simp [open'.held])]
    have called : Open (handled.call .mbufDel) := open'.call _ (by simp)
    obtain ⟨next, later, remains, left⟩ := inductionHypothesis
      (c := { handled.call .mbufDel with queueMsg := handled.queueMsg.tail })
      ⟨called.held, called.kept⟩
      fun other inside => harmless other (List.mem_cons_of_mem _ inside)
    refine ⟨next, ?_, remains, ?_⟩
    · rw [onInputLoop, taken]
      change mbufDel handled >>= _ = _
      rw [removed]
      exact later
    · rw [left, queue, List.length_cons, List.drop_tail]

/-- A live session handles the whole queue. -/
theorem onInput_harmless (still : Open c) (live : c.purged = false)
    (harmless : ∀ message ∈ c.queueMsg, message.harmless = true) :
    ∃ next, onInput c = .ok next ∧ Open next ∧ next.queueMsg = [] := by
  obtain ⟨next, handled, open', queue⟩ := onInputLoop_harmless c.queueMsg still harmless
  refine ⟨next, ?_, open', queue.trans (List.drop_length)⟩
  rw [onInput, if_neg (by simp [live])]
  exact handled

end Queue

end NetVirt.SessionRelease

namespace NetVirt.BufferSizes

open SessionRelease (Connection Message Handshake Open)

/-- The two followed a connection to the same end, with as many messages in its queue. -/
structure Alike (conn : Conn) (c : Connection) : Prop where
  gone : c.gone = conn.freed
  queue : c.gone = false → c.queueMsg.length = conn.queueMsg

/-- What the session's side is told of a handshake. -/
def Shake.handshake (shake : Shake) : Handshake :=
  if shake.completes then .done else if shake.ret = 0 then .failed else .pending

/-- What the session's side is told of an arrival, apart from the messages. -/
def Arrival.told (arrival : Arrival) (conn : Conn) (decoded : Option (List Message)) :
    SessionRelease.Arrival :=
  { handshake := if conn.shaking then some arrival.shake.handshake else none
    handshakeSent := true
    acknowledged := arrival.onSecure.map fun _ => true
    peek := decide (arrival.peek = 1)
    decryptSent := arrival.rounds.map fun _ => true
    decoded := decoded
    renegotiationSent := true }

/-- The messages decoded, if any number of them was. -/
structure Batch (count : Option Nat) (decoded : Option (List Message)) : Prop where
  count : decoded.map List.length = count
  harmless : ∀ batch ∈ decoded, ∀ message ∈ batch, message.harmless = true

/-- A live session, as long as its connection is in use. -/
structure Live (conn : Conn) (c : Connection) : Prop extends Open c where
  live : c.purged = false
  harmless : ∀ message ∈ c.queueMsg, message.harmless = true
  queue : c.queueMsg.length = conn.queueMsg

section Inputs
variable {conn after : Conn} {c : Connection} (arrival : Arrival)

/-- A message is dispatched if and only if there is one, and all of them are. -/
theorem dispatchInput_queue (secured : conn.securityLevel ≠ .unsecure)
    (emptied : arrival.left = 0) (done : dispatchInput arrival conn = some after) :
    after.freed = conn.freed ∧
      after.queueMsg = if conn.status = .secure then 0 else conn.queueMsg := by
  unfold dispatchInput at done
  by_cases status : conn.status = .secure
  · rw [if_pos ⟨secured, status⟩] at done
    have flushed := (kryptDecryptBuf_calls arrival.renegotiation conn).trans
      (netDoKrypt_calls arrival.sent _)
    dsimp only at done
    rw [if_pos status]
    by_cases queue : (netDoKrypt arrival.sent
        (kryptDecryptBuf arrival.renegotiation conn).2).queueMsg > 0
    · rw [if_pos queue] at done
      obtain ⟨told, called, rfl⟩ := Option.map_eq_some_iff.mp done
      exact ⟨(performs_calls arrival.onInput called).freed.trans flushed.freed, emptied⟩
    · rw [if_neg queue] at done
      obtain rfl := Option.some.inj done
      exact ⟨flushed.freed, Nat.eq_zero_of_not_pos queue⟩
  · rw [if_neg fun both => status both.2] at done
    obtain rfl := Option.some.inj done
    rw [if_neg status]
    exact ⟨rfl, rfl⟩

/-- What net_decode_msg is followed by, on both sides. -/
theorem processInput_told (secured : conn.securityLevel ≠ .unsecure) (unfreed : conn.freed = false)
    (emptied : arrival.left = 0) (done : processInput arrival conn = some after)
    (live : Live conn c) :
    ∃ count, ∀ told : SessionRelease.Arrival, told.renegotiationSent = true →
      Batch count told.decoded → ∃ settled,
        SessionRelease.decodeInput told (decide (conn.status = .secure)) c = .ok settled ∧
          Alike after settled := by
  have still := live.toOpen
  obtain ⟨taken, first, done⟩ := Option.bind_eq_some_iff.mp done
  obtain ⟨⟨ret, queued⟩, second, done⟩ := Option.bind_eq_some_iff.mp done
  have takes := takeIn_takesIn arrival first
  have decodes := netDecodeMsg_decodes arrival.decodes second
  have status : queued.status = conn.status := decodes.status.trans takes.status
  have freed : queued.freed = false := (decodes.freed.trans takes.freed).trans unfreed
  have more : conn.queueMsg ≤ queued.queueMsg := takes.queueMsg ▸ decodes.queued
  dsimp only at done
  by_cases failed : ret = -1
  · rw [if_pos failed] at done
    obtain rfl := Option.some.inj done
    refine ⟨none, fun told _ batch => ⟨c.ended, ?_, rfl, fun gone => by cases gone⟩⟩
    have nothing : told.decoded = none := Option.map_eq_none_iff.mp batch.count
    rw [SessionRelease.decodeInput, still.read, nothing]
    exact SessionRelease.endConnection_open still
  · rw [if_neg failed] at done
    obtain ⟨held, queue⟩ := dispatchInput_queue arrival
      (by rwa [decodes.securityLevel, takes.securityLevel]) emptied done
    refine ⟨some (queued.queueMsg - conn.queueMsg), fun told sent batch => ?_⟩
    obtain ⟨messages, decoded, count⟩ := Option.map_eq_some_iff.mp batch.count
    obtain ⟨waiting, waiting_eq⟩ : ∃ waiting : Connection,
        waiting = { c with queueMsg := c.queueMsg ++ messages } := ⟨_, rfl⟩
    have waits : Open waiting := waiting_eq ▸ ⟨still.held, still.kept⟩
    have length : waiting.queueMsg.length = queued.queueMsg := by
      rw [waiting_eq, List.length_append, count, live.queue]
      omega
    have harmless : ∀ message ∈ waiting.queueMsg, message.harmless = true := by
      rw [waiting_eq, List.forall_mem_append]
      exact ⟨live.harmless, batch.harmless messages decoded⟩
    rw [SessionRelease.decodeInput, still.read, decoded]
    dsimp only [bind, Except.bind]
    rw [← waiting_eq, sent]
    by_cases secure : conn.status = .secure
    · rw [if_pos (status.trans secure)] at queue
      simp only [secure, decide_true, if_true, SessionRelease.netDoKrypt_open waits, waits.read]
      by_cases none : waiting.queueMsg = []
      · rw [if_pos none]
        exact ⟨waiting, rfl, by rw [waits.held, held, freed], fun _ => by rw [none, queue]; rfl⟩
      · rw [if_neg none]
        obtain ⟨next, handled, remains, left⟩ := SessionRelease.onInput_harmless waits
          (by rw [waiting_eq]; exact live.live) harmless
        exact ⟨next, handled, by rw [remains.held, held, freed], fun _ => by rw [left, queue]; rfl⟩
    · rw [if_neg fun same => secure (status ▸ same)] at queue
      simp only [secure, decide_false, Bool.false_eq_true, if_false]
      exact ⟨waiting, rfl, by rw [waits.held, held, freed], fun _ => by rw [length, queue]⟩

/-- Data behind a handshake, or without one, is decrypted first. -/
theorem secureInput_told (secured : conn.securityLevel ≠ .unsecure) (status : conn.status = .secure)
    (unfreed : conn.freed = false) (emptied : arrival.left = 0)
    (done : processInput arrival conn = some after) (live : Live conn c) :
    ∃ count, ∀ told : SessionRelease.Arrival, told.decryptSent.all id = true →
      told.renegotiationSent = true → Batch count told.decoded →
        ∃ settled, SessionRelease.secureInput told c = .ok settled ∧ Alike after settled := by
  obtain ⟨count, decided⟩ := processInput_told arrival secured unfreed emptied done live
  refine ⟨count, fun told decrypted sent batch => ?_⟩
  obtain ⟨settled, input, alike⟩ := decided told sent batch
  refine ⟨settled, ?_, alike⟩
  rw [SessionRelease.secureInput, SessionRelease.decryptLoop_open live.toOpen, if_pos decrypted]
  rwa [status] at input

/-- The session's side, in a handshake whose sends succeed. -/
theorem told_shaking (still : Open c) (shaking : conn.shaking = true)
    (decoded : Option (List Message)) :
    SessionRelease.netOnInput (arrival.told conn decoded) c =
      match arrival.shake.handshake with
      | .done => if arrival.peek = 1 then
          SessionRelease.secureInput (arrival.told conn decoded) c else .ok c
      | .failed => SessionRelease.endConnection c
      | .pending => SessionRelease.decodeInput (arrival.told conn decoded) false c := by
  have acknowledged : SessionRelease.onSecure (arrival.onSecure.map fun _ => true) c = .ok c := by
    rw [SessionRelease.onSecure_open still, if_pos (by simp)]
  unfold SessionRelease.netOnInput
  simp only [Arrival.told, shaking, if_true, SessionRelease.netDoKrypt_open still, bind,
    Except.bind, acknowledged, still.read, decide_eq_true_eq]
  rfl

/-- The sends of the decryption loop succeed. -/
theorem told_decryptSent (decoded : Option (List Message)) :
    (arrival.told conn decoded).decryptSent.all id = true := by
  simp [Arrival.told]

/-- A handshake that is done, after which on_secure is called. -/
theorem shaking_done_told (secured : conn.securityLevel ≠ .unsecure)
    (shaking : conn.status = .handshake) (unfreed : conn.freed = false)
    (remains : arrival.onSecure.any Action.isStepUp = false) (emptied : arrival.left = 0)
    (completes : arrival.shake.completes = true)
    (done : netOnInput arrival conn = some after) (live : Live conn c) :
    ∃ count, ∀ decoded, Batch count decoded → ∃ settled,
      SessionRelease.netOnInput (arrival.told conn decoded) c = .ok settled ∧
        Alike after settled := by
  have kept := shook_calls arrival conn
  have status := shook_status arrival conn
  have ended : arrival.shake.handshake = .done := by simp [Shake.handshake, completes]
  have shakes : conn.shaking = true := by simp [Conn.shaking, secured, shaking]
  have begins := told_shaking arrival live.toOpen shakes
  rw [netOnInput_shaking arrival shakes, outcome_of_completes _ _ completes, if_pos rfl] at done
  rw [outcome_of_completes _ _ completes] at status
  obtain ⟨told, called, done⟩ := Option.bind_eq_some_iff.mp done
  have acts := performs_calls arrival.onSecure called
  have told_status := performs_status arrival.onSecure called
  rw [remains, Bool.and_false, if_neg Bool.false_ne_true, status] at told_status
  have told_freed : told.freed = false := acts.freed.trans (kept.freed.trans unfreed)
  have told_live : Live told c :=
    { live with queue := live.queue.trans (acts.queueMsg.trans kept.queueMsg).symm }
  by_cases peek : arrival.peek = 1
  · rw [if_pos peek] at done
    have level : told.securityLevel ≠ .unsecure := by
      rwa [acts.securityLevel, kept.securityLevel]
    obtain ⟨count, decided⟩ := secureInput_told arrival level
      told_status told_freed emptied done told_live
    refine ⟨count, fun decoded batch => ?_⟩
    rw [begins decoded, ended]
    simp only [if_pos peek]
    exact decided _ (told_decryptSent arrival decoded) rfl batch
  · rw [if_neg peek] at done
    obtain rfl := Option.some.inj done
    refine ⟨none, fun decoded _ => ⟨c, ?_, by rw [live.held, told_freed], fun _ => told_live.queue⟩⟩
    rw [begins decoded, ended]
    simp only [if_neg peek]

/-- A handshake that fails or goes on. -/
theorem shaking_on_told (secured : conn.securityLevel ≠ .unsecure)
    (shaking : conn.status = .handshake) (unfreed : conn.freed = false)
    (emptied : arrival.left = 0) (unfinished : arrival.shake.completes = false)
    (done : netOnInput arrival conn = some after) (live : Live conn c) :
    ∃ count, ∀ decoded, Batch count decoded → ∃ settled,
      SessionRelease.netOnInput (arrival.told conn decoded) c = .ok settled ∧
        Alike after settled := by
  have kept := shook_calls arrival conn
  have status := shook_status arrival conn
  have shakes : conn.shaking = true := by simp [Conn.shaking, secured, shaking]
  have begins := told_shaking arrival live.toOpen shakes
  rw [netOnInput_shaking arrival shakes, outcome_of_not _ _ unfinished] at done
  rw [outcome_of_not _ _ unfinished] at status
  by_cases failed : arrival.shake.ret = 0
  · have ended : arrival.shake.handshake = .failed := by
      simp [Shake.handshake, unfinished, failed]
    rw [if_pos failed] at done
    obtain rfl := Option.some.inj done
    refine ⟨none, fun decoded _ => ⟨c.ended, ?_, rfl, fun gone => by cases gone⟩⟩
    rw [begins decoded, ended]
    exact SessionRelease.endConnection_open live.toOpen
  · have waits : arrival.shake.handshake = .pending := by
      simp [Shake.handshake, unfinished, failed]
    rw [if_neg failed] at done status
    obtain ⟨count, decided⟩ := processInput_told arrival (by rwa [kept.securityLevel])
      (kept.freed.trans unfreed)
      emptied done { live with queue := live.queue.trans kept.queueMsg.symm }
    refine ⟨count, fun decoded batch => ?_⟩
    obtain ⟨settled, input, alike⟩ := decided (arrival.told conn decoded) rfl batch
    refine ⟨settled, ?_, alike⟩
    rw [status, shaking] at input
    rw [begins decoded, waits]
    exact input

/-- In a connection with TLS, an input that is followed for its sizes ends the connection if and
only if the session's side ends it with the same results, however the messages that were decoded
read. The switch's on_secure does not step up.

Proof: the outcome of the handshake decides the same branch on both sides. Behind it the sizes
say how many messages were decoded, or that none could be; the session's side releases the
session in the one case and empties its queue in the other. -/
theorem netOnInput_told (secured : conn.securityLevel ≠ .unsecure)
    (status : conn.status = .handshake ∨ conn.status = .secure) (unfreed : conn.freed = false)
    (remains : arrival.onSecure.any Action.isStepUp = false) (emptied : arrival.left = 0)
    (done : netOnInput arrival conn = some after) (live : Live conn c) :
    ∃ count, ∀ decoded, Batch count decoded → ∃ settled,
      SessionRelease.netOnInput (arrival.told conn decoded) c = .ok settled ∧
        Alike after settled := by
  rcases status with shaking | secure
  · cases completes : arrival.shake.completes with
    | true =>
      exact shaking_done_told arrival secured shaking unfreed remains emptied completes done live
    | false => exact shaking_on_told arrival secured shaking unfreed emptied completes done live
  · have calm : conn.shaking = false := by simp [Conn.shaking, secure]
    unfold netOnInput at done
    dsimp only at done
    rw [if_neg (by simp [secure])] at done
    have fed : Live { conn with bufferDataLen := arrival.recv } c :=
      { live with queue := live.queue }
    obtain ⟨count, decided⟩ := secureInput_told arrival (by exact secured) (by exact secure)
      (by exact unfreed) emptied done fed
    refine ⟨count, fun decoded batch => ?_⟩
    obtain ⟨settled, input, alike⟩ :=
      decided (arrival.told conn decoded) (told_decryptSent arrival decoded) rfl batch
    refine ⟨settled, ?_, alike⟩
    simpa [SessionRelease.netOnInput, Arrival.told, calm] using input

end Inputs

end NetVirt.BufferSizes
