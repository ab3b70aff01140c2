import NetVirt.BufferReads

/-!
# Connection buffers and their bounds

net_on_input as a whole, the steps of a connection and its runs. The data stays inside the
buffers along a run exactly if each of its steps meets the condition on what the libraries
return.
-/

namespace NetVirt.BufferSizes

open Runs
open SendPath (SecurityLevel KryptStatus WriteResult)

/-! ## One step -/

/-- Both buffers that grow have their data inside. -/
structure Roomy (sizes : Sizes) : Prop extends Inside sizes where
  encInside : sizes.bufEncDataSize.toNat ≤ sizes.bufEncSize.toNat
  encSmall : sizes.bufEncSize.toNat < 2 ^ 63

/-- What is stored until a function returns. -/
structure Settles (conn after : Conn) (given sound : Prop) : Prop where
  stored : Stored conn after given sound
  roomy : given → sound → Roomy after.sizes

section Settles
variable {conn middle after : Conn} {total : Nat} {given given' lawful sound sound' : Prop}

theorem Settles.congr (settles : Settles conn after given sound) (weaker : given' → given)
    (same : given' → (sound ↔ sound')) : Settles conn after given' sound' :=
  ⟨settles.stored.congr weaker same,
    fun holds sound => settles.roomy (weaker holds) ((same holds).mpr sound)⟩

/-- The other fields do not matter. -/
theorem Settles.same {other : Conn} (settles : Settles conn after given sound)
    (updates : other.updates = after.updates) (sizes : other.sizes = after.sizes) :
    Settles conn other given sound := by
  obtain ⟨⟨stores, stored, applied, exact⟩, roomy⟩ := settles
  exact ⟨⟨stores, updates.trans stored, sizes.trans applied, exact⟩,
    fun given sound => sizes ▸ roomy given sound⟩

theorem Stored.andSettles (first : Stored conn middle given sound)
    (rest : Settles middle after given' sound') (next : given → sound → given') :
    Settles conn after given (sound ∧ sound') :=
  ⟨first.trans rest.stored next, fun holds both => rest.roomy (next holds both.1) both.2⟩

theorem Calls.inside (calls : Calls conn after total lawful sound) (inside : Inside conn.sizes) :
    Inside after.sizes := by
  obtain ⟨some_room, small, inside⟩ := inside
  refine ⟨?_, ?_, ?_⟩
  · rwa [calls.bufInSize]
  · rwa [calls.bufInSize]
  · rwa [calls.bufInOffset, calls.bufInDataSize, calls.bufInSize]

theorem Calls.settles (calls : Calls conn after total lawful sound) :
    Settles conn after (Inside conn.sizes ∧ Spare total conn.sizes ∧ lawful) sound where
  stored := calls.stored.congr And.right fun _ => Iff.rfl
  roomy holds _ := by
    have spare := calls.spare 0 holds.2.1
    exact ⟨calls.inside holds.1, spare.inside, spare.small⟩

/-- The part of net_on_input after net_decode_msg. -/
theorem dispatchInput_settles (arrival : Arrival) (done : dispatchInput arrival conn = some after) :
    Settles conn after
      (Inside conn.sizes ∧ Spare (encoded arrival.onInput) conn.sizes ∧
        arrival.renegotiation.Lawful ∧ ∀ action ∈ arrival.onInput, action.Lawful)
      (conn.securityLevel ≠ .unsecure ∧ conn.status = .secure → arrival.renegotiation.Sound ∧
        (0 < conn.queueMsg → ∀ action ∈ arrival.onInput, action.Sound conn.server)) := by
  unfold dispatchInput at done
  by_cases secured : conn.securityLevel ≠ .unsecure ∧ conn.status = .secure
  · rw [if_pos secured] at done
    dsimp only at done
    have flushed := (kryptDecryptBuf_calls arrival.renegotiation conn).trans
      (netDoKrypt_calls arrival.sent (kryptDecryptBuf arrival.renegotiation conn).2)
    rw [flushed.queueMsg] at done
    by_cases queue : conn.queueMsg > 0
    · rw [if_pos queue] at done
      obtain ⟨told, called, rfl⟩ := Option.map_eq_some_iff.mp done
      have all : Settles conn { told with queueMsg := arrival.left } _ _ :=
        (flushed.trans (performs_calls arrival.onInput called)).settles.same rfl rfl
      refine all.congr
        (fun given => ⟨given.1, by simpa using given.2.1, ⟨given.2.2.1, trivial⟩, given.2.2.2⟩)
        fun _ => ?_
      rw [flushed.server]
      exact ⟨fun sound _ => ⟨sound.1.1, fun _ => sound.2⟩,
        fun sound => ⟨⟨(sound secured).1, trivial⟩, (sound secured).2 queue⟩⟩
    · rw [if_neg queue, Option.some.injEq] at done
      subst done
      refine flushed.settles.congr
        (fun given => ⟨given.1, given.2.1.less (Nat.zero_le _), given.2.2.1, trivial⟩) fun _ => ?_
      exact ⟨fun sound _ => ⟨sound.1, fun some => absurd some queue⟩,
        fun sound => ⟨(sound secured).1, trivial⟩⟩
  · rw [if_neg secured, Option.some.injEq] at done
    subst done
    exact (Calls.refl conn).settles.congr
      (fun given => ⟨given.1, given.2.1.less (Nat.zero_le _), trivial⟩)
      fun _ => iff_of_true trivial fun both => absurd both secured

end Settles

/-- The bytes that the decoder is given, in a connection that takes data in. -/
def givenAt (conn : Conn) (arrival : Arrival) : Nat :=
  ((conn.sizes.bufInDataSize.toNat : Int) + (readsAt conn arrival).sum).toNat

/-- What the libraries promise to a connection that takes data in. -/
structure Processable (conn : Conn) (arrival : Arrival) : Prop where
  takable : Takable conn.sizes (readsAt conn arrival)
  spare : Spare (encoded arrival.onInput) conn.sizes
  recv : -1 ≤ conn.bufferDataLen.toInt
  rounds : ∀ round ∈ arrival.rounds, round.decryption.Lawful
  decodes : ∀ decode ∈ arrival.decodes, decode.bytes < 2 ^ 63
  renegotiation : arrival.renegotiation.Lawful
  onInput : ∀ action ∈ arrival.onInput, action.Lawful

/-- What a connection that takes data in may meet. -/
structure Processed (conn : Conn) (arrival : Arrival) : Prop where
  room : conn.room (readsAt conn arrival)
  rounds : ∀ round ∈ roundsAt conn arrival, round.decryption.Sound
  consumed : consumed (givenAt conn arrival) arrival.decodes ≤ givenAt conn arrival
  dispatched : conn.securityLevel ≠ .unsecure ∧ conn.status = .secure →
    .fail ∉ decodeCalls (givenAt conn arrival) arrival.decodes → arrival.renegotiation.Sound ∧
      ((0 < conn.queueMsg ∨
          ∃ bytes, .ok bytes ∈ decodeCalls (givenAt conn arrival) arrival.decodes) →
        ∀ action ∈ arrival.onInput, action.Sound conn.server)

/-- The part of net_on_input after the handshake. -/
theorem processInput_settles (arrival : Arrival) {conn after : Conn}
    (done : processInput arrival conn = some after) :
    Settles conn after (Processable conn arrival) (Processed conn arrival) := by
  obtain ⟨taken, first, done⟩ := Option.bind_eq_some_iff.mp done
  obtain ⟨⟨ret, decoded⟩, second, done⟩ := Option.bind_eq_some_iff.mp done
  have takes := takeIn_takesIn arrival first
  have decodes := netDecodeMsg_decodes arrival.decodes second
  have early : Stored conn taken (Processable conn arrival)
      (conn.room (readsAt conn arrival) ∧
        ∀ round ∈ roundsAt conn arrival, round.decryption.Sound) :=
    takes.stored.congr (fun given => ⟨given.takable, given.recv, given.rounds⟩) fun _ => Iff.rfl
  have held : Processable conn arrival → (conn.room (readsAt conn arrival) ∧
      ∀ round ∈ roundsAt conn arrival, round.decryption.Sound) → Inside taken.sizes ∧
        taken.sizes.bufInDataSize.toNat = givenAt conn arrival := by
    intro given sound
    obtain ⟨inside, data⟩ := takes.inside given.takable ⟨given.recv, given.rounds⟩ sound
    exact ⟨inside, by rw [givenAt, ← data]; rfl⟩
  have middle := early.trans decodes.stored fun given sound =>
    ⟨(held given sound).1, given.decodes⟩
  have left : Processable conn arrival → ((conn.room (readsAt conn arrival) ∧
      ∀ round ∈ roundsAt conn arrival, round.decryption.Sound) ∧
      BufferSizes.consumed taken.sizes.bufInDataSize.toNat arrival.decodes ≤
        taken.sizes.bufInDataSize.toNat) → Inside decoded.sizes ∧
      (ret = -1 ↔ .fail ∈ decodeCalls (givenAt conn arrival) arrival.decodes) ∧
      (0 < decoded.queueMsg ↔ 0 < conn.queueMsg ∨
        ∃ bytes, .ok bytes ∈ decodeCalls (givenAt conn arrival) arrival.decodes) := by
    intro given sound
    obtain ⟨inside, data⟩ := held given sound.1
    obtain ⟨inside, failed, queue⟩ := decodes.inside inside sound.2
    rw [data] at failed queue
    exact ⟨inside, failed, takes.queueMsg ▸ queue⟩
  have spare : ∀ count, Spare count conn.sizes → Spare count decoded.sizes :=
    fun count spare => decodes.spare count (takes.spare count spare)
  dsimp only at done
  by_cases failed : ret = -1
  · rw [if_pos failed] at done
    obtain rfl := Option.some.inj done
    have settles : Settles conn decoded (Processable conn arrival) _ :=
      ⟨middle, fun given sound => by
        have spare := spare _ given.spare
        exact ⟨(left given sound).1, spare.inside, spare.small⟩⟩
    have freed : Settles conn { decoded with freed := true } _ _ := settles.same rfl rfl
    refine freed.congr id fun given => ?_
    constructor
    · intro sound
      obtain ⟨_, data⟩ := held given sound.1
      exact ⟨sound.1.1, sound.1.2, data ▸ sound.2,
        fun _ fine => absurd ((left given sound).2.1.mp failed) fine⟩
    · intro sound
      obtain ⟨_, data⟩ := held given ⟨sound.room, sound.rounds⟩
      exact ⟨⟨sound.room, sound.rounds⟩, data ▸ sound.consumed⟩
  · rw [if_neg failed] at done
    have settles := dispatchInput_settles arrival done
    refine (Stored.andSettles middle settles fun given sound => ⟨(left given sound).1,
      spare _ given.spare, given.renegotiation, given.onInput⟩).congr id fun given => ?_
    rw [decodes.securityLevel, takes.securityLevel, decodes.status, takes.status,
      decodes.server, takes.server]
    constructor
    · rintro ⟨sound, dispatched⟩
      obtain ⟨_, data⟩ := held given sound.1
      refine ⟨sound.1.1, sound.1.2, data ▸ sound.2, fun secured _ => ?_⟩
      rw [← (left given sound).2.2]
      exact dispatched secured
    · intro sound
      obtain ⟨_, data⟩ := held given ⟨sound.room, sound.rounds⟩
      have both : (conn.room (readsAt conn arrival) ∧
          ∀ round ∈ roundsAt conn arrival, round.decryption.Sound) ∧
          BufferSizes.consumed taken.sizes.bufInDataSize.toNat arrival.decodes ≤
            taken.sizes.bufInDataSize.toNat :=
        ⟨⟨sound.room, sound.rounds⟩, data ▸ sound.consumed⟩
      obtain ⟨_, fails, queue⟩ := left given both
      refine ⟨both, fun secured => ?_⟩
      rw [queue]
      exact sound.dispatched secured fun failing => failed (fails.mpr failing)

/-- The connection that takes data in, seen from the one that net_on_input finds. -/
structure Enters (conn middle : Conn) (arrival : Arrival) : Prop where
  securityLevel : middle.securityLevel = conn.securityLevel
  server : middle.server = conn.server
  queueMsg : middle.queueMsg = conn.queueMsg
  bufInSize : middle.sizes.bufInSize = conn.sizes.bufInSize
  bufInOffset : middle.sizes.bufInOffset = conn.sizes.bufInOffset
  bufInDataSize : middle.sizes.bufInDataSize = conn.sizes.bufInDataSize
  bufferDataLen : middle.bufferDataLen = if conn.shaking = true then 0#32 else arrival.recv
  secures : middle.securityLevel ≠ .unsecure ∧ middle.status = .secure ↔
    arrival.secures conn = true

section Enters
variable {conn middle : Conn} {arrival : Arrival} (enters : Enters conn middle arrival)
include enters

theorem Enters.rounds : roundsAt middle arrival = arrival.rounded conn := by
  rw [roundsAt, Arrival.rounded, enters.bufferDataLen]
  simp only [enters.secures]

theorem Enters.reads : readsAt middle arrival = arrival.reads conn := by
  rw [readsAt, Arrival.reads, enters.rounds, enters.securityLevel]
  by_cases unsecure : conn.securityLevel = .unsecure
  · have still : conn.shaking = false := by simp [Conn.shaking, unsecure]
    rw [if_pos unsecure, if_pos unsecure, enters.bufferDataLen, still]
    rfl
  · rw [if_neg unsecure, if_neg unsecure]

theorem Enters.given : givenAt middle arrival = arrival.given conn := by
  rw [givenAt, Arrival.given, enters.reads, enters.bufInDataSize]

/-- The condition of an arrival that is processed. -/
theorem Enters.sound_iff (goes : arrival.goesOn conn = true) :
    arrival.Sound conn ↔ ((conn.shaking = true → arrival.shake.Sound) ∧
      (conn.shaking = true → arrival.shake.completes = true →
        ∀ action ∈ arrival.onSecure, action.Sound conn.server)) ∧ Processed middle arrival := by
  have renegotiates : arrival.renegotiates conn = true ↔
      (middle.securityLevel ≠ .unsecure ∧ middle.status = .secure) ∧
        .fail ∉ decodeCalls (givenAt middle arrival) arrival.decodes := by
    rw [enters.secures, enters.given]
    simp only [Arrival.renegotiates, goes, Arrival.calls, Bool.true_and, Bool.and_eq_true]
    exact and_congr_right fun _ => decide_eq_true_iff
  have notifies : arrival.notifies conn = true ↔ 0 < middle.queueMsg ∨
      ∃ bytes, .ok bytes ∈ decodeCalls (givenAt middle arrival) arrival.decodes := by
    rw [enters.queueMsg, enters.given]
    simp only [Arrival.notifies, Arrival.calls, Bool.or_eq_true, decide_eq_true_eq,
      List.any_eq_true]
    refine or_congr_right ⟨?_, ?_⟩
    · rintro ⟨call, inside, ok⟩
      cases call with
      | ok bytes => exact ⟨bytes, inside⟩
      | wmore bytes => cases ok
      | fail => cases ok
    · rintro ⟨bytes, inside⟩
      exact ⟨_, inside, rfl⟩
  have room : middle.room (readsAt middle arrival) ↔
      RoomAhead conn.sizes.bufInOffset.toNat conn.sizes.bufInSize.toNat
        conn.sizes.bufInDataSize.toNat (arrival.reads conn) := by
    rw [Conn.room, enters.reads, enters.bufInOffset, enters.bufInSize, enters.bufInDataSize]
  constructor
  · intro sound
    refine ⟨⟨sound.shake, sound.onSecure⟩, room.mpr (sound.room goes), ?_, ?_,
      fun secured fine => ⟨sound.renegotiation (renegotiates.mpr ⟨secured, fine⟩),
        fun queue => ?_⟩⟩
    · rw [enters.rounds]
      exact sound.rounds goes
    · rw [enters.given]
      exact sound.consumed goes
    · rw [enters.server]
      exact sound.onInput (renegotiates.mpr ⟨secured, fine⟩) (notifies.mpr queue)
  · rintro ⟨⟨shake, onSecure⟩, processed⟩
    refine ⟨shake, onSecure, fun _ => ?_, fun _ => room.mp processed.room, fun _ => ?_,
      fun looks => ?_, fun looks tells => ?_⟩
    · rw [← enters.rounds]
      exact processed.rounds
    · have consumed := processed.consumed
      rw [enters.given] at consumed
      exact consumed
    · obtain ⟨secured, fine⟩ := renegotiates.mp looks
      exact (processed.dispatched secured fine).1
    · obtain ⟨secured, fine⟩ := renegotiates.mp looks
      rw [← enters.server]
      exact (processed.dispatched secured fine).2 (notifies.mp tells)

theorem Enters.processable (lawful : arrival.Lawful conn) (inside : Inside middle.sizes)
    (spare : Spare (encoded arrival.onInput) middle.sizes) : Processable middle arrival where
  takable := by
    refine ⟨inside, ?_, spare.less (Nat.zero_le _)⟩
    rw [enters.reads, enters.bufInDataSize]
    exact lawful.few
  spare := spare
  recv := by
    rw [enters.bufferDataLen]
    split
    · decide
    · exact lawful.recv
  rounds := lawful.rounds
  decodes := lawful.decodes
  renegotiation := lawful.renegotiation
  onInput := lawful.onInput

end Enters

/-- The condition of an arrival that is not processed. -/
theorem sound_iff_of_stopped (conn : Conn) (arrival : Arrival)
    (stops : arrival.goesOn conn = false) :
    arrival.Sound conn ↔ (conn.shaking = true → arrival.shake.Sound) ∧
      (conn.shaking = true → arrival.shake.completes = true →
        ∀ action ∈ arrival.onSecure, action.Sound conn.server) := by
  refine ⟨fun sound => ⟨sound.shake, sound.onSecure⟩, fun sound => ⟨sound.1, sound.2, ?_, ?_, ?_,
    ?_, ?_⟩⟩ <;> simp [Arrival.renegotiates, stops]

theorem kryptDoHandshake_len (shake : Shake) (conn : Conn) (len : CInt) :
    { (kryptDoHandshake shake conn).2 with bufferDataLen := len } =
      (kryptDoHandshake shake { conn with bufferDataLen := len }).2 := by
  unfold kryptDoHandshake
  dsimp only
  split <;> rfl

theorem outcome_of_completes (shake : Shake) (status : KryptStatus)
    (completes : shake.completes = true) : shake.outcome status = (0, .secure) := by
  simp only [Shake.completes, Bool.and_eq_true, decide_eq_true_eq] at completes
  simp [Shake.outcome, completes.1, completes.2]

theorem outcome_of_not (shake : Shake) (status : KryptStatus)
    (unfinished : shake.completes = false) :
    shake.outcome status = if shake.ret = 0 then (-1, .fail) else (1, status) := by
  have not_both : shake.ret > 0 → shake.finished = false := by
    intro positive
    simpa [Shake.completes, positive] using unfinished
  unfold Shake.outcome
  by_cases positive : shake.ret > 0
  · rw [if_pos ⟨positive, not_both positive⟩, if_neg (by omega)]
  · rw [if_neg fun both => positive both.1, if_neg positive]

/-- The bytes in the peer's buffer are no stores. -/
theorem Settles.fed {conn after : Conn} {given sound : Prop} {len : CInt}
    (settles : Settles { conn with bufferDataLen := len } after given sound) :
    Settles conn after given sound := ⟨settles.stored, settles.roomy⟩

theorem encoded_append (early late : List Action) :
    encoded (early ++ late) = encoded early + encoded late := by
  rw [encoded, List.map_append, List.sum_append, encoded, encoded]

theorem Roomy.spare {conn : Conn} {arrival : Arrival} (roomy : Roomy conn.sizes)
    (lawful : arrival.Lawful conn) :
    Spare (encoded arrival.onSecure + encoded arrival.onInput) conn.sizes :=
  ⟨roomy.encInside, roomy.encSmall, encoded_append .. ▸ lawful.spare⟩

/-- A step of net_on_input that finds no handshake. -/
theorem settled_input_settles (arrival : Arrival) {conn after : Conn}
    (still : conn.shaking = false)
    (done : processInput arrival { conn with bufferDataLen := arrival.recv } = some after) :
    Settles conn after (Roomy conn.sizes ∧ arrival.Lawful conn) (arrival.Sound conn) := by
  have enters : Enters conn { conn with bufferDataLen := arrival.recv } arrival :=
    { securityLevel := rfl, server := rfl, queueMsg := rfl, bufInSize := rfl, bufInOffset := rfl,
      bufInDataSize := rfl, bufferDataLen := by simp [still]
      secures := by simp [Arrival.secures, still] }
  have goes : arrival.goesOn conn = true := by simp [Arrival.goesOn, still]
  refine (processInput_settles arrival done).fed.congr (fun given => ?_) fun _ => ?_
  · exact enters.processable given.2 given.1.toInside
      ((given.1.spare given.2).less (Nat.le_add_left _ _))
  · rw [enters.sound_iff goes]
    refine (and_iff_right ⟨fun shaking => ?_, fun shaking => ?_⟩).symm <;>
      exact absurd shaking (by simp [still])

section Shaking
variable (arrival : Arrival) {conn after : Conn}

/-- The connection once a step of its handshake was taken and sent. -/
def Arrival.shook (arrival : Arrival) (conn : Conn) : Conn :=
  netDoKrypt arrival.shake.sent
    (kryptDoHandshake arrival.shake { conn with bufferDataLen := 0#32 }).2

theorem shook_calls (conn : Conn) :
    Calls { conn with bufferDataLen := 0#32 } (arrival.shook conn) 0 arrival.shake.Lawful
      arrival.shake.Sound :=
  ((kryptDoHandshake_calls arrival.shake _).trans (netDoKrypt_calls arrival.shake.sent _)).congr
    rfl (fun lawful => ⟨lawful, trivial⟩) fun _ => and_iff_left trivial

theorem shook_status (conn : Conn) :
    (arrival.shook conn).status = (arrival.shake.outcome conn.status).2 :=
  (netDoKrypt_status _).trans (kryptDoHandshake_status arrival.shake)

/-- In a handshake its outcome decides what net_on_input does next. -/
theorem netOnInput_shaking (shaking : conn.shaking = true) : netOnInput arrival conn =
    if (arrival.shake.outcome conn.status).1 = 0 then
      (arrival.onSecure.foldlM perform (arrival.shook conn)).bind fun conn =>
        if arrival.peek = 1 then processInput arrival conn else some conn
    else if (arrival.shake.outcome conn.status).1 = -1 then
      some { arrival.shook conn with freed := true }
    else processInput arrival (arrival.shook conn) := by
  have both : conn.securityLevel ≠ .unsecure ∧ conn.status = .handshake := by
    simpa [Conn.shaking] using shaking
  have len : { (kryptDoHandshake arrival.shake
      { conn with bufferDataLen := arrival.recv }).2 with bufferDataLen := 0#32 } =
      (kryptDoHandshake arrival.shake { conn with bufferDataLen := 0#32 }).2 :=
    kryptDoHandshake_len arrival.shake { conn with bufferDataLen := arrival.recv } 0#32
  unfold netOnInput
  dsimp only
  rw [if_pos both, len]
  rfl

/-- A step of net_on_input that finishes the handshake. -/
theorem completed_input_settles (shaking : conn.shaking = true)
    (completes : arrival.shake.completes = true) (done : netOnInput arrival conn = some after) :
    Settles conn after (Roomy conn.sizes ∧ arrival.Lawful conn) (arrival.Sound conn) := by
  have calls := shook_calls arrival conn
  have status := shook_status arrival conn
  rw [netOnInput_shaking arrival shaking, outcome_of_completes _ _ completes, if_pos rfl] at done
  rw [outcome_of_completes _ _ completes] at status
  obtain ⟨told, called, done⟩ := Option.bind_eq_some_iff.mp done
  have all := calls.trans (performs_calls arrival.onSecure called)
  have told_status := performs_status arrival.onSecure called
  rw [Nat.zero_add, calls.server] at all
  rw [status, calls.server] at told_status
  have spare : Roomy conn.sizes ∧ arrival.Lawful conn →
      Spare (encoded arrival.onInput) told.sizes :=
    fun given => all.spare _ (given.1.spare given.2)
  have shaken : (arrival.shake.Sound ∧ ∀ action ∈ arrival.onSecure, action.Sound conn.server) ↔
      (conn.shaking = true → arrival.shake.Sound) ∧
        (conn.shaking = true → arrival.shake.completes = true →
          ∀ action ∈ arrival.onSecure, action.Sound conn.server) := by
    simp [shaking, completes]
  by_cases peek : arrival.peek = 1
  · rw [if_pos peek] at done
    have secured : conn.securityLevel ≠ .unsecure := by
      intro unsecure
      simp [Conn.shaking, unsecure] at shaking
    have enters : Enters conn told arrival :=
      { securityLevel := all.securityLevel, server := all.server, queueMsg := all.queueMsg,
        bufInSize := all.bufInSize, bufInOffset := all.bufInOffset,
        bufInDataSize := all.bufInDataSize
        bufferDataLen := by rw [if_pos shaking, all.bufferDataLen]
        secures := by
          rw [all.securityLevel, told_status]
          cases stepped : conn.server && arrival.onSecure.any Action.isStepUp <;>
            simp [Arrival.secures, secured, shaking, completes, stepped] }
    have goes : arrival.goesOn conn = true := by
      simp [Arrival.goesOn, completes, peek]
    rw [enters.sound_iff goes, ← shaken]
    refine (Stored.andSettles (all.stored.congr (fun given => ?_) fun _ => Iff.rfl)
      (processInput_settles arrival done) fun given _ => ?_).fed
    · exact ⟨(given.1.spare given.2).less (Nat.le_add_right _ _), given.2.shake,
        given.2.onSecure⟩
    · exact enters.processable given.2 (all.inside given.1.toInside) (spare given)
  · rw [if_neg peek] at done
    obtain rfl := Option.some.inj done
    have stops : arrival.goesOn conn = false := by
      simp [Arrival.goesOn, shaking, completes, peek]
    rw [sound_iff_of_stopped conn arrival stops, ← shaken]
    exact (all.settles.congr (fun given => ⟨given.1.toInside,
      (given.1.spare given.2).less (Nat.le_add_right _ _), given.2.shake, given.2.onSecure⟩)
      fun _ => Iff.rfl).fed

/-- A step of net_on_input in a handshake that fails or goes on. -/
theorem unfinished_input_settles (shaking : conn.shaking = true)
    (unfinished : arrival.shake.completes = false) (done : netOnInput arrival conn = some after) :
    Settles conn after (Roomy conn.sizes ∧ arrival.Lawful conn) (arrival.Sound conn) := by
  have calls := shook_calls arrival conn
  have status := shook_status arrival conn
  rw [netOnInput_shaking arrival shaking, outcome_of_not _ _ unfinished] at done
  rw [outcome_of_not _ _ unfinished] at status
  have shaken : arrival.shake.Sound ↔ (conn.shaking = true → arrival.shake.Sound) ∧
      (conn.shaking = true → arrival.shake.completes = true →
        ∀ action ∈ arrival.onSecure, action.Sound conn.server) := by
    simp [shaking, unfinished]
  by_cases failed : arrival.shake.ret = 0
  · rw [if_pos failed] at done
    obtain rfl := Option.some.inj done
    have stops : arrival.goesOn conn = false := by
      simp [Arrival.goesOn, shaking, unfinished, failed]
    rw [sound_iff_of_stopped conn arrival stops, ← shaken]
    have settles : Settles conn (arrival.shook conn) (Roomy conn.sizes ∧ arrival.Lawful conn)
        arrival.shake.Sound :=
      (calls.settles.congr (fun given => ⟨given.1.toInside,
        (given.1.spare given.2).less (Nat.zero_le _), given.2.shake⟩) fun _ => Iff.rfl).fed
    exact settles.same rfl rfl
  · rw [if_neg failed] at done status
    have handshake : conn.status = .handshake := by
      simp only [Conn.shaking, Bool.and_eq_true, decide_eq_true_eq] at shaking
      exact shaking.2
    have enters : Enters conn (arrival.shook conn) arrival :=
      { securityLevel := calls.securityLevel, server := calls.server,
        queueMsg := calls.queueMsg, bufInSize := calls.bufInSize,
        bufInOffset := calls.bufInOffset, bufInDataSize := calls.bufInDataSize
        bufferDataLen := by rw [if_pos shaking, calls.bufferDataLen]
        secures := by simp [Arrival.secures, status, handshake, shaking, unfinished] }
    have goes : arrival.goesOn conn = true := by
      simp [Arrival.goesOn, unfinished, failed]
    rw [enters.sound_iff goes, ← shaken]
    refine (Stored.andSettles (calls.stored.congr (fun given => ?_) fun _ => Iff.rfl)
      (processInput_settles arrival done) fun given _ => ?_).fed
    · exact ⟨(given.1.spare given.2).less (Nat.zero_le _), given.2.shake⟩
    · have spare := (given.1.spare given.2).less (Nat.le_add_left _ _)
      exact enters.processable given.2 (calls.inside given.1.toInside)
        (calls.spare _ (by rwa [Nat.zero_add]))

/-- A step of net_on_input in a handshake. -/
theorem shaking_input_settles (shaking : conn.shaking = true)
    (done : netOnInput arrival conn = some after) :
    Settles conn after (Roomy conn.sizes ∧ arrival.Lawful conn) (arrival.Sound conn) := by
  cases completes : arrival.shake.completes with
  | true => exact completed_input_settles arrival shaking completes done
  | false => exact unfinished_input_settles arrival shaking completes done

end Shaking

/-- A step of net_on_input. -/
theorem netOnInput_settles (arrival : Arrival) {conn after : Conn}
    (done : netOnInput arrival conn = some after) :
    Settles conn after (Roomy conn.sizes ∧ arrival.Lawful conn) (arrival.Sound conn) := by
  cases shaking : conn.shaking with
  | true => exact shaking_input_settles arrival shaking done
  | false =>
    have not_both : ¬ (conn.securityLevel ≠ .unsecure ∧ conn.status = .handshake) := by
      simpa [Conn.shaking] using shaking
    unfold netOnInput at done
    dsimp only at done
    rw [if_neg not_both] at done
    exact settled_input_settles arrival shaking done

theorem secureConnection_calls (first : Option Shake) (conn : Conn) :
    Calls conn (secureConnection first conn) 0 (∀ shake ∈ first, shake.Lawful)
      (∀ shake ∈ first, shake.Sound) := by
  have prepared := Calls.none conn .handshake
  cases first with
  | none => exact prepared.congr rfl (fun _ => trivial) fun _ => by simp
  | some shake =>
    refine (prepared.trans ((kryptDoHandshake_calls shake _).trans
      (netDoKrypt_calls shake.sent _))).congr rfl
      (fun lawful => ⟨trivial, lawful shake rfl, trivial⟩) fun _ => ?_
    simp

/-- Every step stores in bounds exactly what it may, and leaves room again. -/
theorem step_settles (conn : Conn) (event : Event) (next : Conn)
    (taken : step conn event = some next) :
    Settles conn next (Roomy conn.sizes ∧ event.Lawful conn) (event.Sound conn) := by
  unfold step at taken
  split at taken
  · cases taken
  · cases event with
    | secureConnection first =>
      dsimp only at taken
      split at taken
      · cases taken
      · obtain rfl := Option.some.inj taken
        exact (secureConnection_calls first conn).settles.congr
          (fun given => ⟨given.1.toInside, ⟨given.1.encInside, given.1.encSmall, given.2.2⟩,
            given.2.1⟩) fun _ => Iff.rfl
    | input arrival => exact netOnInput_settles arrival taken
    | action action =>
      exact (perform_calls action taken).settles.congr
        (fun given => ⟨given.1.toInside, ⟨given.1.encInside, given.1.encSmall, given.2.2⟩,
          given.2.1⟩) fun _ => Iff.rfl

/-! ## Runs -/

/-- Along a run the stores are in bounds exactly if every step is sound. -/
theorem run_settles (events : List Event) {start final : Conn}
    (reached : run step start events = some final) :
    Settles start final
      (Roomy start.sizes ∧ Meets step (fun conn event => event.Lawful conn) start events)
      (Meets step (fun conn event => event.Sound conn) start events) := by
  induction events generalizing start with
  | nil =>
    obtain rfl := Option.some.inj reached
    exact ⟨.none rfl rfl, fun given _ => given.1⟩
  | cons event rest inductionHypothesis =>
    obtain ⟨next, taken, remaining⟩ := Option.bind_eq_some_iff.mp reached
    have first := step_settles start event next taken
    have later := inductionHypothesis remaining
    have early : Stored start next (Roomy start.sizes ∧
        Meets step (fun conn event => event.Lawful conn) start (event :: rest))
        (event.Sound start) :=
      first.stored.congr (fun given => ⟨given.1, given.2.1⟩) fun _ => Iff.rfl
    refine (early.andSettles later fun given sound =>
      ⟨first.roomy ⟨given.1, given.2.1⟩ sound, given.2.2 next taken⟩).congr id fun _ => ?_
    refine and_congr_right fun _ => ⟨fun met other same => ?_, fun met => met next taken⟩
    obtain rfl := Option.some.inj (taken.symm.trans same)
    exact met

theorem new_roomy : Roomy .new := ⟨⟨by decide, by decide, by decide⟩, by decide, by decide⟩

/-- What may happen to a connection whose libraries keep what they promise. -/
def Event.Safe (conn : Conn) (event : Event) : Prop := event.Lawful conn ∧ event.Sound conn

instance (conn : Conn) (event : Event) : Decidable (event.Safe conn) :=
  inferInstanceAs (Decidable (_ ∧ _))

/-- Along every run whose steps are safe the data stays inside the buffers, after every single
store. As long as the libraries keep what they promise it does so only then.

Proof: each function is followed with the stores that it makes, which are in bounds under a
condition on what its calls returned and on the connection before it; sends and handshakes leave
buf_in alone and give room in buf_enc back, reads add to buf_in, the decoder takes from it. A
step puts them together, a run its steps. That the stores are in bounds one by one is what
`stores_iff` says of the sizes. -/
theorem buffers_bounded_iff (securityLevel : SecurityLevel) (server : Bool) (conn : Conn)
    (events : List Event)
    (reached : run step (netConnectionNew securityLevel server) events = some conn) :
    conn.sizes = conn.updates.foldl Sizes.apply .new ∧
      (Meets step Event.Safe (netConnectionNew securityLevel server) events →
        ∀ past, past <+: conn.updates → InBounds (past.foldl Sizes.apply .new)) ∧
      (Meets step Event.Lawful (netConnectionNew securityLevel server) events →
        (∀ past, past <+: conn.updates → InBounds (past.foldl Sizes.apply .new)) →
        Meets step Event.Safe (netConnectionNew securityLevel server) events) := by
  obtain ⟨⟨stores, updates, sizes, exact⟩, _⟩ := run_settles events reached
  have all : conn.updates = stores := updates
  have roomy : Roomy (netConnectionNew securityLevel server).sizes := new_roomy
  have safe := meets_and step Event.Lawful Event.Sound (netConnectionNew securityLevel server)
    events
  rw [← all] at sizes exact
  refine ⟨sizes, fun met => ?_, fun lawful inside => ?_⟩
  · obtain ⟨lawful, sound⟩ := safe.mp met
    exact (stores_iff conn.updates).mpr ((exact ⟨roomy, lawful⟩).mpr sound)
  · exact safe.mpr ⟨lawful, (exact ⟨roomy, lawful⟩).mp ((stores_iff conn.updates).mp inside)⟩

/-- A handshake that is finished at once. -/
def finishedShake : Shake :=
  { ret := 1, finished := true, pending := 0, bioRead := 0#32, sent := 0 }

/-- Ten bytes arrive on an unsecured connection and are a message. -/
def tenBytes : Arrival :=
  { recv := 10#32, shake := finishedShake, onSecure := [], peek := 0, rounds := [],
    decodes := [.ok 10#64], renegotiation := ⟨0#32, .wantRead, 0#32⟩, sent := 0, onInput := [],
    left := 0 }

/-- A handshake is finished and a message sent. Then the data starts midway in buf_in, and what
is read next fits behind it. -/
def securedRun : List Event :=
  [.secureConnection none,
    .input
      { recv := 500#32
        shake := { finishedShake with
          pending := 3
          bioRead := 3#32 }
        onSecure := [.sendMsg ⟨[20#64], true, [⟨.accepted, 49#32, 0⟩]⟩]
        peek := 1
        rounds := [⟨0#32, ⟨600000#32, .other, 0#32⟩, 0, 0⟩]
        decodes := [.ok 500000#64, .wmore 0#64]
        renegotiation := ⟨-1#32, .wantRead, 0#32⟩
        sent := 0
        onInput := []
        left := 0 },
    .input
      { recv := 500#32
        shake := finishedShake
        onSecure := []
        peek := 0
        rounds := [⟨500#32, ⟨300000#32, .other, 0#32⟩, 0, 0⟩]
        decodes := [.ok 400000#64]
        renegotiation := ⟨-1#32, .wantRead, 0#32⟩
        sent := 0
        onInput := [.sendMsg ⟨[20#64], true, [⟨.accepted, 49#32, 0⟩]⟩]
        left := 0 }]

/-- This run is safe. -/
theorem buffers_bounded_secured : ∃ conn,
    run step (netConnectionNew .secureRsa true) securedRun = some conn ∧
      conn.updates.length = 25 ∧
      ∀ past, past <+: conn.updates → InBounds (past.foldl Sizes.apply .new) := by
  obtain ⟨conn, reached⟩ : ∃ conn,
      run step (netConnectionNew .secureRsa true) securedRun = some conn := ⟨_, rfl⟩
  have bounded := buffers_bounded_iff .secureRsa true conn securedRun reached
  refine ⟨conn, reached, ?_, bounded.2.1 (by decide +kernel)⟩
  cases reached
  rfl

/-- A receive that fails on an unsecured connection leaves 2^64 - 1 bytes in a buffer of a
million. On a secured one so does the BIO_read that finds nothing, when krypt_decrypt_buf looks
for a renegotiation. And where the start of the data has moved on, data is added beyond the
end of a buffer that the test of its size finds large enough. -/
theorem buffers_overrun :
    (∃ conn, run step (netConnectionNew .unsecure true)
        [.input { tenBytes with recv := -1#32, decodes := [.wmore 0#64] }] = some conn ∧
      conn.sizes.bufInDataSize = 18446744073709551615#64 ∧ ¬ InBounds conn.sizes) ∧
    (∃ conn, run step (netConnectionNew .secureRsa true)
        [.secureConnection none, .input { tenBytes with decodes := [] },
          .input { tenBytes with
            rounds := [⟨10#32, ⟨0#32, .wantRead, -1#32⟩, 0, -1⟩]
            decodes := []
            renegotiation := ⟨0#32, .wantRead, -1#32⟩
            sent := -1 }] = some conn ∧
      conn.sizes.bufEncryptDataSize = 18446744073709551615#64 ∧ ¬ InBounds conn.sizes) ∧
    ∃ conn, run step (netConnectionNew .unsecure true)
        [.input { tenBytes with recv := 600000#32, decodes := [.ok 500000#64, .wmore 0#64] },
          .input { tenBytes with recv := 600000#32, decodes := [.wmore 0#64] }] = some conn ∧
      conn.sizes.bufInOffset = 500000#64 ∧ conn.sizes.bufInDataSize = 700000#64 ∧
      conn.sizes.bufInSize = 1000000#64 ∧ ¬ InBounds conn.sizes := by
  refine ⟨⟨_, rfl, rfl, ?_⟩, ⟨_, rfl, rfl, ?_⟩, ⟨_, rfl, rfl, rfl, rfl, ?_⟩⟩
  · intro inside
    exact absurd inside.bufIn (by decide)
  · intro inside
    exact absurd inside.bufEncrypt (by decide)
  · intro inside
    exact absurd inside.bufIn (by decide)

end NetVirt.BufferSizes
