import NetVirt.BufferConditions

/-!
# What a call stores

net_send_msg, net_step_up and the functions of crypto.c with the stores that they make. Each
of them leaves buf_in alone, and what it stores is in bounds exactly under the condition on the
results that it was given.
-/

namespace NetVirt.BufferSizes

open Runs
open SendPath (SecurityLevel KryptStatus WriteResult)

/-! ## What a call stores -/

/-- From one connection to the next some stores were made, which under a condition are in bounds
exactly if another one holds. -/
def Stored (conn after : Conn) (given sound : Prop) : Prop :=
  ∃ stores, after.updates = conn.updates ++ stores ∧
    after.sizes = stores.foldl Sizes.apply conn.sizes ∧
    (given → (Guarded Sizes.apply conn.sizes Fits stores ↔ sound))

section Stores
variable {conn middle after : Conn} {given given' sound sound' : Prop}

/-- Nothing is stored when only other fields are written. -/
theorem Stored.none (updates : after.updates = conn.updates) (sizes : after.sizes = conn.sizes) :
    Stored conn after given True :=
  ⟨[], by rw [updates, List.append_nil], sizes, fun _ => iff_of_true (guarded_nil _ _ _) trivial⟩

theorem Stored.update (conn : Conn) (update : Update) :
    Stored conn (conn.update update) given (Fits conn.sizes update) := by
  refine ⟨[update], rfl, rfl, fun _ => ?_⟩
  rw [guarded_cons, and_iff_left (guarded_nil _ _ _)]

theorem Stored.trans (first : Stored conn middle given sound)
    (second : Stored middle after given' sound') (next : given → sound → given') :
    Stored conn after given (sound ∧ sound') := by
  obtain ⟨early, updates, sizes, exact_first⟩ := first
  obtain ⟨late, updates', sizes', exact_second⟩ := second
  refine ⟨early ++ late, by rw [updates', updates, List.append_assoc],
    by rw [sizes', sizes, List.foldl_append], fun holds => ?_⟩
  rw [guarded_append, exact_first holds, ← sizes]
  exact and_congr_right fun sound => exact_second (next holds sound)

theorem Stored.congr (stored : Stored conn after given sound) (weaker : given' → given)
    (same : given' → (sound ↔ sound')) : Stored conn after given' sound' := by
  obtain ⟨stores, updates, sizes, exact⟩ := stored
  exact ⟨stores, updates, sizes, fun holds => (exact (weaker holds)).trans (same holds)⟩

end Stores

/-- buf_enc can take so many bytes. -/
structure Spare (count : Nat) (sizes : Sizes) : Prop where
  inside : sizes.bufEncDataSize.toNat ≤ sizes.bufEncSize.toNat
  small : sizes.bufEncSize.toNat < 2 ^ 63
  few : sizes.bufEncDataSize.toNat + count < 2 ^ 61

/-- A call that leaves buf_in alone and serializes so many bytes into buf_enc. -/
structure Calls (conn after : Conn) (total : Nat) (lawful sound : Prop) : Prop where
  securityLevel : after.securityLevel = conn.securityLevel
  server : after.server = conn.server
  queueMsg : after.queueMsg = conn.queueMsg
  freed : after.freed = conn.freed
  bufferDataLen : after.bufferDataLen = conn.bufferDataLen
  bufInSize : after.sizes.bufInSize = conn.sizes.bufInSize
  bufInOffset : after.sizes.bufInOffset = conn.sizes.bufInOffset
  bufInDataSize : after.sizes.bufInDataSize = conn.sizes.bufInDataSize
  spare : ∀ count, Spare (total + count) conn.sizes → Spare count after.sizes
  stored : Stored conn after (Spare total conn.sizes ∧ lawful) sound

section Calls
variable {conn middle after : Conn} {total total' : Nat} {lawful lawful' sound sound' : Prop}

theorem Spare.less {sizes : Sizes} (spare : Spare total sizes) (less : total' ≤ total) :
    Spare total' sizes :=
  ⟨spare.inside, spare.small, by have := spare.few; omega⟩

theorem Calls.trans (first : Calls conn middle total lawful sound)
    (second : Calls middle after total' lawful' sound') :
    Calls conn after (total + total') (lawful ∧ lawful') (sound ∧ sound') where
  securityLevel := second.securityLevel.trans first.securityLevel
  server := second.server.trans first.server
  queueMsg := second.queueMsg.trans first.queueMsg
  freed := second.freed.trans first.freed
  bufferDataLen := second.bufferDataLen.trans first.bufferDataLen
  bufInSize := second.bufInSize.trans first.bufInSize
  bufInOffset := second.bufInOffset.trans first.bufInOffset
  bufInDataSize := second.bufInDataSize.trans first.bufInDataSize
  spare count spare := second.spare count (first.spare _ (by rwa [← Nat.add_assoc]))
  stored := by
    have early : Stored conn middle (Spare (total + total') conn.sizes ∧ lawful ∧ lawful') sound :=
      first.stored.congr (fun both => ⟨both.1.less (Nat.le_add_right _ _), both.2.1⟩)
        fun _ => Iff.rfl
    exact early.trans second.stored fun both _ => ⟨first.spare _ both.1, both.2.2⟩

theorem Calls.congr (calls : Calls conn after total lawful sound) (same : total = total')
    (weaker : lawful' → lawful) (exact : lawful' → (sound ↔ sound')) :
    Calls conn after total' lawful' sound' :=
  { calls with
    spare := same ▸ calls.spare
    stored := calls.stored.congr (fun both => ⟨same ▸ both.1, weaker both.2⟩)
      fun both => exact both.2 }

/-- Another status is no store. -/
theorem Calls.none (conn : Conn) (status : KryptStatus) :
    Calls conn { conn with status := status } 0 True True where
  securityLevel := rfl
  server := rfl
  queueMsg := rfl
  freed := rfl
  bufferDataLen := rfl
  bufInSize := rfl
  bufInOffset := rfl
  bufInDataSize := rfl
  spare count spare := ⟨spare.inside, spare.small, Nat.zero_add count ▸ spare.few⟩
  stored := .none rfl rfl

theorem Calls.refl (conn : Conn) : Calls conn conn 0 True True := Calls.none conn conn.status

/-- What a read returned is stored. -/
theorem Calls.encryptStored (conn : Conn) (nbyte : CInt) :
    Calls conn (conn.update (.encryptStored nbyte)) 0 (nbyte.toInt ≤ 1000000)
      (0 ≤ nbyte.toInt) where
  securityLevel := rfl
  server := rfl
  queueMsg := rfl
  freed := rfl
  bufferDataLen := rfl
  bufInSize := rfl
  bufInOffset := rfl
  bufInDataSize := rfl
  spare count spare := ⟨spare.inside, spare.small, Nat.zero_add count ▸ spare.few⟩
  stored := (Stored.update conn _).congr id fun both => and_iff_left both.2

theorem Calls.decryptStored (conn : Conn) (nbyte : CInt) :
    Calls conn (conn.update (.decryptStored nbyte)) 0 (nbyte.toInt ≤ 1000000)
      (0 ≤ nbyte.toInt) where
  securityLevel := rfl
  server := rfl
  queueMsg := rfl
  freed := rfl
  bufferDataLen := rfl
  bufInSize := rfl
  bufInOffset := rfl
  bufInDataSize := rfl
  spare count spare := ⟨spare.inside, spare.small, Nat.zero_add count ▸ spare.few⟩
  stored := (Stored.update conn _).congr id fun both => and_iff_left both.2

theorem Calls.encEmptied (conn : Conn) :
    Calls conn (conn.update .encEmptied) 0 True True where
  securityLevel := rfl
  server := rfl
  queueMsg := rfl
  freed := rfl
  bufferDataLen := rfl
  bufInSize := rfl
  bufInOffset := rfl
  bufInDataSize := rfl
  spare count spare := by
    have few := spare.few
    refine ⟨?_, spare.small, ?_⟩
    · simp [Conn.update, Sizes.apply]
    · simp only [Conn.update, Sizes.apply, BitVec.toNat_ofNat]
      omega
  stored := (Stored.update conn _).congr id fun _ => Iff.rfl

/-- buf_enc has no offset: what does not fit makes it grow. -/
theorem Calls.serializeBufEnc (conn : Conn) (dataSize : Word) :
    Calls conn (conn.update (.serializeBufEnc dataSize)) dataSize.toNat True True where
  securityLevel := rfl
  server := rfl
  queueMsg := rfl
  freed := rfl
  bufferDataLen := rfl
  bufInSize := rfl
  bufInOffset := rfl
  bufInDataSize := rfl
  spare count spare := by
    obtain ⟨inside, small, few⟩ := spare
    have data : (conn.sizes.bufEncDataSize + dataSize).toNat =
        conn.sizes.bufEncDataSize.toNat + dataSize.toNat := by
      rw [BitVec.toNat_add, Nat.mod_eq_of_lt (by omega)]
    simp only [Conn.update, Sizes.apply, serialize, gt_iff_lt, BitVec.lt_def]
    rw [data]
    by_cases fires : conn.sizes.bufEncSize.toNat <
        conn.sizes.bufEncDataSize.toNat + dataSize.toNat
    · have grown : ((conn.sizes.bufEncSize + dataSize) * 2#64).toNat =
          (conn.sizes.bufEncSize.toNat + dataSize.toNat) * 2 := by
        rw [BitVec.toNat_mul, BitVec.toNat_add]
        simp only [BitVec.toNat_ofNat]
        omega
      rw [if_pos fires]
      exact ⟨by dsimp only; omega, by dsimp only; omega, by dsimp only; omega⟩
    · rw [if_neg fires]
      exact ⟨by dsimp only; omega, small, by dsimp only; omega⟩
  stored := (Stored.update conn _).congr id fun both => by
    obtain ⟨inside, small, few⟩ := both.1
    refine iff_of_true (Or.inr ?_) trivial
    simp only [BitVec.toNat_ofNat]
    split <;> omega

end Calls

/-! ## Sends -/

theorem netDoKrypt_calls (sent : Int) (conn : Conn) :
    Calls conn (netDoKrypt sent conn) 0 True True := by
  unfold netDoKrypt
  split
  · exact (Calls.encryptStored conn 0#32).congr rfl (fun _ => by decide)
      fun _ => iff_of_true (by decide) trivial
  · exact Calls.refl conn

theorem kryptDoHandshake_calls (shake : Shake) (conn : Conn) :
    Calls conn (kryptDoHandshake shake conn).2 0 shake.Lawful shake.Sound := by
  have moved := Calls.none conn (shake.outcome conn.status).2
  unfold kryptDoHandshake
  dsimp only
  by_cases pending : shake.pending > 0
  · rw [if_pos pending]
    exact (moved.trans (Calls.encryptStored _ shake.bioRead)).congr rfl
      (fun lawful => ⟨trivial, lawful⟩)
      fun _ => ⟨fun both _ => both.2, fun sound => ⟨trivial, sound pending⟩⟩
  · rw [if_neg pending]
    exact moved.congr rfl (fun _ => trivial)
      fun _ => iff_of_true trivial fun some => absurd some pending

theorem kryptDecryptBuf_calls (decryption : Decryption) (conn : Conn) :
    Calls conn (kryptDecryptBuf decryption conn).2 0 decryption.Lawful decryption.Sound := by
  have emptied := Calls.decryptStored conn 0#32
  unfold kryptDecryptBuf
  by_cases failed : decryption.sslRead.toInt ≤ 0
  · rw [if_pos failed]
    dsimp only
    by_cases more : decryption.error = .wantRead
    · rw [if_pos more]
      exact (emptied.trans (Calls.encryptStored _ decryption.bioRead)).congr rfl
        (fun lawful => ⟨by decide, lawful.2⟩)
        fun _ => ⟨fun both _ _ => both.2, fun sound => ⟨by decide, sound failed more⟩⟩
    · rw [if_neg more]
      exact emptied.congr rfl (fun _ => by decide)
        fun _ => iff_of_true (by decide) fun _ same => absurd same more
  · rw [if_neg failed]
    exact (Calls.decryptStored conn decryption.sslRead).congr rfl And.left
      fun _ => iff_of_true (by omega) fun few => absurd few failed

theorem kryptEncryptBuf_calls (encryption : Encryption) (conn : Conn) :
    Calls conn (kryptEncryptBuf encryption conn).2 0 (encryption.bioRead.toInt ≤ 1000000)
      True := by
  have emptied : Calls conn (conn.update (.encryptStored 0#32)) 0 True True :=
    (Calls.encryptStored conn 0#32).congr rfl (fun _ => by decide)
      fun _ => iff_of_true (by decide) trivial
  have read : Calls conn (if encryption.bioRead.toInt > 0 then
      (conn.update (.encryptStored 0#32)).update (.encryptStored encryption.bioRead)
      else conn.update (.encryptStored 0#32)) 0 (encryption.bioRead.toInt ≤ 1000000) True := by
    split
    · exact (emptied.trans (Calls.encryptStored _ encryption.bioRead)).congr rfl
        (fun lawful => ⟨trivial, lawful⟩) fun _ => iff_of_true ⟨trivial, by omega⟩ trivial
    · exact emptied.congr rfl (fun _ => trivial) fun _ => Iff.rfl
  unfold kryptEncryptBuf
  dsimp only
  by_cases failed : conn.sizes.bufEncDataSize ≠ 0#64 ∧ encryption.result = .failed
  · rw [if_pos failed]
    exact (Calls.refl conn).congr rfl (fun _ => trivial) fun _ => Iff.rfl
  · rw [if_neg failed, apply_ite Prod.snd, ite_self]
    exact read

theorem encryptLoop_calls (rounds : List Encryption) {conn after : Conn}
    (done : encryptLoop rounds conn = some after) :
    Calls conn after 0 (∀ encryption ∈ rounds, encryption.bioRead.toInt ≤ 1000000) True := by
  induction rounds generalizing conn with
  | nil => cases done
  | cons encryption rest inductionHypothesis =>
    have round := (kryptEncryptBuf_calls encryption conn).trans
      (Calls.encryptStored (kryptEncryptBuf encryption conn).2 0#32)
    have marked : Calls conn (if (kryptEncryptBuf encryption conn).1 = -2 then
        ((kryptEncryptBuf encryption conn).2.update (.encryptStored 0#32)).update .encEmptied
        else (kryptEncryptBuf encryption conn).2.update (.encryptStored 0#32)) 0
        (encryption.bioRead.toInt ≤ 1000000) True := by
      split
      · exact (round.trans (Calls.encEmptied _)).congr rfl
          (fun lawful => ⟨⟨lawful, by decide⟩, trivial⟩)
          fun _ => iff_of_true ⟨⟨trivial, by decide⟩, trivial⟩ trivial
      · exact round.congr rfl (fun lawful => ⟨lawful, by decide⟩)
          fun _ => iff_of_true ⟨trivial, by decide⟩ trivial
    have first : ∀ lawful : ∀ other ∈ encryption :: rest, other.bioRead.toInt ≤ 1000000,
        encryption.bioRead.toInt ≤ 1000000 := fun lawful => lawful encryption List.mem_cons_self
    rw [encryptLoop] at done
    dsimp only at done
    split at done
    · refine (marked.trans (inductionHypothesis done)).congr rfl (fun lawful => ⟨first lawful,
        fun other inside => lawful other (List.mem_cons_of_mem _ inside)⟩) fun _ => ?_
      exact iff_of_true ⟨trivial, trivial⟩ trivial
    · exact Option.some.inj done ▸ marked.congr rfl first fun _ => Iff.rfl

theorem serializeChunks_calls (chunks : List Word) (conn : Conn) :
    Calls conn (serializeChunks chunks conn) (chunks.map BitVec.toNat).sum True True := by
  induction chunks generalizing conn with
  | nil => exact Calls.refl conn
  | cons chunk rest inductionHypothesis =>
    refine ((Calls.serializeBufEnc conn chunk).trans (inductionHypothesis _)).congr
      (by rw [List.map_cons, List.sum_cons]) (fun _ => ⟨trivial, trivial⟩) fun _ => ?_
    exact iff_of_true ⟨trivial, trivial⟩ trivial

theorem netSendMsg_calls (sending : Sending) {conn after : Conn}
    (done : netSendMsg sending conn = some after) :
    Calls conn after (Action.sendMsg sending).encoded (Action.sendMsg sending).Lawful True := by
  have chunks := serializeChunks_calls sending.chunks conn
  have ended : ∀ {handed : Conn},
      Calls (serializeChunks sending.chunks conn) handed 0 (Action.sendMsg sending).Lawful True →
      Calls conn handed (Action.sendMsg sending).encoded (Action.sendMsg sending).Lawful True :=
    fun later => (chunks.trans later).congr rfl (fun lawful => ⟨trivial, lawful⟩)
      fun _ => iff_of_true ⟨trivial, trivial⟩ trivial
  have emptied : ∀ conn : Conn,
      Calls conn (conn.update .encEmptied) 0 (Action.sendMsg sending).Lawful True :=
    fun conn => (Calls.encEmptied conn).congr rfl (fun _ => trivial) fun _ => Iff.rfl
  unfold netSendMsg at done
  dsimp only at done
  split at done
  · exact Option.some.inj done ▸ ended (emptied _)
  · split at done
    · exact Option.some.inj done ▸ chunks.congr rfl (fun _ => trivial) fun _ => Iff.rfl
    · split at done
      · exact Option.some.inj done ▸ ended (emptied _)
      · obtain ⟨handed, looped, done⟩ := Option.bind_eq_some_iff.mp done
        have looped := (encryptLoop_calls sending.rounds looped).trans (emptied handed)
        exact Option.some.inj done ▸ ended (looped.congr rfl (fun lawful => ⟨lawful, lawful⟩)
          fun _ => iff_of_true ⟨trivial, trivial⟩ trivial)

/-- The step of a handshake that a server takes. -/
theorem netStepUp_calls (shake : Shake) {conn after : Conn}
    (done : netStepUp shake conn = some after) :
    Calls conn after 0 shake.Lawful (conn.server = true → shake.Sound) := by
  unfold netStepUp at done
  by_cases server : conn.server = false
  · rw [if_pos server, Option.some.injEq] at done
    subst done
    refine (Calls.refl conn).congr rfl (fun _ => trivial) fun _ => iff_of_true trivial ?_
    rw [server]
    intro impossible
    cases impossible
  · rw [if_neg server] at done
    split at done
    · cases done
    · obtain rfl := Option.some.inj done
      have shaken := (kryptDoHandshake_calls shake conn).trans
        ((netDoKrypt_calls shake.sent _).trans (Calls.none _ .handshake))
      refine shaken.congr rfl (fun lawful => ⟨lawful, trivial, trivial⟩) fun _ => ?_
      exact ⟨fun both _ => both.1, fun sound =>
        ⟨sound (by simpa using server), trivial, trivial⟩⟩

theorem perform_calls (action : Action) {conn after : Conn}
    (done : perform conn action = some after) :
    Calls conn after action.encoded action.Lawful (action.Sound conn.server) := by
  cases action with
  | sendMsg sending => exact netSendMsg_calls sending done
  | stepUp shake => exact netStepUp_calls shake done

/-- The calls of a callback. -/
theorem performs_calls (actions : List Action) {conn after : Conn}
    (done : actions.foldlM perform conn = some after) :
    Calls conn after (encoded actions) (∀ action ∈ actions, action.Lawful)
      (∀ action ∈ actions, action.Sound conn.server) := by
  induction actions generalizing conn with
  | nil =>
    obtain rfl := Option.some.inj done
    exact (Calls.refl conn).congr rfl (fun _ => trivial)
      fun _ => iff_of_true trivial fun action inside => by cases inside
  | cons action rest inductionHypothesis =>
    obtain ⟨middle, first, later⟩ := Option.bind_eq_some_iff.mp done
    have called := perform_calls action first
    refine (called.trans (inductionHypothesis later)).congr
      (by rw [encoded, encoded, List.map_cons, List.sum_cons])
      (fun lawful => List.forall_mem_cons.mp lawful) fun _ => ?_
    rw [called.server, List.forall_mem_cons]

/-! ## The status -/

section Status
variable {conn after : Conn}

theorem netDoKrypt_status (sent : Int) : (netDoKrypt sent conn).status = conn.status := by
  unfold netDoKrypt
  split <;> rfl

theorem kryptDoHandshake_status (shake : Shake) :
    (kryptDoHandshake shake conn).2.status = (shake.outcome conn.status).2 := by
  unfold kryptDoHandshake
  dsimp only
  split <;> rfl

theorem kryptDecryptBuf_status (decryption : Decryption) :
    (kryptDecryptBuf decryption conn).2.status = conn.status := by
  unfold kryptDecryptBuf
  split
  · dsimp only
    split <;> rfl
  · rfl

theorem kryptEncryptBuf_status (encryption : Encryption) :
    (kryptEncryptBuf encryption conn).2.status = conn.status := by
  unfold kryptEncryptBuf
  dsimp only
  repeat' split
  all_goals rfl

theorem encryptLoop_status (rounds : List Encryption)
    (done : encryptLoop rounds conn = some after) : after.status = conn.status := by
  induction rounds generalizing conn with
  | nil => cases done
  | cons encryption rest inductionHypothesis =>
    have round : (kryptEncryptBuf encryption conn).2.status = conn.status :=
      kryptEncryptBuf_status encryption
    have marked : (if (kryptEncryptBuf encryption conn).1 = -2 then
        ((kryptEncryptBuf encryption conn).2.update (.encryptStored 0#32)).update .encEmptied
        else (kryptEncryptBuf encryption conn).2.update (.encryptStored 0#32)).status =
          conn.status := by
      split <;> exact round
    rw [encryptLoop] at done
    dsimp only at done
    split at done
    · exact (inductionHypothesis done).trans marked
    · exact Option.some.inj done ▸ marked

theorem serializeChunks_status (chunks : List Word) :
    (serializeChunks chunks conn).status = conn.status := by
  induction chunks generalizing conn with
  | nil => rfl
  | cons chunk rest inductionHypothesis => exact inductionHypothesis

theorem netSendMsg_status (sending : Sending) (done : netSendMsg sending conn = some after) :
    after.status = conn.status := by
  have chunks : (serializeChunks sending.chunks conn).status = conn.status :=
    serializeChunks_status sending.chunks
  unfold netSendMsg at done
  dsimp only at done
  split at done
  · exact Option.some.inj done ▸ chunks
  · split at done
    · exact Option.some.inj done ▸ chunks
    · split at done
      · exact Option.some.inj done ▸ chunks
      · obtain ⟨handed, looped, done⟩ := Option.bind_eq_some_iff.mp done
        exact Option.some.inj done ▸ (encryptLoop_status sending.rounds looped).trans chunks

/-- A server that steps up is in the handshake again. -/
theorem performs_status (actions : List Action) (done : actions.foldlM perform conn = some after) :
    after.status =
      if conn.server && actions.any Action.isStepUp then .handshake else conn.status := by
  induction actions generalizing conn with
  | nil =>
    obtain rfl := Option.some.inj done
    simp
  | cons action rest inductionHypothesis =>
    obtain ⟨middle, first, later⟩ := Option.bind_eq_some_iff.mp done
    rw [inductionHypothesis later, (perform_calls action first).server]
    cases action with
    | sendMsg sending => simp [Action.isStepUp, netSendMsg_status sending first]
    | stepUp shake =>
      simp only [perform, netStepUp] at first
      by_cases server : conn.server = false
      · rw [if_pos server, Option.some.injEq] at first
        subst first
        simp [server]
      · rw [if_neg server] at first
        split at first
        · cases first
        · obtain rfl := Option.some.inj first
          simp [server, Action.isStepUp]

end Status

end NetVirt.BufferSizes
