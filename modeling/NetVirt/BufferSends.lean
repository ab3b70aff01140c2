import NetVirt.BufferConditions

/-!
# The sizes of a send

The send side of a connection is followed twice: for the bytes that it hands over, in
`SendPath`, and for what it stores in the sizes, with the results of the libraries given. The
two agree. Where the sizes are those of the bytes in the buffers, whatever a send does to the
bytes is measured by a send of the other kind, which finds what OpenSSL returned to the first
and is lawful as long as no machine word overflows.
-/

namespace NetVirt.BufferSizes

open SendPath (DerEncoder KryptStatus Krypt Netc SecurityLevel Ssl Transport WriteResult)

variable {Message Object Peer : Type}

/-- The sizes of a connection are those of the bytes in its buffers. -/
structure Measures (conn : Conn) (netc : Netc Object Peer) : Prop where
  securityLevel : conn.securityLevel = netc.securityLevel
  status : conn.status = netc.kconn.status
  bufEnc : conn.sizes.bufEncDataSize.toNat = netc.bufEnc.length
  bufEncrypt : conn.sizes.bufEncryptDataSize.toNat = netc.kconn.bufEncrypt.length

/-- New connections of the same kind. -/
theorem new_measures (securityLevel : SecurityLevel) (server : Bool) (object : Object)
    (peer : Peer) : Measures (netConnectionNew securityLevel server)
      (SendPath.netConnectionNew securityLevel object peer) :=
  ⟨rfl, rfl, rfl, rfl⟩

namespace Measures
variable {conn : Conn} {netc : Netc Object Peer} (measures : Measures conn netc)
include measures

theorem writes_iff : conn.sizes.bufEncDataSize ≠ 0#64 ↔ netc.bufEnc ≠ [] := by
  have size := measures.bufEnc
  rw [ne_eq, ne_eq, not_iff_not, ← List.length_eq_zero_iff, ← size]
  exact (BitVec.toNat_inj (y := 0#64)).symm

theorem emptied : Measures (conn.update .encEmptied) { netc with bufEnc := [] } :=
  ⟨measures.securityLevel, measures.status, rfl, measures.bufEncrypt⟩

/-- The queue and the transport have no sizes here. -/
theorem queued (buf : List UInt8) : Measures conn (SendPath.netQueueOut netc buf) :=
  ⟨measures.securityLevel, measures.status, measures.bufEnc, measures.bufEncrypt⟩

theorem flushed (transport : Transport Peer) :
    Measures conn (SendPath.netFlushQueueOut transport netc).2 :=
  ⟨measures.securityLevel, measures.status, measures.bufEnc, measures.bufEncrypt⟩

end Measures

/-! ## One call of krypt_encrypt_buf -/

/-- What the call finds: the result of SSL_write, and what can be read behind it. -/
def found (ssl : Ssl Object) (result : WriteResult) (kconn : Krypt Object) : Encryption :=
  { result := result
    bioRead := BitVec.ofNat 32 (kconn.read ssl).bufEncrypt.length
    pending := ssl.bioCtrlPending (kconn.read ssl).ssl }

/-- A number of bytes that BIO_read was asked for is an int. -/
theorem found_toInt (ssl : Ssl Object) (result : WriteResult) (kconn : Krypt Object) :
    (found ssl result kconn).bioRead.toInt = (kconn.read ssl).bufEncrypt.length ∧
      (kconn.read ssl).bufEncrypt.length ≤ 1000000 := by
  have most : (kconn.read ssl).bufEncrypt.length ≤ 1000000 := by
    simp only [Krypt.read, ssl.taken, List.length_take, SendPath.bufEncryptSize]
    exact Nat.min_le_left _ _
  refine ⟨?_, most⟩
  rw [found, BitVec.toInt_eq_toNat_of_lt, BitVec.toNat_ofNat]
  · omega
  · rw [BitVec.toNat_ofNat]
    omega

section Encrypting
variable {conn : Conn} {netc : Netc Object Peer} (measures : Measures conn netc) (ssl : Ssl Object)
  {kconn : Krypt Object} (same : kconn.status = netc.kconn.status) (result : WriteResult)
include measures same

/-- Unless the write failed, the network BIO is read, and the connection measures what the
other one has then. -/
theorem kryptEncryptBuf_found
    (goes : netc.bufEnc = [] ∨ result ≠ .failed) :
    (kryptEncryptBuf (found ssl result kconn) conn).1 =
        (if netc.bufEnc ≠ [] ∧ result = .wantWrite then -1
          else SendPath.leftOver ssl (kconn.read ssl).ssl) ∧
      Measures (kryptEncryptBuf (found ssl result kconn) conn).2
        { netc with kconn := kconn.read ssl } := by
  obtain ⟨count, most⟩ := found_toInt ssl result kconn
  have writes := measures.writes_iff
  have pending : (found ssl result kconn).pending > 0 ↔
      ssl.contents (kconn.read ssl).ssl ≠ [] := by
    rw [← SendPath.pending_iff]
    exact Int.natCast_pos
  have word := word_toNat (found ssl result kconn).bioRead
  rw [count, if_pos (Int.natCast_nonneg _)] at word
  have read : Measures (if (found ssl result kconn).bioRead.toInt > 0 then
      (conn.update (.encryptStored 0#32)).update (.encryptStored (found ssl result kconn).bioRead)
      else conn.update (.encryptStored 0#32)) { netc with kconn := kconn.read ssl } := by
    split
    · exact ⟨measures.securityLevel, measures.status.trans same.symm, measures.bufEnc,
        Int.natCast_inj.mp word⟩
    · next nothing =>
      have none : (kconn.read ssl).bufEncrypt.length = 0 := by omega
      exact ⟨measures.securityLevel, measures.status.trans same.symm, measures.bufEnc, none.symm⟩
  have onward : ¬ (conn.sizes.bufEncDataSize ≠ 0#64 ∧
      (found ssl result kconn).result = .failed) := by
    rw [writes]
    exact fun both => goes.elim both.1 (fun other => other both.2)
  have blocks : (conn.sizes.bufEncDataSize ≠ 0#64 ∧
      (found ssl result kconn).result = .wantWrite) ↔ netc.bufEnc ≠ [] ∧ result = .wantWrite :=
    and_congr_left fun _ => writes
  unfold kryptEncryptBuf
  dsimp only
  rw [if_neg onward]
  by_cases waits : netc.bufEnc ≠ [] ∧ result = .wantWrite
  · rw [if_pos (blocks.mpr waits), if_pos waits, if_neg (by simp)]
    exact ⟨rfl, read⟩
  · rw [if_neg (fun both => waits (blocks.mp both)), if_neg waits]
    by_cases empty : ssl.contents (kconn.read ssl).ssl = []
    · rw [if_neg (fun both => pending.mp both.2 empty), SendPath.leftOver, if_pos empty]
      exact ⟨rfl, read⟩
    · rw [if_pos ⟨by decide, pending.mpr empty⟩, SendPath.leftOver, if_neg empty]
      exact ⟨rfl, read⟩

omit same in
/-- Each call of krypt_encrypt_buf is measured by one that finds what it found. -/
theorem kryptEncryptBuf_measured : ∃ encryption, encryption.bioRead.toInt ≤ 1000000 ∧
    (kryptEncryptBuf encryption conn).1 =
      (SendPath.kryptEncryptBuf ssl netc.kconn netc.bufEnc).1 ∧
    Measures (kryptEncryptBuf encryption conn).2
      { netc with kconn := (SendPath.kryptEncryptBuf ssl netc.kconn netc.bufEnc).2 } := by
  have small : ∀ result (kconn : Krypt Object),
      (found ssl result kconn).bioRead.toInt ≤ 1000000 := by
    intro result kconn
    obtain ⟨count, most⟩ := found_toInt ssl result kconn
    omega
  by_cases empty : netc.bufEnc = []
  · obtain ⟨code, kept⟩ := kryptEncryptBuf_found measures ssl rfl .accepted (Or.inl empty)
    refine ⟨found ssl .accepted netc.kconn, small _ _, ?_, ?_⟩
    · rw [code, if_neg (by simp), empty, SendPath.kryptEncryptBuf_idle]
    · rw [empty, SendPath.kryptEncryptBuf_idle]
      rwa [empty] at kept
  · have written : (netc.kconn.written ssl netc.bufEnc).status = netc.kconn.status := rfl
    rcases SendPath.write_cases ssl netc.kconn.ssl netc.bufEnc with done | blocked | failed
    · obtain ⟨code, kept⟩ := kryptEncryptBuf_found measures ssl written .accepted
        (Or.inr (by decide))
      rw [SendPath.kryptEncryptBuf_done ssl netc.kconn netc.bufEnc empty done]
      exact ⟨_, small _ _, by rw [code, if_neg (by simp)], kept⟩
    · obtain ⟨code, kept⟩ := kryptEncryptBuf_found measures ssl written .wantWrite
        (Or.inr (by decide))
      rw [SendPath.kryptEncryptBuf_blocked ssl netc.kconn netc.bufEnc empty blocked]
      exact ⟨_, small _ _, by rw [code, if_pos ⟨empty, rfl⟩], kept⟩
    · -- After a fatal error nothing is read or stored.
      have stopped : kryptEncryptBuf ⟨.failed, 0#32, 0⟩ conn = (-1, conn) :=
        if_pos ⟨measures.writes_iff.mpr empty, rfl⟩
      rw [SendPath.kryptEncryptBuf_failed ssl netc.kconn netc.bufEnc empty failed]
      refine ⟨⟨.failed, 0#32, 0⟩, by decide, by rw [stopped], ?_⟩
      rw [stopped]
      exact ⟨measures.securityLevel, measures.status, measures.bufEnc, measures.bufEncrypt⟩

end Encrypting

/-! ## The loop -/

/-- What a round of the loop stores. -/
def encryptRound (encryption : Encryption) (conn : Conn) : Conn :=
  let stored := (kryptEncryptBuf encryption conn).2.update (.encryptStored 0#32)
  if (kryptEncryptBuf encryption conn).1 = -2 then stored.update .encEmptied else stored

theorem encryptLoop_cons (encryption : Encryption) (rest : List Encryption) (conn : Conn) :
    encryptLoop (encryption :: rest) conn =
      if (kryptEncryptBuf encryption conn).1 < 0 then
        encryptLoop rest (encryptRound encryption conn)
      else some (encryptRound encryption conn) := rfl

theorem encryptLoop_measured (ssl : Ssl Object) (fuel : Nat) {conn : Conn}
    {netc after : Netc Object Peer} (measures : Measures conn netc)
    (done : SendPath.encryptLoop ssl fuel netc = some after) :
    ∃ rounds next, (∀ encryption ∈ rounds, encryption.bioRead.toInt ≤ 1000000) ∧
      encryptLoop rounds conn = some next ∧ Measures next after := by
  induction fuel generalizing conn netc with
  | zero => cases done
  | succ fuel inductionHypothesis =>
    obtain ⟨encryption, small, code, read⟩ := kryptEncryptBuf_measured measures ssl
    rw [SendPath.encryptLoop_succ] at done
    have left : Measures (encryptRound encryption conn) (SendPath.encryptRound ssl netc).2 := by
      unfold encryptRound SendPath.encryptRound
      dsimp only
      rw [code]
      split
      · exact ⟨read.securityLevel, read.status, rfl, rfl⟩
      · exact ⟨read.securityLevel, read.status, read.bufEnc, rfl⟩
    have same : (kryptEncryptBuf encryption conn).1 < 0 ↔
        (SendPath.encryptRound ssl netc).1 < 0 := by
      rw [code]
      rfl
    by_cases again : (SendPath.encryptRound ssl netc).1 < 0
    · rw [if_pos again] at done
      obtain ⟨rounds, next, smaller, ended, measures⟩ := inductionHypothesis left done
      refine ⟨encryption :: rounds, next, by simpa [small] using smaller, ?_, measures⟩
      rw [encryptLoop_cons, if_pos (same.mpr again)]
      exact ended
    · rw [if_neg again] at done
      obtain rfl := Option.some.inj done
      refine ⟨[encryption], _, by simpa using small, ?_, left⟩
      rw [encryptLoop_cons, if_neg (fun negative => again (same.mp negative))]

/-! ## net_send_msg -/

/-- The chunks of an encoding, as serialize_buf_enc is given them. -/
theorem serializeChunks_measured (chunks : List (List UInt8)) {conn : Conn}
    {netc : Netc Object Peer} (measures : Measures conn netc)
    (few : netc.bufEnc.length + chunks.flatten.length < 2 ^ 64) :
    Measures (serializeChunks (chunks.map fun chunk => BitVec.ofNat 64 chunk.length) conn)
      (chunks.foldl SendPath.serializeBufEnc netc) := by
  induction chunks generalizing conn netc with
  | nil => exact measures
  | cons chunk rest inductionHypothesis =>
    rw [List.flatten_cons, List.length_append] at few
    have size := measures.bufEnc
    refine inductionHypothesis ⟨measures.securityLevel, measures.status, ?_, measures.bufEncrypt⟩ ?_
    · show (conn.sizes.bufEncDataSize + BitVec.ofNat 64 chunk.length).toNat =
        (netc.bufEnc ++ chunk).length
      rw [BitVec.toNat_add, BitVec.toNat_ofNat, List.length_append]
      omega
    · simp only [SendPath.serializeBufEnc, List.length_append]
      omega

theorem netSendMsg_eq (chunks : List Word) (encoded : Bool) (rounds : List Encryption)
    (conn serialized : Conn) (same : serializeChunks chunks conn = serialized) :
    netSendMsg ⟨chunks, encoded, rounds⟩ conn =
      if encoded = false then some (serialized.update .encEmptied)
      else if serialized.securityLevel ≠ .unsecure ∧ serialized.status ≠ .secure then
        some serialized
      else if serialized.securityLevel = .unsecure then some (serialized.update .encEmptied)
      else (encryptLoop rounds serialized).map (·.update .encEmptied) := by
  subst same
  unfold netSendMsg
  by_cases plain : (serializeChunks chunks conn).securityLevel = .unsecure
  · simp only [plain, if_true]
    rfl
  · simp only [plain, if_false]
    cases encryptLoop rounds (serializeChunks chunks conn) <;> rfl

/-- The sizes of the chunks of a message. -/
def sizesOf (encoder : DerEncoder Message) (msg : Message) : List Word :=
  (encoder.chunks msg).map fun chunk => BitVec.ofNat 64 chunk.length

theorem sizesOf_sum (encoder : DerEncoder Message) (msg : Message)
    (few : (encoder.der msg).length < 2 ^ 64) :
    ((sizesOf encoder msg).map BitVec.toNat).sum = (encoder.der msg).length := by
  rw [sizesOf, List.map_map, DerEncoder.der, List.length_flatten]
  congr 1
  refine List.map_congr_left fun chunk inside => ?_
  have short := (List.sublist_flatten_of_mem inside).length_le
  exact (BitVec.toNat_ofNat _ _).trans (Nat.mod_eq_of_lt (Nat.lt_of_le_of_lt short few))

/-- A send of bytes is measured by a lawful send of as many bytes, as long as there are fewer
than 2^64 of them in buf_enc.

Proof: the chunks are serialized one after the other, and each round of the loop is measured
by a round that finds what OpenSSL returned. The queue and the transport have no sizes here. -/
theorem netSendMsg_measured (encoder : DerEncoder Message) (ssl : Ssl Object)
    (transport : Transport Peer) (fuel : Nat) {conn : Conn} {netc after : Netc Object Peer}
    {msg : Message} {ret : Int} (measures : Measures conn netc)
    (few : netc.bufEnc.length + (encoder.der msg).length < 2 ^ 64)
    (sent : SendPath.netSendMsg encoder ssl transport fuel netc msg = some (ret, after)) :
    ∃ sending next, (Action.sendMsg sending).Lawful ∧
      (Action.sendMsg sending).encoded = (encoder.der msg).length ∧
      netSendMsg sending conn = some next ∧ Measures next after := by
  have sum := sizesOf_sum encoder msg (by omega)
  obtain ⟨serialized, same, stored⟩ : ∃ serialized,
      serializeChunks (sizesOf encoder msg) conn = serialized ∧
        Measures serialized { netc with bufEnc := netc.bufEnc ++ encoder.der msg } :=
    ⟨_, rfl,
      SendPath.serialized netc _ ▸ serializeChunks_measured (encoder.chunks msg) measures few⟩
  have level := stored.securityLevel
  have status := stored.status
  have sends := fun encoded rounds =>
    netSendMsg_eq (sizesOf encoder msg) encoded rounds conn serialized same
  rw [SendPath.netSendMsg, SendPath.prepare_eq] at sent
  by_cases failed : encoder.encoded msg = false
  · rw [if_pos failed] at sent
    obtain ⟨_, rfl⟩ := Prod.mk.inj (Option.some.inj sent)
    exact ⟨⟨sizesOf encoder msg, false, []⟩, _, nofun, sum, by rw [sends, if_pos rfl],
      stored.emptied⟩
  rw [if_neg failed] at sent
  by_cases refused : netc.securityLevel ≠ .unsecure ∧ netc.kconn.status ≠ .secure
  · rw [if_pos refused] at sent
    obtain ⟨_, rfl⟩ := Prod.mk.inj (Option.some.inj sent)
    refine ⟨⟨sizesOf encoder msg, true, []⟩, _, nofun, sum, ?_, stored⟩
    rw [sends, if_neg nofun, level, status, if_pos refused]
  rw [if_neg refused] at sent
  obtain ⟨ready, handed, flushed⟩ := Option.bind_eq_some_iff.mp sent
  obtain ⟨_, rfl⟩ := Prod.mk.inj (Option.some.inj flushed)
  rw [SendPath.handOver] at handed
  by_cases plain : netc.securityLevel = .unsecure
  · rw [if_pos plain] at handed
    obtain rfl := Option.some.inj handed
    refine ⟨⟨sizesOf encoder msg, true, []⟩, _, nofun, sum, ?_,
      ((stored.queued _).emptied).flushed transport⟩
    rw [sends, if_neg nofun, level, status, if_neg refused, if_pos plain]
  · rw [if_neg plain] at handed
    obtain ⟨rounds, next, small, ended, measures⟩ := encryptLoop_measured ssl fuel stored handed
    refine ⟨⟨sizesOf encoder msg, true, rounds⟩, _, small, sum, ?_,
      measures.emptied.flushed transport⟩
    rw [sends, if_neg nofun, level, status, if_neg refused, if_neg plain, ended, Option.map_some]

end NetVirt.BufferSizes
