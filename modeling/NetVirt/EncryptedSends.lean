import NetVirt.QueueFlush

/-!
# Sends over the security layer

The loop of net_send_msg repeats a write until it counts as done, and drains the network BIO
along the way: what it queues is what the BIO held and what the writes added, in order. With
an SSL object that waits for nothing but room in its BIO this ends, and the plaintext is
accepted once. With others the loop may repeat a fatal error without end, and a write that
waits to read counts as done.
-/

namespace NetVirt.SendPath

variable {Message Object Peer : Type}

/-! ## Bytes are conserved -/

/-- Between two states SSL_write was called so, and what was queued is what the network BIO
held and was added to it, but for what it still holds. -/
def Conserves (ssl : Ssl Object) (before after : Netc Object Peer)
    (calls : List (List UInt8 × SslWrite)) : Prop :=
  after.kconn.writes = before.kconn.writes ++ calls ∧
  ∃ buffers : List (List UInt8), after.queueOut = before.queueOut ++ buffers.map mbufNew ∧
    ssl.contents before.kconn.ssl ++ calls.flatMap (fun call => call.2.ciphertext) =
      buffers.flatten ++ ssl.contents after.kconn.ssl

theorem Conserves.trans {ssl : Ssl Object} {before middle after : Netc Object Peer}
    {first second : List (List UInt8 × SslWrite)} (early : Conserves ssl before middle first)
    (late : Conserves ssl middle after second) :
    Conserves ssl before after (first ++ second) := by
  obtain ⟨one, buffers, queued, bytes⟩ := early
  obtain ⟨two, others, later, rest⟩ := late
  refine ⟨by rw [two, one, List.append_assoc], buffers ++ others, ?_, ?_⟩
  · rw [later, queued, List.map_append, List.append_assoc]
  · rw [List.flatMap_append, ← List.append_assoc, bytes, List.append_assoc, rest,
      List.flatten_append, List.append_assoc]

/-- What BIO_read takes and what it leaves are what the BIO held. -/
theorem read_contents (ssl : Ssl Object) (kconn : Krypt Object) :
    (kconn.read ssl).bufEncrypt ++ ssl.contents (kconn.read ssl).ssl = ssl.contents kconn.ssl := by
  change (ssl.bioRead kconn.ssl bufEncryptSize).1 ++
    ssl.contents (ssl.bioRead kconn.ssl bufEncryptSize).2 = _
  rw [ssl.taken, ssl.left, List.take_append_drop]

/-- Reading a BIO that holds something leaves less. -/
theorem read_shorter (ssl : Ssl Object) (kconn : Krypt Object)
    (held : ssl.contents kconn.ssl ≠ []) :
    (ssl.contents (kconn.read ssl).ssl).length < (ssl.contents kconn.ssl).length := by
  change (ssl.contents (ssl.bioRead kconn.ssl bufEncryptSize).2).length < _
  have positive := List.length_pos_iff.mpr held
  rw [ssl.left, List.length_drop, bufEncryptSize]
  omega

section Rounds
variable (ssl : Ssl Object) (netc : Netc Object Peer)

/-- A round that has nothing to write. -/
theorem round_idle (idle : netc.bufEnc = []) :
    (encryptRound ssl netc).1 = leftOver ssl (encryptRound ssl netc).2.kconn.ssl ∧
    (encryptRound ssl netc).2.bufEnc = [] ∧
    (encryptRound ssl netc).2.kconn.ssl = (netc.kconn.read ssl).ssl ∧
    Conserves ssl netc (encryptRound ssl netc).2 [] := by
  unfold encryptRound
  rw [idle, kryptEncryptBuf_idle]
  refine ⟨rfl, by simp, rfl, by simp [Krypt.read], [(netc.kconn.read ssl).bufEncrypt],
    rfl, ?_⟩
  simpa using (read_contents ssl netc.kconn).symm

/-- The bytes of a round that writes and then reads the network BIO. -/
theorem round_conserves (buf : List UInt8) (next : Netc Object Peer)
    (writes : next.kconn.writes = (netc.kconn.written ssl buf).writes)
    (object : next.kconn.ssl = ((netc.kconn.written ssl buf).read ssl).ssl)
    (queued : next.queueOut = netc.queueOut ++
      [mbufNew ((netc.kconn.written ssl buf).read ssl).bufEncrypt]) :
    Conserves ssl netc next [(buf, (ssl.sslWrite netc.kconn.ssl buf).1)] := by
  refine ⟨writes, [((netc.kconn.written ssl buf).read ssl).bufEncrypt], queued, ?_⟩
  have bytes := read_contents ssl (netc.kconn.written ssl buf)
  rw [object, List.flatten_singleton, bytes]
  simpa [Krypt.written] using (ssl.added netc.kconn.ssl buf).symm

/-- A round whose write has to wait for the network BIO. -/
theorem round_blocked (nonempty : netc.bufEnc ≠ [])
    (blocked : (ssl.sslWrite netc.kconn.ssl netc.bufEnc).1.result = .wantWrite) :
    (encryptRound ssl netc).1 = -1 ∧ (encryptRound ssl netc).2.bufEnc = netc.bufEnc ∧
    (encryptRound ssl netc).2.kconn.ssl = ((netc.kconn.written ssl netc.bufEnc).read ssl).ssl ∧
    Conserves ssl netc (encryptRound ssl netc).2
      [(netc.bufEnc, (ssl.sslWrite netc.kconn.ssl netc.bufEnc).1)] := by
  unfold encryptRound
  rw [kryptEncryptBuf_blocked ssl netc.kconn netc.bufEnc nonempty blocked]
  exact ⟨rfl, by simp, rfl, round_conserves ssl netc netc.bufEnc _ rfl rfl rfl⟩

/-- A round whose write counts as done. -/
theorem round_done (nonempty : netc.bufEnc ≠ [])
    (done : (ssl.sslWrite netc.kconn.ssl netc.bufEnc).1.result = .accepted ∨
      (ssl.sslWrite netc.kconn.ssl netc.bufEnc).1.result = .wantRead) :
    (encryptRound ssl netc).1 = leftOver ssl (encryptRound ssl netc).2.kconn.ssl ∧
    ((encryptRound ssl netc).1 = -2 → (encryptRound ssl netc).2.bufEnc = []) ∧
    Conserves ssl netc (encryptRound ssl netc).2
      [(netc.bufEnc, (ssl.sslWrite netc.kconn.ssl netc.bufEnc).1)] := by
  unfold encryptRound
  rw [kryptEncryptBuf_done ssl netc.kconn netc.bufEnc nonempty done]
  exact ⟨rfl, fun left => if_pos left, round_conserves ssl netc netc.bufEnc _ rfl rfl rfl⟩

/-- A round whose write met a fatal error. -/
theorem round_failed (nonempty : netc.bufEnc ≠ [])
    (failed : (ssl.sslWrite netc.kconn.ssl netc.bufEnc).1.result = .failed) :
    (encryptRound ssl netc).1 = -1 ∧ (encryptRound ssl netc).2.bufEnc = netc.bufEnc ∧
    (encryptRound ssl netc).2.kconn.ssl = (ssl.sslWrite netc.kconn.ssl netc.bufEnc).2 := by
  unfold encryptRound
  rw [kryptEncryptBuf_failed ssl netc.kconn netc.bufEnc nonempty failed]
  exact ⟨rfl, by simp, rfl⟩

end Rounds

/-! ## The end of the loop -/

/-- The loop ends in this state, with these calls of SSL_write and the network BIO empty. -/
def Ends (ssl : Ssl Object) (netc : Netc Object Peer) (calls : List (List UInt8 × SslWrite)) :
    Prop :=
  ∃ fuel after, encryptLoop ssl fuel netc = some after ∧ Conserves ssl netc after calls ∧
    ssl.contents after.kconn.ssl = []

/-- A round after which the loop goes on, and then ends. -/
theorem Ends.again {ssl : Ssl Object} {netc : Netc Object Peer}
    {first second : List (List UInt8 × SslWrite)} (retries : (encryptRound ssl netc).1 < 0)
    (conserves : Conserves ssl netc (encryptRound ssl netc).2 first)
    (ends : Ends ssl (encryptRound ssl netc).2 second) : Ends ssl netc (first ++ second) := by
  obtain ⟨fuel, after, done, later, empty⟩ := ends
  exact ⟨fuel + 1, after, by rw [encryptLoop_succ, if_pos retries, done], conserves.trans later,
    empty⟩

/-- A round after which the network BIO is empty ends the loop. -/
theorem Ends.last {ssl : Ssl Object} {netc : Netc Object Peer}
    {calls : List (List UInt8 × SslWrite)}
    (result : (encryptRound ssl netc).1 = leftOver ssl (encryptRound ssl netc).2.kconn.ssl)
    (conserves : Conserves ssl netc (encryptRound ssl netc).2 calls)
    (empty : ssl.contents (encryptRound ssl netc).2.kconn.ssl = []) : Ends ssl netc calls := by
  refine ⟨1, (encryptRound ssl netc).2, ?_, conserves, empty⟩
  rw [leftOver, if_pos empty] at result
  rw [encryptLoop_succ, if_neg (by omega)]

/-- With nothing to write, the loop drains the network BIO. The induction is on its length. -/
theorem idle_ends (ssl : Ssl Object) (length : Nat) (netc : Netc Object Peer)
    (idle : netc.bufEnc = []) (short : (ssl.contents netc.kconn.ssl).length ≤ length) :
    Ends ssl netc [] := by
  induction length generalizing netc with
  | zero =>
    obtain ⟨result, _, object, conserves⟩ := round_idle ssl netc idle
    refine Ends.last result conserves ?_
    have bytes := read_contents ssl netc.kconn
    rw [List.eq_nil_of_length_eq_zero (Nat.le_zero.mp short), List.append_eq_nil_iff] at bytes
    rw [object, bytes.2]
  | succ length inductionHypothesis =>
    obtain ⟨result, still, object, conserves⟩ := round_idle ssl netc idle
    by_cases empty : ssl.contents (encryptRound ssl netc).2.kconn.ssl = []
    · exact Ends.last result conserves empty
    · have negative := result
      rw [leftOver, if_neg empty] at negative
      refine Ends.again (by omega) conserves (inductionHypothesis _ still ?_)
      have held : ssl.contents netc.kconn.ssl ≠ [] := by
        intro nothing
        have bytes := read_contents ssl netc.kconn
        rw [nothing, List.append_eq_nil_iff] at bytes
        exact empty (object ▸ bytes.2)
      have shorter := read_shorter ssl netc.kconn held
      rw [object]
      omega

/-- A write that counts as done ends the loop. -/
theorem done_ends (ssl : Ssl Object) (netc : Netc Object Peer) (nonempty : netc.bufEnc ≠ [])
    (done : (ssl.sslWrite netc.kconn.ssl netc.bufEnc).1.result = .accepted ∨
      (ssl.sslWrite netc.kconn.ssl netc.bufEnc).1.result = .wantRead) :
    Ends ssl netc [(netc.bufEnc, (ssl.sslWrite netc.kconn.ssl netc.bufEnc).1)] := by
  obtain ⟨result, emptied, conserves⟩ := round_done ssl netc nonempty done
  by_cases empty : ssl.contents (encryptRound ssl netc).2.kconn.ssl = []
  · exact Ends.last result conserves empty
  · have negative := result
    rw [leftOver, if_neg empty] at negative
    exact Ends.again (by omega) conserves (idle_ends ssl _ _ (emptied negative) (Nat.le_refl _))

/-! ## Healthy objects -/

/-- SSL_write of the plaintext accepts it, or waits for the network BIO, which is full then.
A write that finds room there and has to wait again has less left to do, by some measure. -/
structure Healthy (ssl : Ssl Object) (plaintext : List UInt8) (left : Object → Nat) : Prop where
  sized : 0 < ssl.size
  answers : ∀ object, (ssl.sslWrite object plaintext).1.result = .accepted ∨
    (ssl.sslWrite object plaintext).1.result = .wantWrite
  full : ∀ object, (ssl.sslWrite object plaintext).1.result = .wantWrite →
    (ssl.contents (ssl.sslWrite object plaintext).2).length = ssl.size
  progress : ∀ object, (ssl.contents object).length < ssl.size →
    (ssl.sslWrite object plaintext).1.result = .wantWrite →
    left (ssl.sslWrite object plaintext).2 < left object
  kept : ∀ object size, left (ssl.bioRead object size).2 = left object

/-- The calls of SSL_write: some that have to wait, and one that accepts the plaintext. -/
def Once (plaintext : List UInt8) (calls : List (List UInt8 × SslWrite)) : Prop :=
  ∃ retries last, calls = (retries ++ [last]).map (fun call => (plaintext, call)) ∧
    (∀ call ∈ retries, call.result = .wantWrite) ∧ last.result = .accepted

theorem Once.retry {plaintext : List UInt8} {calls : List (List UInt8 × SslWrite)}
    (once : Once plaintext calls) (call : SslWrite) (waits : call.result = .wantWrite) :
    Once plaintext ((plaintext, call) :: calls) := by
  obtain ⟨retries, last, rfl, waiting, accepted⟩ := once
  refine ⟨call :: retries, last, rfl, fun other inside => ?_, accepted⟩
  rcases List.mem_cons.mp inside with rfl | later
  · exact waits
  · exact waiting other later

section Healthy
variable {ssl : Ssl Object} {plaintext : List UInt8} {left : Object → Nat}
  (healthy : Healthy ssl plaintext left)
include healthy

/-- After a round that had to wait there is room in the network BIO. -/
theorem Healthy.room (kconn : Krypt Object)
    (blocked : (ssl.sslWrite kconn.ssl plaintext).1.result = .wantWrite) :
    (ssl.contents ((kconn.written ssl plaintext).read ssl).ssl).length < ssl.size := by
  have full : (ssl.contents (kconn.written ssl plaintext).ssl).length = ssl.size :=
    healthy.full kconn.ssl blocked
  have sized := healthy.sized
  rw [← full]
  refine read_shorter ssl _ fun nothing => ?_
  rw [nothing, List.length_nil] at full
  omega

/-- From where there is room in the network BIO the loop ends, and the plaintext is accepted
once. The induction is on what is left to do. -/
theorem Healthy.ends_from_room (bound : Nat) (netc : Netc Object Peer)
    (holds : netc.bufEnc = plaintext) (nonempty : plaintext ≠ [])
    (room : (ssl.contents netc.kconn.ssl).length < ssl.size)
    (within : left netc.kconn.ssl < bound) :
    ∃ calls, Ends ssl netc calls ∧ Once plaintext calls := by
  induction bound generalizing netc with
  | zero => omega
  | succ bound inductionHypothesis =>
    subst holds
    rcases healthy.answers netc.kconn.ssl with accepted | blocked
    · exact ⟨_, done_ends ssl netc nonempty (Or.inl accepted), [], _, rfl, by simp, accepted⟩
    · obtain ⟨result, holds, object, conserves⟩ := round_blocked ssl netc nonempty blocked
      have less : left (encryptRound ssl netc).2.kconn.ssl < left netc.kconn.ssl := by
        rw [object]
        exact Nat.lt_of_le_of_lt (Nat.le_of_eq (healthy.kept _ _)) (healthy.progress _ room blocked)
      obtain ⟨calls, ends, once⟩ := inductionHypothesis _ holds
        (object ▸ healthy.room netc.kconn blocked) (by omega)
      exact ⟨_, ends.again (by omega) conserves, once.retry _ blocked⟩

/-- From anywhere: a first write may find the network BIO full. -/
theorem Healthy.ends (netc : Netc Object Peer) (holds : netc.bufEnc = plaintext)
    (nonempty : plaintext ≠ []) : ∃ calls, Ends ssl netc calls ∧ Once plaintext calls := by
  subst holds
  rcases healthy.answers netc.kconn.ssl with accepted | blocked
  · exact ⟨_, done_ends ssl netc nonempty (Or.inl accepted), [], _, rfl, by simp, accepted⟩
  · obtain ⟨result, holds, object, conserves⟩ := round_blocked ssl netc nonempty blocked
    obtain ⟨calls, ends, once⟩ := healthy.ends_from_room _ _ holds nonempty
      (object ▸ healthy.room netc.kconn blocked) (Nat.lt_succ_self _)
    exact ⟨_, ends.again (by omega) conserves, once.retry _ blocked⟩

end Healthy

/-- With a healthy SSL object, the loop of net_send_msg ends for every message that is not
refused: the plaintext is accepted by exactly one call of SSL_write, after calls that had to
wait, and the buffers that were queued are, one after the other, what the network BIO held
and the ciphertext of these calls, in order.

Proof: the message has a tag, so there is something to write. A healthy object accepts it
after finitely many calls that wait; induction over these follows the loop, each round moving
what the network BIO holds to the queue, until the round after the accepted write finds it
empty. -/
theorem encrypted_exactly_once (encoder : DerEncoder Message) (ssl : Ssl Object)
    (left : Object → Nat) (netc ready : Netc Object Peer) (msg : Message)
    (accepted : prepare encoder netc msg = .ok ready) (healthy : Healthy ssl ready.bufEnc left) :
    ∃ fuel after retries last, ∃ buffers : List (List UInt8),
      encryptLoop ssl fuel ready = some after ∧
      after.kconn.writes = ready.kconn.writes ++
        (retries ++ [last]).map (fun call => (ready.bufEnc, call)) ∧
      (∀ call ∈ retries, call.result = .wantWrite) ∧ last.result = .accepted ∧
      after.queueOut = ready.queueOut ++ buffers.map mbufNew ∧
      buffers.flatten = ssl.contents ready.kconn.ssl ++
        (retries ++ [last]).flatMap SslWrite.ciphertext ∧
      ssl.contents after.kconn.ssl = [] := by
  obtain ⟨encoded, same⟩ := prepare_ok encoder netc ready msg accepted
  have nonempty : ready.bufEnc ≠ [] := by
    rw [same]
    simp [DerEncoder.der, encoder.tagged msg encoded]
  obtain ⟨_, ⟨fuel, after, done, ⟨writes, buffers, queued, bytes⟩, empty⟩, retries, last, rfl,
    waits, once⟩ := healthy.ends ready rfl nonempty
  refine ⟨fuel, after, retries, last, buffers, done, writes, waits, once, queued, ?_, empty⟩
  rw [empty, List.append_nil, List.flatMap_map] at bytes
  exact bytes.symm

/-- The object that puts in what fits is healthy: what is left are the bytes not put in. -/
theorem sample_healthy (plaintext : List UInt8) :
    Healthy sampleSsl plaintext fun object => plaintext.length - object.done where
  sized := by decide
  answers object := by
    by_cases fits : (object.rest plaintext).length ≤ object.room
    · exact Or.inl (if_pos fits)
    · exact Or.inr (if_neg fits)
  full object blocked := by
    have long : ¬ (object.rest plaintext).length ≤ object.room := by
      intro fits
      simp [sampleSsl, SampleObject.write, fits] at blocked
    have inside := object.fits
    simp only [sampleSsl, SampleObject.write, List.length_append, List.length_take]
    rw [SampleObject.room] at long ⊢
    omega
  progress object room blocked := by
    have long : ¬ (object.rest plaintext).length ≤ object.room := by
      intro fits
      simp [sampleSsl, SampleObject.write, fits] at blocked
    have some : object.bio.length < 4 := room
    simp only [sampleSsl, SampleObject.write, if_neg long]
    rw [SampleObject.rest, List.length_drop, SampleObject.room] at long
    rw [SampleObject.room]
    omega
  kept _ _ := rfl

/-- A connection whose network BIO has room for one byte more. -/
def crampedNetc : Netc SampleObject Unit :=
  let fresh := netConnectionNew .secureAdh { bio := [1, 2, 3], done := 0, fits := by decide } ()
  { fresh with kconn := { fresh.kconn with status := .secure } }

theorem crampedNetc_sends : ∃ fuel after, ∃ buffers : List (List UInt8),
    encryptLoop sampleSsl fuel { crampedNetc with bufEnc := sampleEncoder.der 7 } = some after ∧
    after.queueOut = buffers.map mbufNew ∧ [1, 2, 3] <+: buffers.flatten ∧
    sampleSsl.contents after.kconn.ssl = [] := by
  obtain ⟨fuel, after, retries, last, buffers, done, _, _, _, queued, bytes, empty⟩ :=
    encrypted_exactly_once sampleEncoder sampleSsl _ crampedNetc
      { crampedNetc with bufEnc := sampleEncoder.der 7 } 7 rfl (sample_healthy _)
  exact ⟨fuel, after, buffers, done, queued, ⟨_, bytes.symm⟩, empty⟩

/-! ## Any outcomes -/

/-- A result after which krypt_encrypt_buf returns -1, and is called again. -/
def WriteResult.repeats (result : WriteResult) : Prop := result = .wantWrite ∨ result = .failed

/-- The SSL object after a write that is to be repeated. -/
def Ssl.attempt (ssl : Ssl Object) (plaintext : List UInt8) (object : Object) : Object :=
  if (ssl.sslWrite object plaintext).1.result = .failed then (ssl.sslWrite object plaintext).2
  else (ssl.bioRead (ssl.sslWrite object plaintext).2 bufEncryptSize).2

/-- The results of SSL_write, when the plaintext is written again and again. -/
def Ssl.outcome (ssl : Ssl Object) (plaintext : List UInt8) (object : Object) : Nat → WriteResult
  | 0 => (ssl.sslWrite object plaintext).1.result
  | count + 1 => ssl.outcome plaintext (ssl.attempt plaintext object) count

/-- A round whose write is to be repeated. -/
theorem round_repeats (ssl : Ssl Object) (netc : Netc Object Peer) (nonempty : netc.bufEnc ≠ [])
    (again : (ssl.outcome netc.bufEnc netc.kconn.ssl 0).repeats) :
    (encryptRound ssl netc).1 < 0 ∧ (encryptRound ssl netc).2.bufEnc = netc.bufEnc ∧
    (encryptRound ssl netc).2.kconn.ssl = ssl.attempt netc.bufEnc netc.kconn.ssl ∧
    (encryptRound ssl netc).2.kconn.writes =
      netc.kconn.writes ++ [(netc.bufEnc, (ssl.sslWrite netc.kconn.ssl netc.bufEnc).1)] := by
  have writes : (encryptRound ssl netc).2.kconn.writes = _ :=
    (kryptEncryptBuf_writes ssl netc.kconn netc.bufEnc).trans (if_neg nonempty)
  rcases again with blocked | failed
  · obtain ⟨result, holds, object, _⟩ := round_blocked ssl netc nonempty blocked
    have other : (ssl.sslWrite netc.kconn.ssl netc.bufEnc).1.result ≠ .failed := by
      intro failed
      cases blocked.symm.trans failed
    exact ⟨by omega, holds, by rw [object, Ssl.attempt, if_neg other]; rfl, writes⟩
  · obtain ⟨result, holds, object⟩ := round_failed ssl netc nonempty failed
    exact ⟨by omega, holds, object.trans (if_pos failed).symm, writes⟩

/-- The loop has no end while every write is to be repeated. -/
theorem encryptLoop_endless (ssl : Ssl Object) (fuel : Nat) (netc : Netc Object Peer)
    (nonempty : netc.bufEnc ≠ [])
    (repeats : ∀ count, (ssl.outcome netc.bufEnc netc.kconn.ssl count).repeats) :
    encryptLoop ssl fuel netc = none := by
  induction fuel generalizing netc with
  | zero => rfl
  | succ fuel inductionHypothesis =>
    obtain ⟨negative, holds, object, _⟩ := round_repeats ssl netc nonempty (repeats 0)
    rw [encryptLoop_succ, if_pos negative]
    refine inductionHypothesis _ (holds ▸ nonempty) fun count => ?_
    rw [holds, object]
    exact repeats (count + 1)

/-- The loop ends with the first write that is not to be repeated, and that write's result
is the only one among its calls that may be an acceptance. -/
theorem encryptLoop_decided (ssl : Ssl Object) (count : Nat) (netc : Netc Object Peer)
    (nonempty : netc.bufEnc ≠ [])
    (repeats : ∀ earlier < count, (ssl.outcome netc.bufEnc netc.kconn.ssl earlier).repeats)
    (decided : ¬ (ssl.outcome netc.bufEnc netc.kconn.ssl count).repeats) :
    ∃ fuel after, ∃ calls : List SslWrite, encryptLoop ssl fuel netc = some after ∧
      after.kconn.writes = netc.kconn.writes ++ calls.map (fun call => (netc.bufEnc, call)) ∧
      ((∃ call ∈ calls, call.result = .accepted) ↔
        ssl.outcome netc.bufEnc netc.kconn.ssl count = .accepted) := by
  induction count generalizing netc with
  | zero =>
    have done := (write_cases ssl netc.kconn.ssl netc.bufEnc).resolve_right decided
    obtain ⟨fuel, after, ended, ⟨writes, _⟩, _⟩ := done_ends ssl netc nonempty done
    exact ⟨fuel, after, [_], ended, writes, by simp [Ssl.outcome]⟩
  | succ count inductionHypothesis =>
    have first := repeats 0 (Nat.succ_pos count)
    obtain ⟨negative, holds, object, writes⟩ := round_repeats ssl netc nonempty first
    obtain ⟨fuel, after, calls, ended, later, accepted⟩ :=
      inductionHypothesis (encryptRound ssl netc).2 (holds ▸ nonempty)
        (fun earlier less => by
          rw [holds, object]
          exact repeats (earlier + 1) (Nat.succ_lt_succ less))
        (by
          rw [holds, object]
          exact decided)
    rw [holds] at later
    refine ⟨fuel + 1, after, (ssl.sslWrite netc.kconn.ssl netc.bufEnc).1 :: calls,
      by rw [encryptLoop_succ, if_pos negative, ended], ?_, ?_⟩
    · rw [later, writes, List.append_assoc]
      rfl
    · have refused : (ssl.sslWrite netc.kconn.ssl netc.bufEnc).1.result ≠ .accepted := by
        intro done
        change (ssl.sslWrite netc.kconn.ssl netc.bufEnc).1.result.repeats at first
        rw [done] at first
        simp [WriteResult.repeats] at first
      rw [holds, object] at accepted
      simpa [refused, Ssl.outcome] using accepted

/-- More fuel does not change where the loop ends. -/
theorem encryptLoop_more (ssl : Ssl Object) (fuel more : Nat) (netc after : Netc Object Peer)
    (done : encryptLoop ssl fuel netc = some after) :
    encryptLoop ssl (fuel + more) netc = some after := by
  induction fuel generalizing netc with
  | zero => cases done
  | succ fuel inductionHypothesis =>
    rw [Nat.succ_add_eq_add_succ, Nat.add_succ, encryptLoop_succ]
    rw [encryptLoop_succ] at done
    by_cases again : (encryptRound ssl netc).1 < 0
    · rw [if_pos again] at done ⊢
      exact inductionHypothesis _ done
    · rw [if_neg again] at done ⊢
      exact done

theorem encryptLoop_unique (ssl : Ssl Object) (fuel other : Nat)
    (netc after done : Netc Object Peer)
    (first : encryptLoop ssl fuel netc = some after)
    (second : encryptLoop ssl other netc = some done) : after = done := by
  have one := encryptLoop_more ssl fuel other netc after first
  have two := encryptLoop_more ssl other fuel netc done second
  rw [Nat.add_comm] at two
  exact Option.some.inj (one.symm.trans two)

/-- A transport that accepts whole buffers never fails. -/
theorem wholeTransport_told (netc : Netc Object Peer) :
    0 ≤ (netFlushQueueOut (wholeTransport Peer) netc).1 := by
  have never : ∀ (queue : List Mbuf) (peer : Peer),
      ¬ SomeFails (wholeTransport Peer) peer queue := by
    intro queue
    induction queue with
    | nil => exact fun _ => id
    | cons mbuf rest inductionHypothesis => exact fun peer => inductionHypothesis peer
  exact (flushLoop_accepts (wholeTransport Peer) netc.queueOut netc.link 0 (Int.le_refl 0)
    (never _ _)).1

/-- The first write that is not to be repeated is accepted, if there is one. -/
theorem first_decided (outcome : Nat → WriteResult) :
    (∀ count, (outcome count).repeats) ∨
      ∃ count, (outcome count = .accepted ∨ outcome count = .wantRead) ∧
        ∀ earlier < count, (outcome earlier).repeats := by
  by_cases always : ∀ count, (outcome count).repeats
  · exact Or.inl always
  · right
    obtain ⟨count, decided⟩ := not_forall.mp always
    induction count using Nat.strongRecOn with
    | ind count inductionHypothesis =>
      by_cases first : ∀ earlier < count, (outcome earlier).repeats
      · refine ⟨count, ?_, first⟩
        cases result : outcome count <;> simp [WriteResult.repeats, result] at decided ⊢
      · simp only [not_forall] at first
        obtain ⟨earlier, less, other⟩ := first
        exact inductionHypothesis earlier less other

section Sends
variable (encoder : DerEncoder Message) (ssl : Ssl Object) (transport : Transport Peer)
  (netc : Netc Object Peer) (msg : Message)

/-- `net_send_msg` ends, and returns a number that is not negative only if one of its calls of
SSL_write accepted the plaintext. -/
def Honest : Prop :=
  ∃ fuel code after, ∃ calls : List SslWrite,
    netSendMsg encoder ssl transport fuel netc msg = some (code, after) ∧
    after.kconn.writes = netc.kconn.writes ++
      calls.map (fun call => (netc.bufEnc ++ encoder.der msg, call)) ∧
    (0 ≤ code → ∃ call ∈ calls, call.result = .accepted)

/-- The first write that is neither to be repeated for want of room nor a fatal error is
accepted. -/
def Accepts : Prop :=
  ∃ count, ssl.outcome (netc.bufEnc ++ encoder.der msg) netc.kconn.ssl count = .accepted ∧
    ∀ earlier < count,
      (ssl.outcome (netc.bufEnc ++ encoder.der msg) netc.kconn.ssl earlier).repeats

variable (secured : netc.securityLevel ≠ .unsecure)
include secured

/-- A refused send returns -1 at once. -/
theorem refused_honest (refused : encoder.encoded msg = false ∨ netc.kconn.status ≠ .secure) :
    Honest encoder ssl transport netc msg := by
  by_cases fails : encoder.encoded msg = false
  · refine ⟨0, -1, { netc with bufEnc := [] }, [], ?_, by simp⟩
    rw [netSendMsg, prepare_eq, if_pos fails]
  · have early := refused.resolve_left fails
    refine ⟨0, -1, { netc with bufEnc := netc.bufEnc ++ encoder.der msg }, [], ?_, by simp⟩
    rw [netSendMsg, prepare_eq, if_neg fails, if_pos ⟨secured, early⟩]

variable (encoded : encoder.encoded msg = true) (secure : netc.kconn.status = .secure)
include encoded secure

/-- A send that is not refused returns what the flush returns after the loop. -/
theorem netSendMsg_loop (fuel : Nat) : netSendMsg encoder ssl transport fuel netc msg =
    (encryptLoop ssl fuel { netc with bufEnc := netc.bufEnc ++ encoder.der msg }).map
      fun after => netFlushQueueOut transport { after with bufEnc := [] } := by
  rw [netSendMsg, prepare_eq, if_neg (by simp [encoded]), if_neg (by simp [secure])]
  simp only [handOver, if_neg secured]
  cases encryptLoop ssl fuel { netc with bufEnc := netc.bufEnc ++ encoder.der msg } <;> rfl

theorem accepted_honest (accepts : Accepts encoder ssl netc msg) :
    Honest encoder ssl transport netc msg := by
  obtain ⟨count, result, repeats⟩ := accepts
  obtain ⟨fuel, after, calls, ended, writes, accepted⟩ :=
    encryptLoop_decided ssl count { netc with bufEnc := netc.bufEnc ++ encoder.der msg }
      (by simp [DerEncoder.der, encoder.tagged msg encoded]) repeats
      (by simp [WriteResult.repeats, result])
  refine ⟨fuel, (netFlushQueueOut transport { after with bufEnc := [] }).1,
    (netFlushQueueOut transport { after with bufEnc := [] }).2, calls, ?_, writes,
    fun _ => accepted.mpr result⟩
  rw [netSendMsg_loop encoder ssl transport netc msg secured encoded secure, ended]
  rfl

/-- When the transport takes everything, an honest send was accepted. -/
theorem honest_accepted (honest : Honest encoder ssl (wholeTransport Peer) netc msg) :
    Accepts encoder ssl netc msg := by
  have nonempty : netc.bufEnc ++ encoder.der msg ≠ [] := by
    simp [DerEncoder.der, encoder.tagged msg encoded]
  obtain ⟨fuel, code, after, calls, sent, writes, told⟩ := honest
  rw [netSendMsg_loop encoder ssl _ netc msg secured encoded secure] at sent
  obtain ⟨ended, looped, flushed⟩ := Option.map_eq_some_iff.mp sent
  rcases first_decided (ssl.outcome (netc.bufEnc ++ encoder.der msg) netc.kconn.ssl) with
    always | ⟨count, decided, repeats⟩
  · rw [encryptLoop_endless ssl fuel _ nonempty always] at looped
    cases looped
  · refine ⟨count, ?_, repeats⟩
    obtain ⟨other, done, made, stopped, later, accepted⟩ :=
      encryptLoop_decided ssl count { netc with bufEnc := netc.bufEnc ++ encoder.der msg }
        nonempty repeats (by
          rcases decided with result | result <;> simp [WriteResult.repeats, result])
    obtain rfl := encryptLoop_unique ssl fuel other _ ended done looped stopped
    have positive : 0 ≤ code := by
      have whole := wholeTransport_told { ended with bufEnc := [] }
      rwa [flushed] at whole
    have kept : after.kconn = ended.kconn := (congrArg (fun both => both.2.kconn) flushed).symm
    rw [kept, later] at writes
    have same : made = calls := by
      have pairs := List.append_cancel_left writes
      simpa [Function.comp_def] using congrArg (List.map Prod.snd) pairs
    exact accepted.mp (same ▸ told positive)

omit encoded secure in
/-- On a secured connection, net_send_msg ends whatever the transport does, and returns a
number that is not negative only if SSL_write accepted the plaintext, exactly when the send
is refused or the first write that is not to be repeated is accepted.

Proof: a refused send returns -1 at once. Otherwise the transport that takes everything shows
that the first write which is not to be repeated was accepted, and if it was, the loop ends
and hands the ciphertext to any transport. -/
theorem send_honest_iff :
    (∀ transport : Transport Peer, Honest encoder ssl transport netc msg) ↔
      encoder.encoded msg = false ∨ netc.kconn.status ≠ .secure ∨ Accepts encoder ssl netc msg := by
  constructor
  · intro honest
    by_cases fails : encoder.encoded msg = false
    · exact Or.inl fails
    · by_cases secure : netc.kconn.status = .secure
      · exact Or.inr (Or.inr (honest_accepted encoder ssl netc msg secured (by simpa using fails)
          secure (honest (wholeTransport Peer))))
      · exact Or.inr (Or.inl secure)
  · intro condition transport
    by_cases refused : encoder.encoded msg = false ∨ netc.kconn.status ≠ .secure
    · exact refused_honest encoder ssl transport netc msg secured refused
    · simp only [not_or, Bool.not_eq_false, not_not] at refused
      have accepts := (condition.resolve_left (by simp [refused.1])).resolve_left
        (not_not.mpr refused.2)
      exact accepted_honest encoder ssl transport netc msg secured refused.1 refused.2 accepts

end Sends

/-- A message is sent where the network BIO has room for one byte more: its write is repeated
once. -/
theorem crampedNetc_honest : Honest sampleEncoder sampleSsl (wholeTransport Unit) crampedNetc 7 :=
  (send_honest_iff sampleEncoder sampleSsl crampedNetc 7 (by decide)).mpr
    (Or.inr (Or.inr ⟨1, by decide, by
      intro earlier less
      obtain rfl : earlier = 0 := by omega
      exact Or.inl (by decide)⟩)) (wholeTransport Unit)

/-- An object that answers every write with the same result. -/
def stuckSsl (result : WriteResult) : Ssl Unit where
  sslWrite object _ := ({ result := result, ciphertext := [] }, object)
  bioRead object _ := ([], object)
  bioCtrlPending _ := 0
  contents _ := []
  size := 0
  pending _ := rfl
  bounded _ := Nat.le_refl 0
  taken _ size := by simp
  left _ size := by simp
  added _ _ := rfl

def stuckNetc : Netc Unit Unit :=
  let fresh := netConnectionNew .secureAdh () ()
  { fresh with kconn := { fresh.kconn with status := .secure } }

theorem stuckNetc_endless (fuel : Nat) : netSendMsg sampleEncoder (stuckSsl .failed)
    (wholeTransport Unit) fuel stuckNetc 7 = none := by
  have repeats : ∀ count, ((stuckSsl .failed).outcome (sampleEncoder.der 7) () count).repeats := by
    intro count
    induction count with
    | zero => exact Or.inr rfl
    | succ count inductionHypothesis => exact inductionHypothesis
  rw [netSendMsg_loop sampleEncoder _ _ stuckNetc 7 (by decide) rfl rfl fuel,
    encryptLoop_endless (stuckSsl .failed) fuel _ (by decide) repeats]
  rfl

/-- A fatal error that repeats is answered by another write, without end; and a write that
waits to read is reported as sent. -/
theorem stuckNetc_dishonest :
    (∀ fuel, netSendMsg sampleEncoder (stuckSsl .failed) (wholeTransport Unit) fuel stuckNetc 7 =
      none) ∧
    ¬ Honest sampleEncoder (stuckSsl .failed) (wholeTransport Unit) stuckNetc 7 ∧
    (netSendMsg sampleEncoder (stuckSsl .wantRead) (wholeTransport Unit) 1 stuckNetc 7).map
      (fun sent => (sent.1, sent.2.kconn.writes.map fun call => call.2.result)) =
        some (0, [.wantRead]) := by
  refine ⟨stuckNetc_endless, ?_, by decide⟩
  rintro ⟨fuel, code, after, calls, sent, _⟩
  rw [stuckNetc_endless fuel] at sent
  cases sent

end NetVirt.SendPath
