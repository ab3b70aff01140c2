import NetVirt.SendPath

/-!
# Flushing the output queue

`net_flush_queue_out` goes on to the next buffer whatever part of the last one the transport
accepted. So the queue reaches the transport whole, or the caller is told, exactly when a
send fails or every send accepts its whole buffer.
-/

namespace NetVirt.SendPath

variable {Object Peer : Type}

/-- A send of the queue fails. Those behind it are not made. -/
def SomeFails (transport : Transport Peer) : Peer → List Mbuf → Prop
  | _, [] => False
  | peer, mbuf :: rest =>
    match transport.send peer mbuf.given with
    | (none, _) => True
    | (some _, next) => SomeFails transport next rest

/-- Every send of the queue accepts the whole of its buffer. -/
def EachWhole (transport : Transport Peer) : Peer → List Mbuf → Prop
  | _, [] => True
  | peer, mbuf :: rest =>
    match transport.send peer mbuf.given with
    | (none, _) => False
    | (some count, next) => count = mbuf.extBuf.length ∧ EachWhole transport next rest

theorem given_length (mbuf : Mbuf) : mbuf.given.length ≤ mbuf.extBuf.length := by
  rw [Mbuf.given, List.length_take]
  exact Nat.min_le_right _ _

/-- After a failed send nothing more is sent. -/
theorem flushLoop_failed (transport : Transport Peer) (mbuf : Mbuf) (rest : List Mbuf)
    (link : Link Peer) (nbyte : Int) (next : Peer)
    (sent : transport.send link.peer mbuf.given = (none, next)) :
    flushLoop transport (mbuf :: rest) link nbyte = (-1, { link with peer := next }) := by
  simp [flushLoop, udtbusSend, sent]

/-- After any other send the next buffer's turn comes. -/
theorem flushLoop_sent (transport : Transport Peer) (mbuf : Mbuf) (rest : List Mbuf)
    (link : Link Peer) (nbyte : Int) (count : Nat) (next : Peer)
    (sent : transport.send link.peer mbuf.given = (some count, next)) :
    flushLoop transport (mbuf :: rest) link nbyte = flushLoop transport rest
      { peer := next, wire := link.wire ++ mbuf.given.take count } count := by
  have positive : (count : Int) ≠ -1 := by omega
  simp [flushLoop, udtbusSend, sent, positive]

/-- A failed send is what the flush returns, whatever was sent before. -/
theorem flushLoop_fails (transport : Transport Peer) (queue : List Mbuf) (link : Link Peer)
    (nbyte : Int) (fails : SomeFails transport link.peer queue) :
    (flushLoop transport queue link nbyte).1 = -1 := by
  induction queue generalizing link nbyte with
  | nil => exact fails.elim
  | cons mbuf rest inductionHypothesis =>
    rcases sent : transport.send link.peer mbuf.given with ⟨_ | count, next⟩
    · rw [flushLoop_failed transport mbuf rest link nbyte next sent]
    · simp only [SomeFails, sent] at fails
      rw [flushLoop_sent transport mbuf rest link nbyte count next sent]
      exact inductionHypothesis _ _ fails

/-- Without a failed send, the bytes that are accepted are at most those of the queue; they
are as many only if every send is whole, and then they are the queue's. -/
theorem flushLoop_accepts (transport : Transport Peer) (queue : List Mbuf) (link : Link Peer)
    (nbyte : Int) (told : 0 ≤ nbyte) (done : ¬ SomeFails transport link.peer queue) :
    0 ≤ (flushLoop transport queue link nbyte).1 ∧
    ∃ bytes, (flushLoop transport queue link nbyte).2.wire = link.wire ++ bytes ∧
      bytes.length ≤ (queue.flatMap Mbuf.extBuf).length ∧
      (bytes.length = (queue.flatMap Mbuf.extBuf).length → EachWhole transport link.peer queue) ∧
      (EachWhole transport link.peer queue → bytes = queue.flatMap Mbuf.extBuf) := by
  induction queue generalizing link nbyte with
  | nil => exact ⟨told, [], by simp [flushLoop], by simp, fun _ => trivial, fun _ => rfl⟩
  | cons mbuf rest inductionHypothesis =>
    rcases sent : transport.send link.peer mbuf.given with ⟨_ | count, next⟩
    · simp [SomeFails, sent] at done
    · have short := (transport.accepts link.peer mbuf.given count (by rw [sent])).1
      have inside := given_length mbuf
      simp only [SomeFails, sent] at done
      rw [flushLoop_sent transport mbuf rest link nbyte count next sent]
      obtain ⟨returned, bytes, wire, fewer, equal, whole⟩ := inductionHypothesis
        { peer := next, wire := link.wire ++ mbuf.given.take count } count (by omega) done
      have part : (mbuf.given.take count).length = count := by
        rw [List.length_take]
        omega
      simp only [EachWhole, sent]
      refine ⟨returned, mbuf.given.take count ++ bytes, ?_, ?_, ?_, ?_⟩
      · rw [wire, List.append_assoc]
      · rw [List.length_append, List.flatMap_cons, List.length_append, part]
        omega
      · intro full
        rw [List.length_append, List.flatMap_cons, List.length_append, part] at full
        exact ⟨by omega, equal (by omega)⟩
      · rintro ⟨all, later⟩
        have everything : mbuf.given = mbuf.extBuf :=
          List.IsPrefix.eq_of_length (List.take_prefix _ _) (Nat.le_antisymm inside (all ▸ short))
        rw [whole later, List.flatMap_cons, everything, all, List.take_length]

/-- A flush hands the whole queue to the transport in order, or returns -1, exactly when a
send fails or every send accepts its whole buffer.

Proof: a failing send makes the loop return -1. Without one, the bytes on the wire are the
accepted prefixes, whose lengths add up to the whole only when each prefix is whole. -/
theorem flush_whole_or_told_iff (transport : Transport Peer) (netc : Netc Object Peer) :
    ((netFlushQueueOut transport netc).2.link.wire =
        netc.link.wire ++ netc.queueOut.flatMap Mbuf.extBuf ∨
      (netFlushQueueOut transport netc).1 = -1) ↔
      SomeFails transport netc.link.peer netc.queueOut ∨
        EachWhole transport netc.link.peer netc.queueOut := by
  by_cases fails : SomeFails transport netc.link.peer netc.queueOut
  · have told := flushLoop_fails transport netc.queueOut netc.link 0 fails
    exact iff_of_true (Or.inr told) (Or.inl fails)
  · obtain ⟨told, bytes, wire, _, equal, whole⟩ :=
      flushLoop_accepts transport netc.queueOut netc.link 0 (by decide) fails
    constructor
    · rintro (complete | returned)
      · have same := List.append_cancel_left (wire.symm.trans complete)
        exact Or.inr (equal (congrArg List.length same))
      · change (flushLoop transport netc.queueOut netc.link 0).1 = -1 at returned
        omega
    · rintro (failed | each)
      · exact absurd failed fails
      · exact Or.inl (wire.trans (by rw [whole each]))

/-- A transport that accepts one byte at a time. -/
def slowTransport : Transport Unit where
  send peer bytes := (some (min 1 bytes.length), peer)
  accepts _ bytes count sent := by
    obtain rfl := Option.some.inj sent
    refine ⟨Nat.min_le_right _ _, fun some => ?_⟩
    have := List.length_pos_iff.mpr some
    omega

/-- A buffer of two bytes is queued. -/
def slowNetc : Netc Unit Unit :=
  netQueueOut (netConnectionNew .unsecure () ()) [0x30, 0x00]

/-- The second byte is lost, and the flush returns 1. -/
theorem slowNetc_loses_byte : (netFlushQueueOut slowTransport slowNetc).1 = 1 ∧
    (netFlushQueueOut slowTransport slowNetc).2.link.wire = [0x30] ∧
    slowNetc.queueOut.flatMap Mbuf.extBuf = [0x30, 0x00] ∧
    ¬ ((netFlushQueueOut slowTransport slowNetc).2.link.wire =
        slowNetc.link.wire ++ slowNetc.queueOut.flatMap Mbuf.extBuf ∨
      (netFlushQueueOut slowTransport slowNetc).1 = -1) := by
  decide

end NetVirt.SendPath
