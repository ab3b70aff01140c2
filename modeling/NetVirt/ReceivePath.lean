import NetVirt.Netbus
import NetVirt.Runs

/-!
# Splitting the received stream

The decoder is assumed to be restartable: what it has consumed of a message is kept
in its context, RC_OK consumes exactly one message, RC_WMORE consumes some of the
given bytes, possibly none. Under that assumption an arrival at offset zero extends
the decoded messages by exactly those completed in the stream.

`serialize_buf_in` ignores `buf_in_offset`. A chunk that arrives while unconsumed bytes
lie behind consumed ones is written over or in front of them, and the stream is lost.
The laws below therefore carry the alignment of each arrival as a condition on the
steps, and the last section exhibits a split that violates it.
-/

namespace NetVirt.ReceivePath

open Netbus

variable {Message Context : Type}

/-- What the receive path relies on in the generated decoder. `Consumed` relates a
context to the bytes of the current message that it has taken already; nothing is
said of bytes that do not continue a message. -/
structure Restartable (decoder : BerDecoder Message Context)
    (Consumed : Context → List UInt8 → Prop) : Prop where
  encoded : ∀ message, decoder.derEncode message ≠ []
  starts : Consumed decoder.fresh []
  completes : ∀ context taken message rest later, Consumed context taken →
    taken ++ rest = decoder.derEncode message → rest ≠ [] →
      decoder.berDecode context (rest ++ later) = .ok message rest.length
  waits : ∀ context taken message given missing, Consumed context taken →
    taken ++ given ++ missing = decoder.derEncode message → given ≠ [] → missing ≠ [] →
      ∃ progress consumed, decoder.berDecode context given = .wmore progress consumed ∧
        consumed ≤ given.length ∧ Consumed progress (taken ++ given.take consumed)

/-- The byte stream of a list of messages. -/
def stream (decoder : BerDecoder Message Context) (messages : List Message) : List UInt8 :=
  messages.flatMap decoder.derEncode

/-- The connection is inside the first of the messages still to come: its context has
taken some bytes of the stream, its window holds the next ones, and together they do
not complete that message. -/
structure Pending (decoder : BerDecoder Message Context)
    (Consumed : Context → List UInt8 → Prop) (netc : Netc Message Context)
    (messages : List Message) (future : List UInt8) : Prop where
  taken : ∃ taken, Consumed netc.msgDec taken ∧
    taken ++ netc.window ++ future = stream decoder messages ∧
    (messages = [] → taken ++ netc.window = []) ∧
    ∀ message rest, messages = message :: rest →
      (taken ++ netc.window).length < (decoder.derEncode message).length

/-- No chunk may arrive while unconsumed bytes lie behind consumed ones. -/
def Aligned (netc : Netc Message Context) (_chunk : List UInt8) : Prop :=
  netc.bufInOffset = 0

section Laws
variable {decoder : BerDecoder Message Context} {Consumed : Context → List UInt8 → Prop}

/-- A fresh connection is pending before the whole stream. -/
theorem new_pending (restartable : Restartable decoder Consumed) (memory : Nat → UInt8)
    (messages : List Message) :
    Pending decoder Consumed (netConnectionNew decoder memory) messages
      (stream decoder messages) := by
  refine ⟨[], restartable.starts, rfl, fun _ => rfl, ?_⟩
  intro message rest _
  exact List.length_pos_iff.mpr (restartable.encoded message)

/-- Two readings of one stream: either the given bytes reach past the missing ones, or
some of the missing ones are still to come. -/
theorem window_split (given future missing rest : List UInt8)
    (same : given ++ future = missing ++ rest) :
    (∃ later, given = missing ++ later ∧ later ++ future = rest) ∨
      ∃ beyond, beyond ≠ [] ∧ missing = given ++ beyond := by
  rcases List.append_eq_append_iff.mp same with ⟨beyond, left, right⟩ | ⟨later, left, right⟩
  · by_cases ended : beyond = []
    · exact Or.inl ⟨[], by simp [left, ended], by simp [right, ended]⟩
    · exact Or.inr ⟨beyond, ended, left⟩
  · exact Or.inl ⟨later, left, right.symm⟩

/-- Between two messages nothing is pending of the next one. -/
theorem boundary_pending (restartable : Restartable decoder Consumed)
    (netc : Netc Message Context) (messages : List Message) (future : List UInt8)
    (cleared : netc.msgDec = decoder.fresh) (vacant : netc.window = [])
    (continues : future = stream decoder messages) :
    Pending decoder Consumed netc messages future := by
  refine ⟨[], cleared ▸ restartable.starts, by simp [vacant, continues], by simp [vacant], ?_⟩
  intro message rest _
  simpa [vacant] using List.length_pos_iff.mpr (restartable.encoded message)

/-- The decoding loop queues exactly the messages completed by the given bytes and
stops inside the next one.

Induct over the fuel. The first message still to come either ends within the window
or beyond it. In the first case the decoder returns it, the window loses its bytes,
and the loop goes on at the next message with strictly fewer bytes; in the second it
asks for more and keeps what it has consumed in its context. -/
theorem decode_loop_exact (restartable : Restartable decoder Consumed) (fuel : Nat)
    (netc : Netc Message Context) (messages : List Message) (taken future : List UInt8)
    (enough : netc.bufInDataSize ≤ fuel) (given : netc.window ≠ [])
    (consumed : Consumed netc.msgDec taken)
    (continues : taken ++ netc.window ++ future = stream decoder messages)
    (inside : ∀ message rest, messages = message :: rest →
      taken.length < (decoder.derEncode message).length) :
    ∃ next finished remaining, decodeLoop decoder fuel netc = some (0, next) ∧
      messages = finished ++ remaining ∧ next.queueMsg = netc.queueMsg ++ finished ∧
      Pending decoder Consumed next remaining future := by
  induction fuel generalizing netc messages taken with
  | zero =>
    have vacant : netc.window = [] := List.eq_nil_of_length_eq_zero (by
      rw [window_length]; omega)
    exact False.elim (given vacant)
  | succ fuel inductionHypothesis =>
    cases messages with
    | nil =>
      have vacant : taken ++ netc.window ++ future = [] := continues
      simp only [List.append_eq_nil_iff] at vacant
      exact False.elim (given vacant.1.2)
    | cons message rest =>
      have within : taken.length < (decoder.derEncode message).length := inside message rest rfl
      have whole : taken ++ (netc.window ++ future) =
          decoder.derEncode message ++ stream decoder rest := by
        simpa [stream] using continues
      -- The bytes of the current message that the context has not taken yet.
      obtain ⟨missing, encoding, tail⟩ : ∃ missing,
          decoder.derEncode message = taken ++ missing ∧
            netc.window ++ future = missing ++ stream decoder rest := by
        rcases window_split _ _ _ _ whole with ⟨later, longer, _⟩ | ⟨missing, _, encoding⟩
        · simp only [longer, List.length_append] at within
          omega
        · exact ⟨missing, encoding, by simpa [encoding] using whole⟩
      have unfinished : missing ≠ [] := by
        rintro rfl
        simp [encoding] at within
      rcases window_split _ _ _ _ tail with ⟨later, window, remaining⟩ | ⟨beyond, more, inner⟩
      · have decoded : decoder.berDecode netc.msgDec netc.window = .ok message missing.length := by
          rw [window]
          exact restartable.completes _ taken message missing later consumed encoding.symm
            unfinished
        have after :
            ((netQueueMsg decoder netc message).advance missing.length).window = later := by
          rw [window_advance]
          simp [netQueueMsg, Netc.window] at window ⊢
          simp [window]
        have sizes : netc.bufInDataSize = missing.length + later.length := by
          rw [← window_length, window, List.length_append]
        have positive := List.length_pos_iff.mpr unfinished
        by_cases ended : later = []
        · refine ⟨_, [message], rest, ?_, rfl, rfl, boundary_pending restartable _ rest future
            rfl (after.trans ended) (by simpa [ended] using remaining)⟩
          simp [decodeLoop, decoded, netQueueMsg, Netc.advance, sizes, ended]
        · have more := List.length_pos_iff.mpr ended
          obtain ⟨next, finished, others, looped, partition, queued, pending⟩ :=
            inductionHypothesis ((netQueueMsg decoder netc message).advance missing.length) rest []
              (by simp only [netQueueMsg, Netc.advance]; omega) (by rw [after]; exact ended)
              restartable.starts (by simpa [after] using remaining)
              (fun following _ _ => List.length_pos_iff.mpr (restartable.encoded following))
          refine ⟨next, message :: finished, others, ?_, by simp [partition], ?_, pending⟩
          · have unspent : netc.bufInDataSize - missing.length ≠ 0 := by omega
            simpa [decodeLoop, decoded, netQueueMsg, Netc.advance, unspent] using looped
          · simpa [netQueueMsg, Netc.advance] using queued
      · have part : taken ++ netc.window ++ beyond = decoder.derEncode message := by
          rw [List.append_assoc, ← inner, encoding]
        obtain ⟨progress, used, decoded, bounded, kept⟩ :=
          restartable.waits netc.msgDec taken message netc.window beyond consumed part given more
        have window : (({ netc with msgDec := progress } : Netc Message Context).advance
            used).window = netc.window.drop used := window_advance _ used
        have rejoined : taken ++ netc.window.take used ++ netc.window.drop used =
            taken ++ netc.window := by
          rw [List.append_assoc, List.take_append_drop]
        refine ⟨({ netc with msgDec := progress } : Netc Message Context).advance used, [],
          message :: rest, by simp [decodeLoop, decoded], rfl, by simp [Netc.advance],
          taken ++ netc.window.take used, kept, ?_, by simp, ?_⟩
        · rw [window, rejoined]
          exact continues
        · rintro _ _ ⟨rfl, rfl⟩
          have positive := List.length_pos_iff.mpr more
          rw [window, rejoined, ← part]
          simp only [List.length_append]
          omega

/-- One aligned arrival queues exactly the messages it completes. The bytes left from
earlier arrivals precede the new ones because the data starts at offset zero. -/
theorem receive_exact (restartable : Restartable decoder Consumed)
    (netc : Netc Message Context) (chunk future : List UInt8) (messages : List Message)
    (aligned : Aligned netc chunk)
    (pending : Pending decoder Consumed netc messages (chunk ++ future)) :
    ∃ next finished remaining, receive decoder netc chunk = some next ∧
      messages = finished ++ remaining ∧ next.queueMsg = netc.queueMsg ++ finished ∧
      Pending decoder Consumed next remaining future := by
  obtain ⟨taken, consumed, continues, drained, inside⟩ := pending.taken
  have window : (serializeBufIn netc chunk).window = netc.window ++ chunk :=
    window_serialize netc chunk aligned
  by_cases vacant : (serializeBufIn netc chunk).bufInDataSize = 0
  · have nothing : netc.window ++ chunk = [] := by
      rw [← window]
      exact List.eq_nil_of_length_eq_zero (by rw [window_length, vacant])
    obtain ⟨oldVacant, newVacant⟩ := List.append_eq_nil_iff.mp nothing
    have same : (serializeBufIn netc chunk).window = netc.window := by
      rw [window, newVacant, List.append_nil]
    refine ⟨serializeBufIn netc chunk, [], messages, by simp [receive, netDecodeMsg, vacant], rfl,
      by simp [serializeBufIn], taken, consumed, ?_, same ▸ drained, same ▸ inside⟩
    rw [same]
    simpa [newVacant] using continues
  · obtain ⟨next, finished, remaining, looped, partition, queued, after⟩ :=
      decode_loop_exact restartable _ (serializeBufIn netc chunk) messages taken future
        (Nat.le_refl _)
        (by intro none; exact vacant (by rw [← window_length, none]; rfl))
        consumed (by simpa [window] using continues)
        (by
          intro message rest first
          have bound := inside message rest first
          simp only [List.length_append] at bound
          omega)
    exact ⟨next, finished, remaining, by simp [receive, netDecodeMsg, vacant, looped],
      partition, queued, after⟩

/-- Aligned arrivals, one after the other, queue exactly the messages completed by the
bytes that have arrived. Induct over the chunks; each one splits the messages still to
come into those it completes and the rest. -/
theorem arrivals_exact (restartable : Restartable decoder Consumed)
    (netc : Netc Message Context) (chunks : List (List UInt8)) (future : List UInt8)
    (messages : List Message)
    (aligned : Runs.Meets (receive decoder) Aligned netc chunks)
    (pending : Pending decoder Consumed netc messages (chunks.flatten ++ future)) :
    ∃ final finished remaining, Runs.run (receive decoder) netc chunks = some final ∧
      messages = finished ++ remaining ∧ final.queueMsg = netc.queueMsg ++ finished ∧
      Pending decoder Consumed final remaining future := by
  induction chunks generalizing netc messages with
  | nil => exact ⟨netc, [], messages, rfl, rfl, by simp, by simpa using pending⟩
  | cons chunk rest inductionHypothesis =>
    obtain ⟨next, first, others, taken, partition, queued, after⟩ :=
      receive_exact restartable netc chunk (rest.flatten ++ future) messages aligned.1
        (by simpa using pending)
    obtain ⟨final, finished, remaining, reached, split, total, last⟩ :=
      inductionHypothesis next others (aligned.2 next taken) after
    exact ⟨final, first ++ finished, remaining, by simp [Runs.run, taken, reached],
      by simp [partition, split], by simp [total, queued], last⟩

/-- Once the whole stream has arrived no message is left. -/
theorem nothing_pending (netc : Netc Message Context) (messages : List Message)
    (pending : Pending decoder Consumed netc messages []) : messages = [] := by
  obtain ⟨taken, _, continues, _, inside⟩ := pending.taken
  cases messages with
  | nil => rfl
  | cons message rest =>
    have short := inside message rest rfl
    have long := congrArg List.length continues
    simp only [stream, List.flatMap_cons, List.length_append, List.append_nil] at short long
    omega

end Laws

/-- The receive path delivers a stream split into these chunks: it processes every
chunk, queues exactly the messages, in order and each once, and a single chunk with the
whole stream leads to the same queue. -/
def Delivers (decoder : BerDecoder Message Context) (memory : Nat → UInt8)
    (messages : List Message) (chunks : List (List UInt8)) : Prop :=
  ∃ final whole,
    Runs.run (receive decoder) (netConnectionNew decoder memory) chunks = some final ∧
    Runs.run (receive decoder) (netConnectionNew decoder memory) [chunks.flatten] = some whole ∧
    final.queueMsg = messages ∧ whole.queueMsg = final.queueMsg

/-- A stream whose chunks all arrive at offset zero is delivered, whatever bytes the
buffer holds at first. The single chunk meets the condition by itself, because a fresh
connection starts at offset zero.

Proof: a new connection is at the start of the first message. Each aligned chunk keeps what
was decoded a prefix of the messages and the decoder in its context for the next one; at the
end nothing is pending, so the prefix is the whole list. The one chunk is such a run itself.
-/
theorem aligned_split_delivers (decoder : BerDecoder Message Context)
    (Consumed : Context → List UInt8 → Prop) (restartable : Restartable decoder Consumed)
    (memory : Nat → UInt8) (messages : List Message) (chunks : List (List UInt8))
    (split : chunks.flatten = stream decoder messages)
    (aligned : Runs.Meets (receive decoder) Aligned (netConnectionNew decoder memory) chunks) :
    Delivers decoder memory messages chunks := by
  have start : Pending decoder Consumed (netConnectionNew decoder memory) messages
      (chunks.flatten ++ []) := by
    simpa [split] using new_pending restartable memory messages
  obtain ⟨final, finished, remaining, reached, partition, queued, last⟩ :=
    arrivals_exact restartable _ chunks [] messages aligned start
  obtain ⟨whole, all, none, single, partitionWhole, queuedWhole, lastWhole⟩ :=
    arrivals_exact restartable (netConnectionNew decoder memory) [chunks.flatten] [] messages
      ⟨rfl, fun _ _ => trivial⟩ (by simpa using start)
  have complete : finished = messages := by
    simpa [nothing_pending final remaining last] using partition.symm
  have completeWhole : all = messages := by
    simpa [nothing_pending whole none lastWhole] using partitionWhole.symm
  refine ⟨final, whole, reached, single, ?_, ?_⟩
  · simpa [netConnectionNew, complete] using queued
  · rw [queued, queuedWhole, complete, completeWhole]

section Framing

/-! A decoder of short definite-length SEQUENCEs whose first member is the version,
tagged 0x80. It consumes nothing of an incomplete message and rejects a SEQUENCE that
starts with another member, as `asn_DEF_DNDSMessage` does. -/

/-- The contents of one such SEQUENCE. -/
abbrev Frame := { content : List UInt8 // content.head? = some 0x80 ∧ content.length < 128 }

/-- The frame's content is read once its whole length is there. -/
def frameDecoder : BerDecoder Frame Unit where
  derEncode frame := 0x30 :: UInt8.ofNat frame.val.length :: frame.val
  fresh := ()
  berDecode _ bytes :=
    match bytes with
    | [] => .wmore () 0
    | [tag] => if tag = 0x30 then .wmore () 0 else .fail 0
    | tag :: length :: rest =>
      if tag ≠ 0x30 then .fail 0
      else if rest.length < length.toNat then .wmore () 0
      else if valid : (rest.take length.toNat).head? = some 0x80 ∧
          (rest.take length.toNat).length < 128 then
        .ok ⟨rest.take length.toNat, valid⟩ (length.toNat + 2)
      else .fail 0

/-- Nothing is ever kept in this decoder's context. -/
theorem frame_restartable : Restartable frameDecoder (fun _ taken => taken = []) where
  encoded _ := List.cons_ne_nil _ _
  starts := rfl
  completes := by
    rintro _ _ ⟨content, version, short⟩ rest later rfl encoding _
    have whole : rest = 0x30 :: UInt8.ofNat content.length :: content := encoding
    subst whole
    simp [frameDecoder, Nat.mod_eq_of_lt (show content.length < 256 by omega), version, short]
  waits := by
    rintro _ _ ⟨content, version, short⟩ given missing rfl encoding someGiven someMissing
    have whole : given ++ missing = 0x30 :: UInt8.ofNat content.length :: content := encoding
    refine ⟨(), 0, ?_, Nat.zero_le _, by simp⟩
    match given, someGiven with
    | [tag], _ =>
      obtain ⟨rfl, _⟩ := List.cons.inj whole
      rfl
    | tag :: length :: rest, _ =>
      obtain ⟨rfl, tail⟩ := List.cons.inj whole
      obtain ⟨rfl, contents⟩ := List.cons.inj tail
      have joined : rest ++ missing = content := contents
      have positive := List.length_pos_iff.mpr someMissing
      have shorter : rest.length < content.length := by
        rw [← joined, List.length_append]
        omega
      simp [frameDecoder, Nat.mod_eq_of_lt (show content.length < 256 by omega), shorter]

/-- Version 0, channel 0 and an empty ethernet pdu. -/
def emptyFrame : Frame := ⟨[0x80, 1, 0, 0x81, 1, 0, 0xA2, 3, 0x82, 1, 0], by decide⟩

/-- A cut inside the first header is aligned: nothing was consumed before it. -/
theorem first_header_cut_delivers :
    Delivers frameDecoder (fun _ => 0) [emptyFrame, emptyFrame]
      [[0x30], (frameDecoder.derEncode emptyFrame).tail ++ frameDecoder.derEncode emptyFrame] :=
  aligned_split_delivers frameDecoder _ frame_restartable _ _ _ (by decide) (by
    unfold Aligned
    decide)

/-- A cut inside the second header loses the second message. Its first byte stays at
offset 13 behind the first message; the rest is written to position 1, and the decoder
is given the header byte followed by bytes that were never received. -/
theorem second_header_cut_loses :
    ¬ ∀ (decoder : BerDecoder Frame Unit) (Consumed : Unit → List UInt8 → Prop),
      Restartable decoder Consumed → ∀ (memory : Nat → UInt8) (messages : List Frame)
        (chunks : List (List UInt8)), (∀ chunk ∈ chunks, chunk ≠ []) →
          chunks.flatten = stream decoder messages → Delivers decoder memory messages chunks := by
  intro always
  obtain ⟨final, _, reached, _⟩ := always frameDecoder _ frame_restartable (fun _ => 0)
    [emptyFrame, emptyFrame] [frameDecoder.derEncode emptyFrame ++ [0x30],
      (frameDecoder.derEncode emptyFrame).tail] (by decide) (by decide)
  have lost : (Runs.run (receive frameDecoder) (netConnectionNew frameDecoder fun _ => 0)
      [frameDecoder.derEncode emptyFrame ++ [0x30],
        (frameDecoder.derEncode emptyFrame).tail]).isSome = false := by decide
  rw [reached] at lost
  cases lost

end Framing

end NetVirt.ReceivePath
