import NetVirt.DndsTypes
import NetVirt.ReceivePath

/-!
# Messages over a netbus connection

The receive path of a connection with the generated decoder of `DNDSMessage`. Its window
and the message it is decoding are those of a receiver that keeps what was not consumed, as
long as every chunk arrives at offset zero, so that the messages of a stream are queued
however the stream was cut.
-/

namespace NetVirt.MessageStreams

open Ber Dnds Netbus ReceivePath ResumableDecoders

/-! ## A decoder that stops and goes on, as the connection calls it -/

section Connections
variable {State Message : Type} (decode : State → List UInt8 → Outcome State) (fresh : State)
  (read : State → Message) (encode : Message → List UInt8)

/-- The codes that `ber_decode` returns. A call that never returns has none, and is left
without a result elsewhere: here it counts as a failure, which ends the connection too. -/
def decoderOf : BerDecoder Message State where
  derEncode := encode
  fresh := fresh
  berDecode state bytes :=
    match decode state bytes with
    | .done final consumed => .ok (read final) consumed
    | .more next consumed => .wmore next consumed
    | .failed _ consumed => .fail consumed
    | .stuck _ => .fail 0

theorem berDecode_more {state next : State} {bytes : List UInt8} {consumed : Nat}
    (decoded : decode state bytes = .more next consumed) :
    (decoderOf decode fresh read encode).berDecode state bytes = .wmore next consumed := by
  simp only [decoderOf, decoded]

theorem berDecode_done {state final : State} {bytes : List UInt8} {consumed : Nat}
    (decoded : decode state bytes = .done final consumed) :
    (decoderOf decode fresh read encode).berDecode state bytes = .ok (read final) consumed := by
  simp only [decoderOf, decoded]

/-- A connection, seen as a receiver. -/
def receiverOf (netc : Netc Message State) : Receiver State UInt8 Message :=
  { state := netc.msgDec, pending := netc.window, received := netc.queueMsg }

/-- The loop of `net_decode_msg` drains the window. -/
theorem decodeLoop_drains (fuel : Nat) (netc : Netc Message State)
    (final : Receiver State UInt8 Message)
    (drained : drain decode fresh read fuel (receiverOf netc) = some final) :
    ∃ next, decodeLoop (decoderOf decode fresh read encode) fuel netc = some (0, next) ∧
      receiverOf next = final := by
  induction fuel generalizing netc with
  | zero => cases drained
  | succ fuel inductionHypothesis =>
    cases decoded : decode (receiverOf netc).state (receiverOf netc).pending with
    | failed next consumed => simp [drain, decoded] at drained
    | stuck next => simp [drain, decoded] at drained
    | more next consumed =>
      have code := berDecode_more decode fresh read encode decoded
      simp only [receiverOf] at code
      rw [drain_more decode fresh read decoded, Option.some.injEq] at drained
      refine ⟨({ netc with msgDec := next } : Netc Message State).advance consumed,
        by simp only [decodeLoop, code], ?_⟩
      rw [← drained]
      unfold receiverOf
      rw [window_advance]
      rfl
    | done last consumed =>
      have code := berDecode_done decode fresh read encode decoded
      simp only [receiverOf] at code
      obtain ⟨queued, same⟩ : ∃ queued,
          queued = (netQueueMsg (decoderOf decode fresh read encode) netc
            (read last)).advance consumed := ⟨_, rfl⟩
      have seen : receiverOf queued =
          { state := fresh, pending := (receiverOf netc).pending.drop consumed,
            received := (receiverOf netc).received ++ [read last] } := by
        rw [same]
        unfold receiverOf
        rw [window_advance]
        rfl
      have empty : queued.bufInDataSize = 0 ↔ (receiverOf queued).pending = [] := by
        rw [← List.length_eq_zero_iff]
        exact (congrArg (· = 0) (window_length queued)).to_iff.symm
      rw [drain_done decode fresh read decoded (receiverOf queued) seen] at drained
      simp only [decodeLoop, code, ← same]
      by_cases ended : (receiverOf queued).pending = []
      · rw [if_pos ended, Option.some.injEq] at drained
        exact ⟨queued, if_pos (empty.mpr ended), drained⟩
      · rw [if_neg ended] at drained
        rw [if_neg (mt empty.mp ended)]
        exact inductionHypothesis queued drained

/-- An arrival at offset zero is one of the receiver. -/
theorem receive_arrives (netc : Netc Message State) (chunk : List UInt8)
    (aligned : Aligned netc chunk) (final : Receiver State UInt8 Message)
    (arrived : arrive decode fresh read (receiverOf netc) chunk = some final) :
    ∃ next, receive (decoderOf decode fresh read encode) netc chunk = some next ∧
      receiverOf next = final := by
  have window : (serializeBufIn netc chunk).window = netc.window ++ chunk :=
    window_serialize netc chunk aligned
  have size : (serializeBufIn netc chunk).bufInDataSize = (netc.window ++ chunk).length := by
    rw [← window, window_length]
  have seen : receiverOf (serializeBufIn netc chunk) =
      { state := netc.msgDec, pending := netc.window ++ chunk, received := netc.queueMsg } := by
    unfold receiverOf
    rw [window]
    rfl
  by_cases nothing : netc.window ++ chunk = []
  · have same : arrive decode fresh read (receiverOf netc) chunk = some (receiverOf netc) :=
      if_pos nothing
    rw [same, Option.some.injEq] at arrived
    refine ⟨serializeBufIn netc chunk, by simp [receive, netDecodeMsg, size, nothing], ?_⟩
    rw [← arrived, seen, nothing, ← (List.append_eq_nil_iff.mp nothing).1]
    rfl
  · have drained : arrive decode fresh read (receiverOf netc) chunk =
        drain decode fresh read (netc.window ++ chunk).length
          (receiverOf (serializeBufIn netc chunk)) := by
      rw [seen]
      exact if_neg nothing
    have given : ¬(serializeBufIn netc chunk).bufInDataSize = 0 := by
      rwa [size, List.length_eq_zero_iff]
    rw [drained] at arrived
    obtain ⟨next, looped, reached⟩ :=
      decodeLoop_drains decode fresh read encode _ (serializeBufIn netc chunk) final arrived
    have decoded : netDecodeMsg (decoderOf decode fresh read encode) (serializeBufIn netc chunk) =
        some (0, next) := by
      rw [← looped, ← size]
      exact if_neg given
    exact ⟨next, by simp [receive, decoded], reached⟩

/-- Aligned arrivals on a connection are those of the receiver. -/
theorem receives_arrive (netc : Netc Message State) (chunks : List (List UInt8))
    (aligned : Runs.Meets (receive (decoderOf decode fresh read encode)) Aligned netc chunks)
    (final : Receiver State UInt8 Message)
    (arrived : chunks.foldlM (arrive decode fresh read) (receiverOf netc) = some final) :
    ∃ next, Runs.run (receive (decoderOf decode fresh read encode)) netc chunks = some next ∧
      receiverOf next = final := by
  induction chunks generalizing netc with
  | nil => exact ⟨netc, rfl, Option.some.inj arrived⟩
  | cons chunk rest inductionHypothesis =>
    obtain ⟨middle, first, others⟩ := Option.bind_eq_some_iff.mp arrived
    obtain ⟨next, received, seen⟩ :=
      receive_arrives decode fresh read encode netc chunk aligned.1 middle first
    obtain ⟨last, reached, same⟩ :=
      inductionHypothesis next (aligned.2 next received) (by rw [seen]; exact others)
    exact ⟨last, by simp [Runs.run, received, reached], same⟩

/-- A stream of messages that the decoder is led to by their encodings is delivered, if its
chunks all arrive at offset zero. -/
theorem carried_delivers (memory : Nat → UInt8) (messages : List Message)
    (carried : ∀ message ∈ messages, Carried decode fresh read encode message)
    (chunks : List (List UInt8)) (split : chunks.flatten = messages.flatMap encode)
    (aligned : Runs.Meets (receive (decoderOf decode fresh read encode)) Aligned
      (netConnectionNew (decoderOf decode fresh read encode) memory) chunks) :
    Delivers (decoderOf decode fresh read encode) memory messages chunks := by
  have start := midway_start messages carried []
  have reach : ∀ chunks : List (List UInt8), chunks.flatten = messages.flatMap encode →
      Runs.Meets (receive (decoderOf decode fresh read encode)) Aligned
        (netConnectionNew (decoderOf decode fresh read encode) memory) chunks →
      ∃ final, Runs.run (receive (decoderOf decode fresh read encode))
        (netConnectionNew (decoderOf decode fresh read encode) memory) chunks = some final ∧
          final.queueMsg = messages := by
    intro chunks split aligned
    obtain ⟨next, finished, remaining, arrived, partition, total, last⟩ :=
      arrivals_exact ⟨fresh, [], []⟩ messages chunks [] carried (by
        rw [split, List.append_nil]
        exact start)
    obtain ⟨final, reached, seen⟩ := receives_arrive decode fresh read encode
      (netConnectionNew (decoderOf decode fresh read encode) memory) chunks aligned next arrived
    refine ⟨final, reached, ?_⟩
    have queued : final.queueMsg = finished := by
      rw [← seen] at total
      exact total
    rw [queued, partition, midway_end next remaining last, List.append_nil]
  obtain ⟨final, reached, queued⟩ := reach chunks split aligned
  obtain ⟨whole, single, all⟩ := reach [chunks.flatten] (by simpa using split)
    ⟨rfl, fun _ _ => trivial⟩
  exact ⟨final, whole, reached, single, queued, by rw [all, queued]⟩

/-! ## Whatever arrives -/

variable {decode fresh read encode} {Endless : List UInt8 → Prop}
  (starts : Confined decode Endless fresh)
include starts

/-- The loop leaves the decoder in a state that it is confined from, and does not move the
end of the data, because the decoder consumes no more than it is given. -/
theorem decodeLoop_confined (fuel : Nat) (netc next : Netc Message State)
    (confined : Confined decode Endless netc.msgDec)
    (looped : decodeLoop (decoderOf decode fresh read encode) fuel netc = some (0, next)) :
    Confined decode Endless next.msgDec ∧ next.bufInSize = netc.bufInSize ∧
      next.bufInOffset + next.bufInDataSize ≤ netc.bufInOffset + netc.bufInDataSize := by
  induction fuel generalizing netc with
  | zero => cases looped
  | succ fuel inductionHypothesis =>
    have confines := confined_confines decode Endless
    have few := confines.inside netc.msgDec netc.window confined
    have kept := confines.kept netc.msgDec netc.window confined
    rw [window_length] at few
    unfold decodeLoop at looped
    cases decoded : decode netc.msgDec netc.window with
    | failed state consumed => simp [decoderOf, decoded] at looped
    | stuck state => simp [decoderOf, decoded] at looped
    | more state consumed =>
      rw [berDecode_more decode fresh read encode decoded] at looped
      simp only [Option.some.injEq, Prod.mk.injEq, true_and] at looped
      rw [decoded, Outcome.consumed] at few
      rw [decoded, Outcome.state] at kept
      rw [← looped]
      refine ⟨kept, rfl, ?_⟩
      simp only [Netc.advance]
      split <;> omega
    | done state consumed =>
      rw [berDecode_done decode fresh read encode decoded] at looped
      rw [decoded, Outcome.consumed] at few
      have moved : (netc.advance consumed).bufInOffset + (netc.advance consumed).bufInDataSize ≤
          netc.bufInOffset + netc.bufInDataSize := by
        simp only [Netc.advance]
        split <;> omega
      dsimp only at looped
      split at looped
      · simp only [Option.some.injEq, Prod.mk.injEq, true_and] at looped
        exact looped ▸ ⟨starts, rfl, moved⟩
      · obtain ⟨still, size, last⟩ := inductionHypothesis _ starts looped
        exact ⟨still, size, Nat.le_trans last moved⟩

/-- An arrival at offset zero is written into the buffer, which grows where it has to. -/
theorem receive_confined (netc next : Netc Message State) (chunk : List UInt8)
    (confined : Confined decode Endless netc.msgDec)
    (received : receive (decoderOf decode fresh read encode) netc chunk = some next) :
    Confined decode Endless next.msgDec ∧
      (Aligned netc chunk → netc.bufInDataSize ≤ netc.bufInSize →
        next.bufInOffset + next.bufInDataSize ≤ next.bufInSize) := by
  have written : netc.bufInDataSize ≤ netc.bufInSize →
      (serializeBufIn netc chunk).bufInDataSize ≤ (serializeBufIn netc chunk).bufInSize := by
    intro room
    simp only [serializeBufIn]
    split <;> omega
  unfold receive netDecodeMsg at received
  split at received
  · next last decoded =>
    rw [Option.some.injEq] at received
    subst received
    split at decoded
    · next nothing =>
      rw [Option.some.injEq, Prod.mk.injEq] at decoded
      rw [← decoded.2]
      refine ⟨confined, fun aligned room => ?_⟩
      have fits := written room
      unfold Aligned at aligned
      simp only [serializeBufIn] at fits ⊢
      omega
    · obtain ⟨still, size, moved⟩ :=
        decodeLoop_confined starts _ (serializeBufIn netc chunk) last confined decoded
      refine ⟨still, fun aligned room => ?_⟩
      have fits := written room
      unfold Aligned at aligned
      have start : (serializeBufIn netc chunk).bufInOffset = 0 := aligned
      omega
  · cases received

/-- Whatever arrives on a connection, its decoder consumes no more than there is, and is
stuck on certain bytes at most. -/
theorem received_confined (memory : Nat → UInt8) (chunks : List (List UInt8))
    (netc : Netc Message State)
    (reached : Runs.run (receive (decoderOf decode fresh read encode))
      (netConnectionNew (decoderOf decode fresh read encode) memory) chunks = some netc) :
    Confined decode Endless netc.msgDec :=
  Runs.invariant_under _ (fun _ _ => True) (fun netc => Confined decode Endless netc.msgDec)
    (fun before chunk next confined _ taken => (receive_confined starts before next chunk confined
      taken).1) _ netc chunks starts (Runs.meets_always _ _ (fun _ _ => trivial) _ _) reached

/-- As long as every chunk arrives at offset zero, the data stays within the buffer. -/
theorem received_inside (memory : Nat → UInt8) (chunks : List (List UInt8))
    (netc : Netc Message State)
    (aligned : Runs.Meets (receive (decoderOf decode fresh read encode)) Aligned
      (netConnectionNew (decoderOf decode fresh read encode) memory) chunks)
    (reached : Runs.run (receive (decoderOf decode fresh read encode))
      (netConnectionNew (decoderOf decode fresh read encode) memory) chunks = some netc) :
    netc.bufInOffset + netc.bufInDataSize ≤ netc.bufInSize := by
  refine (Runs.invariant_under _ Aligned
    (fun netc => Confined decode Endless netc.msgDec ∧
      netc.bufInOffset + netc.bufInDataSize ≤ netc.bufInSize) ?_ _ netc chunks
    ⟨starts, Nat.zero_le _⟩ aligned reached).2
  rintro before chunk next ⟨confined, room⟩ now taken
  obtain ⟨still, inside⟩ := receive_confined starts before next chunk confined taken
  exact ⟨still, inside now (by omega)⟩

end Connections

/-! ## The messages of the protocol -/

section Messages
variable (calls : Nat)

/-- `der_encode` at `asn_DEF_DNDSMessage` -/
def derEncode (message : Value) : List UInt8 :=
  ((dndsMessage calls).derEncoder message 0 0).getD []

/-- `ber_decode` at `asn_DEF_DNDSMessage` -/
def berDecode (msgDec : Struct) (bytes : List UInt8) : Outcome Struct :=
  (dndsMessage calls).berDecoder 0 msgDec bytes

/-- The fields that the handler of a decoded message reads. -/
def messageOf (msgDec : Struct) : Value := msgDec.value.getD (dndsMessage calls).zeroed

/-- The decoder of a connection. -/
def dndsDecoder : BerDecoder Value Struct :=
  decoderOf (berDecode calls) .absent (messageOf calls) (derEncode calls)

theorem dndsMessage_lawful :
    Lawful (dndsMessage calls) 0 (universal 16) (DndsMessageValid calls) :=
  sequence_carries calls (membersOf_fields _) (elements_lawful _) (by
    simp [sequenceType, dndsMessageElements, Arranged, membersOf, Kind.at, Kind.placed,
      contextual]) (.own _) (by decide)

/-- A message that is valid has an encoding, whatever tag is given with the mode 0. -/
theorem derEncode_encodes (message : Value) (valid : DndsMessageValid calls message) :
    (dndsMessage calls).derEncoder message 0 (universal 16) = some (derEncode calls message) := by
  obtain ⟨encoding, encoded⟩ := (dndsMessage_lawful calls).encodes message valid
  have same : (dndsMessage calls).derEncoder message 0 0 =
      (dndsMessage calls).derEncoder message 0 (universal 16) := by
    cases message <;> rfl
  rw [derEncode, same, encoded, Option.getD_some]

/-- A message that is valid and not too long is one that the decoder is led to. -/
theorem message_carried (message : Value) (valid : DndsMessageValid calls message)
    (fits : (derEncode calls message).length + 1024 < 2 ^ 63) :
    Carried (berDecode calls) .absent (messageOf calls) (derEncode calls) message := by
  have lawful := dndsMessage_lawful calls
  have encoded := derEncode_encodes calls message valid
  obtain ⟨outmost, begins, _⟩ := lawful.begins message _ valid encoded
  refine ⟨begins.nonempty, (lawful.resumes message _ valid encoded fits).weaken ?_⟩
  intro final settled
  rw [messageOf, settled, Option.getD_some]

/-- However a stream of valid messages is cut, as long as every chunk arrives at offset
zero, a connection queues exactly these messages, in order and each once.

Proof: the generated decoder reads back each valid message as its encoder wrote it, however it
is cut. Such a decoder is restartable over the messages of the stream, and aligned arrivals
feed it their chunks in order. -/
theorem messages_delivered (memory : Nat → UInt8) (messages : List Value)
    (valid : ∀ message ∈ messages, DndsMessageValid calls message ∧
      (derEncode calls message).length + 1024 < 2 ^ 63)
    (chunks : List (List UInt8))
    (split : chunks.flatten = stream (dndsDecoder calls) messages)
    (aligned : Runs.Meets (receive (dndsDecoder calls)) Aligned
      (netConnectionNew (dndsDecoder calls) memory) chunks) :
    Delivers (dndsDecoder calls) memory messages chunks :=
  carried_delivers _ _ _ _ memory messages (fun message inside =>
    message_carried calls message (valid message inside).1 (valid message inside).2) chunks split
    aligned

/-- An ethernet frame in a message. -/
def frameMessage : Value :=
  .sequence [some (.integer 1), some (.integer 0), some (.choice 3 (some (.string [1, 2, 3] 0)))]

theorem frameMessage_valid : DndsMessageValid calls frameMessage := by
  refine And.intro (fun _ => by decide) (And.intro nofun (And.intro ?_ trivial))
  exact ⟨by decide, _, rfl, by decide, by decide, by decide⟩

/-- Two messages, cut inside the first header. -/
def cutChunks : List (List UInt8) :=
  [(derEncode 10 frameMessage).take 1,
    (derEncode 10 frameMessage).drop 1 ++ derEncode 10 frameMessage]

theorem cutChunks_aligned :
    Runs.Meets (receive (dndsDecoder 10)) Aligned (netConnectionNew (dndsDecoder 10) fun _ => 0)
      cutChunks := by
  refine ⟨rfl, fun next taken => ⟨?_, fun _ _ => trivial⟩⟩
  cases taken
  rfl

theorem frameMessages_valid : ∀ message ∈ [frameMessage, frameMessage],
    DndsMessageValid 10 message ∧ (derEncode 10 message).length + 1024 < 2 ^ 63 := by
  intro message inside
  have same : message = frameMessage := by simpa using inside
  rw [same]
  exact ⟨frameMessage_valid 10, by decide⟩

theorem two_messages_delivered :
    Delivers (dndsDecoder 10) (fun _ => 0) [frameMessage, frameMessage] cutChunks :=
  messages_delivered 10 _ _ frameMessages_valid _ rfl cutChunks_aligned

theorem dndsMessage_confined : Confined (berDecode calls) Unterminated .absent :=
  sequence_confined calls _ 0 (members_confined _)

/-- Whatever has arrived on a connection and whatever comes next, the decoder consumes no
more than it is given, and returns unless a zero octet in it is followed by another octet.

Proof: every call of the decoder leaves a state in which it is confined again, and so does
every arrival, which makes such calls or starts afresh. -/
theorem arrivals_confined (memory : Nat → UInt8) (chunks : List (List UInt8))
    (netc : Netc Value Struct)
    (reached : Runs.run (receive (dndsDecoder calls)) (netConnectionNew (dndsDecoder calls) memory)
      chunks = some netc) (bytes : List UInt8) :
    (berDecode calls netc.msgDec bytes).consumed ≤ bytes.length ∧
      ∀ next, berDecode calls netc.msgDec bytes = .stuck next →
        ∃ octet, octet ≠ 0 ∧ [0, octet] <:+: bytes := by
  have confined := received_confined (dndsMessage_confined calls) memory chunks netc reached
  have confines := confined_confines (berDecode calls) Unterminated
  exact ⟨confines.inside netc.msgDec bytes confined,
    fun next => confines.endless netc.msgDec bytes next confined⟩

theorem arrivals_confined_midway : ∃ netc,
    Runs.run (receive (dndsDecoder 10)) (netConnectionNew (dndsDecoder 10) fun _ => 0)
      [[0x30, 14, 0x80]] = some netc ∧
      (berDecode 10 netc.msgDec [0x80, 1]).consumed ≤ 2 :=
  ⟨_, rfl, (arrivals_confined 10 (fun _ => 0) [[0x30, 14, 0x80]] _ rfl [0x80, 1]).1⟩

/-- As long as every chunk arrives at offset zero, what the decoder is shown lies within the
buffer, whatever the bytes.

Proof: a confined decoder consumes no more than it is shown, so the offset moves inside the
buffer; an aligned arrival starts at its front, where growing has made the room. -/
theorem arrivals_inside (memory : Nat → UInt8) (chunks : List (List UInt8))
    (netc : Netc Value Struct)
    (aligned : Runs.Meets (receive (dndsDecoder calls)) Aligned
      (netConnectionNew (dndsDecoder calls) memory) chunks)
    (reached : Runs.run (receive (dndsDecoder calls)) (netConnectionNew (dndsDecoder calls) memory)
      chunks = some netc) :
    netc.bufInOffset + netc.bufInDataSize ≤ netc.bufInSize :=
  received_inside (dndsMessage_confined calls) memory chunks netc aligned reached

/-- Both messages are queued then. -/
theorem arrivals_inside_midway : ∃ netc,
    Runs.run (receive (dndsDecoder 10)) (netConnectionNew (dndsDecoder 10) fun _ => 0)
      cutChunks = some netc ∧ netc.queueMsg = [frameMessage, frameMessage] ∧
      netc.bufInOffset + netc.bufInDataSize ≤ netc.bufInSize := by
  obtain ⟨netc, _, reached, _, queued, _⟩ := carried_delivers _ _ _ _ (fun _ => 0)
    [frameMessage, frameMessage] (fun message inside =>
      message_carried 10 message (frameMessages_valid message inside).1
        (frameMessages_valid message inside).2) cutChunks rfl cutChunks_aligned
  exact ⟨netc, reached, queued,
    arrivals_inside 10 (fun _ => 0) cutChunks netc cutChunks_aligned reached⟩

end Messages

end NetVirt.MessageStreams
