/-!
# The receive side of a netbus connection

`serialize_buf_in` and `net_decode_msg` of netbus.c with the fields of `netc_t` that
they read and write. Heap memory is a function from positions to bytes: the bytes
that malloc and realloc leave undetermined are whatever the function holds there.
Sizes are natural numbers; the unsigned wrap of a size_t is not part of these laws.

The generated `ber_decode` is a parameter. It is called with the partially decoded
message (`msg_dec`, NULL between messages) and the bytes that are left, and reports
one of the three codes of `asn_dec_rval_t` with the number of bytes it consumed.
-/

namespace NetVirt.Netbus

variable {Message Context : Type}

/-- The codes RC_OK, RC_WMORE and RC_FAIL. A completed message leaves `*struct_ptr`;
a decoder that wants more leaves its progress there. -/
inductive Decoded (Message Context : Type) where
  | ok (message : Message) (consumed : Nat)
  | wmore (progress : Context) (consumed : Nat)
  | fail (consumed : Nat)
deriving DecidableEq

/-- `ber_decode` at `asn_DEF_DNDSMessage`, with the DER encoding it inverts. -/
structure BerDecoder (Message Context : Type) where
  derEncode : Message → List UInt8
  /-- The context of a decoder given `msg_dec == NULL`. -/
  fresh : Context
  berDecode : Context → List UInt8 → Decoded Message Context

/-- The receive fields of `netc_t`. -/
structure Netc (Message Context : Type) where
  msgDec : Context
  bufIn : Nat → UInt8
  bufInSize : Nat
  bufInOffset : Nat
  bufInDataSize : Nat
  queueMsg : List Message

/-- The bytes net_decode_msg hands to the decoder: `buf_in_data_size` of them from
`buf_in + buf_in_offset` on. -/
def Netc.window (netc : Netc Message Context) : List UInt8 :=
  (List.range netc.bufInDataSize).map fun index => netc.bufIn (netc.bufInOffset + index)

/-- A connection of net_connection_new: a buffer of 1000000 undetermined bytes, none
of them data, and an empty queue. -/
def netConnectionNew (decoder : BerDecoder Message Context) (memory : Nat → UInt8) :
    Netc Message Context :=
  { msgDec := decoder.fresh, bufIn := memory, bufInSize := 1000000, bufInOffset := 0,
    bufInDataSize := 0, queueMsg := [] }

/-- memmove of the given bytes to a position of the buffer. -/
def memmove (memory : Nat → UInt8) (position : Nat) (bytes : List UInt8) : Nat → UInt8 :=
  fun index => if position ≤ index then bytes.getD (index - position) (memory index)
    else memory index

/-- `serialize_buf_in`. The new bytes go to `buf_in + buf_in_data_size`; the offset of
the data already there is not added. -/
def serializeBufIn (netc : Netc Message Context) (chunk : List UInt8) : Netc Message Context :=
  { netc with
    bufInSize := if netc.bufInDataSize + chunk.length > netc.bufInSize then
      (netc.bufInSize + chunk.length) * 2 else netc.bufInSize
    bufIn := memmove netc.bufIn netc.bufInDataSize chunk
    bufInDataSize := netc.bufInDataSize + chunk.length }

/-- Account for consumed bytes: the offset moves past them, or back to the start of
the buffer when nothing is left. -/
def Netc.advance (netc : Netc Message Context) (consumed : Nat) : Netc Message Context :=
  { netc with
    bufInDataSize := netc.bufInDataSize - consumed
    bufInOffset := if netc.bufInDataSize - consumed = 0 then 0
      else netc.bufInOffset + consumed }

/-- `net_queue_msg`: append the decoded message and clear `msg_dec`. -/
def netQueueMsg (decoder : BerDecoder Message Context) (netc : Netc Message Context)
    (message : Message) : Netc Message Context :=
  { netc with queueMsg := netc.queueMsg ++ [message], msgDec := decoder.fresh }

/-- The do-while loop of `net_decode_msg`. Fuel bounds its iterations; running out of
it is reported as no result. -/
def decodeLoop (decoder : BerDecoder Message Context) :
    Nat → Netc Message Context → Option (Int × Netc Message Context)
  | 0, _ => none
  | fuel + 1, netc =>
    match decoder.berDecode netc.msgDec netc.window with
    | .wmore progress consumed => some (0, { netc with msgDec := progress }.advance consumed)
    | .fail _ => some (-1, { netc with bufInDataSize := 0, bufInOffset := 0 })
    | .ok message consumed =>
      let queued := (netQueueMsg decoder netc message).advance consumed
      if queued.bufInDataSize = 0 then some (0, queued) else decodeLoop decoder fuel queued

/-- `net_decode_msg`. Every completed message consumes a byte, so as many iterations as
there are bytes are enough. -/
def netDecodeMsg (decoder : BerDecoder Message Context) (netc : Netc Message Context) :
    Option (Int × Netc Message Context) :=
  if netc.bufInDataSize = 0 then some (0, netc)
  else decodeLoop decoder netc.bufInDataSize netc

/-- One arrival on an unsecured connection: serialize_buf_in, then net_decode_msg.
A decoding failure ends the connection, so it has no next state. -/
def receive (decoder : BerDecoder Message Context) (netc : Netc Message Context)
    (chunk : List UInt8) : Option (Netc Message Context) :=
  match netDecodeMsg decoder (serializeBufIn netc chunk) with
  | some (0, next) => some next
  | _ => none

section Windows
variable (netc : Netc Message Context)

@[simp] theorem window_length : netc.window.length = netc.bufInDataSize := by
  simp [Netc.window]

/-- Consumed bytes leave the window from its front. -/
theorem window_advance (consumed : Nat) :
    (netc.advance consumed).window = netc.window.drop consumed := by
  by_cases exhausted : netc.bufInDataSize - consumed = 0
  · have all : netc.window.length ≤ consumed := by rw [window_length]; omega
    rw [List.drop_eq_nil_of_le all]
    simp [Netc.window, Netc.advance, exhausted]
  · apply List.ext_getElem
    · simp [Netc.window, Netc.advance]
    · intro index left right
      simp [Netc.window, Netc.advance, exhausted, Nat.add_assoc]

/-- At offset zero an arrival appends its bytes to the window. The stored bytes lie
below the position written, the new ones fill the rest. -/
theorem window_serialize (chunk : List UInt8) (aligned : netc.bufInOffset = 0) :
    (serializeBufIn netc chunk).window = netc.window ++ chunk := by
  apply List.ext_getElem
  · simp [Netc.window, serializeBufIn]
  · intro index left right
    by_cases stored : index < netc.bufInDataSize
    · simp [Netc.window, serializeBufIn, memmove, aligned, stored, Nat.not_le_of_lt stored]
    · have bound : index - netc.bufInDataSize < chunk.length := by
        simp only [List.length_append, window_length] at right
        omega
      simp [Netc.window, serializeBufIn, memmove, aligned, Nat.le_of_not_lt stored,
        List.getElem?_eq_getElem bound]

end Windows

end NetVirt.Netbus
