import Mathlib.Tactic.MkIffOfInductiveProp
import NetVirt.BufferEvents

/-!
# What may happen to a connection's buffers

What recv, OpenSSL and the decoder may return in a connection's state, so that the data stays
inside its buffers. An error of recv or BIO_read that is stored as a number of bytes takes it
beyond the end of a buffer, and so do bytes that fit the buffer without the offset of the data,
but not behind it, and a decoder that consumes more than it was given.

Nothing here follows the functions: the conditions are on what the calls of the libraries
return and on the connection that an event finds.
-/

namespace NetVirt.BufferSizes

open Runs
open SendPath (SecurityLevel KryptStatus WriteResult)

/-! ## What the libraries return -/

/-- krypt_do_handshake stores what BIO_read returns when something is pending. -/
def Shake.Sound (shake : Shake) : Prop := shake.pending > 0 → 0 ≤ shake.bioRead.toInt

/-- krypt_decrypt_buf stores what BIO_read returns when SSL_read wants more. -/
def Decryption.Sound (decryption : Decryption) : Prop :=
  decryption.sslRead.toInt ≤ 0 → decryption.error = .wantRead → 0 ≤ decryption.bioRead.toInt

/-- Only a server takes the step of a handshake. krypt_encrypt_buf tests what BIO_read
returns. -/
def Action.Sound (server : Bool) : Action → Prop
  | .sendMsg _ => True
  | .stepUp shake => server = true → shake.Sound

/-- The handshake is finished. -/
def Shake.completes (shake : Shake) : Bool := shake.ret > 0 && shake.finished

def Action.isStepUp : Action → Bool
  | .sendMsg _ => false
  | .stepUp _ => true

/-- What is left of the received bytes once BIO_write took some. -/
def Round.left (len : CInt) (round : Round) : CInt :=
  if round.bioWrite.toInt > 0 ∧ round.bioWrite.toInt < len.toInt then len - round.bioWrite
  else 0#32

/-- The rounds of the decryption loop, which ends when SSL_read finds nothing, or when nothing
is left to be read. -/
def roundsTaken : CInt → List Round → List Round
  | _, [] => []
  | len, round :: rest =>
    round ::
      if 0 < round.decryption.sslRead.toInt ∧ (round.peek = 1 ∨ (round.left len).toInt > 0) then
        roundsTaken (round.left len) rest
      else []

/-- What SSL_read returned in these rounds, when it was no error. -/
def sslReads (rounds : List Round) : List Int :=
  (rounds.map fun round => round.decryption.sslRead.toInt).filter (0 < ·)

/-- Every number of bytes fits behind the data, or is more than the buffer has room for without
the offset, so that the buffer grows. -/
def RoomAhead (offset : Int) : Int → Int → List Int → Prop
  | _, _, [] => True
  | size, data, nbyte :: rest =>
    0 ≤ data + nbyte ∧
      if data + nbyte ≤ size then
        offset + data + nbyte ≤ size ∧ RoomAhead offset size (data + nbyte) rest
      else RoomAhead offset ((size + nbyte) * 2) (data + nbyte) rest

/-- The calls of ber_decode, for so many bytes of data: while there is data after a message. -/
def decodeCalls : Nat → List Decode → List Decode
  | 0, _ => []
  | _, [] => []
  | data, .ok bytes :: rest => .ok bytes :: decodeCalls (data - bytes.toNat) rest
  | _, other :: _ => [other]

def Decode.bytes : Decode → Nat
  | .ok bytes => bytes.toNat
  | .wmore bytes => bytes.toNat
  | .fail => 0

section Arrivals
variable (conn : Conn) (arrival : Arrival)

/-- The connection is in its handshake. -/
def Conn.shaking : Bool := conn.securityLevel ≠ .unsecure && conn.status = .handshake

/-- Data is taken in: there is no handshake, it goes on, or it has ended and SSL_peek finds
something. -/
def Arrival.goesOn : Bool :=
  !conn.shaking || if arrival.shake.completes then arrival.peek = 1 else arrival.shake.ret ≠ 0

/-- The connection is secured when data is taken in: it was, or it has just become so, and
on_secure has not asked for another handshake. -/
def Arrival.secures : Bool :=
  conn.securityLevel ≠ .unsecure &&
    if conn.shaking then
      arrival.shake.completes && !(conn.server && arrival.onSecure.any Action.isStepUp)
    else conn.status = .secure

/-- The rounds of the decryption loop. A handshake leaves nothing of what was received. -/
def Arrival.rounded : List Round :=
  if arrival.secures conn then
    roundsTaken (if conn.shaking then 0#32 else arrival.recv) arrival.rounds
  else []

/-- What is serialized into buf_in. -/
def Arrival.reads : List Int :=
  if conn.securityLevel = .unsecure then [arrival.recv.toInt] else sslReads (arrival.rounded conn)

/-- The bytes that the decoder is given. -/
def Arrival.given : Nat :=
  ((conn.sizes.bufInDataSize.toNat : Int) + (arrival.reads conn).sum).toNat

def Arrival.calls : List Decode := decodeCalls (arrival.given conn) arrival.decodes

/-- The connection looks for a renegotiation. -/
def Arrival.renegotiates : Bool :=
  arrival.goesOn conn && (arrival.secures conn && Decode.fail ∉ arrival.calls conn)

/-- There is a message for on_input. -/
def Arrival.notifies : Bool :=
  0 < conn.queueMsg || (arrival.calls conn).any fun call =>
    match call with
    | .ok _ => true
    | _ => false

/-- What net_on_input may meet: no error of recv or BIO_read that it stores, room behind the
data, and a decoder that consumes what it was given. -/
@[mk_iff] structure Arrival.Sound : Prop where
  shake : conn.shaking = true → arrival.shake.Sound
  onSecure : conn.shaking = true → arrival.shake.completes = true →
    ∀ action ∈ arrival.onSecure, action.Sound conn.server
  rounds : arrival.goesOn conn = true → ∀ round ∈ arrival.rounded conn, round.decryption.Sound
  room : arrival.goesOn conn = true →
    RoomAhead conn.sizes.bufInOffset.toNat conn.sizes.bufInSize.toNat
      conn.sizes.bufInDataSize.toNat (arrival.reads conn)
  consumed : arrival.goesOn conn = true →
    ((arrival.calls conn).map Decode.bytes).sum ≤ arrival.given conn
  renegotiation : arrival.renegotiates conn = true → arrival.renegotiation.Sound
  onInput : arrival.renegotiates conn = true → arrival.notifies conn = true →
    ∀ action ∈ arrival.onInput, action.Sound conn.server

end Arrivals

/-- What may happen to a connection. -/
def Event.Sound (conn : Conn) : Event → Prop
  | .secureConnection first => ∀ shake ∈ first, shake.Sound
  | .input arrival => arrival.Sound conn
  | .action call => call.Sound conn.server

/-! ## What they promise

A read returns no more than it was asked for, recv at least -1, and no machine has 2^61
bytes. -/

def Shake.Lawful (shake : Shake) : Prop := shake.bioRead.toInt ≤ 1000000

def Decryption.Lawful (decryption : Decryption) : Prop :=
  decryption.sslRead.toInt ≤ 1000000 ∧ decryption.bioRead.toInt ≤ 1000000

def Action.Lawful : Action → Prop
  | .sendMsg sending => ∀ encryption ∈ sending.rounds, encryption.bioRead.toInt ≤ 1000000
  | .stepUp shake => shake.Lawful

/-- The bytes that the encoder makes. -/
def Action.encoded : Action → Nat
  | .sendMsg sending => (sending.chunks.map BitVec.toNat).sum
  | .stepUp _ => 0

def encoded (actions : List Action) : Nat := (actions.map Action.encoded).sum

@[mk_iff] structure Arrival.Lawful (conn : Conn) (arrival : Arrival) : Prop where
  recv : -1 ≤ arrival.recv.toInt
  shake : arrival.shake.Lawful
  onSecure : ∀ action ∈ arrival.onSecure, action.Lawful
  rounds : ∀ round ∈ arrival.rounds, round.decryption.Lawful
  decodes : ∀ decode ∈ arrival.decodes, decode.bytes < 2 ^ 63
  renegotiation : arrival.renegotiation.Lawful
  onInput : ∀ action ∈ arrival.onInput, action.Lawful
  few : (conn.sizes.bufInDataSize.toNat : Int) + (arrival.reads conn).sum < 2 ^ 61
  spare : conn.sizes.bufEncDataSize.toNat + encoded (arrival.onSecure ++ arrival.onInput) < 2 ^ 61

def Event.Lawful (conn : Conn) : Event → Prop
  | .secureConnection first =>
    (∀ shake ∈ first, shake.Lawful) ∧ conn.sizes.bufEncDataSize.toNat < 2 ^ 61
  | .input arrival => arrival.Lawful conn
  | .action call => call.Lawful ∧ conn.sizes.bufEncDataSize.toNat + call.encoded < 2 ^ 61

/-! The conditions can be evaluated. -/

instance (shake : Shake) : Decidable shake.Sound := inferInstanceAs (Decidable (_ → _))

instance (decryption : Decryption) : Decidable decryption.Sound :=
  inferInstanceAs (Decidable (_ → _ → _))

instance (server : Bool) : (action : Action) → Decidable (action.Sound server)
  | .sendMsg _ => isTrue trivial
  | .stepUp shake => inferInstanceAs (Decidable (server = true → shake.Sound))

instance decideRoomAhead (offset : Int) :
    (size data : Int) → (reads : List Int) → Decidable (RoomAhead offset size data reads)
  | _, _, [] => isTrue trivial
  | size, data, nbyte :: rest =>
    have := decideRoomAhead offset size (data + nbyte) rest
    have := decideRoomAhead offset ((size + nbyte) * 2) (data + nbyte) rest
    inferInstanceAs (Decidable (0 ≤ data + nbyte ∧
      if data + nbyte ≤ size then
        offset + data + nbyte ≤ size ∧ RoomAhead offset size (data + nbyte) rest
      else RoomAhead offset ((size + nbyte) * 2) (data + nbyte) rest))

instance (conn : Conn) (arrival : Arrival) : Decidable (arrival.Sound conn) :=
  decidable_of_iff _ (Arrival.sound_iff conn arrival).symm

instance (conn : Conn) : (event : Event) → Decidable (event.Sound conn)
  | .secureConnection first => inferInstanceAs (Decidable (∀ shake ∈ first, shake.Sound))
  | .input arrival => inferInstanceAs (Decidable (arrival.Sound conn))
  | .action call => inferInstanceAs (Decidable (call.Sound conn.server))

instance (shake : Shake) : Decidable shake.Lawful := inferInstanceAs (Decidable (_ ≤ _))

instance (decryption : Decryption) : Decidable decryption.Lawful :=
  inferInstanceAs (Decidable (_ ∧ _))

instance : (action : Action) → Decidable action.Lawful
  | .sendMsg sending => inferInstanceAs
    (Decidable (∀ encryption ∈ sending.rounds, encryption.bioRead.toInt ≤ 1000000))
  | .stepUp shake => inferInstanceAs (Decidable shake.Lawful)

instance (conn : Conn) (arrival : Arrival) : Decidable (arrival.Lawful conn) :=
  decidable_of_iff _ (Arrival.lawful_iff conn arrival).symm

instance (conn : Conn) : (event : Event) → Decidable (event.Lawful conn)
  | .secureConnection first => inferInstanceAs (Decidable ((∀ shake ∈ first, shake.Lawful) ∧ _))
  | .input arrival => inferInstanceAs (Decidable (arrival.Lawful conn))
  | .action call => inferInstanceAs (Decidable (call.Lawful ∧ _))

end NetVirt.BufferSizes
