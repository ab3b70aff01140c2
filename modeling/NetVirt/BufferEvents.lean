import NetVirt.BufferSizes
import NetVirt.SendPath

/-!
# What is stored in the sizes of a connection

`net_on_input`, `net_send_msg` and `net_step_up` with what they call, followed for what they
store in the sizes of a connection's buffers. Every result of a library is given with the
event, and so are the calls that the callbacks of the upper layer make. A function has no
result when it needs more of them than were given.

A failed send is followed as one that leaves the connection in place.
-/

namespace NetVirt.BufferSizes

open Runs
open SendPath (SecurityLevel KryptStatus WriteResult)

/-! ## The connection -/

/-- A connection, with everything that was stored in its sizes, in order. -/
structure Conn where
  securityLevel : SecurityLevel
  server : Bool
  status : KryptStatus
  bufferDataLen : CInt
  queueMsg : Nat
  freed : Bool
  sizes : Sizes
  updates : List Update
deriving DecidableEq

/-- `net_connection_new` -/
def netConnectionNew (securityLevel : SecurityLevel) (server : Bool) : Conn :=
  { securityLevel := securityLevel, server := server, status := .noinit, bufferDataLen := 0#32,
    queueMsg := 0, freed := false, sizes := .new, updates := [] }

def Conn.update (conn : Conn) (update : Update) : Conn :=
  { conn with
    sizes := conn.sizes.apply update
    updates := conn.updates ++ [update] }

/-- `net_do_krypt`, with the result of the send. -/
def netDoKrypt (sent : Int) (conn : Conn) : Conn :=
  if conn.sizes.bufEncryptDataSize ≠ 0#64 ∧ sent ≥ 0 then conn.update (.encryptStored 0#32)
  else conn

/-! ## crypto.c -/

/-- The results of SSL_do_handshake, SSL_is_init_finished, BIO_ctrl_pending and BIO_read, and
of the send that follows. -/
structure Shake where
  ret : Int
  finished : Bool
  pending : Int
  bioRead : CInt
  sent : Int
deriving DecidableEq

/-- What `krypt_do_handshake` returns, and the status that it leaves. -/
def Shake.outcome (shake : Shake) (status : KryptStatus) : Int × KryptStatus :=
  if shake.ret > 0 ∧ shake.finished = false then (1, status)
  else if shake.ret > 0 then (0, .secure)
  else if shake.ret = 0 then (-1, .fail)
  else (1, status)

/-- `krypt_do_handshake` -/
def kryptDoHandshake (shake : Shake) (conn : Conn) : Int × Conn :=
  let (ret, status) := shake.outcome conn.status
  let conn := { conn with status := status }
  (ret, if shake.pending > 0 then conn.update (.encryptStored shake.bioRead) else conn)

inductive SslError where
  | wantRead
  | wantWrite
  | other
deriving DecidableEq

/-- The results of SSL_read, SSL_get_error and BIO_read. -/
structure Decryption where
  sslRead : CInt
  error : SslError
  bioRead : CInt
deriving DecidableEq

/-- `krypt_decrypt_buf` -/
def kryptDecryptBuf (decryption : Decryption) (conn : Conn) : Int × Conn :=
  if decryption.sslRead.toInt ≤ 0 then
    let conn := conn.update (.decryptStored 0#32)
    (-1, if decryption.error = .wantRead then conn.update (.encryptStored decryption.bioRead)
      else conn)
  else (0, conn.update (.decryptStored decryption.sslRead))

/-- The results of SSL_write, if it is called, of BIO_read and of BIO_ctrl_pending. -/
structure Encryption where
  result : WriteResult
  bioRead : CInt
  pending : Int
deriving DecidableEq

/-- `krypt_encrypt_buf` -/
def kryptEncryptBuf (encryption : Encryption) (conn : Conn) : Int × Conn :=
  let writes := conn.sizes.bufEncDataSize ≠ 0#64
  if writes ∧ encryption.result = .failed then (-1, conn)
  else
    let status : Int := if writes ∧ encryption.result = .wantWrite then -1 else 0
    let conn := conn.update (.encryptStored 0#32)
    let conn := if encryption.bioRead.toInt > 0 then
      conn.update (.encryptStored encryption.bioRead) else conn
    if status ≠ -1 ∧ encryption.pending > 0 then (-2, conn) else (status, conn)

/-! ## net_send_msg and net_step_up -/

/-- The do-while loop of net_send_msg. -/
def encryptLoop : List Encryption → Conn → Option Conn
  | [], _ => none
  | encryption :: rest, conn =>
    let (ret, conn) := kryptEncryptBuf encryption conn
    let conn := conn.update (.encryptStored 0#32)
    let conn := if ret = -2 then conn.update .encEmptied else conn
    if ret < 0 then encryptLoop rest conn else some conn

/-- The sizes of the chunks of der_encode, its success, and what the loop finds. -/
structure Sending where
  chunks : List Word
  encoded : Bool
  rounds : List Encryption
deriving DecidableEq

def serializeChunks (chunks : List Word) (conn : Conn) : Conn :=
  chunks.foldl (fun conn dataSize => conn.update (.serializeBufEnc dataSize)) conn

/-- `net_send_msg` -/
def netSendMsg (sending : Sending) (conn : Conn) : Option Conn :=
  let conn := serializeChunks sending.chunks conn
  if sending.encoded = false then some (conn.update .encEmptied)
  else if conn.securityLevel ≠ .unsecure ∧ conn.status ≠ .secure then some conn
  else do
    let conn ← if conn.securityLevel = .unsecure then some conn
      else encryptLoop sending.rounds conn
    return conn.update .encEmptied

/-- `net_step_up`. An unsecured connection has no krypt part to be renegotiated. -/
def netStepUp (shake : Shake) (conn : Conn) : Option Conn :=
  if conn.server = false then some conn
  else if conn.securityLevel = .unsecure then none
  else
    let (_, conn) := kryptDoHandshake shake conn
    some { netDoKrypt shake.sent conn with status := .handshake }

/-- The calls that the upper layer makes. -/
inductive Action where
  | sendMsg (sending : Sending)
  | stepUp (shake : Shake)
deriving DecidableEq

def perform (conn : Conn) : Action → Option Conn
  | .sendMsg sending => netSendMsg sending conn
  | .stepUp shake => netStepUp shake conn

/-! ## net_on_input -/

/-- One round of the decryption loop: BIO_write, krypt_decrypt_buf, SSL_peek and the send. -/
structure Round where
  bioWrite : CInt
  decryption : Decryption
  peek : Int
  sent : Int
deriving DecidableEq

/-- The decryption loop of net_on_input. -/
def decryptLoop : List Round → Conn → Option Conn
  | [], _ => none
  | round :: rest, conn =>
    let conn := { conn with bufferDataLen :=
      if round.bioWrite.toInt > 0 ∧ round.bioWrite.toInt < conn.bufferDataLen.toInt then
        conn.bufferDataLen - round.bioWrite
      else 0#32 }
    let (ret, conn) := kryptDecryptBuf round.decryption conn
    let conn := if ret = 0 then
      (conn.update (.serializeBufIn conn.sizes.bufDecryptDataSize)).update (.decryptStored 0#32)
      else conn
    let conn := netDoKrypt round.sent conn
    if ret = 0 ∧ (round.peek = 1 ∨ conn.bufferDataLen.toInt > 0) then decryptLoop rest conn
    else some conn

/-- The codes RC_OK, RC_WMORE and RC_FAIL, with the bytes consumed. -/
inductive Decode where
  | ok (bytes : Word)
  | wmore (bytes : Word)
  | fail
deriving DecidableEq

/-- The do-while loop of net_decode_msg. -/
def decodeLoop : List Decode → Conn → Option (Int × Conn)
  | [], _ => none
  | .wmore bytes :: _, conn => some (0, conn.update (.consumed bytes))
  | .fail :: _, conn => some (-1, conn.update .decodeFailed)
  | .ok bytes :: rest, conn =>
    let conn := { conn with queueMsg := conn.queueMsg + 1 }.update (.consumed bytes)
    if conn.sizes.bufInDataSize = 0#64 then some (0, conn) else decodeLoop rest conn

/-- `net_decode_msg` -/
def netDecodeMsg (decodes : List Decode) (conn : Conn) : Option (Int × Conn) :=
  if conn.sizes.bufInDataSize = 0#64 then some (0, conn) else decodeLoop decodes conn

/-- What net_on_input finds. -/
structure Arrival where
  recv : CInt
  shake : Shake
  onSecure : List Action
  peek : Int
  rounds : List Round
  decodes : List Decode
  renegotiation : Decryption
  sent : Int
  onInput : List Action
  /-- The messages that on_input leaves in the queue. -/
  left : Nat
deriving DecidableEq

/-- The part of net_on_input that takes what was received into buf_in. -/
def takeIn (arrival : Arrival) (conn : Conn) : Option Conn :=
  if conn.securityLevel = .unsecure then
    some (conn.update (.serializeBufIn (word conn.bufferDataLen)))
  else if conn.status = .secure then decryptLoop arrival.rounds conn
  else some conn

/-- The part of net_on_input after net_decode_msg. -/
def dispatchInput (arrival : Arrival) (conn : Conn) : Option Conn :=
  if conn.securityLevel ≠ .unsecure ∧ conn.status = .secure then
    let conn := netDoKrypt arrival.sent (kryptDecryptBuf arrival.renegotiation conn).2
    if conn.queueMsg > 0 then
      (arrival.onInput.foldlM perform conn).map fun conn => { conn with queueMsg := arrival.left }
    else some conn
  else some conn

/-- The part of net_on_input after the handshake. -/
def processInput (arrival : Arrival) (conn : Conn) : Option Conn := do
  let conn ← takeIn arrival conn
  let (ret, conn) ← netDecodeMsg arrival.decodes conn
  if ret = -1 then return { conn with freed := true } else dispatchInput arrival conn

/-- `net_on_input` -/
def netOnInput (arrival : Arrival) (conn : Conn) : Option Conn :=
  let conn := { conn with bufferDataLen := arrival.recv }
  if conn.securityLevel ≠ .unsecure ∧ conn.status = .handshake then
    let (ret, conn) := kryptDoHandshake arrival.shake conn
    let conn := netDoKrypt arrival.shake.sent { conn with bufferDataLen := 0#32 }
    if ret = 0 then do
      let conn ← arrival.onSecure.foldlM perform conn
      if arrival.peek = 1 then processInput arrival conn else return conn
    else if ret = -1 then some { conn with freed := true }
    else processInput arrival conn
  else processInput arrival conn

/-- What can happen: krypt_secure_connection prepares a handshake, whose first step
net_client and net_p2p_on_connect take at once; data arrives; or the upper layer makes a
call. -/
inductive Event where
  | secureConnection (first : Option Shake)
  | input (arrival : Arrival)
  | action (action : Action)
deriving DecidableEq

/-- krypt_secure_connection, with what net_client and net_p2p_on_connect do after it. -/
def secureConnection (first : Option Shake) (conn : Conn) : Conn :=
  let conn := { conn with status := .handshake }
  match first with
  | none => conn
  | some shake => netDoKrypt shake.sent (kryptDoHandshake shake conn).2

/-- A connection that was freed is not used again. -/
def step (conn : Conn) (event : Event) : Option Conn :=
  if conn.freed then none
  else match event with
    | .secureConnection first =>
      if conn.securityLevel = .unsecure then none else some (secureConnection first conn)
    | .input arrival => netOnInput arrival conn
    | .action action => perform conn action

end NetVirt.BufferSizes
