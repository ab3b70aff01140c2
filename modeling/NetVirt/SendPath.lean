import NetVirt.Runs

/-!
# The send side of a netbus connection

`net_send_msg` of netbus.c, `krypt_encrypt_buf` of crypto.c and `udtbus_send` of udt.cpp,
with the fields that they read and write. A buffer with its data size is the list of its
bytes of data. What was put on queue_out and every call of SSL_write are recorded, and so
are the bytes that the transport accepted.

OpenSSL, the UDT library and the generated DER encoder are parameters, each with what its
documentation promises. The connection is freed when the transport refuses a buffer; that
is not modelled here.
-/

namespace NetVirt.SendPath

open Runs

/-! ## The libraries -/

/-- `der_encode` at `asn_DEF_DNDSMessage`: the chunks it hands to its callback, and whether it
comes to an end. An encoding has a tag at least. -/
structure DerEncoder (Message : Type) where
  chunks : Message → List (List UInt8)
  encoded : Message → Bool
  tagged : ∀ msg, encoded msg = true → (chunks msg).flatten ≠ []

/-- The DER encoding of a message. -/
def DerEncoder.der {Message : Type} (encoder : DerEncoder Message) (msg : Message) : List UInt8 :=
  (encoder.chunks msg).flatten

/-- What SSL_write reports: a positive count, or SSL_ERROR_WANT_READ, SSL_ERROR_WANT_WRITE or
another error. -/
inductive WriteResult where
  | accepted
  | wantRead
  | wantWrite
  | failed
deriving DecidableEq

/-- What a call of SSL_write reports, and what it adds to the network BIO. -/
structure SslWrite where
  result : WriteResult
  ciphertext : List UInt8
deriving DecidableEq

/-- An SSL object over a pair of BIOs. The network BIO holds bytes up to its size, which
BIO_read takes from the front. A call that reads nothing gives none. -/
structure Ssl (Object : Type) where
  sslWrite : Object → List UInt8 → SslWrite × Object
  bioRead : Object → Nat → List UInt8 × Object
  bioCtrlPending : Object → Nat
  contents : Object → List UInt8
  size : Nat
  pending : ∀ object, bioCtrlPending object = (contents object).length
  bounded : ∀ object, (contents object).length ≤ size
  taken : ∀ object size, (bioRead object size).1 = (contents object).take size
  left : ∀ object size, contents (bioRead object size).2 = (contents object).drop size
  added : ∀ object buf, contents (sslWrite object buf).2 =
    contents object ++ (sslWrite object buf).1.ciphertext

/-- `UDT::send`: none for UDT::ERROR, else the length of the prefix that it accepts. -/
structure Transport (Peer : Type) where
  send : Peer → List UInt8 → Option Nat × Peer
  accepts : ∀ peer bytes count, (send peer bytes).1 = some count →
    count ≤ bytes.length ∧ (bytes ≠ [] → 0 < count)

/-! ## The connection -/

inductive SecurityLevel where
  | unsecure
  | secureAdh
  | secureRsa
deriving DecidableEq

inductive KryptStatus where
  | noinit
  | handshake
  | secure
  | fail
deriving DecidableEq

/-- The fields of `krypt_t`, and the calls of SSL_write with the buffers they were given. -/
structure Krypt (Object : Type) where
  ssl : Object
  status : KryptStatus
  bufEncrypt : List UInt8
  writes : List (List UInt8 × SslWrite)

/-- `mbuf_t`. Its size has 32 bits. -/
structure Mbuf where
  extBuf : List UInt8
  extSize : BitVec 32
deriving DecidableEq

/-- `mbuf_new` of a copy. -/
def mbufNew (buf : List UInt8) : Mbuf := { extBuf := buf, extSize := BitVec.ofNat 32 buf.length }

/-- The bytes of a buffer that the transport is given: the size is passed as an int. -/
def Mbuf.given (mbuf : Mbuf) : List UInt8 := mbuf.extBuf.take mbuf.extSize.toInt.toNat

/-- A peer, with the bytes that it accepted. -/
structure Link (Peer : Type) where
  peer : Peer
  wire : List UInt8

/-- The send fields of `netc_t`, and the buffers that net_queue_out was given. -/
structure Netc (Object Peer : Type) where
  securityLevel : SecurityLevel
  kconn : Krypt Object
  bufEnc : List UInt8
  queueOut : List Mbuf
  queued : List (List UInt8)
  link : Link Peer

variable {Message Object Peer : Type}

/-- `net_connection_new`, with the SSL object and the peer that it is given later. -/
def netConnectionNew (securityLevel : SecurityLevel) (object : Object) (peer : Peer) :
    Netc Object Peer :=
  { securityLevel := securityLevel,
    kconn := { ssl := object, status := .noinit, bufEncrypt := [], writes := [] },
    bufEnc := [], queueOut := [], queued := [], link := { peer := peer, wire := [] } }

/-- `net_queue_out` -/
def netQueueOut (netc : Netc Object Peer) (buf : List UInt8) : Netc Object Peer :=
  { netc with
    queueOut := netc.queueOut ++ [mbufNew buf]
    queued := netc.queued ++ [buf] }

/-- `serialize_buf_enc` -/
def serializeBufEnc (netc : Netc Object Peer) (buf : List UInt8) : Netc Object Peer :=
  { netc with bufEnc := netc.bufEnc ++ buf }

/-! ## The transport -/

/-- `udtbus_send` -/
def udtbusSend (transport : Transport Peer) (link : Link Peer) (data : List UInt8) :
    Int × Link Peer :=
  match transport.send link.peer data with
  | (none, peer) => (-1, { link with peer := peer })
  | (some count, peer) => (count, { peer := peer, wire := link.wire ++ data.take count })

/-- The loop of net_flush_queue_out. -/
def flushLoop (transport : Transport Peer) : List Mbuf → Link Peer → Int → Int × Link Peer
  | [], link, nbyte => (nbyte, link)
  | mbuf :: rest, link, _ =>
    let (nbyte, link) := udtbusSend transport link mbuf.given
    if nbyte = -1 then (nbyte, link) else flushLoop transport rest link nbyte

/-- `net_flush_queue_out` -/
def netFlushQueueOut (transport : Transport Peer) (netc : Netc Object Peer) :
    Int × Netc Object Peer :=
  let (nbyte, link) := flushLoop transport netc.queueOut netc.link 0
  (nbyte, { netc with queueOut := [], link := link })

/-! ## The security layer -/

/-- `krypt_encrypt_buf` calls SSL_write unless there is nothing to encrypt. -/
def Krypt.write (ssl : Ssl Object) (kconn : Krypt Object) (buf : List UInt8) :
    Option WriteResult × Krypt Object :=
  if buf = [] then (none, kconn)
  else
    let (call, object) := ssl.sslWrite kconn.ssl buf
    (some call.result, { kconn with
      ssl := object
      writes := kconn.writes ++ [(buf, call)] })

/-- `buf_encrypt_size` -/
def bufEncryptSize : Nat := 1000000

/-- `krypt_encrypt_buf` reads what the network BIO holds into buf_encrypt. -/
def Krypt.read (ssl : Ssl Object) (kconn : Krypt Object) : Krypt Object :=
  let (bytes, object) := ssl.bioRead kconn.ssl bufEncryptSize
  { kconn with
    ssl := object
    bufEncrypt := bytes }

/-- `krypt_encrypt_buf` -/
def kryptEncryptBuf (ssl : Ssl Object) (kconn : Krypt Object) (buf : List UInt8) :
    Int × Krypt Object :=
  let (result, kconn) := kconn.write ssl buf
  if result = some .failed then (-1, kconn)
  else
    let status : Int := if result = some .wantWrite then -1 else 0
    let kconn := kconn.read ssl
    if status ≠ -1 ∧ ssl.bioCtrlPending kconn.ssl > 0 then (-2, kconn) else (status, kconn)

/-- The body of the do-while loop of net_send_msg. -/
def encryptRound (ssl : Ssl Object) (netc : Netc Object Peer) : Int × Netc Object Peer :=
  let (ret, kconn) := kryptEncryptBuf ssl netc.kconn netc.bufEnc
  let queued := netQueueOut netc kconn.bufEncrypt
  (ret, { queued with
    kconn := { kconn with bufEncrypt := [] }
    bufEnc := if ret = -2 then [] else netc.bufEnc })

/-- The do-while loop of net_send_msg. Fuel bounds its rounds; running out of it is reported
as no result. -/
def encryptLoop (ssl : Ssl Object) : Nat → Netc Object Peer → Option (Netc Object Peer)
  | 0, _ => none
  | fuel + 1, netc =>
    let (ret, netc) := encryptRound ssl netc
    if ret < 0 then encryptLoop ssl fuel netc else some netc

/-! ## net_send_msg -/

/-- The part of net_send_msg before anything is queued. It is refused, or goes on. -/
def prepare (encoder : DerEncoder Message) (netc : Netc Object Peer) (msg : Message) :
    Except (Netc Object Peer) (Netc Object Peer) :=
  let netc := (encoder.chunks msg).foldl serializeBufEnc netc
  if encoder.encoded msg = false then .error { netc with bufEnc := [] }
  else if netc.securityLevel ≠ .unsecure ∧ netc.kconn.status ≠ .secure then .error netc
  else .ok netc

/-- The part of net_send_msg that queues the encoded message. -/
def handOver (ssl : Ssl Object) (fuel : Nat) (netc : Netc Object Peer) :
    Option (Netc Object Peer) :=
  if netc.securityLevel = .unsecure then some (netQueueOut netc netc.bufEnc)
  else encryptLoop ssl fuel netc

/-- `net_send_msg` -/
def netSendMsg (encoder : DerEncoder Message) (ssl : Ssl Object) (transport : Transport Peer)
    (fuel : Nat) (netc : Netc Object Peer) (msg : Message) : Option (Int × Netc Object Peer) :=
  match prepare encoder netc msg with
  | .error netc => some (-1, netc)
  | .ok netc => do
    let netc ← handOver ssl fuel netc
    return netFlushQueueOut transport { netc with bufEnc := [] }

/-! ## One round of the loop -/

/-- The security layer after a call of SSL_write. -/
def Krypt.written (ssl : Ssl Object) (kconn : Krypt Object) (buf : List UInt8) : Krypt Object :=
  { kconn with
    ssl := (ssl.sslWrite kconn.ssl buf).2
    writes := kconn.writes ++ [(buf, (ssl.sslWrite kconn.ssl buf).1)] }

/-- What krypt_encrypt_buf returns when no write was refused: -2 if it left bytes behind. -/
def leftOver (ssl : Ssl Object) (object : Object) : Int :=
  if ssl.contents object = [] then 0 else -2

theorem pending_iff (ssl : Ssl Object) (object : Object) :
    ssl.bioCtrlPending object > 0 ↔ ssl.contents object ≠ [] := by
  rw [ssl.pending, gt_iff_lt, List.length_pos_iff]

/-- With nothing to write, the network BIO is read. -/
theorem kryptEncryptBuf_idle (ssl : Ssl Object) (kconn : Krypt Object) :
    kryptEncryptBuf ssl kconn [] = (leftOver ssl (kconn.read ssl).ssl, kconn.read ssl) := by
  by_cases empty : ssl.contents (kconn.read ssl).ssl = []
  · simp [kryptEncryptBuf, Krypt.write, pending_iff, leftOver, empty]
  · simp [kryptEncryptBuf, Krypt.write, pending_iff, leftOver, empty]

section Writing
variable (ssl : Ssl Object) (kconn : Krypt Object) (buf : List UInt8) (nonempty : buf ≠ [])
include nonempty

/-- After a fatal error nothing is read. -/
theorem kryptEncryptBuf_failed (failed : (ssl.sslWrite kconn.ssl buf).1.result = .failed) :
    kryptEncryptBuf ssl kconn buf = (-1, kconn.written ssl buf) := by
  simp [kryptEncryptBuf, Krypt.write, nonempty, failed, Krypt.written]

/-- A write that has to wait for the network BIO is to be repeated. -/
theorem kryptEncryptBuf_blocked (blocked : (ssl.sslWrite kconn.ssl buf).1.result = .wantWrite) :
    kryptEncryptBuf ssl kconn buf = (-1, (kconn.written ssl buf).read ssl) := by
  simp [kryptEncryptBuf, Krypt.write, nonempty, blocked, Krypt.written]

/-- Any other write counts as done, SSL_ERROR_WANT_READ included. -/
theorem kryptEncryptBuf_done
    (done : (ssl.sslWrite kconn.ssl buf).1.result = .accepted ∨
      (ssl.sslWrite kconn.ssl buf).1.result = .wantRead) :
    kryptEncryptBuf ssl kconn buf = (leftOver ssl ((kconn.written ssl buf).read ssl).ssl,
      (kconn.written ssl buf).read ssl) := by
  have layer : (kconn.write ssl buf).2 = kconn.written ssl buf := by
    simp [Krypt.write, nonempty, Krypt.written]
  have result : (kconn.write ssl buf).1 = some (ssl.sslWrite kconn.ssl buf).1.result := by
    simp [Krypt.write, nonempty]
  unfold kryptEncryptBuf
  rw [← layer]
  rcases done with done | done
  · by_cases empty : ssl.contents ((kconn.write ssl buf).2.read ssl).ssl = []
    · simp [result, done, pending_iff, leftOver, empty]
    · simp [result, done, pending_iff, leftOver, empty]
  · by_cases empty : ssl.contents ((kconn.write ssl buf).2.read ssl).ssl = []
    · simp [result, done, pending_iff, leftOver, empty]
    · simp [result, done, pending_iff, leftOver, empty]

end Writing

/-- A write is done, or it is to be repeated. -/
theorem write_cases (ssl : Ssl Object) (object : Object) (buf : List UInt8) :
    ((ssl.sslWrite object buf).1.result = .accepted ∨
      (ssl.sslWrite object buf).1.result = .wantRead) ∨
    (ssl.sslWrite object buf).1.result = .wantWrite ∨
    (ssl.sslWrite object buf).1.result = .failed := by
  cases (ssl.sslWrite object buf).1.result <;> simp

/-- `krypt_encrypt_buf` calls SSL_write once, or not at all when there is nothing to write. -/
theorem kryptEncryptBuf_writes (ssl : Ssl Object) (kconn : Krypt Object) (buf : List UInt8) :
    (kryptEncryptBuf ssl kconn buf).2.writes =
      if buf = [] then kconn.writes
      else kconn.writes ++ [(buf, (ssl.sslWrite kconn.ssl buf).1)] := by
  by_cases empty : buf = []
  · rw [empty, kryptEncryptBuf_idle]
    rfl
  · rw [if_neg empty]
    rcases write_cases ssl kconn.ssl buf with done | blocked | failed
    · rw [kryptEncryptBuf_done ssl kconn buf empty done]
      rfl
    · rw [kryptEncryptBuf_blocked ssl kconn buf empty blocked]
      rfl
    · rw [kryptEncryptBuf_failed ssl kconn buf empty failed]
      rfl

theorem encryptLoop_succ (ssl : Ssl Object) (fuel : Nat) (netc : Netc Object Peer) :
    encryptLoop ssl (fuel + 1) netc =
      if (encryptRound ssl netc).1 < 0 then encryptLoop ssl fuel (encryptRound ssl netc).2
      else some (encryptRound ssl netc).2 := rfl

/-! ## What the parts keep -/

/-- The chunks of a message are appended to what buf_enc holds. -/
theorem serialized (netc : Netc Object Peer) (chunks : List (List UInt8)) :
    chunks.foldl serializeBufEnc netc = { netc with bufEnc := netc.bufEnc ++ chunks.flatten } := by
  induction chunks generalizing netc with
  | nil => simp
  | cons chunk rest inductionHypothesis =>
    rw [List.foldl_cons, inductionHypothesis]
    simp [serializeBufEnc, List.append_assoc]

/-- A message is encoded unless its encoder fails or its connection is not yet secure. -/
theorem prepare_eq (encoder : DerEncoder Message) (netc : Netc Object Peer) (msg : Message) :
    prepare encoder netc msg =
      if encoder.encoded msg = false then .error { netc with bufEnc := [] }
      else if netc.securityLevel ≠ .unsecure ∧ netc.kconn.status ≠ .secure then
        .error { netc with bufEnc := netc.bufEnc ++ encoder.der msg }
      else .ok { netc with bufEnc := netc.bufEnc ++ encoder.der msg } := by
  rw [prepare, serialized]
  rfl

/-- A message that is not refused has been appended to buf_enc. -/
theorem prepare_ok (encoder : DerEncoder Message) (netc ready : Netc Object Peer) (msg : Message)
    (accepted : prepare encoder netc msg = .ok ready) :
    encoder.encoded msg = true ∧
      ready = { netc with bufEnc := netc.bufEnc ++ encoder.der msg } := by
  rw [prepare_eq] at accepted
  split at accepted
  · cases accepted
  · next encoded =>
    split at accepted
    · cases accepted
    · exact ⟨by simpa using encoded, (Except.ok.inj accepted).symm⟩

/-! ## Libraries for examples

A message is one byte, under a tag. The ciphertext is the plaintext, and the network BIO
holds four bytes: a write that finds too little room puts in what fits, and is to be
repeated. The transport accepts whole buffers. -/

def sampleEncoder : DerEncoder UInt8 where
  chunks msg := [[0x30], [msg]]
  encoded _ := true
  tagged msg _ := by simp

structure SampleObject where
  bio : List UInt8
  done : Nat
  fits : bio.length ≤ 4

def SampleObject.empty : SampleObject := { bio := [], done := 0, fits := by decide }

/-- The bytes of a plaintext that are still to be encrypted. -/
def SampleObject.rest (object : SampleObject) (buf : List UInt8) : List UInt8 :=
  buf.drop object.done

def SampleObject.room (object : SampleObject) : Nat := 4 - object.bio.length

def SampleObject.write (object : SampleObject) (buf : List UInt8) : SslWrite × SampleObject :=
  ({ result := if (object.rest buf).length ≤ object.room then .accepted else .wantWrite,
     ciphertext := (object.rest buf).take object.room },
   { bio := object.bio ++ (object.rest buf).take object.room,
     done := if (object.rest buf).length ≤ object.room then 0 else object.done + object.room,
     fits := by
       have inside := object.fits
       rw [List.length_append, List.length_take, SampleObject.room]
       omega })

def sampleSsl : Ssl SampleObject where
  sslWrite := SampleObject.write
  bioRead object size := (object.bio.take size, { object with
    bio := object.bio.drop size
    fits := by
      have inside := object.fits
      rw [List.length_drop]
      omega })
  bioCtrlPending object := object.bio.length
  contents := SampleObject.bio
  size := 4
  pending _ := rfl
  bounded := SampleObject.fits
  taken _ _ := rfl
  left _ _ := rfl
  added _ _ := rfl

def wholeTransport (Peer : Type) : Transport Peer where
  send peer bytes := (some bytes.length, peer)
  accepts _ bytes count sent := by
    obtain rfl := Option.some.inj sent
    exact ⟨Nat.le_refl _, List.length_pos_iff.mpr⟩

end NetVirt.SendPath
