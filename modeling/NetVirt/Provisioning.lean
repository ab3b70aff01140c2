import NetVirt.Decimal
import NetVirt.Json
import NetVirt.Runs
import Mathlib.Data.List.Basic

/-!
# Provisioning requests and their replies

`query_provisioning` and `provisioning` of the switch, `provisioning` of the controller,
and the runs of both. A query names a transaction, the switch keeps the asking session
in the slot of that transaction, and the controller echoes the name.

The transaction counter is never advanced, so every query is named 0 and every session is
kept in slot 0; a disconnect does not clear it. A reply therefore goes to the last session
that asked, whoever it was produced for, and the laws below say when that is its requester.
-/

namespace NetVirt.Provisioning

open Decimal Json Runs

variable {Session : Type}

/-- MAX_SESSION -/
def maxSession : Nat := 4096

/-- The static variables of control.c that the requests use. -/
structure Control (Session : Type) where
  sessionTrackingTable : Nat → Option Session
  trackingId : BitVec 32

/-- The static initial values. -/
def Control.initial : Control Session :=
  { sessionTrackingTable := fun _ => none, trackingId := 0 }

/-- The query document: its tid and the provcode of its node. -/
structure Query where
  tid : List Char
  provcode : List UInt8
deriving DecidableEq

inductive Response where
  | success
  | error
deriving DecidableEq

/-- The node object of a reply. A string that json_string refuses is not set. -/
structure NodeObject where
  cert : Option (List UInt8)
  pkey : Option (List UInt8)
  tcert : Option (List UInt8)
  ipaddr : Option (List UInt8)
deriving DecidableEq

/-- The reply document. -/
structure Reply where
  tid : Option (List Char)
  response : Option Response
  node : Option NodeObject
deriving DecidableEq

/-- The fields that `dao_fetch_node_from_provcode` fetches. -/
structure Credentials where
  certificate : List UInt8
  privateKey : List UInt8
  trustedcert : List UInt8
  ipAddress : List UInt8
deriving DecidableEq

/-- The provResponse message. -/
structure ProvResponse where
  certificate : List UInt8
  certificateKey : List UInt8
  trustedCert : List UInt8
  ipAddress : List UInt8
deriving DecidableEq

/-- `session_tracking_table[index] = session` -/
def Control.track (control : Control Session) (index : Nat) (session : Option Session) :
    Control Session :=
  { control with
    sessionTrackingTable := Function.update control.sessionTrackingTable index session }

/-- `query_provisioning`: the return code and the query written to the pipe. The tid is
formatted into ten bytes; a longer text has no defined behaviour. -/
def queryProvisioning (control : Control Session) (session : Session) (provcode : List UInt8) :
    Option (Control Session × Int × Option Query) :=
  let tid := formatInt control.trackingId.toInt
  if 10 ≤ tid.length then none
  else
    let tracked := control.track (control.trackingId.toNat % maxSession) (some session)
    match jsonString provcode with
    | none => some (tracked, -1, none)
    | some provcode => some (tracked, 0, some { tid := tid, provcode := provcode })

/-- `provisioning` of the controller, given what the database fetched for the provcode. -/
def replyProvisioning (query : Query) (fetched : Option Credentials) : Reply :=
  match fetched with
  | some node =>
    { tid := some query.tid
      response := some .success
      node := some
        { cert := jsonString node.certificate
          pkey := jsonString node.privateKey
          tcert := jsonString node.trustedcert
          ipaddr := jsonString node.ipAddress } }
  | none => { tid := some query.tid, response := some .error, node := none }

/-- The provResponse of a successful reply: each document field is there. -/
def provResponse (reply : Reply) : Option ProvResponse := do
  guard (reply.response = some .success)
  let _ ← reply.tid
  let node ← reply.node
  let cert ← node.cert
  let pkey ← node.pkey
  let tcert ← node.tcert
  let ipaddr ← node.ipaddr
  return { certificate := cert, certificateKey := pkey, trustedCert := tcert,
           ipAddress := ipaddr }

/-- `atoi(tid) % MAX_SESSION`. A negative index is outside of the table. -/
def slotIndex (tid : List Char) : Option Nat :=
  let index := (atoi tid).tmod maxSession
  if index < 0 then none else some index.toNat

/-- `provisioning` of the switch: the return code, and the message with the session it is
sent to. The slot is read and cleared; it may hold a session that was freed. -/
def provisioning (control : Control Session) (reply : Reply) :
    Option (Control Session × Int × Option (Session × ProvResponse)) :=
  match provResponse reply, reply.tid with
  | some message, some tid => do
    let index ← slotIndex tid
    let recipient := control.sessionTrackingTable index
    return (control.track index none, 0, recipient.map fun session => (session, message))
  | _, _ => some (control, -1, none)

end NetVirt.Provisioning
