import NetVirt.Bitv
import NetVirt.Cert
import NetVirt.Json
import NetVirt.LinkedLists
import NetVirt.LinkStates
import NetVirt.Tables
import Mathlib.Tactic.Simps.Basic

/-!
# The state of the switch

Sessions and virtual networks live on a heap of their own each, under numbers that are not
used again. What was freed is not on the heap, so that following a pointer to it has no
result. The functions of session.c and vnetwork.c work on this state; a function without
a result is one whose behaviour the source leaves undefined.

Messages sent to clients, node status messages written to the controller, provisioning
queries and calls of `session_free` are recorded in the order in which they happen.
-/

namespace NetVirt.Nvswitch

open Bitv Cert LinkStates LinkedLists Tables

abbrev SessionId := Nat
abbrev VnetId := Nat

/-- MAX_NODE -/
def maxNode : Nat := 1024

/-- TIMEOUT_SEC -/
def timeoutSec : Nat := 300

/-- UUID_STR_LEN -/
def uuidStrLen : Nat := 36

inductive SessionState where
  | authed
  | notAuthed
  | waitStepup
  | purge
deriving DecidableEq

inductive SecurityLevel where
  | unsecure
  | secureAdh
  | secureRsa
deriving DecidableEq

/-- The fields of a session's connection that are read. -/
structure Netc where
  peerHost : List UInt8
  securityLevel : SecurityLevel
deriving DecidableEq

/-- `struct session`. Without node information the pointer is NULL, or was freed and not
set again. -/
structure Session where
  state : SessionState
  ip : List UInt8
  certName : Option (List UInt8)
  nodeInfo : Option NodeInfo
  id : BitVec 32
  ipLocal : List UInt8
  tunMacAddr : List UInt8
  netc : Netc
  vnetwork : Option VnetId
  macAddr : List UInt8
  macList : List (List UInt8)
  next : Option SessionId
  prev : Option SessionId
deriving DecidableEq

/-- `struct vnetwork`. Every item of the access table is the same access session. -/
structure VNetwork where
  id : List UInt8
  uuid : List UInt8
  ftable : Table (List UInt8) SessionId
  ctable : Table (List UInt8) SessionId
  atable : Table (List UInt8) Unit
  activeNode : BitVec 32
  linkst : FormedLinkst
  bitpool : List (BitVec 8)
  sessionList : Option SessionId

inductive DndsResult where
  | success
  | noRight
  | secureStepUp
deriving DecidableEq

inductive P2pSide where
  | client
  | server
deriving DecidableEq

/-- The messages that the switch sends. -/
inductive Outgoing where
  | authResponse (result : DndsResult)
  | netinfoResponse
  | ethernet (frame : List UInt8)
  | p2pRequest (macAddrDst ipAddrDst : List UInt8) (port : Nat) (side : P2pSide)
deriving DecidableEq

/-- The status texts "0" and "1". -/
inductive Presence where
  | offline
  | online
deriving DecidableEq

/-- The node of an update-node-status message. -/
structure NodeStatus where
  status : Presence
  localIpaddr : List UInt8
  uuid : List UInt8
  networkuuid : List UInt8
deriving DecidableEq

structure Switch where
  sessions : SessionId → Option Session
  vnets : VnetId → Option VNetwork
  vnetCount : Nat
  vnetworks : Table (List UInt8) VnetId
  vnetworksId : Table (List UInt8) VnetId
  opened : List SessionId
  sent : List (SessionId × Outgoing)
  statuses : List NodeStatus
  provRequests : List (SessionId × List UInt8)
  released : List SessionId

def Switch.initial : Switch :=
  { sessions := fun _ => none, vnets := fun _ => none, vnetCount := 0, vnetworks := .empty,
    vnetworksId := .empty, opened := [], sent := [], statuses := [], provRequests := [],
    released := [] }

/-! ## Heap and records -/

@[simps]
def Switch.setSession (switch : Switch) (s : SessionId) (session : Session) : Switch :=
  { switch with sessions := Function.update switch.sessions s (some session) }

@[simps]
def Switch.setVnet (switch : Switch) (v : VnetId) (vnet : VNetwork) : Switch :=
  { switch with vnets := Function.update switch.vnets v (some vnet) }

/-- `net_send_msg`, which is assumed to succeed. -/
@[simps]
def Switch.netSendMsg (switch : Switch) (s : SessionId) (message : Outgoing) : Switch :=
  { switch with sent := switch.sent ++ [(s, message)] }

/-- `session_new`, with the fields that on_connect sets. -/
def sessionNew (ip : List UInt8) (netc : Netc) : Session :=
  { state := .notAuthed, ip := ip, certName := none, nodeInfo := none, id := 0, ipLocal := [],
    tunMacAddr := List.replicate 6 0, netc := netc, vnetwork := none,
    macAddr := List.replicate 6 0, macList := [], next := none, prev := none }

/-- `session_free` -/
@[simps]
def Switch.sessionFree (switch : Switch) (s : SessionId) : Switch :=
  { switch with
    sessions := Function.update switch.sessions s none
    released := switch.released ++ [s] }

/-- The pointers of a virtual network's session list. -/
def Switch.links (switch : Switch) (v : VnetId) : Links SessionId :=
  { head := (switch.vnets v).bind VNetwork.sessionList
    next := fun s => (switch.sessions s).bind Session.next
    prev := fun s => (switch.sessions s).bind Session.prev }

/-- The sessions of a list, from the given one on. A session list is never longer than the
number of sessions there have been. -/
def Switch.sessionList (switch : Switch) (first : Option SessionId) : Option (List SessionId) :=
  walk (fun s => (switch.sessions s).map Session.next) switch.opened.length first

/-! ## vnetwork.c -/

/-- `session->next = pointer` -/
def Switch.setNext (switch : Switch) (s : SessionId) (pointer : Option SessionId) :
    Option Switch :=
  (switch.sessions s).map fun session => switch.setSession s { session with next := pointer }

/-- `session->prev = pointer` -/
def Switch.setPrev (switch : Switch) (s : SessionId) (pointer : Option SessionId) :
    Option Switch :=
  (switch.sessions s).map fun session => switch.setSession s { session with prev := pointer }

/-- `vnet->session_list = pointer` -/
def Switch.setSessionList (switch : Switch) (v : VnetId) (pointer : Option SessionId) :
    Option Switch :=
  (switch.vnets v).map fun vnet => switch.setVnet v { vnet with sessionList := pointer }

/-- The pointers that vnetwork_add_session sets. -/
def linkSession (switch : Switch) (v : VnetId) (s : SessionId) : Option Switch := do
  let vnet ← switch.vnets v
  match vnet.sessionList with
  | none => do
    let switch ← switch.setSessionList v (some s)
    let switch ← switch.setNext s none
    switch.setPrev s none
  | some head => do
    let switch ← switch.setNext s (some head)
    let switch ← switch.setPrev head (some s)
    switch.setSessionList v (some s)

/-- `vnetwork_add_session` -/
def vnetworkAddSession (switch : Switch) (v : VnetId) (s : SessionId) : Option Switch := do
  let switch ← linkSession switch v s
  let session ← switch.sessions s
  let vnet ← switch.vnets v
  let (bitpool, bit) := bitpoolAllocateBit vnet.bitpool maxNode
  let switch := switch.setSession s { session with id := bit.getD session.id + 1 }
  return switch.setVnet v { vnet with bitpool := bitpool, activeNode := vnet.activeNode + 1 }

/-- The pointers that vnetwork_del_session sets. -/
def unlinkSession (switch : Switch) (v : VnetId) (s : SessionId) : Option Switch := do
  let session ← switch.sessions s
  match session.next, session.prev with
  | none, none => switch.setSessionList v none
  | none, some before => switch.setNext before none
  | some after, none => do
    let switch ← switch.setSessionList v (some after)
    switch.setPrev after none
  | some after, some before => do
    let switch ← switch.setNext before (some after)
    switch.setPrev after (some before)

/-- `vnetwork_del_session` -/
def vnetworkDelSession (switch : Switch) (v : VnetId) (s : SessionId) : Option Switch := do
  let switch ← unlinkSession switch v s
  let session ← switch.sessions s
  let vnet ← switch.vnets v
  let (bitpool, _) := bitpoolReleaseBit vnet.bitpool maxNode (session.id - 1)
  return switch.setVnet v { vnet with bitpool := bitpool, activeNode := vnet.activeNode - 1 }

/-- The network that vnetwork_create allocates. -/
def vnetworkNew (id uuid : List UInt8) : VNetwork :=
  { id := id, uuid := uuid, ftable := .empty, ctable := .empty, atable := .empty,
    activeNode := 0,
    linkst := ⟨linkstNew maxNode timeoutSec, formed_new maxNode timeoutSec (by decide)⟩,
    bitpool := (bitpoolNew maxNode).1, sessionList := none }

/-- `vnetwork_create`. The trees refuse a key they have. -/
def vnetworkCreate (switch : Switch) (id uuid : List UInt8) : Switch :=
  { switch with
    vnets := Function.update switch.vnets switch.vnetCount (some (vnetworkNew id uuid))
    vnetCount := switch.vnetCount + 1
    vnetworks := switch.vnetworks.insert uuid switch.vnetCount
    vnetworksId := switch.vnetworksId.insert id switch.vnetCount }

/-- `vnetwork_disable`: the network is taken out of the tree of uuids, and the network of
its id, which may be another one, out of the tree of ids. -/
def vnetworkDisable (switch : Switch) (uuid : List UInt8) : Option (Switch × Option VnetId) :=
  match switch.vnetworks.find uuid with
  | none => some (switch, none)
  | some v => do
    let vnet ← switch.vnets v
    return ({ switch with
              vnetworks := switch.vnetworks.erase uuid
              vnetworksId := switch.vnetworksId.erase vnet.id }, some v)

/-- `vnetwork_free` -/
def vnetworkFree (switch : Switch) (v : VnetId) : Switch :=
  { switch with vnets := Function.update switch.vnets v none }

/-! ## ctable.c -/

/-- The key that a connection or access table takes from a text: 36 bytes, of a text with
the given number of bytes that are read of it. A shorter text is read past its end. -/
def ctableKey (read : Nat) (uuid : List UInt8) : Option (List UInt8) :=
  if uuid.length + 1 < read then none else some (uuid.take uuidStrLen)

/-! ## control.c -/

/-- `update_node_status`. Nothing is written when a text is not UTF-8. -/
def updateNodeStatus (switch : Switch) (status : Presence)
    (localIpaddr uuid networkUuid : List UInt8) : Switch :=
  match Json.jsonString localIpaddr, Json.jsonString uuid, Json.jsonString networkUuid with
  | some localIpaddr, some uuid, some networkUuid =>
    { switch with
      statuses := switch.statuses ++ [NodeStatus.mk status localIpaddr uuid networkUuid] }
  | _, _, _ => switch

end NetVirt.Nvswitch
