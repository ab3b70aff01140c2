import NetVirt.SwitchState
import NetVirt.Runs

/-!
# The events of the switch

The callbacks of switch.c, the requests of request.c and the controller commands of
control.c, each as one step. A callback runs to its end before the next one starts, and
the messages of one input callback are taken one at a time: `onInput_run` says that a
batch is the run of its messages.
-/

namespace NetVirt.Nvswitch

open Bitv Cert LinkStates LinkedLists Tables

/-! ## inet.c -/

inductive AddrType where
  | unicast
  | broadcast
  | multicast
deriving DecidableEq

/-- `inet_get_mac_addr_type` -/
def inetGetMacAddrType (macAddr : List UInt8) : AddrType :=
  if macAddr = [0xff, 0xff, 0xff, 0xff, 0xff, 0xff] then .broadcast
  else if macAddr.take 3 = [0x01, 0x00, 0x5e] then .multicast
  else .unicast

/-- `inet_get_mac_addr_dst` -/
def inetGetMacAddrDst (frame : List UInt8) : List UInt8 := frame.take 6

/-- `inet_get_mac_addr_src` -/
def inetGetMacAddrSrc (frame : List UInt8) : List UInt8 := (frame.drop 6).take 6

/-! ## request.c -/

/-- `provRequest` hands the code on to query_provisioning. -/
def provRequest (switch : Switch) (s : SessionId) (provCode : List UInt8) : Switch :=
  { switch with provRequests := switch.provRequests ++ [(s, cstring provCode)] }

/-- The network that a name is looked up as: by id in version 1, else by uuid. -/
def lookupNodeInfo (switch : Switch) (info : NodeInfo) : Option VnetId :=
  if info.v = 1 then switch.vnetworksId.find info.networkId
  else switch.vnetworks.find info.networkUuid

/-- A version 1 name has no network uuid; it is given the one of its network. -/
def withNetworkUuid (info : NodeInfo) (vnet : VNetwork) : NodeInfo :=
  if info.v = 1 then { info with networkUuid := vnet.uuid.take 36 } else info

/-- `authRequest` -/
def authRequest (switch : Switch) (s : SessionId) (certName : List UInt8) :
    Option (Switch × Int) := do
  let session ← switch.sessions s
  if session.state ≠ .notAuthed then return (switch, -1)
  let certName := cstring certName
  match ← cn2nodeInfo certName with
  | none => return (switch.setSession s { session with nodeInfo := none }, -1)
  | some info =>
    match lookupNodeInfo switch info with
    | none =>
      let switch := switch.setSession s
        { session with nodeInfo := some info, vnetwork := none }
      return (switch.netSendMsg s (.authResponse .noRight), -1)
    | some v => do
      let vnet ← switch.vnets v
      let info := withNetworkUuid info vnet
      let switch := switch.setVnet v { vnet with ctable := vnet.ctable.insert info.uuid s }
      let session := { session with
        nodeInfo := some info
        vnetwork := some v
        certName := some certName }
      if session.netc.securityLevel = .unsecure then
        -- The callback on_secure that follows returns at once in this state.
        let switch := switch.netSendMsg s (.authResponse .success)
        return (switch.setSession s { session with state := .authed }, 0)
      else
        let switch := switch.netSendMsg s (.authResponse .secureStepUp)
        return (switch.setSession s { session with state := .waitStepup }, 0)

/-- `p2pRequest`: each side is told the other's address, with the port that was drawn. -/
def p2pRequest (switch : Switch) (a b : SessionId) (rand : Nat) : Option Switch := do
  let sessionA ← switch.sessions a
  let sessionB ← switch.sessions b
  let (ipA, ipB) :=
    if sessionA.netc.peerHost = sessionB.netc.peerHost then
      (sessionA.ipLocal, sessionB.ipLocal)
    else (sessionA.netc.peerHost, sessionB.netc.peerHost)
  let port := rand % (65535 - 49152 + 1) + 49152
  let switch := switch.netSendMsg a (.p2pRequest sessionB.tunMacAddr ipB port .client)
  return switch.netSendMsg b (.p2pRequest sessionA.tunMacAddr ipA port .server)

/-! ## switch.c -/

/-- The part of forward_ethernet that learns the source address: the session that the
address is bound to afterwards. -/
def learn (switch : Switch) (s : SessionId) (macaddrSrc : List UInt8) :
    Option (Switch × SessionId) := do
  let session ← switch.sessions s
  let v ← session.vnetwork
  let vnet ← switch.vnets v
  match vnet.ftable.find macaddrSrc with
  | some source => return (switch, source)
  | none =>
    let switch := switch.setVnet v { vnet with ftable := vnet.ftable.insert macaddrSrc s }
    return (switch.setSession s
      { session with macAddr := macaddrSrc, macList := macaddrSrc :: session.macList }, s)

/-- The part of forward_ethernet that introduces two peers whose link is not up. -/
def introduce (switch : Switch) (source target : SessionId) (now rand : Nat) :
    Option Switch := do
  let sessionSrc ← switch.sessions source
  let sessionDst ← switch.sessions target
  let v ← sessionSrc.vnetwork
  let vnet ← switch.vnets v
  if vnet.linkst.joined sessionSrc.id.toNat sessionDst.id.toNat = 1 then return switch
  let switch ← p2pRequest switch source target rand
  let (linkst, _) := vnet.linkst.join sessionSrc.id.toNat sessionDst.id.toNat now
  return switch.setVnet v { vnet with linkst := linkst }

/-- Send a message to each session of a list. -/
def sendEach (switch : Switch) (recipients : List SessionId) (message : Outgoing) : Switch :=
  recipients.foldl (fun switch s => switch.netSendMsg s message) switch

/-- `forward_ethernet`. A frame shorter than its two addresses is read past its end. -/
def forwardEthernet (switch : Switch) (s : SessionId) (frame : List UInt8) (now rand : Nat) :
    Option Switch := do
  let session ← switch.sessions s
  if session.state ≠ .authed then return switch
  if frame.length < 12 then failure
  let (switch, source) ← learn switch s (inetGetMacAddrSrc frame)
  let macaddrDst := inetGetMacAddrDst frame
  let v ← session.vnetwork
  let vnet ← switch.vnets v
  match vnet.ftable.find macaddrDst with
  | some target =>
    if target = source then return switch
    if inetGetMacAddrType macaddrDst = .unicast then
      introduce (switch.netSendMsg target (.ethernet frame)) source target now rand
    else
      let recipients ← switch.sessionList vnet.sessionList
      return sendEach switch recipients (.ethernet frame)
  | none =>
    let recipients ← switch.sessionList vnet.sessionList
    return sendEach switch recipients (.ethernet frame)

/-- `handle_netinfo_request` and `transmit_netinfo_response` -/
def handleNetinfoRequest (switch : Switch) (s : SessionId) (ipLocal macAddr : List UInt8) :
    Option Switch := do
  let session ← switch.sessions s
  let switch := switch.setSession s { session with ipLocal := ipLocal, tunMacAddr := macAddr }
  return switch.netSendMsg s .netinfoResponse

/-- `on_secure`: the peer's certificate is known, and the node it names is looked up. A
certificate without a name leaves the node information freed. -/
def onSecure (switch : Switch) (s : SessionId) (cert : X509) : Option Switch := do
  let session ← switch.sessions s
  if session.state ≠ .waitStepup then return switch
  -- node_info_destroy: freed twice when it had been freed before
  let _ ← session.nodeInfo
  match ← certNodeInfo cert with
  | none => return switch.setSession s { session with nodeInfo := none }
  | some info => do
    let v ← session.vnetwork
    let vnet ← switch.vnets v
    match vnet.atable.find info.uuid with
    | none =>
      let switch := switch.setSession s { session with nodeInfo := some info }
      return switch.netSendMsg s (.authResponse .noRight)
    | some _ => do
      let info := withNetworkUuid info vnet
      let switch := switch.setSession s
        { session with nodeInfo := some info, state := .authed }
      let switch ← vnetworkAddSession switch v s
      let switch := updateNodeStatus switch .online session.ip info.uuid info.networkUuid
      return switch.netSendMsg s (.authResponse .success)

/-- The part of on_disconnect that takes a session out of its virtual network. -/
def leaveVnetwork (switch : Switch) (s : SessionId) : Option Switch := do
  let session ← switch.sessions s
  match session.vnetwork with
  | none => return switch
  | some v => do
    let vnet ← switch.vnets v
    let (linkst, _) := vnet.linkst.disjoin session.id.toNat
    let info ← session.nodeInfo
    let switch := switch.setVnet v { vnet with
      linkst := linkst
      ftable := session.macList.foldl Table.erase vnet.ftable
      ctable := vnet.ctable.erase info.uuid }
    vnetworkDelSession (switch.setSession s { session with macList := [] }) v s

/-- `on_disconnect` -/
def onDisconnect (switch : Switch) (s : SessionId) : Option Switch := do
  let session ← switch.sessions s
  if session.state = .notAuthed then return switch.sessionFree s
  let switch ← leaveVnetwork switch s
  let info ← session.nodeInfo
  let switch := updateNodeStatus switch .offline session.ip info.uuid info.networkUuid
  return switch.sessionFree s

/-- `session_terminate`: net_disconnect calls on_disconnect, which frees the session, and
the session is freed once more. Of the second call only the record is kept. -/
def sessionTerminate (switch : Switch) (s : SessionId) : Option Switch := do
  let switch ← onDisconnect switch s
  return { switch with released := switch.released ++ [s] }

/-- The messages of a client: `other` stands for the operations that end the session,
`invalid` for a PDU that is neither DNDS nor Ethernet. -/
inductive Message where
  | provRequest (provCode : List UInt8)
  | authRequest (certName : List UInt8)
  | netinfoRequest (ipLocal macAddr : List UInt8)
  | other
  | ethernet (frame : List UInt8)
  | invalid
deriving DecidableEq

/-- The clock and the random number that a message finds. -/
structure Env where
  now : Nat
  rand : Nat
deriving DecidableEq

/-- `dispatch_operation`, and the cases of on_input around it. -/
def dispatchOperation (switch : Switch) (s : SessionId) (env : Env) : Message → Option Switch
  | .provRequest provCode => (switch.sessions s).map fun _ => provRequest switch s provCode
  | .authRequest certName => (authRequest switch s certName).map Prod.fst
  | .netinfoRequest ipLocal macAddr => handleNetinfoRequest switch s ipLocal macAddr
  | .other => sessionTerminate switch s
  | .ethernet frame => forwardEthernet switch s frame env.now env.rand
  | .invalid => (switch.sessions s).map fun _ => switch

/-- `on_input` with the messages of its queue. A session to be purged is disconnected
before any of them is looked at. -/
def onInput (switch : Switch) (s : SessionId) (queueMsg : List (Env × Message)) :
    Option Switch := do
  let session ← switch.sessions s
  if session.state = .purge then
    onDisconnect switch s
  else
    queueMsg.foldlM (fun switch (env, message) => dispatchOperation switch s env message) switch

/-- `on_connect` on a connection of the NET_SECURE_ADH listener. -/
def onConnect (switch : Switch) (s : SessionId) (peerHost : List UInt8) : Switch :=
  { switch with
    sessions := Function.update switch.sessions s
      (some (sessionNew peerHost { peerHost := peerHost, securityLevel := .secureAdh }))
    opened := s :: switch.opened }

/-! ## control.c -/

/-- The node object of a controller message. -/
structure NodeDocument where
  uuid : Option (List UInt8)
  networkuuid : Option (List UInt8)
deriving DecidableEq

/-- `del_node` -/
def delNode (switch : Switch) (node : Option NodeDocument) : Option (Switch × Int) :=
  match node.bind NodeDocument.uuid, node.bind NodeDocument.networkuuid with
  | some uuid, some networkUuid =>
    match switch.vnetworks.find networkUuid with
    | none => some (switch, -1)
    | some v => do
      let vnet ← switch.vnets v
      let key ← ctableKey uuidStrLen uuid
      let switch := switch.setVnet v { vnet with atable := vnet.atable.erase key }
      match vnet.ctable.find key with
      | none => return (switch, 0)
      | some s => do
        let session ← switch.sessions s
        return (switch.setSession s { session with state := .purge }, 0)
  | _, _ => some (switch, -1)

/-- Detach a session of a deleted network. -/
def detach (switch : Switch) (s : SessionId) : Option Switch := do
  let session ← switch.sessions s
  return switch.setSession s { session with state := .purge, vnetwork := none }

/-- `del_network` -/
def delNetwork (switch : Switch) (networkUuid : Option (List UInt8)) : Option (Switch × Int) :=
  match networkUuid with
  | none => some (switch, -1)
  | some uuid => do
    let (switch, disabled) ← vnetworkDisable switch uuid
    match disabled with
    | none => return (switch, -1)
    | some v => do
      let vnet ← switch.vnets v
      let members ← switch.sessionList vnet.sessionList
      let switch ← members.foldlM detach switch
      return (vnetworkFree switch v, 0)

/-- The part of listall_node for one node: its uuid goes into the access table of its
network, if that is known. -/
def listNode (switch : Switch) (uuid networkUuid : List UInt8) : Option Switch :=
  match switch.vnetworks.find networkUuid with
  | none => some switch
  | some v => do
    let vnet ← switch.vnets v
    let key ← ctableKey (uuidStrLen + 1) uuid
    return switch.setVnet v { vnet with atable := vnet.atable.insert key () }

/-! ## Steps -/

/-- What happens to the switch, on a connection or from the controller. -/
inductive Event where
  | connect (s : SessionId) (peerHost : List UInt8)
  | input (s : SessionId) (env : Env) (message : Message)
  | secure (s : SessionId) (cert : X509)
  | disconnect (s : SessionId)
  | createNetwork (id uuid : List UInt8)
  | listNode (uuid networkUuid : List UInt8)
  | delNode (node : Option NodeDocument)
  | delNetwork (networkUuid : Option (List UInt8))
deriving DecidableEq

def step (switch : Switch) : Event → Option Switch
  | .connect s peerHost => if s ∈ switch.opened then none else some (onConnect switch s peerHost)
  | .input s env message => onInput switch s [(env, message)]
  | .secure s cert => onSecure switch s cert
  | .disconnect s => onDisconnect switch s
  | .createNetwork id uuid => some (vnetworkCreate switch id uuid)
  | .listNode uuid networkUuid => listNode switch uuid networkUuid
  | .delNode node => (delNode switch node).map Prod.fst
  | .delNetwork networkUuid => (delNetwork switch networkUuid).map Prod.fst

end NetVirt.Nvswitch
