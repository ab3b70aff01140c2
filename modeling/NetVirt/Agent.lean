import NetVirt.Runs
import NetVirt.Tables

/-!
# The agent

The connection to the switch, the peers it introduces, and the tap, as agent.c and p2p.c
handle them. A message is handled in every state of the session; only the frames that leave
by the connection are sent in one state alone. What the agent sends, writes to the tap and is
answered to its authentication request is recorded in the order in which it happens.

A message arrives on the connection to the switch. What a peer sends, and the window between
the new connection and its session in `try_to_reconnect`, are left out.
-/

namespace NetVirt.Nvagent

open Runs Tables

abbrev P2pId := Nat

/-- SESSION_STATE_AUTHED and so on, and the zero that `calloc` leaves. -/
inductive SessionState where
  | zero
  | authed
  | notAuthed
  | waitAnswer
  | down
deriving DecidableEq

/-- What is read of a passport: the common name of its certificate. -/
structure Passport where
  commonName : List UInt8
deriving DecidableEq

/-- `struct session` of the switch. -/
structure Session where
  passport : Option Passport
  connected : Bool
  state : SessionState
deriving DecidableEq

/-- `struct session` of a peer. -/
structure P2pSession where
  macDst : List UInt8
  passport : Option Passport
  state : SessionState
deriving DecidableEq

/-- The fields of `struct agent_cfg` that are read, and what the host is asked for. -/
structure AgentCfg where
  provCode : Option (List UInt8)
  ipLocal : List UInt8
  hwaddr : List UInt8

inductive DndsResult where
  | success
  | secureStepUp
  | other
deriving DecidableEq

/-- Whom a frame is sent to. -/
inductive Route where
  | master
  | peer (p : P2pId)
deriving DecidableEq

/-- What is recorded. -/
inductive Action where
  | connected
  | provRequest (provCode : List UInt8)
  | authRequest (certName : List UInt8)
  | netinfoRequest (ipLocal macAddr : List UInt8)
  | authResponse (result : DndsResult)
  | frameSent (route : Route) (frame : List UInt8)
  | frameWritten (frame : List UInt8)
deriving DecidableEq

structure Agent where
  session : Session
  reconnecting : Bool
  ftable : Table (List UInt8) P2pId
  peers : P2pId → Option P2pSession
  peersMade : Nat
  history : List Action

/-- The messages of the switch that are told apart. -/
inductive Incoming where
  | provResponse (certificate : Option (List UInt8))
  | authResponse (result : DndsResult)
  | netinfoResponse
  | p2pRequest (macAddrDst : List UInt8)
  | terminateRequest
  | invalidOperation
  | ethernet (frame : List UInt8)
  | invalidPdu
deriving DecidableEq

/-- What a handler is told by the host: which files open, the passport that they hold, and
whether a request is sent. -/
structure Host where
  opensWritten : Bool
  opensIpConf : Bool
  passport : Option Passport
  sends : Bool
deriving DecidableEq

/-! ## agent.c -/

def Agent.record (agent : Agent) (action : Action) : Agent :=
  { agent with history := agent.history ++ [action] }

def Agent.setState (agent : Agent) (state : SessionState) : Agent :=
  { agent with session := { agent.session with state := state } }

/-- `transmit_register`. Without a passport a null pointer is followed. -/
def transmitRegister (agent : Agent) (sends : Bool) : Option Agent :=
  agent.session.passport.map fun passport =>
    if sends then (agent.record (.authRequest passport.commonName)).setState .waitAnswer
    else agent

/-- `transmit_netinfo_request` -/
def transmitNetinfoRequest (cfg : AgentCfg) (agent : Agent) : Agent :=
  agent.record (.netinfoRequest cfg.ipLocal cfg.hwaddr)

/-- `terminate`. The state is set before the connection is closed, so that nothing
reconnects. -/
def terminate (agent : Agent) : Agent :=
  { agent with session := { agent.session with state := .down, connected := false } }

/-- `on_disconnect` -/
def onDisconnect (agent : Agent) : Agent :=
  let agent := { agent with session := { agent.session with connected := false } }
  if agent.session.state = .down then agent
  else { agent.setState .down with reconnecting := true }

/-- `try_to_reconnect`, when a connection is made. -/
def tryToReconnect (agent : Agent) : Agent :=
  { (agent.record .connected) with
    session := { agent.session with state := .notAuthed, connected := true }
    reconnecting := false }

/-- `on_secure` -/
def onSecure (cfg : AgentCfg) (agent : Agent) (sends : Bool) : Option Agent :=
  if agent.session.state = .notAuthed then
    match agent.session.passport, cfg.provCode with
    | none, some provCode => some (if sends then agent.record (.provRequest provCode) else agent)
    | _, _ => transmitRegister agent sends
  else some agent

/-- `op_netinfo_response` -/
def opNetinfoResponse (agent : Agent) (host : Host) : Agent :=
  if host.opensIpConf then agent.setState .authed else agent

/-- `op_auth_response` -/
def opAuthResponse (cfg : AgentCfg) (agent : Agent) (result : DndsResult) : Agent :=
  let agent := agent.record (.authResponse result)
  match result with
  | .success => transmitNetinfoRequest cfg agent
  | _ => agent

/-- `op_prov_response`. Whichever file does not open, nothing else is done. -/
def opProvResponse (agent : Agent) (certificate : Option (List UInt8)) (host : Host) :
    Option Agent :=
  if certificate = none then some agent
  else if !host.opensWritten then some agent
  else transmitRegister
    { agent with session := { agent.session with passport := host.passport } } host.sends

/-- `op_p2p_request` -/
def opP2pRequest (agent : Agent) (macAddrDst : List UInt8) : Agent :=
  { agent with
    peers := Function.update agent.peers agent.peersMade (some
      { macDst := macAddrDst, passport := agent.session.passport, state := .zero })
    peersMade := agent.peersMade + 1 }

/-- `tunnel_out` -/
def tunnelOut (agent : Agent) (frame : List UInt8) : Agent := agent.record (.frameWritten frame)

/-- `on_input` and `dispatch_op`, for one message. -/
def onInput (cfg : AgentCfg) (agent : Agent) (host : Host) : Incoming → Option Agent
  | .provResponse certificate => opProvResponse agent certificate host
  | .authResponse result => some (opAuthResponse cfg agent result)
  | .netinfoResponse => some (opNetinfoResponse agent host)
  | .p2pRequest macAddrDst => some (opP2pRequest agent macAddrDst)
  | .ethernet frame => some (tunnelOut agent frame)
  | .terminateRequest | .invalidOperation | .invalidPdu => some (terminate agent)

/-- `p2p_find_session` -/
def p2pFindSession (agent : Agent) (frame : List UInt8) : Option P2pId :=
  agent.ftable.find (frame.take 6)

/-- `tunnel_in`. The destination of a frame shorter than an address is not initialised. -/
def tunnelIn (agent : Agent) (read : List UInt8) : Option Agent :=
  let frame := read.take 2000
  if frame.length < 6 then none
  else match p2pFindSession agent frame with
    | some p => (agent.peers p).map fun peer =>
      if peer.state = .authed then agent.record (.frameSent (.peer p) frame) else agent
    | none => some (if agent.session.state = .authed then agent.record (.frameSent .master frame)
      else agent)

/-! ## p2p.c -/

/-- `p2p_on_secure` -/
def p2pOnSecure (agent : Agent) (p : P2pId) (peer : P2pSession) : Agent :=
  { agent with
    peers := Function.update agent.peers p (some { peer with state := .authed })
    ftable := agent.ftable.insert peer.macDst p }

/-- `p2p_on_disconnect`. Erasing the session from the table frees it too. -/
def p2pOnDisconnect (agent : Agent) (p : P2pId) (peer : P2pSession) : Agent :=
  { agent with
    peers := Function.update agent.peers p none
    ftable := if agent.ftable.find peer.macDst = some p then agent.ftable.erase peer.macDst
      else agent.ftable }

/-! ## Runs -/

/-- `agent_init`, up to the threads that it starts. It fails with neither a passport nor a
provisioning code. -/
def agentInit (cfg : AgentCfg) (loaded : Option Passport) : Option Agent :=
  let passport := if cfg.provCode = none then loaded else none
  if passport = none ∧ cfg.provCode = none then none
  else some
    { session := { passport := passport, connected := false, state := .notAuthed }
      reconnecting := true
      ftable := Table.empty
      peers := fun _ => none
      peersMade := 0
      history := [] }

inductive Event where
  | connected
  /-- A handshake is done, the first one or a later one. -/
  | secure (sends : Bool)
  | input (message : Incoming) (host : Host)
  | disconnected
  | tap (read : List UInt8)
  | p2pSecure (p : P2pId)
  | p2pDisconnected (p : P2pId)
deriving DecidableEq

def step (cfg : AgentCfg) (agent : Agent) : Event → Option Agent
  | .connected => if agent.reconnecting then some (tryToReconnect agent) else none
  | .secure sends => if agent.session.connected then onSecure cfg agent sends else none
  | .input message host =>
    if agent.session.connected then onInput cfg agent host message else none
  | .disconnected => if agent.session.connected then some (onDisconnect agent) else none
  | .tap read => tunnelIn agent read
  | .p2pSecure p => (agent.peers p).map (p2pOnSecure agent p)
  | .p2pDisconnected p => (agent.peers p).map (p2pOnDisconnect agent p)

end NetVirt.Nvagent
