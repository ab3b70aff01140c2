import NetVirt.Agent

/-!
# Frames on an authenticated session

How far the agent has come on its connection is read off what it recorded: a request is
sent, and then granted by a response with success. A frame should be written or sent only
once it is granted, and the session be authenticated only then.

No handler of a message looks at the state of the session. The condition is therefore one on
the order of what arrives: a frame, or a network information response that takes effect,
only after the request is granted, and no frame for a peer before.
-/

namespace NetVirt.Nvagent

open Runs Tables

/-! ## The property -/

inductive Stage where
  | fresh
  | requested
  | granted
deriving DecidableEq

def advance : Stage → Action → Stage
  | _, .connected => .fresh
  | .fresh, .authRequest _ => .requested
  | .requested, .authResponse .success => .granted
  | stage, _ => stage

/-- How far the authentication has come since the connection was made. -/
def Agent.stage (agent : Agent) : Stage := agent.history.foldl advance .fresh

/-- A frame is sent or written only when the authentication is granted. -/
def permitted (stage : Stage) : Action → Prop
  | .frameSent _ _ | .frameWritten _ => stage = .granted
  | _ => True

def Authenticated (agent : Agent) : Prop :=
  Guarded advance .fresh permitted agent.history ∧
    (agent.session.state = .authed → agent.stage = .granted)

/-- The frame is for a peer whose connection is secured. -/
def ForPeer (agent : Agent) (read : List UInt8) : Prop :=
  (((p2pFindSession agent (read.take 2000)).bind agent.peers).map P2pSession.state) = some .authed

/-- What is not allowed before the authentication is granted. -/
def InOrder (agent : Agent) : Event → Prop
  | .input (.ethernet _) _ => agent.stage = .granted
  | .input .netinfoResponse host => host.opensIpConf = true → agent.stage = .granted
  | .tap read => ForPeer agent read → agent.stage = .granted
  | _ => True

instance (agent : Agent) (read : List UInt8) : Decidable (ForPeer agent read) :=
  inferInstanceAs (Decidable (_ = _))

instance (agent : Agent) : ∀ event, Decidable (InOrder agent event)
  | .input (.ethernet _) _ => inferInstanceAs (Decidable (_ = _))
  | .input .netinfoResponse _ => inferInstanceAs (Decidable (_ → _))
  | .tap _ => inferInstanceAs (Decidable (_ → _))
  | .connected | .secure _ | .disconnected | .p2pSecure _ | .p2pDisconnected _
  | .input (.provResponse _) _ | .input (.authResponse _) _ | .input (.p2pRequest _) _
  | .input .terminateRequest _ | .input .invalidOperation _ | .input .invalidPdu _ =>
    isTrue trivial

/-! ## What is recorded -/

@[simp]
theorem record_stage (agent : Agent) (action : Action) :
    (agent.record action).stage = advance agent.stage action := by
  simp [Agent.record, Agent.stage]

/-- A new entry has to be permitted, and nothing else. -/
theorem guarded_record (agent : Agent) (action : Action) :
    Guarded advance .fresh permitted (agent.record action).history ↔
      Guarded advance .fresh permitted agent.history ∧ permitted agent.stage action :=
  guarded_snoc advance .fresh permitted agent.history action

/-- What is granted stays granted until there is another connection. -/
theorem advance_granted (action : Action) (other : action ≠ .connected) :
    advance .granted action = .granted := by
  cases action <;> simp_all [advance]

/-- Recording anything but a connection or a frame keeps the property. -/
theorem Authenticated.record {agent : Agent} (holds : Authenticated agent) (action : Action)
    (other : action ≠ .connected) (plain : ∀ stage, permitted stage action) :
    Authenticated (agent.record action) := by
  constructor
  · exact (guarded_record agent action).mpr ⟨holds.1, plain agent.stage⟩
  · intro authed
    rw [record_stage, holds.2 authed]
    exact advance_granted action other

/-- Recording a frame keeps the property once the authentication is granted. -/
theorem Authenticated.frame {agent : Agent} (holds : Authenticated agent) (action : Action)
    (other : action ≠ .connected) (granted : agent.stage = .granted)
    (frame : permitted .granted action) : Authenticated (agent.record action) := by
  constructor
  · exact (guarded_record agent action).mpr ⟨holds.1, by rwa [granted]⟩
  · intro _
    rw [record_stage, granted]
    exact advance_granted action other

/-- The property looks at the state and the history alone. -/
theorem Authenticated.congr {agent other : Agent} (holds : Authenticated agent)
    (history : other.history = agent.history)
    (state : other.session.state = .authed → agent.session.state = .authed) :
    Authenticated other := by
  refine ⟨by rw [history]; exact holds.1, fun authed => ?_⟩
  rw [Agent.stage, history]
  exact holds.2 (state authed)

/-! ## The handlers -/

theorem transmitRegister_authenticated {agent next : Agent} (holds : Authenticated agent)
    (sends : Bool) (taken : transmitRegister agent sends = some next) : Authenticated next := by
  obtain ⟨passport, _, rfl⟩ := Option.map_eq_some_iff.mp taken
  cases sends with
  | false => exact holds
  | true =>
    have sent := holds.record (.authRequest passport.commonName) (by simp) (fun _ => trivial)
    exact sent.congr rfl (fun authed => by cases authed)

theorem onSecure_authenticated {cfg : AgentCfg} {agent next : Agent}
    (holds : Authenticated agent) (sends : Bool)
    (taken : onSecure cfg agent sends = some next) : Authenticated next := by
  unfold onSecure at taken
  split at taken
  · split at taken
    · obtain rfl := Option.some.inj taken
      split
      · exact holds.record _ (by simp) (fun _ => trivial)
      · exact holds
    · exact transmitRegister_authenticated holds sends taken
  · obtain rfl := Option.some.inj taken
    exact holds

theorem onDisconnect_authenticated {agent : Agent} (holds : Authenticated agent) :
    Authenticated (onDisconnect agent) := by
  simp only [onDisconnect]
  split
  · exact holds.congr rfl id
  · exact holds.congr rfl (fun authed => by cases authed)

theorem tryToReconnect_authenticated {agent : Agent} (holds : Authenticated agent) :
    Authenticated (tryToReconnect agent) := by
  refine ⟨?_, fun authed => by cases authed⟩
  exact (guarded_record agent .connected).mpr ⟨holds.1, trivial⟩

theorem opAuthResponse_authenticated {cfg : AgentCfg} {agent : Agent}
    (holds : Authenticated agent) (result : DndsResult) :
    Authenticated (opAuthResponse cfg agent result) := by
  have answered := holds.record (.authResponse result) (by simp) (fun _ => trivial)
  cases result with
  | success => exact answered.record _ (by simp) (fun _ => trivial)
  | secureStepUp => exact answered
  | other => exact answered

theorem opProvResponse_authenticated {agent next : Agent} (holds : Authenticated agent)
    (certificate : Option (List UInt8)) (host : Host)
    (taken : opProvResponse agent certificate host = some next) : Authenticated next := by
  unfold opProvResponse at taken
  split at taken
  · obtain rfl := Option.some.inj taken
    exact holds
  · split at taken
    · obtain rfl := Option.some.inj taken
      exact holds
    · have loaded : Authenticated { agent with
          session := { agent.session with passport := host.passport } } := holds.congr rfl id
      exact transmitRegister_authenticated loaded host.sends taken

/-- A message in order keeps the property. -/
theorem onInput_authenticated {cfg : AgentCfg} {agent next : Agent} (holds : Authenticated agent)
    (message : Incoming) (host : Host) (order : InOrder agent (.input message host))
    (taken : onInput cfg agent host message = some next) : Authenticated next := by
  cases message with
  | provResponse certificate => exact opProvResponse_authenticated holds certificate host taken
  | authResponse result =>
    obtain rfl := Option.some.inj taken
    exact opAuthResponse_authenticated holds result
  | netinfoResponse =>
    obtain rfl := Option.some.inj taken
    unfold opNetinfoResponse
    split
    · next opened => exact ⟨holds.1, fun _ => order opened⟩
    · exact holds
  | p2pRequest macAddrDst =>
    obtain rfl := Option.some.inj taken
    exact holds.congr rfl id
  | ethernet frame =>
    obtain rfl := Option.some.inj taken
    exact holds.frame _ (by simp) order rfl
  | terminateRequest | invalidOperation | invalidPdu =>
    obtain rfl := Option.some.inj taken
    exact holds.congr rfl (fun authed => by cases authed)

/-- What the tap gives is dropped or sent. -/
theorem tunnelIn_cases {agent next : Agent} (read : List UInt8)
    (taken : tunnelIn agent read = some next) : next = agent ∨
      ∃ route, next = agent.record (.frameSent route (read.take 2000)) ∧
        (ForPeer agent read ∨ agent.session.state = .authed) := by
  simp only [tunnelIn] at taken
  split at taken
  · cases taken
  · split at taken
    · next p found =>
      obtain ⟨peer, there, rfl⟩ := Option.map_eq_some_iff.mp taken
      split
      · next authed =>
        exact Or.inr ⟨.peer p, rfl, Or.inl (by simp [ForPeer, found, there, authed])⟩
      · exact Or.inl rfl
    · obtain rfl := Option.some.inj taken
      split
      · next authed => exact Or.inr ⟨.master, rfl, Or.inr authed⟩
      · exact Or.inl rfl

/-- A frame for a secured peer is sent. -/
theorem tunnelIn_forPeer {agent next : Agent} (read : List UInt8) (peer : ForPeer agent read)
    (taken : tunnelIn agent read = some next) :
    ∃ route, next = agent.record (.frameSent route (read.take 2000)) := by
  obtain ⟨session, there, authed⟩ := Option.map_eq_some_iff.mp peer
  obtain ⟨p, found, there⟩ := Option.bind_eq_some_iff.mp there
  simp only [tunnelIn, found, there, Option.map_some, authed, if_true] at taken
  split at taken
  · cases taken
  · exact ⟨.peer p, (Option.some.inj taken).symm⟩

/-! ## Steps and runs -/

theorem step_authenticated (cfg : AgentCfg) (agent : Agent) (event : Event) (next : Agent)
    (holds : Authenticated agent) (order : InOrder agent event)
    (taken : step cfg agent event = some next) : Authenticated next := by
  cases event with
  | connected =>
    obtain ⟨_, made⟩ := Option.ite_none_right_eq_some.mp taken
    obtain rfl := Option.some.inj made
    exact tryToReconnect_authenticated holds
  | secure sends =>
    obtain ⟨_, secured⟩ := Option.ite_none_right_eq_some.mp taken
    exact onSecure_authenticated holds sends secured
  | input message host =>
    obtain ⟨_, handled⟩ := Option.ite_none_right_eq_some.mp taken
    exact onInput_authenticated holds message host order handled
  | disconnected =>
    obtain ⟨_, gone⟩ := Option.ite_none_right_eq_some.mp taken
    obtain rfl := Option.some.inj gone
    exact onDisconnect_authenticated holds
  | tap read =>
    rcases tunnelIn_cases read taken with rfl | ⟨route, rfl, peer | authed⟩
    · exact holds
    · exact holds.frame _ (by simp) (order peer) rfl
    · exact holds.frame _ (by simp) (holds.2 authed) rfl
  | p2pSecure p =>
    obtain ⟨peer, _, rfl⟩ := Option.map_eq_some_iff.mp taken
    exact holds.congr rfl id
  | p2pDisconnected p =>
    obtain ⟨peer, _, rfl⟩ := Option.map_eq_some_iff.mp taken
    exact holds.congr rfl id

/-- An event out of order breaks the property at once. -/
theorem step_unauthenticated (cfg : AgentCfg) (agent : Agent) (event : Event) (next : Agent)
    (order : ¬ InOrder agent event) (taken : step cfg agent event = some next) :
    ¬ Authenticated next := by
  intro holds
  cases event with
  | connected | secure | disconnected | p2pSecure | p2pDisconnected => exact order trivial
  | input message host =>
    obtain ⟨_, handled⟩ := Option.ite_none_right_eq_some.mp taken
    cases message with
    | provResponse | authResponse | p2pRequest | terminateRequest | invalidOperation
    | invalidPdu => exact order trivial
    | netinfoResponse =>
      obtain rfl := Option.some.inj handled
      apply order
      intro opened
      rw [opNetinfoResponse, if_pos opened] at holds
      exact holds.2 rfl
    | ethernet frame =>
      obtain rfl := Option.some.inj handled
      exact order ((guarded_record agent (.frameWritten frame)).mp holds.1).2
  | tap read =>
    apply order
    intro peer
    obtain ⟨route, rfl⟩ := tunnelIn_forPeer read peer taken
    exact ((guarded_record agent (.frameSent route (read.take 2000))).mp holds.1).2

theorem initial_authenticated {cfg : AgentCfg} {loaded : Option Passport} {start : Agent}
    (made : agentInit cfg loaded = some start) : Authenticated start := by
  obtain ⟨_, start⟩ := Option.ite_none_left_eq_some.mp made
  obtain rfl := Option.some.inj start
  exact ⟨guarded_nil advance .fresh permitted, fun authed => by cases authed⟩

/-- In every run, frames are exchanged only on an authenticated session, and the session is
authenticated only once the request was granted on its connection, exactly when what arrives
is in order.

Proof: an event in order keeps the property, and one that is not in order breaks it in the
state that it leaves, so the rule for conditions along a run applies. -/
theorem authenticated_iff (cfg : AgentCfg) (loaded : Option Passport) (start final : Agent)
    (events : List Event) (made : agentInit cfg loaded = some start)
    (reached : run (step cfg) start events = some final) :
    (∀ past, past <+: events → ∀ agent, run (step cfg) start past = some agent →
      Authenticated agent) ↔ Meets (step cfg) InOrder start events := by
  refine holds_along_iff (step cfg) (fun _ => True) InOrder Authenticated Authenticated
    (fun _ holds => holds) ?_ ?_ start final events (initial_authenticated made)
    (fun _ _ => trivial) reached
  · intro agent event next holds _ order taken
    exact step_authenticated cfg agent event next holds order taken
  · intro agent event next _ _ order taken
    exact step_unauthenticated cfg agent event next order taken

/-- An agent with a passport. -/
def sampleCfg : AgentCfg where
  provCode := none
  ipLocal := [49, 48, 46, 48, 46, 48, 46, 50]
  hwaddr := [2, 0, 0, 0, 0, 1]

def sampleAgent : Agent :=
  (agentInit sampleCfg (some { commonName := [110, 49] })).get rfl

def sampleHost : Host where
  opensWritten := true
  opensIpConf := true
  passport := none
  sends := true

/-- The request is granted before the network information and the frames. -/
def orderlyRun : List Event :=
  let frame : List UInt8 := [2, 0, 0, 0, 0, 2, 2, 0, 0, 0, 0, 1, 8, 0]
  [.connected, .secure true, .input (.authResponse .secureStepUp) sampleHost, .secure true,
    .input (.authResponse .success) sampleHost, .input .netinfoResponse sampleHost,
    .tap frame, .input (.ethernet frame) sampleHost]

theorem orderlyRun_authenticated : ((run (step sampleCfg) sampleAgent orderlyRun).isSome = true ∧
    Meets (step sampleCfg) InOrder sampleAgent orderlyRun) ∧
    ∀ past, past <+: orderlyRun → ∀ agent,
      run (step sampleCfg) sampleAgent past = some agent → Authenticated agent := by
  have met : Meets (step sampleCfg) InOrder sampleAgent orderlyRun := by decide
  refine ⟨⟨by decide, met⟩, ?_⟩
  exact (authenticated_iff sampleCfg _ sampleAgent _ orderlyRun (Option.some_get _).symm
    (Option.some_get (by decide)).symm).mpr met

/-- A server that never answers the request: its network information is enough. -/
def hostileRun : List Event :=
  let frame : List UInt8 := [2, 0, 0, 0, 0, 2, 2, 0, 0, 0, 0, 1, 8, 0]
  [.connected, .secure true, .input .netinfoResponse sampleHost, .tap frame,
    .input (.ethernet frame) sampleHost]

/-- A frame is sent and another one is written, and the session is authenticated, without any
response to the request. -/
theorem hostileRun_unauthenticated : ∃ agent,
    run (step sampleCfg) sampleAgent hostileRun = some agent ∧
    agent.session.state = .authed ∧ agent.stage = .requested ∧
    .authResponse .success ∉ agent.history ∧ ¬ Authenticated agent := by
  refine ⟨(run (step sampleCfg) sampleAgent hostileRun).get (by decide),
    (Option.some_get _).symm, by decide, by decide, by decide, ?_⟩
  intro holds
  exact absurd (holds.2 (by decide)) (by decide)

end NetVirt.Nvagent
