import NetVirt.ConnectionTables

/-!
# Status messages

update_node_status is called in two places: by on_secure for the session that it admits,
and by on_disconnect for every session past its authRequest. What a step writes can be
told from the state before it.
-/

namespace NetVirt.Nvswitch

open Bitv Cert LinkStates LinkedLists Tables Runs

/-- A node of a network, as status messages name it. -/
structure Node where
  networkUuid : List UInt8
  uuid : List UInt8
deriving DecidableEq

def NodeStatus.node (status : NodeStatus) : Node :=
  { networkUuid := status.networkuuid, uuid := status.uuid }

/-- The node that a message about some node information names. -/
def nodeOf (info : NodeInfo) : Node :=
  { networkUuid := info.networkUuid, uuid := info.uuid }

/-- The message that update_node_status writes for a session's node: none when a text is
not UTF-8. -/
def nodeStatus (status : Presence) (localIpaddr : List UInt8) (info : NodeInfo) :
    Option NodeStatus :=
  match Json.jsonString localIpaddr, Json.jsonString info.uuid,
    Json.jsonString info.networkUuid with
  | some localIpaddr, some uuid, some networkUuid =>
    some { status := status, localIpaddr := localIpaddr, uuid := uuid, networkuuid := networkUuid }
  | _, _, _ => none

theorem updateNodeStatus_statuses (switch : Switch) (status : Presence)
    (localIpaddr : List UInt8) (info : NodeInfo) :
    (updateNodeStatus switch status localIpaddr info.uuid info.networkUuid).statuses =
      switch.statuses ++ (nodeStatus status localIpaddr info).toList := by
  unfold updateNodeStatus nodeStatus
  cases Json.jsonString localIpaddr with
  | none => simp
  | some localIpaddr =>
    cases Json.jsonString info.uuid with
    | none => simp
    | some uuid =>
      cases Json.jsonString info.networkUuid with
      | none => simp
      | some networkUuid => rfl

theorem updateNodeStatus_sessions (switch : Switch) (status : Presence)
    (localIpaddr uuid networkUuid : List UInt8) :
    (updateNodeStatus switch status localIpaddr uuid networkUuid).sessions = switch.sessions := by
  obtain ⟨statuses, same⟩ := updateNodeStatus_eq switch status localIpaddr uuid networkUuid
  rw [same]

theorem updateNodeStatus_vnets (switch : Switch) (status : Presence)
    (localIpaddr uuid networkUuid : List UInt8) :
    (updateNodeStatus switch status localIpaddr uuid networkUuid).vnets = switch.vnets := by
  obtain ⟨statuses, same⟩ := updateNodeStatus_eq switch status localIpaddr uuid networkUuid
  rw [same]

theorem jsonString_same {text written : List UInt8} (valid : Json.jsonString text = some written) :
    written = text := by
  simp only [Json.jsonString, Option.ite_none_right_eq_some] at valid
  exact (Option.some.inj valid.2).symm

/-- A message has the status and the node that it is written for. -/
theorem nodeStatus_written {status : Presence} {localIpaddr : List UInt8} {info : NodeInfo}
    {message : NodeStatus} (written : nodeStatus status localIpaddr info = some message) :
    message.status = status ∧ message.node = nodeOf info := by
  unfold nodeStatus at written
  split at written
  · next _ uuid networkUuid _ named network =>
    obtain rfl := Option.some.inj written
    exact ⟨rfl, by rw [NodeStatus.node, nodeOf, jsonString_same named, jsonString_same network]⟩
  · cases written

/-! ## What a step writes -/

/-- What on_secure finds of a session whose node the access table of its network lists. -/
structure Admission where
  s : SessionId
  session : Session
  info : NodeInfo
  vnet : VNetwork

/-- The node that a session is authenticated as. -/
def Admission.node (admitted : Admission) : Node :=
  { networkUuid := admitted.vnet.uuid, uuid := admitted.info.uuid }

/-- The message about it. -/
def Admission.status (admitted : Admission) : Option NodeStatus :=
  nodeStatus .online admitted.session.ip (withNetworkUuid admitted.info admitted.vnet)

/-- The session that an event authenticates. -/
def admission (switch : Switch) : Event → Option Admission
  | .secure s cert => do
    let session ← (switch.sessions s).filter fun session => session.state = .waitStepup
    let info ← (certNodeInfo cert).join
    let v ← session.vnetwork
    let vnet ← switch.vnets v
    let _ ← vnet.atable.find info.uuid
    return { s := s, session := session, info := info, vnet := vnet }
  | _ => none

/-- The message about a session that ends. -/
def Session.endStatus (session : Session) : Option NodeStatus :=
  if session.state = .notAuthed then none
  else session.nodeInfo.bind (nodeStatus .offline session.ip)

/-- The message that a step writes. -/
def reported (switch : Switch) (event : Event) : Option NodeStatus :=
  ((admission switch event).bind Admission.status).or
    ((ends switch event).bind fun s => (switch.sessions s).bind Session.endStatus)

/-- A session is authenticated by a certificate that its network's access table lists. -/
theorem admission_cases {switch : Switch} {event : Event} {admitted : Admission}
    (admits : admission switch event = some admitted) :
    ∃ cert v, event = .secure admitted.s cert ∧
      switch.sessions admitted.s = some admitted.session ∧
      admitted.session.state = .waitStepup ∧
      certNodeInfo cert = some (some admitted.info) ∧ admitted.session.vnetwork = some v ∧
      switch.vnets v = some admitted.vnet ∧
      admitted.vnet.atable.find admitted.info.uuid = some () := by
  cases event with
  | secure s cert =>
    obtain ⟨session, waiting, admits⟩ := Option.bind_eq_some_iff.mp admits
    obtain ⟨info, read, admits⟩ := Option.bind_eq_some_iff.mp admits
    obtain ⟨v, member, admits⟩ := Option.bind_eq_some_iff.mp admits
    obtain ⟨vnet, home, admits⟩ := Option.bind_eq_some_iff.mp admits
    obtain ⟨access, listed, admits⟩ := Option.bind_eq_some_iff.mp admits
    obtain rfl := Option.some.inj admits
    obtain ⟨found, state⟩ := Option.filter_eq_some_iff.mp waiting
    exact ⟨cert, v, rfl, found, of_decide_eq_true state, Option.join_eq_some_iff.mp read, member,
      home, listed⟩
  | _ => cases admits

/-- Only a certificate authenticates, and it ends no session. -/
theorem admission_ends {switch : Switch} {event : Event} {admitted : Admission}
    (admits : admission switch event = some admitted) : ends switch event = none := by
  cases event with
  | secure s cert => rfl
  | _ => cases admits

theorem reported_admission {switch : Switch} {event : Event} {admitted : Admission}
    (admits : admission switch event = some admitted) :
    reported switch event = admitted.status := by
  simp [reported, admits, admission_ends admits]

theorem reported_end {switch : Switch} {event : Event} {s : SessionId} {session : Session}
    (ended : ends switch event = some s) (found : switch.sessions s = some session) :
    reported switch event = session.endStatus := by
  have nobody : admission switch event = none := by
    by_contra some
    obtain ⟨admitted, admits⟩ := Option.ne_none_iff_exists'.mp some
    rw [admission_ends admits] at ended
    cases ended
  simp [reported, nobody, ended, found]

theorem reported_nothing {switch : Switch} {event : Event} (nobody : admission switch event = none)
    (nothing : ends switch event = none) : reported switch event = none := by
  simp [reported, nobody, nothing]

theorem onDisconnect_statuses (switch after : Switch) (s : SessionId) (session : Session)
    (found : switch.sessions s = some session) (taken : onDisconnect switch s = some after) :
    after.statuses = switch.statuses ++ session.endStatus.toList := by
  obtain ⟨own, present, ⟨fresh, rfl⟩ | ⟨left, info, past, leaving, named, rfl⟩⟩ :=
    onDisconnect_cases _ _ _ taken
  · obtain rfl := Option.some.inj (found.symm.trans present)
    simp [Session.endStatus, fresh]
  · obtain rfl := Option.some.inj (found.symm.trans present)
    have quiet : left.statuses = switch.statuses := by
      obtain ⟨_, _, ⟨_, rfl⟩ | ⟨v, vnet, node, _, _, _, rfl⟩⟩ := leaveVnetwork_cases _ _ _ leaving
      · rfl
      · rfl
    rw [Switch.sessionFree_statuses, updateNodeStatus_statuses, quiet, Session.endStatus,
      if_neg past, named, Option.bind_some]

theorem sendEach_statuses (switch : Switch) (recipients : List SessionId) (message : Outgoing) :
    (sendEach switch recipients message).statuses = switch.statuses := by
  induction recipients generalizing switch with
  | nil => rfl
  | cons s rest inductionHypothesis => exact inductionHypothesis (switch.netSendMsg s message)

theorem forwardEthernet_statuses (switch after : Switch) (s : SessionId) (frame : List UInt8)
    (now rand : Nat) (taken : forwardEthernet switch s frame now rand = some after) :
    after.statuses = switch.statuses := by
  obtain ⟨session, _, ⟨_, rfl⟩ | sent⟩ := forwardEthernet_cases _ _ _ _ _ _ taken
  · rfl
  · obtain ⟨v, vnet, learned, source, _, _, _, learning, _, cases⟩ := sent
    have taught : learned.statuses = switch.statuses := by
      obtain ⟨_, _, _, _, _, _, ⟨_, rfl⟩ | ⟨_, _, rfl⟩⟩ := learn_cases _ _ _ _ _ learning
      · rfl
      · rfl
    rcases cases with ⟨_, rfl⟩ | ⟨target, _, _, _, introduced⟩ | ⟨recipients, _, _, _, rfl⟩
    · exact taught
    · obtain ⟨_, _, _, _, _, _, _, _, rfl | asked⟩ := introduce_cases _ _ _ _ _ _ introduced
      · exact taught
      · obtain ⟨_, _, _, _, _, _, _, _, _, _, _, _, _, rfl⟩ := asked
        exact taught
    · rw [sendEach_statuses]
      exact taught

theorem authRequest_statuses (switch after : Switch) (s : SessionId) (certName : List UInt8)
    (code : Int) (taken : authRequest switch s certName = some (after, code)) :
    after.statuses = switch.statuses := by
  obtain ⟨_, _, ⟨_, rfl⟩ | ⟨_, rfl⟩ | ⟨_, _, _, _, rfl⟩ | ⟨_, _, _, _, _, _, _, rfl⟩⟩ :=
    authRequest_cases _ _ _ _ _ taken
  · rfl
  · rfl
  · rfl
  · rfl

/-- on_secure authenticates nobody and writes nothing, or admits the session to its network. -/
theorem onSecure_admission (switch after : Switch) (inv : Inv switch) (s : SessionId)
    (cert : X509) (taken : onSecure switch s cert = some after) :
    (admission switch (.secure s cert) = none ∧ after.statuses = switch.statuses) ∨
    ∃ session info v vnet, admission switch (.secure s cert) =
        some { s := s, session := session, info := info, vnet := vnet } ∧
      switch.sessions s = some session ∧ session.vnetwork = some v ∧
      after = (updateNodeStatus ((switch.setSession s (session.admitted vnet info)).joined v s
          (session.admitted vnet info) vnet) .online session.ip (withNetworkUuid info vnet).uuid
        (withNetworkUuid info vnet).networkUuid).netSendMsg s (.authResponse .success) := by
  obtain ⟨session, found, cases⟩ := onSecure_cases _ _ _ _ taken
  rcases cases with ⟨state, rfl⟩ | ⟨state, read, rfl⟩ |
    ⟨info, v, vnet, state, read, member, home, unlisted, rfl⟩ |
    ⟨info, v, vnet, joined, state, read, member, home, listed, added, rfl⟩
  · exact Or.inl ⟨by simp [admission, found, state], rfl⟩
  · exact Or.inl ⟨by simp [admission, found, read], rfl⟩
  · exact Or.inl ⟨by simp [admission, found, state, read, member, home, unlisted], rfl⟩
  · obtain rfl := admitted_joined switch joined inv s session v vnet info found state home added
    have waiting : (switch.sessions s).filter (fun session => session.state = .waitStepup) =
        some session := by simp [found, Option.filter, state]
    refine Or.inr ⟨session, info, v, vnet, ?_, found, member, rfl⟩
    simp only [admission, waiting, read, member, home, listed, Option.join_some,
      Option.bind_eq_bind, Option.bind_some]
    rfl

theorem onSecure_statuses (switch after : Switch) (inv : Inv switch) (s : SessionId)
    (cert : X509) (taken : onSecure switch s cert = some after) :
    after.statuses = switch.statuses ++ (reported switch (.secure s cert)).toList := by
  rcases onSecure_admission switch after inv s cert taken with
    ⟨nobody, same⟩ | ⟨session, info, v, vnet, admits, _, _, rfl⟩
  · rw [reported_nothing nobody rfl, same]
    exact (List.append_nil _).symm
  · rw [reported_admission admits, Switch.netSendMsg_statuses, updateNodeStatus_statuses]
    rfl

/-- A step writes the one message, if any, that the state before it tells. -/
theorem statuses_step (switch after : Switch) (event : Event) (inv : Inv switch)
    (taken : step switch event = some after) :
    after.statuses = switch.statuses ++ (reported switch event).toList := by
  have silent : admission switch event = none → ends switch event = none →
      after.statuses = switch.statuses →
      after.statuses = switch.statuses ++ (reported switch event).toList := by
    intro nobody nothing same
    rw [reported_nothing nobody nothing, same]
    exact (List.append_nil _).symm
  have disconnected : ∀ s gone, ends switch event = some s → onDisconnect switch s = some gone →
      after.statuses = gone.statuses →
      after.statuses = switch.statuses ++ (reported switch event).toList := by
    intro s gone ended taken same
    obtain ⟨session, found, _⟩ := onDisconnect_cases _ _ _ taken
    rw [reported_end ended found, same]
    exact onDisconnect_statuses switch gone s session found taken
  cases event with
  | connect s peerHost =>
    simp only [step, Option.ite_none_left_eq_some] at taken
    obtain rfl := Option.some.inj taken.2
    exact silent rfl rfl rfl
  | input s env message =>
    obtain ⟨session, found, ⟨purged, ended⟩ | ⟨awake, dispatched⟩⟩ := input_cases _ _ _ _ _ taken
    · exact disconnected s after (by simp [ends, found, purged]) ended rfl
    · cases message with
      | provRequest provCode =>
        obtain ⟨_, _, rfl⟩ := Option.map_eq_some_iff.mp dispatched
        exact silent rfl (by simp [ends, found, awake]) rfl
      | authRequest certName =>
        obtain ⟨⟨_, code⟩, answered, rfl⟩ := Option.map_eq_some_iff.mp dispatched
        exact silent rfl (by simp [ends, found, awake])
          (authRequest_statuses switch _ s certName code answered)
      | netinfoRequest ipLocal macAddr =>
        obtain ⟨own, _, stored⟩ := Option.bind_eq_some_iff.mp dispatched
        obtain rfl := Option.some.inj stored
        exact silent rfl (by simp [ends, found, awake]) rfl
      | other =>
        obtain ⟨gone, ended, released⟩ := Option.bind_eq_some_iff.mp dispatched
        obtain rfl := Option.some.inj released
        exact disconnected s gone (by simp [ends]) ended rfl
      | ethernet frame =>
        exact silent rfl (by simp [ends, found, awake])
          (forwardEthernet_statuses switch after s frame env.now env.rand dispatched)
      | invalid =>
        obtain ⟨_, _, rfl⟩ := Option.map_eq_some_iff.mp dispatched
        exact silent rfl (by simp [ends, found, awake]) rfl
  | secure s cert => exact onSecure_statuses switch after inv s cert taken
  | disconnect s => exact disconnected s after rfl taken rfl
  | createNetwork id uuid =>
    obtain rfl := Option.some.inj taken
    exact silent rfl rfl rfl
  | listNode uuid networkUuid =>
    rcases listNode_cases _ _ _ _ taken with ⟨_, rfl⟩ | ⟨_, _, _, _, _, _, rfl⟩
    · exact silent rfl rfl rfl
    · exact silent rfl rfl rfl
  | delNode node =>
    obtain ⟨⟨_, code⟩, deleted, rfl⟩ := Option.map_eq_some_iff.mp taken
    rcases delNode_cases _ _ _ _ deleted with ⟨_, rfl⟩ | ⟨_, _, _, _, _, _, _, _, _, _,
      ⟨_, rfl⟩ | ⟨_, _, _, _, rfl⟩⟩
    · exact silent rfl rfl rfl
    · exact silent rfl rfl rfl
    · exact silent rfl rfl rfl
  | delNetwork uuid =>
    obtain ⟨⟨_, code⟩, deleted, rfl⟩ := Option.map_eq_some_iff.mp taken
    rcases delNetwork_cases _ _ _ _ deleted with ⟨_, rfl⟩ | ⟨_, _, _, _, _, _, _, _, _, rfl⟩
    · exact silent rfl rfl rfl
    · exact silent rfl rfl rfl

/-! ## Who is connected -/

/-- Who was known to the switch is connected after a step exactly when it was before and the
event does not end it. -/
theorem connected_step (switch after : Switch) (event : Event) (inv : Inv switch)
    (taken : step switch event = some after) (s : SessionId) (opened : s ∈ switch.opened) :
    (∃ later, after.sessions s = some later) ↔
      (∃ session, switch.sessions s = some session) ∧ ends switch event ≠ some s := by
  constructor
  · rintro ⟨later, there⟩
    refine ⟨?_, fun ended => ?_⟩
    · rcases session_step switch after event inv taken s later there with
        ⟨unopened, _⟩ | ⟨session, found, _⟩
      · exact absurd opened unopened
      · exact ⟨session, found⟩
    · rw [ended_gone switch after event s ended taken] at there
      cases there
  · rintro ⟨⟨session, found⟩, lasts⟩
    obtain ⟨later, there, _⟩ := session_stays switch after inv event taken s session found lasts
    exact ⟨later, there⟩

end NetVirt.Nvswitch
