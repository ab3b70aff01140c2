import NetVirt.Noninterference
import NetVirt.PresenceLog
import NetVirt.SwitchStatuses

/-!
# The presence of nodes

A session attends the node that on_secure has authenticated it as, in the network that it
has joined, until it ends. The status messages say which nodes are attended: online is
reported with the certificate's node, offline with the node information that an ending
session has. They stay right exactly as long as what is reported suits what other sessions
attend.
-/

namespace NetVirt.Nvswitch

open Bitv Cert LinkStates LinkedLists Tables Runs PresenceLog

/-! ## Authenticated sessions -/

/-- One of the events was the step of on_secure that authenticated the session as the node. -/
def Authenticated (events : List Event) (s : SessionId) (node : Node) : Prop :=
  ∃ early event, early ++ [event] <+: events ∧
    ∃ switch, run step Switch.initial early = some switch ∧
      ∃ admitted, admission switch event = some admitted ∧ admitted.s = s ∧ admitted.node = node

theorem authenticated_nil (s : SessionId) (node : Node) : ¬ Authenticated [] s node := by
  rintro ⟨early, event, within, _⟩
  simp at within

/-- The last event authenticates, or an earlier one did. -/
theorem authenticated_snoc (past : List Event) (switch : Switch) (event : Event)
    (reached : run step Switch.initial past = some switch) (s : SessionId) (node : Node) :
    Authenticated (past ++ [event]) s node ↔ Authenticated past s node ∨
      ∃ admitted, admission switch event = some admitted ∧ admitted.s = s ∧
        admitted.node = node := by
  constructor
  · rintro ⟨early, other, within, state, run, admits⟩
    rcases List.prefix_concat_iff.mp within with last | before
    · obtain ⟨rfl, same⟩ := List.append_inj' last rfl
      obtain rfl := List.singleton_inj.mp same
      obtain rfl := Option.some.inj (reached.symm.trans run)
      exact Or.inr admits
    · exact Or.inl ⟨early, other, before, state, run, admits⟩
  · rintro (⟨early, other, within, admits⟩ | admits)
    · exact ⟨early, other, within.trans (List.prefix_append ..), admits⟩
    · exact ⟨past, event, List.prefix_refl _, switch, reached, admits⟩

/-- The session is connected, and has been authenticated as the node. -/
def Attends (events : List Event) (switch : Switch) (s : SessionId) (node : Node) : Prop :=
  (∃ session, switch.sessions s = some session) ∧ Authenticated events s node

/-- The last status that was reported of a node. -/
def lastStatus (switch : Switch) (node : Node) : Option Presence :=
  (latest NodeStatus.node switch.statuses node).map NodeStatus.status

/-- The last status of each node is online exactly when a connected session has been
authenticated as it; without a status there is no such session. -/
def StatusesMatch (events : List Event) (switch : Switch) : Prop :=
  ∀ networkUuid uuid,
    (∀ status, lastStatus switch { networkUuid := networkUuid, uuid := uuid } = some status →
      (status = .online ↔
        ∃ s, Attends events switch s { networkUuid := networkUuid, uuid := uuid })) ∧
    (lastStatus switch { networkUuid := networkUuid, uuid := uuid } = none →
      ¬ ∃ s, Attends events switch s { networkUuid := networkUuid, uuid := uuid })

/-- The nodes that are online by the last status. -/
def Switch.online (switch : Switch) : Set Node :=
  told NodeStatus.node (fun status => status.status = .online) switch.statuses

theorem statusesMatch_iff (events : List Event) (switch : Switch) :
    StatusesMatch events switch ↔ switch.online = attended (Attends events switch) := by
  constructor
  · intro matching
    ext node
    obtain ⟨reportedOf, unreported⟩ := matching node.networkUuid node.uuid
    cases last : latest NodeStatus.node switch.statuses node with
    | none =>
      have nobody := unreported (by simp [lastStatus, last])
      exact iff_of_false (by simp [Switch.online, told, last]) nobody
    | some message =>
      have online : node ∈ switch.online ↔ message.status = .online := by
        simp [Switch.online, told, last]
      exact online.trans (reportedOf message.status (by simp [lastStatus, last]))
  · intro same networkUuid uuid
    have attending := Set.ext_iff.mp same { networkUuid := networkUuid, uuid := uuid }
    constructor
    · intro status last
      obtain ⟨message, found, rfl⟩ := Option.map_eq_some_iff.mp last
      refine Iff.trans ?_ attending
      simp [Switch.online, told, found]
    · intro last
      have none := Option.map_eq_none_iff.mp last
      exact mt attending.mpr (by simp [Switch.online, told, none])

/-! ## What a step does to them -/

/-- An authenticated session was known to the switch. -/
theorem authenticated_opened (events : List Event) (switch : Switch)
    (reached : run step Switch.initial events = some switch) (s : SessionId) (node : Node)
    (authenticated : Authenticated events s node) : s ∈ switch.opened := by
  refine history_invariant step
    (fun events switch => ∀ s node, Authenticated events s node → s ∈ switch.opened)
    Switch.initial ?_ switch events ?_ reached s node authenticated
  · intro past switch event after early known taken s node authenticated
    have inv := reachable_inv switch past early
    refine step_opened switch after event inv taken s ?_
    rcases (authenticated_snoc past switch event early s node).mp authenticated with
      before | ⟨admitted, admits, rfl, _⟩
    · exact known s node before
    · obtain ⟨_, _, _, found, _⟩ := admission_cases admits
      exact (inv.sessions _ _ found).opened
  · intro s node authenticated
    exact absurd authenticated (authenticated_nil s node)

/-- A session attends a node after a step when it did before and is not ended, or when it
is authenticated as the node. -/
theorem attends_step (past : List Event) (switch after : Switch) (event : Event)
    (reached : run step Switch.initial past = some switch) (taken : step switch event = some after)
    (s : SessionId) (node : Node) :
    Attends (past ++ [event]) after s node ↔
      Attends past switch s node ∧ ends switch event ≠ some s ∨
        ∃ admitted, admission switch event = some admitted ∧ admitted.s = s ∧
          admitted.node = node := by
  have inv := reachable_inv switch past reached
  constructor
  · rintro ⟨there, authenticated⟩
    rcases (authenticated_snoc past switch event reached s node).mp authenticated with
      before | admits
    · have opened := authenticated_opened past switch reached s node before
      obtain ⟨found, lasts⟩ := (connected_step switch after event inv taken s opened).mp there
      exact Or.inl ⟨⟨found, before⟩, lasts⟩
    · exact Or.inr admits
  · rintro (⟨⟨found, before⟩, lasts⟩ | ⟨admitted, admits, rfl, named⟩)
    · have opened := authenticated_opened past switch reached s node before
      exact ⟨(connected_step switch after event inv taken s opened).mpr ⟨found, lasts⟩,
        (authenticated_snoc past switch event reached s node).mpr (Or.inl before)⟩
    · obtain ⟨_, _, _, found, _⟩ := admission_cases admits
      have opened := (inv.sessions _ _ found).opened
      have lasts : ends switch event ≠ some admitted.s := by simp [admission_ends admits]
      exact ⟨(connected_step switch after event inv taken _ opened).mpr ⟨⟨_, found⟩, lasts⟩,
        (authenticated_snoc past switch event reached _ node).mpr
          (Or.inr ⟨admitted, admits, rfl, named⟩)⟩

/-- A session that is authenticated has passed the check of the access table, and is one of
the network of its node. -/
theorem admission_joins (switch after : Switch) (event : Event) (inv : Inv switch)
    (taken : step switch event = some after) (admitted : Admission)
    (admits : admission switch event = some admitted) (later : Session)
    (there : after.sessions admitted.s = some later) :
    Passed after admitted.s ∧ ∃ v vnet, later.vnetwork = some v ∧ after.vnets v = some vnet ∧
      vnet.uuid = admitted.node.networkUuid := by
  obtain ⟨cert, _, rfl, _⟩ := admission_cases admits
  obtain ⟨s, own, read, home⟩ := admitted
  rcases onSecure_admission switch after inv s cert taken with
    ⟨nobody, _⟩ | ⟨session, info, v, vnet, same, found, member, rfl⟩
  · rw [admits] at nobody
    cases nobody
  · cases Option.some.inj (admits.symm.trans same)
    have stored := (admitted_sessions switch s own (own.admitted home read) v home found rfl rfl
      s).trans (if_pos rfl)
    have network := (admitted_vnets switch s (own.admitted home read) v v home).trans (if_pos rfl)
    rw [Switch.netSendMsg_sessions, updateNodeStatus_sessions] at there
    obtain rfl := Option.some.inj (stored.symm.trans there)
    refine ⟨List.mem_append_right _ List.mem_cons_self, v, ?_⟩
    simp only [Switch.netSendMsg_vnets, updateNodeStatus_vnets]
    exact ⟨_, member, network, rfl⟩

/-- A connected session that was authenticated as a node has passed the check of the access
table, and its network is the node's, unless that was deleted. -/
theorem authenticated_member (events : List Event) (switch : Switch)
    (reached : run step Switch.initial events = some switch) (s : SessionId) (session : Session)
    (node : Node) (found : switch.sessions s = some session)
    (authenticated : Authenticated events s node) :
    Passed switch s ∧ ∀ v vnet, session.vnetwork = some v → switch.vnets v = some vnet →
      vnet.uuid = node.networkUuid := by
  refine history_invariant step
    (fun events switch => ∀ s session node, switch.sessions s = some session →
      Authenticated events s node → Passed switch s ∧ ∀ v vnet, session.vnetwork = some v →
        switch.vnets v = some vnet → vnet.uuid = node.networkUuid)
    Switch.initial ?_ switch events ?_ reached s session node found authenticated
  · intro past switch event after early known taken s later node there authenticated
    have inv := reachable_inv switch past early
    rcases (authenticated_snoc past switch event early s node).mp authenticated with
      before | ⟨admitted, admits, rfl, rfl⟩
    · have opened := authenticated_opened past switch early s node before
      rcases session_step switch after event inv taken s later there with
        ⟨unopened, _⟩ | ⟨session, found, change⟩
      · exact absurd opened unopened
      obtain ⟨passed, network⟩ := known s session node found before
      have held := inv.sessions s session found
      refine ⟨step_passed switch after event inv taken s passed, fun v vnet member home => ?_⟩
      have same : session.vnetwork = some v := by
        cases change with
        | kept _ vnetwork _ => exact vnetwork.symm.trans member
        | accepted _ _ _ _ _ _ fresh _ _ => exact absurd passed (held.unknown fresh).2
        | admitted _ _ _ _ _ _ _ _ _ waiting _ _ _ => exact absurd passed (held.waiting waiting).2
        | purged _ _ vnetwork =>
          rcases vnetwork with vnetwork | none
          · exact vnetwork.symm.trans member
          · rw [none] at member
            cases member
      cases network_step switch after event inv taken v vnet home with
      | new fresh _ => exact absurd (held.placed v same) (by simp [fresh])
      | kept own before uuid _ => exact uuid.trans (network v own same before)
      | granted own _ _ before uuid _ _ _ _ => exact uuid.trans (network v own same before)
    · obtain ⟨passed, v, vnet, member, home, named⟩ :=
        admission_joins switch after event inv taken admitted admits later there
      refine ⟨passed, fun w other within present => ?_⟩
      obtain rfl := Option.some.inj (member.symm.trans within)
      obtain rfl := Option.some.inj (home.symm.trans present)
      exact named
  · intro s session node _ authenticated
    exact absurd authenticated (authenticated_nil s node)

/-! ## The condition -/

/-- What a step reports suits who attends the nodes. A session that is authenticated is
reported at the node it is authenticated as, or nothing new is to be said of that node and
of the reported one. When a session ends, no other session attends the reported node, and a
node that it attended is reported or attended by another. -/
structure Suits (past : List Event) (switch : Switch) (event : Event) : Prop where
  joining : ∀ admitted, admission switch event = some admitted →
    JoinTold (attended (Attends past switch)) admitted.node
      (admitted.status.map NodeStatus.node)
  ending : ∀ s session, ends switch event = some s → switch.sessions s = some session →
    LeaveTold (attendedBeside (Attends past switch) s) { node | Attends past switch s node }
      (session.endStatus.map NodeStatus.node)

theorem admission_online (admitted : Admission) :
    ∀ message ∈ admitted.status, message.status = .online :=
  fun _ written => (nodeStatus_written written).1

theorem endStatus_offline (session : Session) :
    ∀ message ∈ session.endStatus, ¬ message.status = .online := by
  intro message written
  unfold Session.endStatus at written
  split at written
  · cases written
  · obtain ⟨info, _, written⟩ := Option.bind_eq_some_iff.mp written
    rw [(nodeStatus_written written).1]
    simp

/-- Statuses that match keep matching over a step exactly when it reports what suits. -/
theorem matching_step (past : List Event) (switch after : Switch) (event : Event)
    (reached : run step Switch.initial past = some switch)
    (right : switch.online = attended (Attends past switch))
    (taken : step switch event = some after) :
    after.online = attended (Attends (past ++ [event]) after) ↔ Suits past switch event := by
  have inv := reachable_inv switch past reached
  have attending := attends_step past switch after event reached taken
  have written := statuses_step switch after event inv taken
  cases admits : admission switch event with
  | some admitted =>
    have nobody := admission_ends admits
    have joined : attended (Attends (past ++ [event]) after) =
        insert admitted.node (attended (Attends past switch)) := by
      refine attended_join _ _ admitted.s admitted.node fun s node => ?_
      rw [attending s node, admits, nobody]
      simp [eq_comm]
    rw [joined, Switch.online, written, reported_admission admits,
      join_iff _ _ _ _ _ _ right (admission_online admitted)]
    constructor
    · intro suits
      refine ⟨fun other same => ?_, fun s session ended => ?_⟩
      · obtain rfl := Option.some.inj (admits.symm.trans same)
        exact suits
      · rw [nobody] at ended
        cases ended
    · exact fun suits => suits.joining admitted admits
  | none =>
    cases ended : ends switch event with
    | some s =>
      obtain ⟨gone, disconnected, _⟩ := ends_disconnect switch after event s ended taken
      obtain ⟨session, found, _⟩ := onDisconnect_cases _ _ _ disconnected
      have beside : attended (Attends (past ++ [event]) after) =
          attendedBeside (Attends past switch) s := by
        ext node
        refine exists_congr fun t => ?_
        rw [attending t node, admits, ended]
        simp [and_comm, eq_comm]
      have split := right.trans (attended_split (Attends past switch) s)
      rw [beside, Switch.online, written, reported_end ended found,
        leave_iff _ _ _ _ _ _ split (endStatus_offline session)]
      constructor
      · intro suits
        refine ⟨fun admitted other => ?_, fun t own same present => ?_⟩
        · rw [admits] at other
          cases other
        · obtain rfl := Option.some.inj (ended.symm.trans same)
          obtain rfl := Option.some.inj (found.symm.trans present)
          exact suits
      · exact fun suits => suits.ending s session ended found
    | none =>
      have same : attended (Attends (past ++ [event]) after) =
          attended (Attends past switch) := by
        ext node
        refine exists_congr fun s => ?_
        rw [attending s node, admits, ended]
        simp
      rw [same, Switch.online, written, reported_nothing admits ended, Option.toList_none,
        List.append_nil]
      refine iff_of_true right ⟨fun admitted other => ?_, fun s session other => ?_⟩
      · rw [admits] at other
        cases other
      · rw [ended] at other
        cases other

/-- In every state along a run the statuses match the presence of the nodes exactly when
every step of the run reports what suits.

Proof: the statuses that the controller was told, as sets of nodes, match those of the
attended nodes at the start; a step from a matching state matches again exactly when what it
reports suits. -/
theorem statuses_match_iff (events : List Event) :
    (∀ past, past <+: events → ∀ switch, run step Switch.initial past = some switch →
      StatusesMatch past switch) ↔
    ∀ past event, past ++ [event] <+: events → ∀ switch after,
      run step Switch.initial past = some switch → step switch event = some after →
        Suits past switch event := by
  refine history_along_iff step StatusesMatch Suits Switch.initial ?_ ?_ events
  · rw [statusesMatch_iff]
    have nobody : attended (Attends [] Switch.initial) = ∅ := by
      refine Set.eq_empty_iff_forall_notMem.mpr ?_
      rintro node ⟨s, _, authenticated⟩
      exact authenticated_nil s node authenticated
    exact (told_nil _ _).trans nobody.symm
  · intro past switch event after reached right taken
    rw [statusesMatch_iff] at right ⊢
    exact matching_step past switch after event reached right taken

/-- An impostor that only claims the name of a connected node, and leaves: the node is
reported offline. -/
theorem impostorRun_offline : run step Switch.initial impostorRun = some impostorSwitch ∧
    lastStatus impostorSwitch { networkUuid := sampleUuid 0x4e, uuid := sampleUuid 0x61 } =
      some .offline ∧
    Attends impostorRun impostorSwitch 1
      { networkUuid := sampleUuid 0x4e, uuid := sampleUuid 0x61 } ∧
    ¬ StatusesMatch impostorRun impostorSwitch := by
  have offline : lastStatus impostorSwitch
      { networkUuid := sampleUuid 0x4e, uuid := sampleUuid 0x61 } = some .offline := by decide
  have attends : Attends impostorRun impostorSwitch 1
      { networkUuid := sampleUuid 0x4e, uuid := sampleUuid 0x61 } := by
    refine ⟨Option.isSome_iff_exists.mp (by decide), sampleNetwork [0x61] ++ sampleAsk 1 0x61,
      .secure 1 (sampleCert 0x61), ⟨sampleAsk 2 0x61 ++ [.disconnect 2], rfl⟩, _,
      (Option.some_get (by decide)).symm, _, (Option.some_get (by decide)).symm, ?_, ?_⟩
    · decide
    · decide
  refine ⟨(Option.some_get _).symm, offline, attends, fun matching => ?_⟩
  have online := ((matching _ _).1 .offline offline).mpr ⟨1, attends⟩
  cases online

end NetVirt.Nvswitch
