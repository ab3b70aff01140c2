import NetVirt.SwitchInvariant

/-!
# The effects of a step

Up to quiet steps, each event has one of ten effects. The invariants are proved for these,
and not again for the branches of each handler.
-/

namespace NetVirt.Nvswitch

open Bitv Cert LinkStates LinkedLists Tables

/-- The session that an event ends: on_disconnect is called for it. -/
def ends (switch : Switch) : Event → Option SessionId
  | .disconnect s => some s
  | .input s _ message =>
    if (switch.sessions s).any (fun session => session.state = .purge) ∨ message = .other then
      some s
    else none
  | _ => none

/-- A session as on_secure leaves it when its node is listed. -/
def Session.admitted (session : Session) (vnet : VNetwork) (info : NodeInfo) : Session :=
  { session with nodeInfo := some (withNetworkUuid info vnet), state := .authed }

/-- The switch after a session passed the check of its network. -/
def Switch.admitted (switch : Switch) (v : VnetId) (s : SessionId) (session : Session)
    (vnet : VNetwork) : Switch :=
  ((switch.setSession s session).joined v s session vnet).netSendMsg s (.authResponse .success)

/-- The switch after a session left its network and was freed. -/
def Switch.left (switch : Switch) (v : VnetId) (s : SessionId) (session : Session)
    (vnet : VNetwork) : Switch :=
  (switch.parted v s session { vnet with
    ftable := session.macList.foldl Table.erase vnet.ftable }).sessionFree s

inductive Effect (switch : Switch) (event : Event) (after : Switch) : Prop where
  | quiet (rest : Quiet switch after)
  | connected (s : SessionId) (peerHost : List UInt8) (fresh : s ∉ switch.opened)
    (rest : after = onConnect switch s peerHost)
  | accepted (s : SessionId) (session : Session) (v : VnetId) (vnet : VNetwork)
    (env : Env) (certName : List UInt8) (asked : event = .input s env (.authRequest certName))
    (found : switch.sessions s = some session) (state : session.state = .notAuthed)
    (home : switch.vnets v = some vnet)
    (rest : Quiet (switch.setSession s { session with
      state := .waitStepup
      vnetwork := some v }) after)
  | admitted (s : SessionId) (session : Session) (v : VnetId) (vnet : VNetwork) (cert : X509)
    (info : NodeInfo) (asked : event = .secure s cert)
    (read : certNodeInfo cert = some (some info)) (found : switch.sessions s = some session)
    (state : session.state = .waitStepup) (member : session.vnetwork = some v)
    (home : switch.vnets v = some vnet) (listed : vnet.atable.find info.uuid = some ())
    (rest : Quiet (switch.admitted v s (session.admitted vnet info) vnet) after)
  | learned (s : SessionId) (session : Session) (v : VnetId) (vnet : VNetwork)
    (mac : List UInt8) (found : switch.sessions s = some session)
    (state : session.state = .authed) (member : session.vnetwork = some v)
    (home : switch.vnets v = some vnet) (unbound : vnet.ftable.find mac = none)
    (rest : Quiet ((switch.setVnet v { vnet with
        ftable := vnet.ftable.insert mac s }).setSession s { session with
      macAddr := mac
      macList := mac :: session.macList }) after)
  | left (s : SessionId) (session : Session) (v : VnetId) (vnet : VNetwork)
    (ended : ends switch event = some s) (found : switch.sessions s = some session)
    (state : session.state ≠ .notAuthed) (member : session.vnetwork = some v)
    (home : switch.vnets v = some vnet) (rest : Quiet (switch.left v s session vnet) after)
  | freed (s : SessionId) (session : Session) (ended : ends switch event = some s)
    (found : switch.sessions s = some session)
    (state : session.state = .notAuthed ∨ session.vnetwork = none)
    (rest : Quiet (switch.sessionFree s) after)
  | granted (uuid networkUuid key : List UInt8) (v : VnetId) (vnet : VNetwork)
    (asked : event = .listNode uuid networkUuid)
    (known : switch.vnetworks.find networkUuid = some v) (home : switch.vnets v = some vnet)
    (read : ctableKey (uuidStrLen + 1) uuid = some key)
    (rest : after = switch.setVnet v { vnet with atable := vnet.atable.insert key () })
  | revoked (v : VnetId) (vnet : VNetwork) (key : List UInt8)
    (node : Option NodeDocument) (asked : event = .delNode node)
    (home : switch.vnets v = some vnet)
    (rest : after = switch.setVnet v { vnet with atable := vnet.atable.erase key } ∨
      ∃ s session, switch.sessions s = some session ∧
        after = (switch.setVnet v { vnet with atable := vnet.atable.erase key }).setSession s
          { session with state := .purge })
  | created (id uuid : List UInt8) (rest : after = vnetworkCreate switch id uuid)
  | deleted (uuid : List UInt8) (v : VnetId) (vnet : VNetwork) (members : List SessionId)
    (asked : event = .delNetwork (some uuid))
    (known : switch.vnetworks.find uuid = some v) (home : switch.vnets v = some vnet)
    (walked : switch.sessionList vnet.sessionList = some members)
    (rest : after = { switch with
        sessions := detached members switch.sessions
        vnets := Function.update switch.vnets v none
        vnetworks := switch.vnetworks.erase uuid
        vnetworksId := switch.vnetworksId.erase vnet.id })

/-! ## Handlers -/

theorem links_setSession (switch : Switch) (s : SessionId) (session changed : Session)
    (v : VnetId) (found : switch.sessions s = some session)
    (next : changed.next = session.next) (prev : changed.prev = session.prev) :
    (switch.setSession s changed).links v = switch.links v := by
  have forward : ∀ t, ((switch.setSession s changed).sessions t).bind Session.next =
      (switch.sessions t).bind Session.next := by
    intro t
    by_cases own : t = s
    · simp [own, found, next]
    · simp [own]
  have backward : ∀ t, ((switch.setSession s changed).sessions t).bind Session.prev =
      (switch.sessions t).bind Session.prev := by
    intro t
    by_cases own : t = s
    · simp [own, found, prev]
    · simp [own]
  simp only [Switch.links, forward, backward, Switch.setSession_vnets]

theorem links_setVnet (switch : Switch) (v w : VnetId) (vnet changed : VNetwork)
    (home : switch.vnets v = some vnet) (same : changed.sessionList = vnet.sessionList) :
    (switch.setVnet v changed).links w = switch.links w := by
  have head : ((switch.setVnet v changed).vnets w).bind VNetwork.sessionList =
      (switch.vnets w).bind VNetwork.sessionList := by
    by_cases own : w = v
    · simp [own, home, same]
    · simp [own]
  simp only [Switch.links, head, Switch.setVnet_sessions]

/-- Sending to sessions that are known to the switch is quiet. -/
theorem quiet_sendEach (switch : Switch) (recipients : List SessionId) (message : Outgoing)
    (opened : ∀ s ∈ recipients, s ∈ switch.opened) (other : message ≠ .authResponse .success) :
    Quiet switch (sendEach switch recipients message) := by
  induction recipients generalizing switch with
  | nil => exact Quiet.refl switch
  | cons s rest inductionHypothesis =>
    have first := quiet_send switch s message (opened s List.mem_cons_self) other
    exact first.trans (inductionHypothesis (switch.netSendMsg s message)
      fun t inside => opened t (List.mem_cons_of_mem s inside))

theorem quiet_introduce (switch after : Switch) (source target : SessionId) (now rand : Nat)
    (opened : source ∈ switch.opened ∧ target ∈ switch.opened)
    (taken : introduce switch source target now rand = some after) : Quiet switch after := by
  obtain ⟨_, _, v, vnet, _, _, _, home, rfl | asked⟩ := introduce_cases _ _ _ _ _ _ taken
  · exact Quiet.refl _
  · obtain ⟨toSource, toTarget, linkst, _, _, _, _, _, _, _, _, first, second, rfl⟩ := asked
    refine Quiet.trans (quiet_send switch source toSource opened.1 (by simp [first])) ?_
    refine Quiet.trans (quiet_send _ target toTarget opened.2 (by simp [second])) ?_
    exact quiet_setVnet _ v vnet _ home rfl

/-- A walk over a session list visits sessions that are connected. -/
theorem sessionList_connected (switch : Switch) (first : Option SessionId)
    (members : List SessionId) (walked : switch.sessionList first = some members) :
    ∀ s ∈ members, ∃ session, switch.sessions s = some session := by
  intro s inside
  have present := walk_present _ _ _ _ walked s inside
  rw [Option.isSome_map] at present
  exact Option.isSome_iff_exists.mp present

/-- An authRequest is quiet, or moves its session into a network. -/
theorem authRequest_effect (switch after : Switch) (inv : Inv switch) (s : SessionId)
    (env : Env) (certName : List UInt8) (code : Int)
    (taken : authRequest switch s certName = some (after, code)) :
    Effect switch (.input s env (.authRequest certName)) after := by
  obtain ⟨session, found, cases⟩ := authRequest_cases switch after s certName code taken
  have held := inv.sessions s session found
  rcases cases with ⟨_, rfl⟩ | ⟨state, rfl⟩ | ⟨info, fresh, _, _, rfl⟩ |
    ⟨info, v, vnet, fresh, _, _, home, rfl⟩
  · exact .quiet (Quiet.refl _)
  · refine .quiet (quiet_setSession switch s session _ found ?_)
    simp [Session.core, Session.verified, state]
  · have core : ({ session with nodeInfo := some info, vnetwork := none } : Session).core =
        session.core := by
      simp [Session.core, Session.verified, fresh, (held.unknown fresh).1]
    refine .quiet (Quiet.trans ?_ (quiet_send _ s _ held.opened ?_))
    · exact quiet_setSession switch s session _ found core
    · simp
  · have secured : session.netc.securityLevel ≠ .unsecure := by simp [held.listener]
    refine .accepted s session v vnet env certName rfl found fresh home ?_
    simp only [if_neg secured]
    refine Quiet.setSession (Quiet.trans ?_ (quiet_send _ s _ ?_ ?_)) s _ _ ?_
    · exact quiet_setVnet switch v vnet _ home rfl
    · exact held.opened
    · simp
    · rfl

/-- Adding a session that waits for its step-up, so that it is not linked. -/
theorem admitted_joined (switch joined : Switch) (inv : Inv switch) (s : SessionId)
    (session : Session) (v : VnetId) (vnet : VNetwork) (info : NodeInfo)
    (found : switch.sessions s = some session) (waiting : session.state = .waitStepup)
    (home : switch.vnets v = some vnet)
    (added : vnetworkAddSession (switch.setSession s (session.admitted vnet info)) v s =
      some joined) :
    joined = (switch.setSession s (session.admitted vnet info)).joined v s
      (session.admitted vnet info) vnet := by
  have held := inv.sessions s session found
  have unlinked := held.unlinked (held.waiting waiting).2
  have pointers : (switch.setSession s (session.admitted vnet info)).links v =
      switch.links v := links_setSession switch s session _ v found rfl rfl
  have alone : ((switch.setSession s (session.admitted vnet info)).links v).prev s = none := by
    rw [pointers]
    simp [Switch.links, found, unlinked.2.1]
  exact vnetworkAddSession_cases (switch.setSession s (session.admitted vnet info)) joined v s _
    vnet (by rw [Switch.setSession_sessions, Function.update_self]) home alone added

/-- A certificate is quiet, or admits its session to its network. -/
theorem onSecure_effect (switch after : Switch) (inv : Inv switch) (s : SessionId)
    (cert : X509) (taken : onSecure switch s cert = some after) :
    Effect switch (.secure s cert) after := by
  obtain ⟨session, found, cases⟩ := onSecure_cases switch after s cert taken
  have held := inv.sessions s session found
  rcases cases with ⟨_, rfl⟩ | ⟨state, _, rfl⟩ | ⟨info, v, vnet, state, _, _, _, _, rfl⟩ |
    ⟨info, v, vnet, joined, waiting, read, member, home, listed, added, rfl⟩
  · exact .quiet (Quiet.refl _)
  · refine .quiet (quiet_setSession switch s session _ found ?_)
    simp [Session.core, Session.verified, state]
  · refine .quiet (Quiet.trans ?_ (quiet_send _ s _ held.opened ?_))
    · refine quiet_setSession switch s session _ found ?_
      simp [Session.core, Session.verified, state]
    · simp
  · refine .admitted s session v vnet cert info rfl read found waiting member home listed ?_
    obtain rfl := admitted_joined switch joined inv s session v vnet info found waiting home added
    obtain ⟨statuses, reported⟩ := updateNodeStatus_eq
      ((switch.setSession s (session.admitted vnet info)).joined v s
        (session.admitted vnet info) vnet) .online session.ip
      (withNetworkUuid info vnet).uuid (withNetworkUuid info vnet).networkUuid
    rw [reported]
    exact { Quiet.refl _ with }

/-- Learning an address disconnects nobody. -/
theorem learned_opened (switch learned : Switch) (inv : Inv switch) (s source : SessionId)
    (macaddrSrc : List UInt8) (taken : learn switch s macaddrSrc = some (learned, source))
    (t : SessionId) (other : Session) (there : learned.sessions t = some other) :
    t ∈ learned.opened := by
  obtain ⟨session, v, vnet, found, _, _, ⟨_, rfl⟩ | ⟨_, _, rfl⟩⟩ := learn_cases _ _ _ _ _ taken
  · exact (inv.sessions t other there).opened
  · by_cases own : t = s
    · subst own
      exact (inv.sessions t session found).opened
    · rw [Switch.setSession_sessions, Function.update_of_ne own] at there
      exact (inv.sessions t other there).opened

/-- A frame is quiet, or binds its source address to its session. -/
theorem forwardEthernet_effect (switch after : Switch) (inv : Inv switch) (s : SessionId)
    (env : Env) (frame : List UInt8)
    (taken : forwardEthernet switch s frame env.now env.rand = some after) :
    Effect switch (.input s env (.ethernet frame)) after := by
  obtain ⟨session, found, ⟨_, rfl⟩ | sent⟩ := forwardEthernet_cases _ _ _ _ _ _ taken
  · exact .quiet (Quiet.refl _)
  · obtain ⟨v, vnet, learned, source, authed, _, member, learning, home, cases⟩ := sent
    -- After the source is learned, everything is quiet.
    have opened : ∀ t other, learned.sessions t = some other → t ∈ learned.opened :=
      learned_opened switch learned inv s source _ learning
    have quiet : Quiet learned after := by
      rcases cases with ⟨_, rfl⟩ | ⟨target, _, _, _, introduced⟩ |
        ⟨recipients, _, _, walked, rfl⟩
      · exact Quiet.refl _
      · obtain ⟨sessionSrc, sessionDst, _, _, here, there, _⟩ :=
          introduce_cases _ _ _ _ _ _ introduced
        refine Quiet.trans (quiet_send learned target (.ethernet frame)
          (opened target sessionDst there) (by simp)) ?_
        exact quiet_introduce _ _ _ _ _ _
          ⟨opened source sessionSrc here, opened target sessionDst there⟩ introduced
      · refine quiet_sendEach learned recipients _ (fun t inside => ?_) (by simp)
        obtain ⟨other, there⟩ := sessionList_connected learned _ _ walked t inside
        exact opened t other there
    obtain ⟨own, w, here, present, within, there, ⟨_, rfl⟩ | ⟨unbound, _, rfl⟩⟩ :=
      learn_cases _ _ _ _ _ learning
    · exact .quiet quiet
    · exact .learned s own w here _ present (by
        rw [← Option.some.inj (present.symm.trans found)] at authed
        exact authed) within there unbound quiet

/-- What on_disconnect does besides to a network is quiet. -/
theorem left_quiet (switch : Switch) (s : SessionId) (session : Session) (v : VnetId)
    (vnet stripped : VNetwork) (found : switch.sessions s = some session)
    (home : switch.vnets v = some vnet)
    (same : stripped.core = ({ vnet with
      ftable := session.macList.foldl Table.erase vnet.ftable } : VNetwork).core) :
    Quiet (switch.left v s session vnet)
      ((switch.departed v s session stripped).sessionFree s) := by
  have id := congrArg VNetworkCore.id same
  have uuid := congrArg VNetworkCore.uuid same
  have ftable := congrArg VNetworkCore.ftable same
  have atable := congrArg VNetworkCore.atable same
  have head := congrArg VNetworkCore.sessionList same
  have count := congrArg VNetworkCore.activeNode same
  simp only [VNetwork.core] at id uuid ftable atable head count
  generalize emptied : ({ session with macList := [] } : Session) = bare
  have pointers : ((switch.setVnet v stripped).setSession s bare).links v = switch.links v := by
    rw [links_setSession (switch.setVnet v stripped) s session bare v found
        (by rw [← emptied]) (by rw [← emptied]),
      links_setVnet switch v v vnet stripped home head]
  unfold Switch.left Switch.departed Switch.parted
  rw [emptied, pointers]
  refine { sessions := fun t => ?_, vnets := fun w => ?_, opened := rfl, vnetCount := rfl,
           vnetworks := rfl, vnetworksId := rfl, sent := fun _ _ inside => Or.inl inside,
           kept := fun _ inside => inside }
  · by_cases own : t = s
    · simp [own]
    · simp [own, Switch.relinked, Switch.pointed]
  · by_cases own : w = v
    · simp [own, Switch.relinked, Switch.pointed, VNetwork.core, id, uuid, ftable, atable, count]
    · simp [own, Switch.relinked, Switch.pointed]

/-- A session past its authRequest that has a network leaves it. -/
theorem onDisconnect_left (switch gone : Switch) (s : SessionId) (session : Session)
    (v : VnetId) (found : switch.sessions s = some session)
    (past : session.state ≠ .notAuthed) (member : session.vnetwork = some v)
    (taken : onDisconnect switch s = some gone) :
    ∃ vnet, switch.vnets v = some vnet ∧ Quiet (switch.left v s session vnet) gone := by
  obtain ⟨own, present, ⟨fresh, _⟩ | ⟨left, info, _, leaving, _, rfl⟩⟩ :=
    onDisconnect_cases _ _ _ taken
  · obtain rfl := Option.some.inj (found.symm.trans present)
    exact absurd fresh past
  · obtain rfl := Option.some.inj (found.symm.trans present)
    obtain ⟨own, again, ⟨alone, _⟩ | ⟨w, vnet, node, within, home, _, rfl⟩⟩ :=
      leaveVnetwork_cases _ _ _ leaving
    · obtain rfl := Option.some.inj (found.symm.trans again)
      rw [member] at alone
      cases alone
    · obtain rfl := Option.some.inj (found.symm.trans again)
      obtain rfl := Option.some.inj (member.symm.trans within)
      refine ⟨vnet, home, ?_⟩
      refine Quiet.trans (left_quiet switch s session v vnet _ found home ?_)
        ((quiet_status _ _ _ _ _).sessionFree s)
      rfl

/-- Before its authRequest, and without a network, a session is only freed. -/
theorem onDisconnect_freed (switch gone : Switch) (s : SessionId) (session : Session)
    (found : switch.sessions s = some session)
    (alone : session.state = .notAuthed ∨ session.vnetwork = none)
    (taken : onDisconnect switch s = some gone) : Quiet (switch.sessionFree s) gone := by
  obtain ⟨own, present, ⟨_, rfl⟩ | ⟨left, info, past, leaving, _, rfl⟩⟩ :=
    onDisconnect_cases _ _ _ taken
  · exact Quiet.refl _
  · obtain rfl := Option.some.inj (found.symm.trans present)
    obtain ⟨own, again, ⟨_, rfl⟩ | ⟨w, _, _, within, _⟩⟩ := leaveVnetwork_cases _ _ _ leaving
    · exact (quiet_status _ _ _ _ _).sessionFree s
    · obtain rfl := Option.some.inj (found.symm.trans again)
      rw [within] at alone
      exact absurd (alone.resolve_right (by simp)) past

/-- A session that is disconnected leaves its network or is only freed. -/
theorem onDisconnect_effect (switch gone after : Switch) (event : Event) (s : SessionId)
    (ended : ends switch event = some s) (taken : onDisconnect switch s = some gone)
    (rest : Quiet gone after) : Effect switch event after := by
  obtain ⟨session, found, _⟩ := onDisconnect_cases _ _ _ taken
  by_cases fresh : session.state = .notAuthed
  · have freed := onDisconnect_freed switch gone s session found (Or.inl fresh) taken
    exact .freed s session ended found (Or.inl fresh) (freed.trans rest)
  · cases member : session.vnetwork with
    | none =>
      have freed := onDisconnect_freed switch gone s session found (Or.inr member) taken
      exact .freed s session ended found (Or.inr member) (freed.trans rest)
    | some v =>
      obtain ⟨vnet, home, left⟩ :=
        onDisconnect_left switch gone s session v found fresh member taken
      exact .left s session v vnet ended found fresh member home (left.trans rest)

/-- The event that ends a session calls on_disconnect for it. -/
theorem ends_disconnect (switch after : Switch) (event : Event) (s : SessionId)
    (ended : ends switch event = some s) (taken : step switch event = some after) :
    ∃ gone, onDisconnect switch s = some gone ∧ Quiet gone after := by
  cases event with
  | input t env message =>
    obtain ⟨session, found, ⟨purged, gone⟩ | ⟨active, dispatched⟩⟩ := input_cases _ _ _ _ _ taken
    · have same : t = s := by simpa [ends, found, purged] using ended
      exact ⟨after, same ▸ gone, Quiet.refl after⟩
    · have both : message = .other ∧ t = s := by simpa [ends, found, active] using ended
      obtain ⟨rfl, rfl⟩ := both
      obtain ⟨gone, disconnected, released⟩ := Option.bind_eq_some_iff.mp dispatched
      obtain rfl := Option.some.inj released
      exact ⟨gone, disconnected, { Quiet.refl gone with }⟩
  | disconnect t =>
    obtain rfl := Option.some.inj ended
    exact ⟨after, taken, Quiet.refl after⟩
  | _ => cases ended

/-- Every step has one of the effects. -/
theorem step_effect (switch after : Switch) (inv : Inv switch) (event : Event)
    (taken : step switch event = some after) : Effect switch event after := by
  cases event with
  | connect s peerHost =>
    simp only [step, Option.ite_none_left_eq_some] at taken
    exact .connected s peerHost taken.1 (Option.some.inj taken.2).symm
  | input s env message =>
    obtain ⟨session, found, ⟨purged, ended⟩ | ⟨_, dispatched⟩⟩ := input_cases _ _ _ _ _ taken
    · exact onDisconnect_effect switch after after _ s (by simp [ends, found, purged]) ended
        (Quiet.refl after)
    · cases message with
      | provRequest provCode =>
        obtain ⟨_, _, rfl⟩ := Option.map_eq_some_iff.mp dispatched
        exact .quiet { Quiet.refl switch with }
      | authRequest certName =>
        obtain ⟨⟨_, code⟩, answered, rfl⟩ := Option.map_eq_some_iff.mp dispatched
        exact authRequest_effect switch _ inv s env certName code answered
      | netinfoRequest ipLocal macAddr =>
        obtain ⟨own, present, stored⟩ := Option.bind_eq_some_iff.mp dispatched
        obtain rfl := Option.some.inj stored
        refine .quiet (Quiet.trans ?_ (quiet_send _ s _ ?_ ?_))
        · exact quiet_setSession switch s own _ present rfl
        · exact (inv.sessions s own present).opened
        · simp
      | other =>
        obtain ⟨gone, ended, released⟩ := Option.bind_eq_some_iff.mp dispatched
        obtain rfl := Option.some.inj released
        exact onDisconnect_effect switch gone _ _ s (by simp [ends]) ended
          { Quiet.refl gone with }
      | ethernet frame => exact forwardEthernet_effect switch after inv s env frame dispatched
      | invalid =>
        obtain ⟨_, _, rfl⟩ := Option.map_eq_some_iff.mp dispatched
        exact .quiet (Quiet.refl switch)
  | secure s cert => exact onSecure_effect switch after inv s cert taken
  | disconnect s =>
    exact onDisconnect_effect switch after after _ s rfl taken (Quiet.refl after)
  | createNetwork id uuid => exact .created id uuid (Option.some.inj taken).symm
  | listNode uuid networkUuid =>
    rcases listNode_cases _ _ _ _ taken with ⟨_, rfl⟩ | ⟨v, vnet, key, known, home, read, rfl⟩
    · exact .quiet (Quiet.refl _)
    · exact .granted uuid networkUuid key v vnet rfl known home read rfl
  | delNode node =>
    obtain ⟨⟨_, code⟩, deleted, rfl⟩ := Option.map_eq_some_iff.mp taken
    rcases delNode_cases _ _ _ _ deleted with ⟨_, rfl⟩ | ⟨uuid, networkUuid, v, vnet, key, _, _,
      _, home, _, marked⟩
    · exact .quiet (Quiet.refl _)
    · refine .revoked v vnet key node rfl home ?_
      rcases marked with ⟨_, rfl⟩ | ⟨s, session, _, found, rfl⟩
      · exact Or.inl rfl
      · exact Or.inr ⟨s, session, found, rfl⟩
  | delNetwork networkUuid =>
    obtain ⟨⟨_, code⟩, deleted, rfl⟩ := Option.map_eq_some_iff.mp taken
    rcases delNetwork_cases _ _ _ _ deleted with ⟨_, rfl⟩ | ⟨uuid, v, vnet, members, _, rfl,
      known, home, walked, rfl⟩
    · exact .quiet (Quiet.refl _)
    · exact .deleted uuid v vnet members rfl known home walked rfl

end NetVirt.Nvswitch
