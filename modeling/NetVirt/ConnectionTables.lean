import NetVirt.SwitchSessions
import NetVirt.Isolation

/-!
# The sessions in the tables of a network

The forwarding table and the session list only hold sessions that are connected to their
network. The connection table is entered under the uuid that a session claims, and cleared
under the one it has when it ends, which is that of its certificate: it keeps the released
session exactly when the two differ.
-/

namespace NetVirt.Nvswitch

open Bitv Cert LinkStates LinkedLists Tables Runs

/-- The connection table of each network. -/
def Switch.ctables (switch : Switch) (v : VnetId) : Option (Table (List UInt8) SessionId) :=
  (switch.vnets v).map VNetwork.ctable

theorem ctables_setVnet (switch : Switch) (v : VnetId) (vnet : VNetwork) :
    (switch.setVnet v vnet).ctables = Function.update switch.ctables v (some vnet.ctable) := by
  funext w
  by_cases own : w = v
  · simp [Switch.ctables, own]
  · simp [Switch.ctables, own]

theorem ctables_same (switch : Switch) (v : VnetId) (vnet changed : VNetwork)
    (home : switch.vnets v = some vnet) (same : changed.ctable = vnet.ctable) :
    (switch.setVnet v changed).ctables = switch.ctables := by
  rw [ctables_setVnet, same, Function.update_eq_self_iff]
  simp [Switch.ctables, home]

theorem ctables_setSession (switch : Switch) (s : SessionId) (session : Session) :
    (switch.setSession s session).ctables = switch.ctables := rfl

theorem ctables_send (switch : Switch) (s : SessionId) (message : Outgoing) :
    (switch.netSendMsg s message).ctables = switch.ctables := rfl

theorem ctables_of_vnets {switch after : Switch} (same : after.vnets = switch.vnets) :
    after.ctables = switch.ctables := by
  unfold Switch.ctables
  rw [same]

theorem ctables_status (switch : Switch) (status : Presence)
    (localIpaddr uuid networkUuid : List UInt8) :
    (updateNodeStatus switch status localIpaddr uuid networkUuid).ctables = switch.ctables := by
  obtain ⟨statuses, same⟩ := updateNodeStatus_eq switch status localIpaddr uuid networkUuid
  rw [same]
  rfl

theorem ctables_relinked (switch : Switch) (v : VnetId) (vnet : VNetwork)
    (links : Links SessionId) : (switch.relinked v vnet links).ctables =
      Function.update switch.ctables v (some vnet.ctable) :=
  (ctables_of_vnets rfl).trans (ctables_setVnet switch v { vnet with sessionList := links.head })

/-- The session is connected, and to the network. -/
def Belongs (switch : Switch) (v : VnetId) (s : SessionId) : Prop :=
  ∃ session, switch.sessions s = some session ∧ session.vnetwork = some v

/-- What an event does to the connection tables. -/
inductive CtableStep (switch : Switch) (event : Event) (after : Switch) : Prop where
  | kept (lasts : ∀ v s, Belongs switch v s → ends switch event ≠ some s)
    (rest : after.ctables = switch.ctables)
  | inserted (nobody : ends switch event = none) (s : SessionId) (later : Session) (v : VnetId)
    (key : List UInt8) (table : Table (List UInt8) SessionId)
    (before : switch.ctables v = some table)
    (there : after.sessions s = some later) (member : later.vnetwork = some v)
    (rest : after.ctables = Function.update switch.ctables v (some (table.insert key s)))
  | erased (s : SessionId) (session : Session) (v : VnetId) (info : NodeInfo)
    (table : Table (List UInt8) SessionId) (ended : ends switch event = some s)
    (found : switch.sessions s = some session) (member : session.vnetwork = some v)
    (named : session.nodeInfo = some info) (before : switch.ctables v = some table)
    (rest : after.ctables = Function.update switch.ctables v (some (table.erase info.uuid)))
  | created (nobody : ends switch event = none) (v : VnetId)
    (rest : after.ctables = Function.update switch.ctables v (some .empty))

/-- An event that ends no session and leaves the connection tables. -/
theorem ctables_kept {switch : Switch} {event : Event} {after : Switch}
    (nobody : ends switch event = none) (rest : after.ctables = switch.ctables) :
    CtableStep switch event after :=
  .kept (fun v s _ ended => by simp [nobody] at ended) rest

theorem authRequest_ctables (switch after : Switch) (event : Event) (s : SessionId)
    (certName : List UInt8) (code : Int) (nobody : ends switch event = none)
    (taken : authRequest switch s certName = some (after, code)) :
    CtableStep switch event after := by
  obtain ⟨session, found, ⟨_, rfl⟩ | ⟨_, rfl⟩ | ⟨_, _, _, _, rfl⟩ |
    ⟨info, v, vnet, _, _, _, home, rfl⟩⟩ := authRequest_cases _ _ _ _ _ taken
  · exact ctables_kept nobody rfl
  · exact ctables_kept nobody rfl
  · exact ctables_kept nobody rfl
  · refine .inserted nobody s _ v (withNetworkUuid info vnet).uuid vnet.ctable
      (by simp [Switch.ctables, home])
      (by rw [Switch.setSession_sessions, Function.update_self]) rfl ?_
    exact (ctables_of_vnets rfl).trans (ctables_setVnet switch v _)

theorem onDisconnect_ctables (switch gone after : Switch) (inv : Inv switch) (event : Event)
    (s : SessionId) (ended : ends switch event = some s)
    (taken : onDisconnect switch s = some gone) (same : after.ctables = gone.ctables) :
    CtableStep switch event after := by
  obtain ⟨session, found, cases⟩ := onDisconnect_cases _ _ _ taken
  have alone : session.vnetwork = none → after.ctables = switch.ctables →
      CtableStep switch event after := by
    intro alone rest
    refine .kept (fun v t => ?_) rest
    rintro ⟨own, present, member⟩ ending
    obtain rfl := Option.some.inj (ended.symm.trans ending)
    obtain rfl := Option.some.inj (found.symm.trans present)
    rw [alone] at member
    cases member
  rcases cases with ⟨fresh, rfl⟩ | ⟨left, info, _, leaving, _, rfl⟩
  · exact alone ((inv.sessions s session found).unknown fresh).1 same
  · have reported := ctables_status left .offline session.ip info.uuid info.networkUuid
    have freed : after.ctables = left.ctables := same.trans reported
    obtain ⟨own, present, ⟨nowhere, rfl⟩ | ⟨v, vnet, node, member, home, named, rfl⟩⟩ :=
      leaveVnetwork_cases _ _ _ leaving
    · obtain rfl := Option.some.inj (found.symm.trans present)
      exact alone nowhere freed
    · refine .erased s own v node vnet.ctable ended present member named
        (by simp [Switch.ctables, home]) (freed.trans ?_)
      rw [Switch.departed, Switch.parted, ctables_relinked, ctables_setSession, ctables_setVnet,
        Function.update_idem]

theorem onSecure_ctables (switch after : Switch) (inv : Inv switch) (s : SessionId)
    (cert : X509) (taken : onSecure switch s cert = some after) :
    after.ctables = switch.ctables := by
  obtain ⟨session, found, ⟨_, rfl⟩ | ⟨_, _, rfl⟩ | ⟨_, _, _, _, _, _, _, _, rfl⟩ |
    ⟨info, v, vnet, joined, waiting, _, member, home, _, added, rfl⟩⟩ :=
    onSecure_cases _ _ _ _ taken
  · rfl
  · rfl
  · rfl
  · obtain rfl := admitted_joined switch joined inv s session v vnet info found waiting home added
    rw [ctables_send, ctables_status, Switch.joined, ctables_setSession, ctables_relinked,
      ctables_setSession, Function.update_eq_self_iff]
    simp [Switch.ctables, home]

theorem forwardEthernet_ctables (switch after : Switch) (s : SessionId) (frame : List UInt8)
    (now rand : Nat) (taken : forwardEthernet switch s frame now rand = some after) :
    after.ctables = switch.ctables := by
  obtain ⟨session, found, ⟨_, rfl⟩ | sent⟩ := forwardEthernet_cases _ _ _ _ _ _ taken
  · rfl
  · obtain ⟨v, vnet, learned, source, _, _, _, learning, _, cases⟩ := sent
    have taught : learned.ctables = switch.ctables := by
      obtain ⟨own, w, home, _, _, present, ⟨_, rfl⟩ | ⟨_, _, rfl⟩⟩ := learn_cases _ _ _ _ _ learning
      · rfl
      · rw [ctables_setSession]
        exact ctables_same switch w home _ present rfl
    rcases cases with ⟨_, rfl⟩ | ⟨target, _, _, _, introduced⟩ | ⟨recipients, _, _, _, rfl⟩
    · exact taught
    · obtain ⟨_, _, w, home, _, _, _, present, rfl | asked⟩ :=
        introduce_cases _ _ _ _ _ _ introduced
      · exact taught
      · obtain ⟨_, _, linkst, _, _, _, _, _, _, _, _, _, _, rfl⟩ := asked
        have linked := ctables_same learned w home { home with linkst := linkst } present rfl
        rw [ctables_setVnet, ctables_send, ctables_send, ctables_send, ← ctables_setVnet, linked]
        exact taught
    · rw [ctables_of_vnets (sendEach_vnets learned recipients _)]
      exact taught

/-- Each event does one of these things to the connection tables. -/
theorem ctable_step (switch after : Switch) (inv : Inv switch) (event : Event)
    (allowed : ∀ uuid, event ≠ .delNetwork uuid) (taken : step switch event = some after) :
    CtableStep switch event after := by
  cases event with
  | connect s peerHost =>
    simp only [step, Option.ite_none_left_eq_some] at taken
    obtain rfl := Option.some.inj taken.2
    exact ctables_kept rfl rfl
  | input s env message =>
    obtain ⟨session, found, ⟨purged, ended⟩ | ⟨awake, dispatched⟩⟩ := input_cases _ _ _ _ _ taken
    · exact onDisconnect_ctables switch after after inv _ s (by simp [ends, found, purged]) ended
        rfl
    · cases message with
      | provRequest provCode =>
        obtain ⟨_, _, rfl⟩ := Option.map_eq_some_iff.mp dispatched
        exact ctables_kept (by simp [ends, found, awake]) rfl
      | authRequest certName =>
        obtain ⟨⟨_, code⟩, answered, rfl⟩ := Option.map_eq_some_iff.mp dispatched
        exact authRequest_ctables switch _ _ s certName code (by simp [ends, found, awake]) answered
      | netinfoRequest ipLocal macAddr =>
        obtain ⟨own, present, stored⟩ := Option.bind_eq_some_iff.mp dispatched
        obtain rfl := Option.some.inj stored
        exact ctables_kept (by simp [ends, found, awake]) rfl
      | other =>
        obtain ⟨gone, ended, released⟩ := Option.bind_eq_some_iff.mp dispatched
        obtain rfl := Option.some.inj released
        exact onDisconnect_ctables switch gone _ inv _ s (by simp [ends]) ended rfl
      | ethernet frame =>
        exact ctables_kept (by simp [ends, found, awake])
          (forwardEthernet_ctables switch after s frame env.now env.rand dispatched)
      | invalid =>
        obtain ⟨_, _, rfl⟩ := Option.map_eq_some_iff.mp dispatched
        exact ctables_kept (by simp [ends, found, awake]) rfl
  | secure s cert => exact ctables_kept rfl (onSecure_ctables switch after inv s cert taken)
  | disconnect s => exact onDisconnect_ctables switch after after inv _ s rfl taken rfl
  | createNetwork id uuid =>
    obtain rfl := Option.some.inj taken
    exact .created rfl switch.vnetCount
      (ctables_setVnet switch switch.vnetCount (vnetworkNew id uuid))
  | listNode uuid networkUuid =>
    rcases listNode_cases _ _ _ _ taken with ⟨_, rfl⟩ | ⟨v, vnet, key, _, home, _, rfl⟩
    · exact ctables_kept rfl rfl
    · exact ctables_kept rfl (ctables_same switch v vnet _ home rfl)
  | delNode node =>
    obtain ⟨⟨_, code⟩, deleted, rfl⟩ := Option.map_eq_some_iff.mp taken
    rcases delNode_cases _ _ _ _ deleted with ⟨_, rfl⟩ | ⟨uuid, networkUuid, v, vnet, key, _, _,
      _, home, _, ⟨_, rfl⟩ | ⟨s, session, _, _, rfl⟩⟩
    · exact ctables_kept rfl rfl
    · exact ctables_kept rfl (ctables_same switch v vnet _ home rfl)
    · refine ctables_kept rfl ?_
      rw [ctables_setSession]
      exact ctables_same switch v vnet _ home rfl
  | delNetwork uuid => exact absurd rfl (allowed uuid)

/-! ## Sessions that stay -/

/-- A connected session stays connected until an event ends it, and is taken out of its
network by del-network only. -/
theorem session_stays (switch after : Switch) (inv : Inv switch) (event : Event)
    (taken : step switch event = some after) (s : SessionId) (session : Session)
    (found : switch.sessions s = some session) (lasts : ends switch event ≠ some s) :
    ∃ later, after.sessions s = some later ∧ ∀ v, session.vnetwork = some v →
      (∀ uuid, event ≠ .delNetwork uuid) → later.vnetwork = some v := by
  have quiet : ∀ middle own, Quiet middle after → middle.sessions s = some own →
      (∀ v, session.vnetwork = some v → own.vnetwork = some v) →
      ∃ later, after.sessions s = some later ∧ ∀ v, session.vnetwork = some v →
        (∀ uuid, event ≠ .delNetwork uuid) → later.vnetwork = some v := by
    intro middle own rest present keeps
    obtain ⟨later, there, core⟩ := rest.symmetric_session s own present
    have vnetwork : later.vnetwork = own.vnetwork := congrArg SessionCore.vnetwork core
    exact ⟨later, there, fun v member _ => vnetwork.trans (keeps v member)⟩
  -- A session is stored for another one, or for one with the same network.
  have stored : ∀ (middle : Switch) t own changed, switch.sessions t = some own →
      middle.sessions s = some session →
      (∀ v, own.vnetwork = some v → changed.vnetwork = some v) →
      ∃ kept, (middle.setSession t changed).sessions s = some kept ∧
        ∀ v, session.vnetwork = some v → kept.vnetwork = some v := by
    intro middle t own changed present there keeps
    by_cases same : s = t
    · obtain rfl := Option.some.inj ((same ▸ found).symm.trans present)
      exact ⟨changed, by simp [same], keeps⟩
    · exact ⟨session, by simp [same, there], fun _ member => member⟩
  cases step_effect switch after inv event taken with
  | quiet rest => exact quiet _ session rest found fun _ member => member
  | connected t peerHost fresh rest =>
    have apart : s ≠ t := fun same => fresh (same ▸ (inv.sessions s session found).opened)
    exact rest ▸ ⟨session, by simp [onConnect, apart, found], fun _ member _ => member⟩
  | accepted t own w vnet env certName asked present state home rest =>
    have alone := ((inv.sessions t own present).unknown state).1
    obtain ⟨kept, there, keeps⟩ := stored switch t own { own with
      state := .waitStepup
      vnetwork := some w } present found fun v member => by
        rw [alone] at member
        cases member
    exact quiet _ kept rest there keeps
  | admitted t own w vnet cert info asked read present state within home listed rest =>
    have kept := admitted_sessions switch t own (own.admitted vnet info) w vnet present rfl rfl s
    by_cases same : s = t
    · subst same
      obtain rfl := Option.some.inj (found.symm.trans present)
      exact quiet _ _ rest (kept.trans (if_pos rfl)) fun _ member => member
    · rw [if_neg same, found] at kept
      exact quiet _ _ rest kept fun _ member => member
  | learned t own w vnet mac present state within home unbound rest =>
    obtain ⟨kept, there, keeps⟩ := stored (switch.setVnet w { vnet with
      ftable := vnet.ftable.insert mac t }) t own { own with
      macAddr := mac
      macList := mac :: own.macList } present found fun _ member => member
    exact quiet _ kept rest there keeps
  | left t own w vnet ended present state within home rest =>
    have apart : s ≠ t := fun same => lasts (same ▸ ended)
    have kept := left_sessions switch t s own w vnet
    rw [if_neg apart, found] at kept
    exact quiet _ _ rest kept fun _ member => member
  | freed t own ended present state rest =>
    have apart : s ≠ t := fun same => lasts (same ▸ ended)
    exact quiet _ session rest (by simp [apart, found]) fun _ member => member
  | granted uuid networkUuid key w vnet asked known home read rest =>
    exact rest ▸ ⟨session, found, fun _ member _ => member⟩
  | revoked w vnet key node asked home rest =>
    rcases rest with rfl | ⟨t, own, present, rfl⟩
    · exact ⟨session, found, fun _ member _ => member⟩
    · obtain ⟨kept, there, keeps⟩ := stored (switch.setVnet w { vnet with
        atable := vnet.atable.erase key }) t own { own with state := .purge } present found
        fun _ member => member
      exact ⟨kept, there, fun v member _ => keeps v member⟩
  | created id uuid rest => exact rest ▸ ⟨session, found, fun _ member _ => member⟩
  | deleted uuid w vnet members asked known home walked rest =>
    subst rest
    obtain ⟨later, there⟩ : ∃ later, detached members switch.sessions s = some later := by
      simp [detached, found]
    exact ⟨later, there, fun _ _ kept => absurd asked (kept _)⟩

/-- A session that belongs to a network belongs to it after any event but del-network that
does not end it. -/
theorem belongs_stays (switch after : Switch) (inv : Inv switch) (event : Event)
    (allowed : ∀ uuid, event ≠ .delNetwork uuid) (taken : step switch event = some after)
    (v : VnetId) (s : SessionId) (belongs : Belongs switch v s)
    (lasts : ends switch event ≠ some s) : Belongs after v s := by
  obtain ⟨session, found, member⟩ := belongs
  obtain ⟨later, there, keeps⟩ :=
    session_stays switch after inv event taken s session found lasts
  exact ⟨later, there, keeps v member allowed⟩

/-- A session that an event ends is not connected afterwards. -/
theorem ended_gone (switch after : Switch) (event : Event) (s : SessionId)
    (ended : ends switch event = some s) (taken : step switch event = some after) :
    after.sessions s = none := by
  obtain ⟨gone, disconnected, rest⟩ := ends_disconnect switch after event s ended taken
  have freed : gone.sessions s = none := by
    obtain ⟨_, _, ⟨_, rfl⟩ | ⟨_, _, _, _, _, rfl⟩⟩ := onDisconnect_cases _ _ _ disconnected
    · simp
    · simp
  have same := rest.sessions s
  rw [freed, Option.map_none, Option.map_eq_none_iff] at same
  exact same

/-! ## The tables -/

/-- What a network's tables and its session list hold are sessions that are connected to it. -/
structure Clean (switch : Switch) (v : VnetId) (vnet : VNetwork) : Prop where
  ctable : ∀ key s, vnet.ctable.find key = some s → Belongs switch v s
  ftable : ∀ mac s, vnet.ftable.find mac = some s → Belongs switch v s
  sessionList : ∃ list, switch.sessionList vnet.sessionList = some list ∧
    ∀ s ∈ list, Belongs switch v s

def TablesClean (switch : Switch) : Prop :=
  ∀ v vnet, switch.vnets v = some vnet → Clean switch v vnet

/-- A session that the event ends is in its network's connection table under no other uuid
than its own. -/
def EndsEntered (switch : Switch) (event : Event) : Prop :=
  ∀ s ∈ ends switch event, ∀ session ∈ switch.sessions s, ∀ v ∈ session.vnetwork,
    ∀ vnet ∈ switch.vnets v, ∀ key, vnet.ctable.find key = some s →
      ∃ info, session.nodeInfo = some info ∧ key = info.uuid

/-- The connection tables hold sessions that are connected to their network. -/
def Entered (switch : Switch) : Prop :=
  ∀ v table, switch.ctables v = some table → ∀ key s, table.find key = some s → Belongs switch v s

theorem Entered.clean {switch : Switch} (inv : Inv switch) (entered : Entered switch) :
    TablesClean switch := by
  intro v vnet home
  refine ⟨entered v vnet.ctable (by simp [Switch.ctables, home]), ?_, ?_⟩
  · intro mac s bound
    obtain ⟨session, found, member, _⟩ := (inv.vnets v vnet home).bound mac s bound
    exact ⟨session, found, member⟩
  · obtain ⟨list, walked, _, members⟩ := inv.listed v vnet home
    refine ⟨list, walked, fun s inside => ?_⟩
    obtain ⟨session, found, member, _⟩ := members s inside
    exact ⟨session, found, member⟩

/-- An event that ends no session entered under another uuid keeps the tables clean. -/
theorem entered_step (switch : Switch) (event : Event) (after : Switch) (inv : Inv switch)
    (entered : Entered switch) (allowed : ∀ uuid, event ≠ .delNetwork uuid)
    (met : EndsEntered switch event) (taken : step switch event = some after) :
    Entered after := by
  have stays := belongs_stays switch after inv event allowed taken
  intro w changed there key t held
  cases ctable_step switch after inv event allowed taken with
  | kept lasts rest =>
    have belongs := entered w changed (rest ▸ there) key t held
    exact stays w t belongs (lasts w t belongs)
  | inserted nobody s later v claimed table before present member rest =>
    have old : ∀ w table, switch.ctables w = some table → table.find key = some t →
        Belongs after w t := fun w table before held =>
      stays w t (entered w table before key t held) (by simp [nobody])
    rw [rest] at there
    by_cases own : w = v
    · subst own
      rw [Function.update_self, Option.some.injEq] at there
      subst there
      rw [Table.find_insert] at held
      cases taken : table.find key with
      | some holder =>
        refine old w table before ?_
        by_cases same : key = claimed
        · simpa [← same, taken] using held
        · simpa [same] using held
      | none =>
        by_cases same : key = claimed
        · have newcomer : s = t := by simpa [← same, taken] using held
          exact ⟨later, newcomer ▸ present, member⟩
        · simp [same, taken] at held
    · rw [Function.update_of_ne own] at there
      exact old w changed there held
  | erased s session v info table ended found member named before rest =>
    rw [rest] at there
    by_cases own : w = v
    · subst own
      rw [Function.update_self, Option.some.injEq] at there
      subst there
      rw [Table.find_erase] at held
      split at held
      · cases held
      · next other =>
        refine stays w t (entered w table before key t held) fun ending => other ?_
        obtain rfl := Option.some.inj (ended.symm.trans ending)
        obtain ⟨vnet, home, rfl⟩ := Option.map_eq_some_iff.mp before
        obtain ⟨node, again, same⟩ := met s ended session found w member vnet home key held
        obtain rfl := Option.some.inj (named.symm.trans again)
        exact same
    · rw [Function.update_of_ne own] at there
      obtain ⟨holder, present, within⟩ := entered w changed there key t held
      refine stays w t ⟨holder, present, within⟩ fun ending => own ?_
      obtain rfl := Option.some.inj (ended.symm.trans ending)
      obtain rfl := Option.some.inj (found.symm.trans present)
      exact Option.some.inj (within.symm.trans member)
  | created nobody v rest =>
    rw [rest] at there
    by_cases own : w = v
    · rw [own, Function.update_self, Option.some.injEq] at there
      subst there
      cases held
    · rw [Function.update_of_ne own] at there
      exact stays w t (entered w changed there key t held) (by simp [nobody])

/-- A session that ends while entered under another uuid stays in the connection table. -/
theorem unentered_step (switch : Switch) (event : Event) (after : Switch) (inv : Inv switch)
    (allowed : ∀ uuid, event ≠ .delNetwork uuid) (unmet : ¬ EndsEntered switch event)
    (taken : step switch event = some after) : ¬ TablesClean after := by
  intro clean
  simp only [EndsEntered, not_forall] at unmet
  obtain ⟨s, ended, session, found, v, member, vnet, home, key, held, other⟩ := unmet
  cases ctable_step switch after inv event allowed taken with
  | kept lasts rest => exact lasts v s ⟨session, found, member⟩ ended
  | inserted nobody _ _ _ _ _ _ _ _ _ =>
    rw [nobody] at ended
    cases ended
  | erased t own w info table ending present within named before rest =>
    obtain rfl := Option.some.inj (ending.symm.trans ended)
    obtain rfl := Option.some.inj (present.symm.trans found)
    obtain rfl := Option.some.inj (within.symm.trans member)
    have stored : after.ctables w = some (table.erase info.uuid) := by simp [rest]
    obtain ⟨changed, there, erased⟩ := Option.map_eq_some_iff.mp stored
    have same : vnet.ctable = table := by
      have mapped : switch.ctables w = some vnet.ctable := congrArg (Option.map _) home
      exact Option.some.inj (mapped.symm.trans before)
    have left : changed.ctable.find key = some t := by
      rw [erased, Table.find_erase, if_neg fun own => other ⟨info, named, own⟩, ← same]
      exact held
    obtain ⟨later, connected, _⟩ := (clean w changed there).ctable key t left
    rw [ended_gone switch after event t ended taken] at connected
    cases connected
  | created nobody _ _ =>
    rw [nobody] at ended
    cases ended

/-- In a run without del-network, the tables hold no released session and none of another
network all along exactly when no session ends while it is in its connection table under a
uuid that it no longer has.

Proof: a session in a table is the one that its own uuid leads back to. A step that meets the
condition keeps this, which makes the tables clean; one that does not leaves an entry behind
for the session that ended. -/
theorem tables_clean_iff (events : List Event) (final : Switch)
    (allowed : ∀ uuid, Event.delNetwork uuid ∉ events)
    (reached : run step Switch.initial events = some final) :
    (∀ past, past <+: events → ∀ switch, run step Switch.initial past = some switch →
      TablesClean switch) ↔ Meets step EndsEntered Switch.initial events := by
  refine holds_along_iff step (fun event => ∀ uuid, event ≠ .delNetwork uuid) EndsEntered
    (fun switch => Inv switch ∧ Entered switch) TablesClean ?_ ?_ ?_ Switch.initial final
    events ⟨initial_inv, fun v table there => by cases there⟩ ?_ reached
  · exact fun switch ⟨inv, entered⟩ => entered.clean inv
  · intro switch event next ⟨inv, entered⟩ known met taken
    exact ⟨step_inv switch event next inv taken,
      entered_step switch event next inv entered known met taken⟩
  · intro switch event next ⟨inv, _⟩ known unmet taken
    exact unentered_step switch event next inv known unmet taken
  · exact fun event inside uuid same => allowed uuid (same ▸ inside)

/-- A session joins as the node that it asked as, and goes. -/
def namesakeRun : List Event := sampleNetwork [0x61] ++ sampleJoin 1 0x61

theorem namesakeRun_clean : run step Switch.initial (namesakeRun ++ [.disconnect 1]) ≠ none ∧
    ∀ past, past <+: namesakeRun ++ [.disconnect 1] → ∀ switch,
      run step Switch.initial past = some switch → TablesClean switch := by
  refine ⟨by decide, ?_⟩
  refine (tables_clean_iff (namesakeRun ++ [.disconnect 1])
    ((run step Switch.initial (namesakeRun ++ [.disconnect 1])).get (by decide))
    (by simp [namesakeRun, sampleNetwork, sampleJoin, sampleAsk]) (Option.some_get _).symm).mpr ?_
  refine (meets_append step EndsEntered Switch.initial namesakeRun _).mpr ⟨?_, ?_⟩
  · refine ⟨fun s ended => (by cases ended), fun _ taken => ?_⟩
    obtain rfl := Option.some.inj taken
    refine ⟨fun s ended => (by cases ended), fun _ taken => ?_⟩
    obtain rfl := Option.some.inj taken
    refine ⟨fun s ended => (by cases ended), fun _ taken => ?_⟩
    obtain rfl := Option.some.inj taken
    refine ⟨fun s ended => (by cases ended), fun _ taken => ?_⟩
    obtain rfl := Option.some.inj taken
    exact ⟨fun s ended => (by cases ended), fun _ _ => trivial⟩
  · intro middle reached
    refine ⟨?_, fun _ _ => trivial⟩
    obtain rfl := Option.some.inj reached
    rintro s ended session found v member vnet home key held
    obtain rfl := Option.some.inj ended
    have joined : v = 0 := by
      have zero : (session.vnetwork = some 0) := by
        rw [← Option.some.inj found]
        decide
      exact Option.some.inj (member.symm.trans zero)
    subst joined
    have table : ∀ key, vnet.ctable.find key =
        if key = sampleUuid 0x61 then some 1 else none := by
      rw [← Option.some.inj home]
      intro key
      rfl
    have node : session.nodeInfo.map NodeInfo.uuid = some (sampleUuid 0x61) := by
      rw [← Option.some.inj found]
      decide
    obtain ⟨info, named, same⟩ := Option.map_eq_some_iff.mp node
    refine ⟨info, named, ?_⟩
    by_contra other
    rw [table, if_neg fun own => other (own.trans same.symm)] at held
    cases held

/-- A session asks as one node, shows the certificate of another, and goes. -/
def renamedRun : List Event :=
  sampleNetwork [0x61, 0x62] ++ sampleAsk 1 0x62 ++ [.secure 1 (sampleCert 0x61), .disconnect 1]

/-- The connection table still holds it under the name that it asked as. -/
theorem renamedRun_unclean : run step Switch.initial renamedRun ≠ none ∧
    ¬ ∀ past, past <+: renamedRun → ∀ switch, run step Switch.initial past = some switch →
      TablesClean switch := by
  refine ⟨by decide, fun clean => ?_⟩
  have ended := clean renamedRun List.prefix_rfl
    ((run step Switch.initial renamedRun).get (by decide)) (Option.some_get _).symm 0
    ((((run step Switch.initial renamedRun).get (by decide)).vnets 0).get (by decide))
    (Option.some_get _).symm
  obtain ⟨session, found, _⟩ := ended.ctable (sampleUuid 0x62) 1 (by decide)
  have gone : ((run step Switch.initial renamedRun).get (by decide)).sessions 1 = none := by decide
  rw [gone] at found
  cases found

end NetVirt.Nvswitch
