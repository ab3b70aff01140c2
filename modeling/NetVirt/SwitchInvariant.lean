import NetVirt.SwitchSpecs

/-!
# What holds in every reachable state of the switch

A session that has been told of its success has passed the access table's check; no other
message of the switch says so. The sessions that have passed for a network, and no others,
are linked and have learned addresses. Because a disconnect unlinks sessions that were
never linked, the linked sessions of a network may lie in several chains; what its
session_list leads is still a list of such sessions without repetition.

Most branches change nothing that this is about: they are quiet steps.
-/

namespace NetVirt.Nvswitch

open Bitv Cert LinkStates LinkedLists Tables

/-- The session has passed on_secure's check of the access table. -/
def Passed (switch : Switch) (s : SessionId) : Prop :=
  (s, Outgoing.authResponse .success) ∈ switch.sent

/-- A connected session that has passed the check of a network. -/
def Member (switch : Switch) (v : VnetId) (s : SessionId) : Prop :=
  ∃ session, switch.sessions s = some session ∧ session.vnetwork = some v ∧ Passed switch s

/-- What holds of each session. -/
structure SessionInv (switch : Switch) (s : SessionId) (session : Session) : Prop where
  opened : s ∈ switch.opened
  listener : session.netc.securityLevel = .secureAdh
  placed : ∀ v, session.vnetwork = some v → v < switch.vnetCount
  unknown : session.state = .notAuthed → session.vnetwork = none ∧ ¬ Passed switch s
  waiting : session.state = .waitStepup → session.vnetwork ≠ none ∧ ¬ Passed switch s
  authed : session.state = .authed → session.vnetwork ≠ none ∧ Passed switch s
  unlinked : ¬ Passed switch s →
    session.next = none ∧ session.prev = none ∧ session.macList = []

/-- What holds of each virtual network. -/
structure VnetInv (switch : Switch) (v : VnetId) (vnet : VNetwork) : Prop where
  known : v < switch.vnetCount
  bound : ∀ mac s, vnet.ftable.find mac = some s → ∃ session, switch.sessions s = some session ∧
    session.vnetwork = some v ∧ Passed switch s ∧ mac ∈ session.macList
  threaded : Threaded (switch.links v) (Member switch v)

structure Inv (switch : Switch) : Prop where
  sessions : ∀ s session, switch.sessions s = some session → SessionInv switch s session
  vnets : ∀ v vnet, switch.vnets v = some vnet → VnetInv switch v vnet
  heard : ∀ s message, (s, message) ∈ switch.sent → s ∈ switch.opened
  indexed : ∀ uuid v, switch.vnetworks.find uuid = some v →
    ∃ vnet, switch.vnets v = some vnet ∧ vnet.uuid = uuid
  indexedId : ∀ id v, switch.vnetworksId.find id = some v →
    ∃ vnet, switch.vnets v = some vnet ∧ vnet.id = id

/-! ## Quiet steps -/

/-- The node of the certificate that an authenticated session has shown. -/
def Session.verified (session : Session) : Option NodeInfo :=
  if session.state = .authed then session.nodeInfo else none

/-- The part of a session that the invariants are about. -/
structure SessionCore where
  state : SessionState
  securityLevel : SecurityLevel
  vnetwork : Option VnetId
  next : Option SessionId
  prev : Option SessionId
  macList : List (List UInt8)
  verified : Option NodeInfo

def Session.core (session : Session) : SessionCore :=
  { state := session.state, securityLevel := session.netc.securityLevel,
    vnetwork := session.vnetwork, next := session.next, prev := session.prev,
    macList := session.macList, verified := session.verified }

/-- The part of a network that the invariants are about. -/
structure VNetworkCore where
  id : List UInt8
  uuid : List UInt8
  ftable : Table (List UInt8) SessionId
  atable : Table (List UInt8) Unit
  sessionList : Option SessionId
  activeNode : BitVec 32

def VNetwork.core (vnet : VNetwork) : VNetworkCore :=
  { id := vnet.id, uuid := vnet.uuid, ftable := vnet.ftable, atable := vnet.atable,
    sessionList := vnet.sessionList, activeNode := vnet.activeNode }

/-- A step that changes no such part, and tells nobody of its success. -/
structure Quiet (switch after : Switch) : Prop where
  sessions : ∀ s, (after.sessions s).map Session.core = (switch.sessions s).map Session.core
  vnets : ∀ v, (after.vnets v).map VNetwork.core = (switch.vnets v).map VNetwork.core
  opened : after.opened = switch.opened
  vnetCount : after.vnetCount = switch.vnetCount
  vnetworks : after.vnetworks = switch.vnetworks
  vnetworksId : after.vnetworksId = switch.vnetworksId
  sent : ∀ s message, (s, message) ∈ after.sent → (s, message) ∈ switch.sent ∨
    message ≠ .authResponse .success ∧ s ∈ switch.opened
  kept : ∀ sent ∈ switch.sent, sent ∈ after.sent

theorem Quiet.refl (switch : Switch) : Quiet switch switch :=
  { sessions := fun _ => rfl, vnets := fun _ => rfl, opened := rfl, vnetCount := rfl,
    vnetworks := rfl, vnetworksId := rfl, sent := fun _ _ inside => Or.inl inside,
    kept := fun _ inside => inside }

theorem Quiet.trans {switch middle after : Switch} (early : Quiet switch middle)
    (late : Quiet middle after) : Quiet switch after where
  sessions s := (late.sessions s).trans (early.sessions s)
  vnets v := (late.vnets v).trans (early.vnets v)
  opened := late.opened.trans early.opened
  vnetCount := late.vnetCount.trans early.vnetCount
  vnetworks := late.vnetworks.trans early.vnetworks
  vnetworksId := late.vnetworksId.trans early.vnetworksId
  sent s message inside := by
    rcases late.sent s message inside with before | new
    · exact early.sent s message before
    · exact Or.inr (early.opened ▸ new)
  kept sent inside := late.kept sent (early.kept sent inside)

theorem quiet_setSession (switch : Switch) (s : SessionId) (session changed : Session)
    (found : switch.sessions s = some session) (same : changed.core = session.core) :
    Quiet switch (switch.setSession s changed) :=
  { Quiet.refl switch with
    sessions := fun t => by
      by_cases own : t = s
      · simp [own, found, same]
      · simp [own] }

theorem quiet_setVnet (switch : Switch) (v : VnetId) (vnet changed : VNetwork)
    (home : switch.vnets v = some vnet) (same : changed.core = vnet.core) :
    Quiet switch (switch.setVnet v changed) :=
  { Quiet.refl switch with
    vnets := fun w => by
      by_cases own : w = v
      · simp [own, home, same]
      · simp [own] }

theorem quiet_send (switch : Switch) (s : SessionId) (message : Outgoing)
    (opened : s ∈ switch.opened) (other : message ≠ .authResponse .success) :
    Quiet switch (switch.netSendMsg s message) :=
  { Quiet.refl switch with
    sent := fun t reply inside => by
      rcases List.mem_append.mp inside with before | new
      · exact Or.inl before
      · obtain ⟨rfl, rfl⟩ := Prod.mk.inj (List.mem_singleton.mp new)
        exact Or.inr ⟨other, opened⟩
    kept := fun _ inside => List.mem_append_left _ inside }

theorem quiet_status (switch : Switch) (status : Presence)
    (localIpaddr uuid networkUuid : List UInt8) :
    Quiet switch (updateNodeStatus switch status localIpaddr uuid networkUuid) := by
  obtain ⟨statuses, same⟩ := updateNodeStatus_eq switch status localIpaddr uuid networkUuid
  rw [same]
  exact { Quiet.refl switch with }

/-- The same store after a quiet step. -/
theorem Quiet.setSession {switch after : Switch} (quiet : Quiet switch after) (s : SessionId)
    (session changed : Session) (same : changed.core = session.core) :
    Quiet (switch.setSession s session) (after.setSession s changed) :=
  { quiet with
    sessions := fun t => by
      by_cases own : t = s
      · simp [own, same]
      · simpa [own] using quiet.sessions t }

theorem Quiet.sessionFree {switch after : Switch} (quiet : Quiet switch after) (s : SessionId) :
    Quiet (switch.sessionFree s) (after.sessionFree s) :=
  { quiet with
    sessions := fun t => by
      by_cases own : t = s
      · simp [own]
      · simpa [own] using quiet.sessions t }

section Consequences
variable {switch after : Switch} (quiet : Quiet switch after)
include quiet

theorem Quiet.passed (s : SessionId) : Passed after s ↔ Passed switch s := by
  constructor
  · intro told
    rcases quiet.sent s _ told with before | ⟨other, _⟩
    · exact before
    · exact absurd rfl other
  · exact quiet.kept _

/-- A session after a quiet step is one from before, with the same core. -/
theorem Quiet.session (s : SessionId) (changed : Session)
    (found : after.sessions s = some changed) :
    ∃ session, switch.sessions s = some session ∧ changed.core = session.core := by
  have same := quiet.sessions s
  rw [found, Option.map_some, eq_comm, Option.map_eq_some_iff] at same
  obtain ⟨session, present, core⟩ := same
  exact ⟨session, present, core.symm⟩

theorem Quiet.vnet (v : VnetId) (changed : VNetwork) (home : after.vnets v = some changed) :
    ∃ vnet, switch.vnets v = some vnet ∧ changed.core = vnet.core := by
  have same := quiet.vnets v
  rw [home, Option.map_some, eq_comm, Option.map_eq_some_iff] at same
  obtain ⟨vnet, present, core⟩ := same
  exact ⟨vnet, present, core.symm⟩

theorem Quiet.symmetric_session (s : SessionId) (session : Session)
    (found : switch.sessions s = some session) :
    ∃ changed, after.sessions s = some changed ∧ changed.core = session.core := by
  have same := quiet.sessions s
  rw [found, Option.map_some, Option.map_eq_some_iff] at same
  exact same

theorem Quiet.symmetric_vnet (v : VnetId) (vnet : VNetwork)
    (home : switch.vnets v = some vnet) :
    ∃ changed, after.vnets v = some changed ∧ changed.core = vnet.core := by
  have same := quiet.vnets v
  rw [home, Option.map_some, Option.map_eq_some_iff] at same
  exact same

theorem Quiet.links (v : VnetId) : after.links v = switch.links v := by
  have head : (after.vnets v).bind VNetwork.sessionList =
      (switch.vnets v).bind VNetwork.sessionList := by
    have same := congrArg (Option.map VNetworkCore.sessionList) (quiet.vnets v)
    cases here : after.vnets v <;> cases there : switch.vnets v <;>
      simp_all [VNetwork.core]
  have next : ∀ s, (after.sessions s).bind Session.next =
      (switch.sessions s).bind Session.next := by
    intro s
    have same := quiet.sessions s
    cases here : after.sessions s <;> cases there : switch.sessions s <;>
      simp_all [Session.core]
  have prev : ∀ s, (after.sessions s).bind Session.prev =
      (switch.sessions s).bind Session.prev := by
    intro s
    have same := quiet.sessions s
    cases here : after.sessions s <;> cases there : switch.sessions s <;>
      simp_all [Session.core]
  simp only [Switch.links, head, next, prev]

theorem Quiet.member (v : VnetId) (s : SessionId) : Member after v s ↔ Member switch v s := by
  constructor
  · rintro ⟨changed, found, member, passed⟩
    obtain ⟨session, present, core⟩ := quiet.session s changed found
    have same : changed.vnetwork = session.vnetwork := congrArg SessionCore.vnetwork core
    exact ⟨session, present, same ▸ member, (quiet.passed s).mp passed⟩
  · rintro ⟨session, found, member, passed⟩
    obtain ⟨changed, present, core⟩ := quiet.symmetric_session s session found
    have same : changed.vnetwork = session.vnetwork := congrArg SessionCore.vnetwork core
    exact ⟨changed, present, same.symm ▸ member, (quiet.passed s).mpr passed⟩

/-- A quiet step keeps the invariant. -/
theorem Quiet.inv (inv : Inv switch) : Inv after where
  sessions s changed found := by
    obtain ⟨session, present, core⟩ := quiet.session s changed found
    obtain ⟨opened, listener, placed, unknown, waiting, authed, unlinked⟩ :=
      inv.sessions s session present
    have state : changed.state = session.state := congrArg SessionCore.state core
    have level : changed.netc.securityLevel = session.netc.securityLevel :=
      congrArg SessionCore.securityLevel core
    have vnetwork : changed.vnetwork = session.vnetwork := congrArg SessionCore.vnetwork core
    have next : changed.next = session.next := congrArg SessionCore.next core
    have prev : changed.prev = session.prev := congrArg SessionCore.prev core
    have macList : changed.macList = session.macList := congrArg SessionCore.macList core
    constructor
    · exact quiet.opened ▸ opened
    · exact level.trans listener
    · rw [vnetwork, quiet.vnetCount]
      exact placed
    · rw [state, vnetwork, quiet.passed]
      exact unknown
    · rw [state, vnetwork, quiet.passed]
      exact waiting
    · rw [state, vnetwork, quiet.passed]
      exact authed
    · rw [next, prev, macList, quiet.passed]
      exact unlinked
  vnets v changed home := by
    obtain ⟨vnet, present, core⟩ := quiet.vnet v changed home
    obtain ⟨known, bound, threaded⟩ := inv.vnets v vnet present
    have ftable : changed.ftable = vnet.ftable := congrArg VNetworkCore.ftable core
    constructor
    · exact quiet.vnetCount ▸ known
    · intro mac s owned
      rw [ftable] at owned
      obtain ⟨session, found, member, passed, learned⟩ := bound mac s owned
      obtain ⟨kept, there, same⟩ := quiet.symmetric_session s session found
      have vnetwork : kept.vnetwork = session.vnetwork := congrArg SessionCore.vnetwork same
      have macList : kept.macList = session.macList := congrArg SessionCore.macList same
      exact ⟨kept, there, vnetwork.trans member, (quiet.passed s).mpr passed, macList ▸ learned⟩
    · rw [quiet.links]
      exact threaded_congr _ _ _ _ threaded (quiet.member v) rfl (fun _ _ => rfl)
        (fun _ _ => rfl)
  heard s message inside := by
    rw [quiet.opened]
    rcases quiet.sent s message inside with before | ⟨_, opened⟩
    · exact inv.heard s message before
    · exact opened
  indexed uuid v found := by
    rw [quiet.vnetworks] at found
    obtain ⟨vnet, home, same⟩ := inv.indexed uuid v found
    obtain ⟨changed, present, core⟩ := quiet.symmetric_vnet v vnet home
    exact ⟨changed, present, (congrArg VNetworkCore.uuid core).trans same⟩
  indexedId id v found := by
    rw [quiet.vnetworksId] at found
    obtain ⟨vnet, home, same⟩ := inv.indexedId id v found
    obtain ⟨changed, present, core⟩ := quiet.symmetric_vnet v vnet home
    exact ⟨changed, present, (congrArg VNetworkCore.id core).trans same⟩

end Consequences

end NetVirt.Nvswitch
