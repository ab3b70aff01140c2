import NetVirt.SwitchSessions

/-!
# Revoking a node

del_node takes a uuid off the access table of its network and marks the one session that
the connection table holds under that uuid. The connection table is keyed by the uuid that
was known at authRequest time, refuses a key it has, and loses a key with the first session
that leaves under it; a session whose certificate carries the uuid is marked only if the
table still holds this very session. From then on nobody is admitted under the uuid
until it is listed again.
-/

namespace NetVirt.Nvswitch

open Bitv Cert LinkStates LinkedLists Tables Runs

/-- The session is one of a network with this uuid, and its node information carries the
given node uuid. -/
def OfNode (switch : Switch) (networkUuid uuid : List UInt8) (session : Session) : Prop :=
  ∃ v info, session.vnetwork = some v ∧ (switch.vnets v).map VNetwork.uuid = some networkUuid ∧
    session.nodeInfo = some info ∧ info.uuid = uuid

/-- The event lists the node again. -/
def Relists (networkUuid key : List UInt8) (event : Event) : Prop :=
  ∃ uuid, event = .listNode uuid networkUuid ∧ ctableKey (uuidStrLen + 1) uuid = some key

/-- No connected session of the node is authenticated, and in no run that does not list the
node again does a session of it become so. -/
structure Revoked (switch : Switch) (networkUuid key : List UInt8) : Prop where
  now : ∀ s session, switch.sessions s = some session → OfNode switch networkUuid key session →
    session.state ≠ .authed
  later : ∀ events before, run step switch events = some before →
    (∀ event ∈ events, ¬ Relists networkUuid key event) → ∀ event after s session,
    step before event = some after → before.stateOf s ≠ some .authed →
    after.sessions s = some session → OfNode after networkUuid key session →
    session.state ≠ .authed

/-- The connection table of the network holds each authenticated session of the node. -/
def Findable (switch : Switch) (networkUuid key : List UInt8) : Prop :=
  ∀ s session, switch.sessions s = some session → session.state = .authed →
    OfNode switch networkUuid key session → ∃ v vnet,
      switch.vnetworks.find networkUuid = some v ∧ switch.vnets v = some vnet ∧
      vnet.ctable.find key = some s

/-! ## Access tables -/

/-- A network with listed nodes, or with authenticated sessions, is the one that its uuid
leads to. -/
structure Listing (switch : Switch) : Prop where
  inv : Inv switch
  listed : ∀ v vnet key, switch.vnets v = some vnet → vnet.atable.find key ≠ none →
    switch.vnetworks.find vnet.uuid = some v
  authed : ∀ s session v vnet, switch.sessions s = some session → session.state = .authed →
    session.vnetwork = some v → switch.vnets v = some vnet →
    switch.vnetworks.find vnet.uuid = some v

theorem initial_listing : Listing Switch.initial :=
  { inv := initial_inv
    listed := fun v vnet key home => by cases home
    authed := fun s session v vnet found => by cases found }

/-- A network that is left keeps its uuid. -/
theorem uuid_step (switch after : Switch) (event : Event) (inv : Inv switch)
    (taken : step switch event = some after) (v : VnetId) (vnet changed : VNetwork)
    (home : switch.vnets v = some vnet) (there : after.vnets v = some changed) :
    changed.uuid = vnet.uuid := by
  cases network_step switch after event inv taken v changed there with
  | new fresh _ => exact absurd (inv.vnets v vnet home).known (by simp [fresh])
  | kept same before uuid _ =>
    obtain rfl := Option.some.inj (home.symm.trans before)
    exact uuid
  | granted same _ _ before uuid _ _ _ _ =>
    obtain rfl := Option.some.inj (home.symm.trans before)
    exact uuid

theorem listing_step (switch : Switch) (event : Event) (after : Switch) (held : Listing switch)
    (taken : step switch event = some after) : Listing after := by
  have inv := held.inv
  -- Where the uuid led before, it leads afterwards, unless the network is gone.
  have still : ∀ v vnet changed, switch.vnets v = some vnet → after.vnets v = some changed →
      switch.vnetworks.find vnet.uuid = some v →
      after.vnetworks.find changed.uuid = some v := by
    intro v vnet changed home there known
    rw [uuid_step switch after event inv taken v vnet changed home there]
    rcases index_step switch after event inv taken vnet.uuid v known with found | gone
    · exact found
    · rw [there] at gone
      cases gone
  refine ⟨step_inv switch event after inv taken, ?_, ?_⟩
  · intro v changed key there listed
    cases network_step switch after event inv taken v changed there with
    | new _ nobody =>
      rw [nobody] at listed
      exact absurd rfl listed
    | kept vnet home _ atable =>
      refine still v vnet changed home there (held.listed v vnet key home ?_)
      rcases atable key with gone | same
      · exact absurd gone listed
      · exact same ▸ listed
    | granted vnet _ _ home _ _ known _ _ => exact still v vnet changed home there known
  · intro s later v changed found authed member there
    rcases session_step switch after event inv taken s later found with
      ⟨_, fresh⟩ | ⟨session, present, change⟩
    · rw [authed] at fresh
      cases fresh
    · have known : ∀ vnet, session.vnetwork = some v → switch.vnets v = some vnet →
          switch.vnetworks.find vnet.uuid = some v → after.vnetworks.find changed.uuid = some v :=
        fun vnet _ home known => still v vnet changed home there known
      cases change with
      | kept state vnetwork _ =>
        have within := vnetwork.symm.trans member
        cases network_step switch after event inv taken v changed there with
        | new fresh _ =>
          have placed := (inv.sessions s session present).placed v within
          exact absurd placed (by simp [fresh])
        | kept vnet home _ _ =>
          exact known vnet within home
            (held.authed s session v vnet present (state.symm.trans authed) within home)
        | granted vnet _ _ home _ _ found _ _ => exact known vnet within home found
      | accepted _ _ _ _ _ _ _ state _ =>
        rw [authed] at state
        cases state
      | admitted cert info w vnet _ _ belongs home listed _ _ vnetwork _ =>
        obtain rfl := Option.some.inj (belongs.symm.trans (vnetwork.symm.trans member))
        exact known vnet belongs home (held.listed w vnet info.uuid home (by simp [listed]))
      | purged _ state _ =>
        rw [authed] at state
        cases state

theorem reachable_listing (events : List Event) (switch : Switch)
    (reached : run step Switch.initial events = some switch) : Listing switch :=
  invariant step Listing listing_step Switch.initial switch events initial_listing reached

/-! ## Afterwards -/

/-- No network with this uuid lists the node. -/
def Unlisted (networkUuid key : List UInt8) (switch : Switch) : Prop :=
  ∀ v vnet, switch.vnets v = some vnet → vnet.uuid = networkUuid → vnet.atable.find key = none

/-- A node stays unlisted until it is listed again. -/
theorem unlisted_step (networkUuid key : List UInt8) (switch : Switch) (event : Event)
    (after : Switch) (inv : Inv switch) (unlisted : Unlisted networkUuid key switch)
    (other : ¬ Relists networkUuid key event) (taken : step switch event = some after) :
    Unlisted networkUuid key after := by
  intro v changed there named
  cases network_step switch after event inv taken v changed there with
  | new _ nobody =>
    rw [nobody]
    rfl
  | kept vnet home uuid atable =>
    rcases atable key with gone | same
    · exact gone
    · exact same.trans (unlisted v vnet home (uuid.symm.trans named))
  | granted vnet node listed home uuid asked _ read atable =>
    have same : vnet.uuid = networkUuid := uuid.symm.trans named
    have different : key ≠ listed := by
      rintro rfl
      exact other ⟨node, same ▸ asked, read⟩
    rw [atable, Table.find_insert, if_neg different]
    exact unlisted v vnet home same

/-- Nobody is admitted under an unlisted uuid. -/
theorem unlisted_denied (networkUuid key : List UInt8) (switch after : Switch) (event : Event)
    (inv : Inv switch) (unlisted : Unlisted networkUuid key switch)
    (taken : step switch event = some after) (s : SessionId) (later : Session)
    (before : switch.stateOf s ≠ some .authed) (there : after.sessions s = some later)
    (node : OfNode after networkUuid key later) : later.state ≠ .authed := by
  intro authed
  rcases session_step switch after event inv taken s later there with
    ⟨_, fresh⟩ | ⟨session, found, change⟩
  · rw [authed] at fresh
    cases fresh
  · cases change with
    | kept state _ _ =>
      exact before (by simp [Switch.stateOf, found, ← state, authed])
    | accepted _ _ _ _ _ _ _ state _ =>
      rw [authed] at state
      cases state
    | admitted cert info v vnet _ _ member home listed _ _ vnetwork verified =>
      obtain ⟨w, shown, belongs, name, carried, same⟩ := node
      obtain ⟨changed, present, named⟩ := Option.map_eq_some_iff.mp name
      obtain rfl := Option.some.inj (member.symm.trans (vnetwork.symm.trans belongs))
      have uuid := uuid_step switch after event inv taken v vnet changed home present
      have certified : shown.uuid = info.uuid := by
        rw [Session.verified, if_pos authed, carried, Option.some.injEq] at verified
        rw [verified]
        unfold withNetworkUuid
        split <;> rfl
      rw [← certified, same, unlisted v vnet home (uuid.symm.trans named)] at listed
      cases listed
    | purged _ state _ =>
      rw [authed] at state
      cases state

/-- What del_node leaves behind: no network of the uuid lists the node, and every session is
as it was but for the one that the connection table holds, which is marked. -/
theorem delNode_leaves (switch after : Switch) (held : Listing switch)
    (uuid networkUuid key : List UInt8) (read : ctableKey uuidStrLen uuid = some key)
    (taken : delNode switch (some { uuid := some uuid, networkuuid := some networkUuid }) =
      some (after, 0)) :
    ∃ v vnet, switch.vnetworks.find networkUuid = some v ∧ switch.vnets v = some vnet ∧
      Unlisted networkUuid key after ∧
      (∀ session, OfNode after networkUuid key session ↔ OfNode switch networkUuid key session) ∧
      ∀ s, after.sessions s = if vnet.ctable.find key = some s then
        (switch.sessions s).map fun session => { session with state := .purge }
        else switch.sessions s := by
  rcases delNode_cases _ _ _ _ taken with ⟨code, _⟩ | ⟨named, network, v, vnet, cut, _, document,
    known, home, within, marked⟩
  · cases code
  · simp only [Option.some.injEq, NodeDocument.mk.injEq] at document
    obtain ⟨rfl, rfl⟩ := document
    obtain rfl := Option.some.inj (read.symm.trans within)
    have called : vnet.uuid = networkUuid := by
      obtain ⟨kept, before, same⟩ := held.inv.indexed networkUuid v known
      obtain rfl := Option.some.inj (home.symm.trans before)
      exact same
    have vnets : after.vnets = (switch.setVnet v { vnet with
        atable := vnet.atable.erase key }).vnets := by
      rcases marked with ⟨_, rfl⟩ | ⟨_, _, _, _, rfl⟩
      · rfl
      · rfl
    refine ⟨v, vnet, known, home, ?_, ?_, ?_⟩
    · intro w changed there named
      rw [vnets] at there
      by_cases own : w = v
      · subst own
        rw [Switch.setVnet_vnets, Function.update_self, Option.some.injEq] at there
        rw [← there, Table.find_erase, if_pos rfl]
      · rw [Switch.setVnet_vnets, Function.update_of_ne own] at there
        by_contra listed
        have found := held.listed w changed key there listed
        rw [named, known, Option.some.injEq] at found
        exact own found.symm
    · intro session
      have names : ∀ w, (after.vnets w).map VNetwork.uuid = (switch.vnets w).map VNetwork.uuid := by
        intro w
        rw [vnets]
        by_cases own : w = v
        · simp [own, home]
        · simp [own]
      simp only [OfNode, names]
    · intro s
      rcases marked with ⟨absent, rfl⟩ | ⟨t, session, connected, found, rfl⟩
      · simp [absent]
      · rw [connected]
        by_cases own : s = t
        · simp [own, found]
        · simp [own, Ne.symm own]

/-- del_node revokes a node if and only if the connection table of its network holds each of
its authenticated sessions.

Proof: del_node marks exactly the session that the table holds under the uuid and leaves the
others as they are. Afterwards the uuid is unlisted, which every event but a new listing
keeps, and an unlisted node is denied. -/
theorem revoked_iff (events : List Event) (switch after : Switch)
    (uuid networkUuid key : List UInt8) (reached : run step Switch.initial events = some switch)
    (read : ctableKey uuidStrLen uuid = some key)
    (taken : delNode switch (some { uuid := some uuid, networkuuid := some networkUuid }) =
      some (after, 0)) :
    Revoked after networkUuid key ↔ Findable switch networkUuid key := by
  have held := reachable_listing events switch reached
  have inv : Inv after := by
    refine step_inv switch (.delNode (some { uuid := some uuid, networkuuid := some networkUuid }))
      after held.inv ?_
    simp [step, taken]
  obtain ⟨v, vnet, known, home, unlisted, nodes, sessions⟩ :=
    delNode_leaves switch after held uuid networkUuid key read taken
  constructor
  · intro revoked s session found authed node
    refine ⟨v, vnet, known, home, ?_⟩
    by_contra other
    have kept := sessions s
    rw [if_neg other] at kept
    exact revoked.now s session (kept.trans found) ((nodes session).mpr node) authed
  · intro findable
    constructor
    · intro s session found node authed
      have stays := sessions s
      rw [found] at stays
      by_cases held : vnet.ctable.find key = some s
      · rw [if_pos held, eq_comm, Option.map_eq_some_iff] at stays
        obtain ⟨_, _, marked⟩ := stays
        rw [← marked] at authed
        cases authed
      · rw [if_neg held] at stays
        obtain ⟨w, other, led, there, holds⟩ :=
          findable s session stays.symm authed ((nodes session).mp node)
        obtain rfl := Option.some.inj (known.symm.trans led)
        obtain rfl := Option.some.inj (home.symm.trans there)
        exact held holds
    · intro later before ran other event next s session taken state there node
      have preserved : ∀ state event next, Inv state ∧ Unlisted networkUuid key state →
          ¬ Relists networkUuid key event → step state event = some next →
          Inv next ∧ Unlisted networkUuid key next := by
        rintro state event next ⟨inv, unlisted⟩ other taken
        exact ⟨step_inv state event next inv taken,
          unlisted_step networkUuid key state event next inv unlisted other taken⟩
      obtain ⟨inv, still⟩ := invariant_of_allowed step
        (fun event => ¬ Relists networkUuid key event)
        (fun switch => Inv switch ∧ Unlisted networkUuid key switch) preserved
        after before later ⟨inv, unlisted⟩ other ran
      exact unlisted_denied networkUuid key before next event inv still taken s session state
        there node

/-- In this run the session was admitted with a certificate that carries the uuid. -/
def Shown (events : List Event) (s : SessionId) (uuid : List UInt8) : Prop :=
  ∃ early cert late before after info, events = early ++ Event.secure s cert :: late ∧
    run step Switch.initial early = some before ∧ step before (.secure s cert) = some after ∧
    before.stateOf s = some .waitStepup ∧ after.stateOf s = some .authed ∧
    certNodeInfo cert = some (some info) ∧ info.uuid = uuid

/-- The node information of an authenticated session carries the uuid of the certificate
that it was admitted with. -/
theorem authed_shown (events : List Event) (switch : Switch)
    (reached : run step Switch.initial events = some switch) (s : SessionId) (session : Session)
    (found : switch.sessions s = some session) (authed : session.state = .authed) :
    ∃ info, session.nodeInfo = some info ∧ Shown events s info.uuid := by
  have verified : ∀ s session, switch.sessions s = some session → session.state = .authed →
      ∃ info, session.verified = some info ∧ Shown events s info.uuid := by
    refine (history_invariant step (fun events switch => Inv switch ∧
      ∀ s session, switch.sessions s = some session → session.state = .authed →
        ∃ info, session.verified = some info ∧ Shown events s info.uuid)
      Switch.initial ?_ switch events ⟨initial_inv, fun s session found => by cases found⟩
      reached).2
    rintro past state event next early ⟨inv, held⟩ taken
    refine ⟨step_inv state event next inv taken, fun s later there now => ?_⟩
    rcases session_step state next event inv taken s later there with
      ⟨_, fresh⟩ | ⟨session, found, change⟩
    · rw [now] at fresh
      cases fresh
    · cases change with
      | kept same _ verified =>
        obtain ⟨info, carried, first, cert, rest, before, after, shown, split, document⟩ :=
          held s session found (same.symm.trans now)
        exact ⟨info, verified.trans carried, first, cert, rest ++ [event], before, after, shown,
          by simp [split], document⟩
      | accepted _ _ _ _ _ _ _ waiting _ =>
        rw [now] at waiting
        cases waiting
      | admitted cert info v vnet asked read _ _ _ before authed _ verified =>
        subst asked
        refine ⟨withNetworkUuid info vnet, verified, past, cert, [], state, next, info, rfl, early,
          taken, by simp [Switch.stateOf, found, before], by simp [Switch.stateOf, there, authed],
          read, ?_⟩
        unfold withNetworkUuid
        split <;> rfl
      | purged _ purge _ =>
        rw [now] at purge
        cases purge
  obtain ⟨info, carried, shown⟩ := verified s session found authed
  rw [Session.verified, if_pos authed] at carried
  exact ⟨info, carried, shown⟩

/-! ## A node under both kinds of name -/

/-- The controller's message about the node "a". -/
def sampleNode : Option NodeDocument :=
  some { uuid := some (sampleUuid 0x61), networkuuid := some (sampleUuid 0x4e) }

/-- The result of a command that returned a code. -/
theorem returned_code (result : Option (Switch × Int)) (code : Int) (done : result.isSome)
    (same : (result.get done).2 = code) : result = some ((result.get done).1, code) := by
  obtain ⟨⟨after, returned⟩, rfl⟩ := Option.isSome_iff_exists.mp done
  rw [← same]
  rfl

/-- The node "a" joins under its name of version 1, which carries its uuid. -/
def namedRun : List Event := sampleNetwork [0x61] ++ sampleJoin 1 0x61

def namedSwitch : Switch := (run step Switch.initial namedRun).get (by decide)

theorem namedSwitch_findable : Findable namedSwitch (sampleUuid 0x4e) (sampleUuid 0x61) := by
  intro s session found _ _
  have inv := reachable_inv namedSwitch namedRun (Option.some_get _).symm
  have opened : namedSwitch.opened = [1] := by decide
  have own := (inv.sessions s session found).opened
  rw [opened, List.mem_singleton] at own
  subst own
  exact ⟨0, (namedSwitch.vnets 0).get (by decide), by decide, (Option.some_get _).symm, by decide⟩

theorem namedRun_revoked :
    Revoked ((delNode namedSwitch sampleNode).get (by decide)).1 (sampleUuid 0x4e)
      (sampleUuid 0x61) :=
  (revoked_iff namedRun namedSwitch _ (sampleUuid 0x61) (sampleUuid 0x4e) (sampleUuid 0x61)
    (Option.some_get _).symm (by decide)
    (returned_code (delNode namedSwitch sampleNode) 0 (by decide) (by decide))).mpr
    namedSwitch_findable

/-- The node "a" joins under a name of version 2, "nva2-networkUuid", which does not. -/
def unnamedRun : List Event :=
  sampleNetwork [0x61] ++ [.connect 1 [], .input 1 { now := 0, rand := 0 } (.authRequest
    (ascii ['n', 'v', 'a', '2', '-'] ++ sampleUuid 0x4e)), .secure 1 (sampleCert 0x61)]

def unnamedSwitch : Switch := (run step Switch.initial unnamedRun).get (by decide)

def unnamedAfter : Switch := ((delNode unnamedSwitch sampleNode).get (by decide)).1

/-- del_node returns 0, and the node's session is still authenticated. -/
theorem unnamedRun_not_revoked : run step Switch.initial unnamedRun = some unnamedSwitch ∧
    delNode unnamedSwitch sampleNode = some (unnamedAfter, 0) ∧
    (∃ session, unnamedAfter.sessions 1 = some session ∧ session.state = .authed ∧
      OfNode unnamedAfter (sampleUuid 0x4e) (sampleUuid 0x61) session) ∧
    ¬ Revoked unnamedAfter (sampleUuid 0x4e) (sampleUuid 0x61) := by
  have node : OfNode unnamedAfter (sampleUuid 0x4e) (sampleUuid 0x61)
      ((unnamedAfter.sessions 1).get (by decide)) :=
    ⟨0, ((unnamedAfter.sessions 1).get (by decide)).nodeInfo.get (by decide), by decide,
      by decide, (Option.some_get _).symm, by decide⟩
  have authed : ((unnamedAfter.sessions 1).get (by decide)).state = .authed := by decide
  refine ⟨(Option.some_get _).symm,
    returned_code (delNode unnamedSwitch sampleNode) 0 (by decide) (by decide),
    ⟨_, (Option.some_get _).symm, authed, node⟩, ?_⟩
  intro revoked
  exact revoked.now 1 _ (Option.some_get _).symm node authed

end NetVirt.Nvswitch
