import NetVirt.Isolation

/-!
# Learned addresses

The forwarding table of a network has exactly the addresses that its sessions keep lists
of. Frames only add addresses that are bound to nobody, and a session that ends takes its
own with it.
-/

namespace NetVirt.Nvswitch

open Bitv Cert LinkStates LinkedLists Tables Runs

/-- The addresses that a session keeps for a network. -/
def Session.macsIn (v : VnetId) (session : Session) : List (List UInt8) :=
  if session.vnetwork = some v then session.macList else []

def Switch.macsIn (switch : Switch) (v : VnetId) (s : SessionId) : List (List UInt8) :=
  (switch.sessions s).elim [] (Session.macsIn v)

/-- Every forwarding table has the addresses that its network's sessions keep. -/
def AddressesExact (switch : Switch) : Prop :=
  ∀ v vnet, switch.vnets v = some vnet → vnet.ftable.Owned (switch.macsIn v)

theorem mem_macsIn (switch : Switch) (v : VnetId) (s : SessionId) (mac : List UInt8) :
    mac ∈ switch.macsIn v s ↔ ∃ session, switch.sessions s = some session ∧
      session.vnetwork = some v ∧ mac ∈ session.macList := by
  unfold Switch.macsIn Session.macsIn
  cases switch.sessions s with
  | none => simp
  | some session => by_cases member : session.vnetwork = some v <;> simp [member]

theorem macsIn_update (switch after : Switch) (v : VnetId) (s : SessionId)
    (session : Option Session)
    (stored : after.sessions = Function.update switch.sessions s session) :
    after.macsIn v = Function.update (switch.macsIn v) s (session.elim [] (Session.macsIn v)) := by
  unfold Switch.macsIn
  rw [stored]
  exact Function.comp_update (fun session : Option Session => session.elim [] (Session.macsIn v))
    switch.sessions s session

/-- Pointers, ids and states of sessions do not matter. -/
theorem macsIn_same {switch after : Switch} (v : VnetId)
    (same : ∀ s, (after.sessions s).map (fun session => (session.vnetwork, session.macList)) =
      (switch.sessions s).map fun session => (session.vnetwork, session.macList)) :
    after.macsIn v = switch.macsIn v := by
  funext s
  have kept := same s
  unfold Switch.macsIn
  cases here : after.sessions s with
  | none =>
    rw [here, Option.map_none, eq_comm, Option.map_eq_none_iff] at kept
    rw [kept]
  | some changed =>
    rw [here, Option.map_some, eq_comm, Option.map_eq_some_iff] at kept
    obtain ⟨session, there, both⟩ := kept
    obtain ⟨vnetwork, macList⟩ := Prod.mk.inj both
    simp only [there, Option.elim_some, Session.macsIn, vnetwork, macList]

theorem Quiet.addresses {switch after : Switch} (quiet : Quiet switch after)
    (exact : AddressesExact switch) : AddressesExact after := by
  intro v changed home
  obtain ⟨vnet, there, core⟩ := quiet.vnet v changed home
  have table : changed.ftable = vnet.ftable := congrArg VNetworkCore.ftable core
  have macs : after.macsIn v = switch.macsIn v := by
    refine macsIn_same v fun s => ?_
    have same := congrArg (Option.map fun core : SessionCore => (core.vnetwork, core.macList))
      (quiet.sessions s)
    rwa [Option.map_map, Option.map_map] at same
  rw [macs, table]
  exact exact v vnet there

/-- Every session keeps the addresses that it kept, and every network its table. -/
theorem AddressesExact.same {switch after : Switch} (exact : AddressesExact switch)
    (macs : ∀ v, after.macsIn v = switch.macsIn v)
    (tables : ∀ v vnet, after.vnets v = some vnet →
      ∃ before, switch.vnets v = some before ∧ vnet.ftable = before.ftable) :
    AddressesExact after := by
  intro v vnet home
  obtain ⟨before, there, table⟩ := tables v vnet home
  rw [macs, table]
  exact exact v before there

theorem initial_addresses : AddressesExact Switch.initial := by
  intro v vnet home
  cases home

/-- A network changes, but not its forwarding table. -/
theorem AddressesExact.setVnet {switch : Switch} (exact : AddressesExact switch) (v : VnetId)
    (vnet changed : VNetwork) (home : switch.vnets v = some vnet)
    (table : changed.ftable = vnet.ftable) : AddressesExact (switch.setVnet v changed) := by
  refine exact.same (fun w => rfl) fun w other there => ?_
  by_cases own : w = v
  · rw [own, Switch.setVnet_vnets, Function.update_self, Option.some.injEq] at there
    exact ⟨vnet, own ▸ home, there ▸ table⟩
  · rw [Switch.setVnet_vnets, Function.update_of_ne own] at there
    exact ⟨other, there, rfl⟩

/-- A session changes, but neither its network nor its addresses. -/
theorem AddressesExact.setSession {switch : Switch} (exact : AddressesExact switch) (s : SessionId)
    (session changed : Session) (found : switch.sessions s = some session)
    (vnetwork : changed.vnetwork = session.vnetwork) (macList : changed.macList = session.macList) :
    AddressesExact (switch.setSession s changed) := by
  refine exact.same (fun w => ?_) fun w other there => ⟨other, there, rfl⟩
  refine macsIn_same w fun t => ?_
  by_cases own : t = s
  · simp [own, found, vnetwork, macList]
  · simp [own]

/-- The addresses of a session, in its network and in others. -/
theorem member_macs (switch : Switch) (s : SessionId) (session : Session) (v w : VnetId)
    (found : switch.sessions s = some session) (member : session.vnetwork = some v) :
    switch.macsIn w s = if w = v then session.macList else [] := by
  by_cases own : w = v
  · simp [Switch.macsIn, Session.macsIn, found, member, own]
  · simp [Switch.macsIn, Session.macsIn, found, member, own, Ne.symm own]

section Changes
variable {switch : Switch} (exact : AddressesExact switch) (s : SessionId) (session : Session)
  (v : VnetId) (vnet : VNetwork) (found : switch.sessions s = some session)
  (home : switch.vnets v = some vnet)
include exact found home

/-- A session is added to its network. -/
theorem AddressesExact.admitted (changed : Session) (vnetwork : changed.vnetwork = session.vnetwork)
    (macList : changed.macList = session.macList) (next : changed.next = session.next)
    (prev : changed.prev = session.prev) :
    AddressesExact (switch.admitted v s changed vnet) := by
  refine exact.same (fun w => macsIn_same w fun t => ?_) fun w other there => ?_
  · rw [admitted_sessions switch s session changed v vnet found next prev t]
    by_cases own : t = s
    · simp [own, found, vnetwork, macList]
    · rw [if_neg own, Option.map_map]
      rfl
  · rw [admitted_vnets] at there
    by_cases own : w = v
    · rw [if_pos own, Option.some.injEq] at there
      exact ⟨vnet, own ▸ home, there ▸ rfl⟩
    · rw [if_neg own] at there
      exact ⟨other, there, rfl⟩

variable (member : session.vnetwork = some v)
include member

/-- An address that is bound to nobody is bound to the session. -/
theorem AddressesExact.learned (mac : List UInt8) (unbound : vnet.ftable.find mac = none) :
    AddressesExact ((switch.setVnet v { vnet with
        ftable := vnet.ftable.insert mac s }).setSession s { session with
      macAddr := mac
      macList := mac :: session.macList }) := by
  intro w changed there
  rw [macsIn_update switch _ w s _ rfl]
  by_cases own : w = v
  · simp only [own, Switch.setSession_vnets, Switch.setVnet_vnets, Function.update_self,
      Option.some.injEq] at there
    have learns := (exact v vnet home).learn mac s unbound
    rw [member_macs switch s session v _ found member, if_pos rfl] at learns
    simpa [← there, own, Session.macsIn, member] using learns
  · rw [Switch.setSession_vnets, Switch.setVnet_vnets, Function.update_of_ne own] at there
    have none : switch.macsIn w s = [] := by
      rw [member_macs switch s session v _ found member, if_neg own]
    have same : Function.update (switch.macsIn w) s [] = switch.macsIn w := by
      rw [← none, Function.update_eq_self]
    have kept := exact w changed there
    rw [← same] at kept
    simpa [Session.macsIn, member, Ne.symm own] using kept

/-- The session leaves its network, and its addresses are erased. -/
theorem AddressesExact.left : AddressesExact (switch.left v s session vnet) := by
  have macs : ∀ w, (switch.left v s session vnet).macsIn w =
      Function.update (switch.macsIn w) s [] := by
    intro w
    refine (@macsIn_same (switch.sessionFree s) _ w fun t => ?_).trans
      (macsIn_update switch _ w s none rfl)
    rw [left_sessions]
    by_cases own : t = s
    · simp [own]
    · simp only [own, if_false, Option.map_map, Switch.sessionFree_sessions, ne_eq,
        not_false_eq_true, Function.update_of_ne]
      rfl
  intro w changed there
  rw [macs]
  rw [left_vnets] at there
  by_cases own : w = v
  · rw [if_pos own, Option.some.injEq] at there
    have forgets := (exact v vnet home).forget s
    rw [member_macs switch s session v _ found member, if_pos rfl] at forgets
    rw [← there, own]
    exact forgets
  · rw [if_neg own] at there
    have none : switch.macsIn w s = [] := by
      rw [member_macs switch s session v _ found member, if_neg own]
    rw [← none, Function.update_eq_self]
    exact exact w changed there

end Changes

/-- Each event but del-network keeps the tables and the lists in step. -/
theorem addresses_step (switch : Switch) (event : Event) (after : Switch) (inv : Inv switch)
    (exact : AddressesExact switch) (allowed : ∀ uuid, event ≠ .delNetwork uuid)
    (taken : step switch event = some after) : AddressesExact after := by
  -- A session that keeps no address is stored, or freed.
  have bare : ∀ (middle : Switch) s (stored : Option Session),
      middle.sessions = Function.update switch.sessions s stored → middle.vnets = switch.vnets →
      (∀ v, switch.macsIn v s = []) → (∀ v, stored.elim [] (Session.macsIn v) = []) →
      AddressesExact middle := by
    intro middle s stored sessions vnets before later
    refine exact.same (fun v => ?_) fun v vnet home => ⟨vnet, vnets ▸ home, rfl⟩
    rw [macsIn_update switch middle v s stored sessions, later, ← before v,
      Function.update_eq_self]
  cases step_effect switch after inv event taken with
  | quiet rest => exact rest.addresses exact
  | connected s peerHost fresh rest =>
    have absent := (inv.unopened s fresh).1
    exact rest ▸ bare _ s _ rfl rfl (by simp [Switch.macsIn, absent])
      (by simp [Session.macsIn, sessionNew])
  | accepted s session v vnet env certName asked found state home rest =>
    have held := inv.sessions s session found
    have none := (held.unlinked (held.unknown state).2).2.2
    exact rest.addresses (bare _ s _ rfl rfl (by simp [Switch.macsIn, Session.macsIn, found, none])
      (by simp [Session.macsIn, none]))
  | admitted s session v vnet cert info asked read found state member home listed rest =>
    exact rest.addresses (exact.admitted s session v vnet found home
      (session.admitted vnet info) rfl rfl rfl rfl)
  | learned s session v vnet mac found state member home unbound rest =>
    exact rest.addresses (exact.learned s session v vnet found home member mac unbound)
  | left s session v vnet ended found state member home rest =>
    exact rest.addresses (exact.left s session v vnet found home member)
  | freed s session ended found state rest =>
    have alone : session.vnetwork = none :=
      state.elim (fun fresh => ((inv.sessions s session found).unknown fresh).1) id
    refine rest.addresses (bare _ s none rfl rfl (fun v => ?_) (by simp))
    simp [Switch.macsIn, Session.macsIn, found, alone]
  | granted uuid networkUuid key v vnet asked known home read rest =>
    exact rest ▸ exact.setVnet v vnet _ home rfl
  | revoked v vnet key node asked home rest =>
    have stripped := exact.setVnet v vnet { vnet with atable := vnet.atable.erase key } home rfl
    rcases rest with rfl | ⟨s, session, found, rfl⟩
    · exact stripped
    · exact stripped.setSession s session { session with state := .purge } found rfl rfl
  | created id uuid rest =>
    intro v vnet home
    have macs : after.macsIn v = switch.macsIn v := rest ▸ rfl
    have vnets : after.vnets = Function.update switch.vnets switch.vnetCount
        (some (vnetworkNew id uuid)) := rest ▸ rfl
    rw [vnets] at home
    rw [macs]
    by_cases own : v = switch.vnetCount
    · rw [own, Function.update_self, Option.some.injEq] at home
      rw [← home]
      refine Table.owned_empty _ fun s => List.eq_nil_iff_forall_not_mem.mpr fun mac inside => ?_
      obtain ⟨session, found, belongs, _⟩ := (mem_macsIn switch v s mac).mp inside
      exact Nat.lt_irrefl _ (own ▸ (inv.sessions s session found).placed v belongs)
    · rw [Function.update_of_ne own] at home
      exact exact v vnet home
  | deleted uuid v vnet members asked known home walked rest => exact absurd asked (allowed _)

/-- An address stays bound to its session until the session ends. -/
theorem bound_stays (switch : Switch) (event : Event) (after : Switch) (inv : Inv switch)
    (exact : AddressesExact switch) (allowed : ∀ uuid, event ≠ .delNetwork uuid)
    (taken : step switch event = some after) (v : VnetId) (vnet : VNetwork) (mac : List UInt8)
    (s : SessionId) (home : switch.vnets v = some vnet) (bound : vnet.ftable.find mac = some s)
    (lasts : ends switch event ≠ some s) :
    ∃ changed, after.vnets v = some changed ∧ changed.ftable.find mac = some s := by
  have quiet : ∀ middle, Quiet middle after →
      (∃ there, middle.vnets v = some there ∧ there.ftable.find mac = some s) →
      ∃ changed, after.vnets v = some changed ∧ changed.ftable.find mac = some s := by
    rintro middle rest ⟨there, present, kept⟩
    obtain ⟨changed, stays, core⟩ := rest.symmetric_vnet v there present
    have table : changed.ftable = there.ftable := congrArg VNetworkCore.ftable core
    exact ⟨changed, stays, table ▸ kept⟩
  -- A network is stored whose table has the address, if the network was one that has it.
  have stored : ∀ w before changed, switch.vnets w = some before →
      (before.ftable.find mac = some s → changed.ftable.find mac = some s) →
      ∃ there, Function.update switch.vnets w (some changed) v = some there ∧
        there.ftable.find mac = some s := by
    intro w before changed present kept
    by_cases own : v = w
    · subst own
      obtain rfl := Option.some.inj (home.symm.trans present)
      exact ⟨changed, Function.update_self .., kept bound⟩
    · exact ⟨vnet, by rw [Function.update_of_ne own, home], bound⟩
  cases step_effect switch after inv event taken with
  | quiet rest => exact quiet _ rest ⟨vnet, home, bound⟩
  | connected t peerHost fresh rest => exact rest ▸ ⟨vnet, home, bound⟩
  | accepted t session w network env certName asked found state present rest =>
    exact quiet _ rest ⟨vnet, home, bound⟩
  | admitted t session w network cert info asked read found state member present listed rest =>
    refine quiet _ rest ?_
    rw [admitted_vnets]
    by_cases own : v = w
    · subst own
      obtain rfl := Option.some.inj (home.symm.trans present)
      exact ⟨_, if_pos rfl, bound⟩
    · exact ⟨vnet, (if_neg own).trans home, bound⟩
  | learned t session w network learned found state member present unbound rest =>
    refine quiet _ rest (stored w network _ present fun kept => ?_)
    have other : mac ≠ learned := by
      rintro rfl
      rw [kept] at unbound
      cases unbound
    simpa [Table.find_insert, other] using kept
  | left t session w network ended found state member present rest =>
    refine quiet _ rest ?_
    rw [left_vnets]
    by_cases own : v = w
    · subst own
      obtain rfl := Option.some.inj (home.symm.trans present)
      refine ⟨_, if_pos rfl, ?_⟩
      -- The address is none of the session's that left.
      have other : mac ∉ session.macList := by
        intro inside
        have keeps := (exact v vnet home).exact mac t
        rw [member_macs switch t session v v found member, if_pos rfl] at keeps
        have same := Option.some.inj ((keeps.mpr inside).symm.trans bound)
        exact lasts (same ▸ ended)
      rw [Table.find_eraseAll, if_neg other]
      exact bound
    · exact ⟨vnet, (if_neg own).trans home, bound⟩
  | freed t session ended found state rest => exact quiet _ rest ⟨vnet, home, bound⟩
  | granted uuid networkUuid key w network asked known present read rest =>
    exact rest ▸ stored w network _ present id
  | revoked w network key node asked present rest =>
    have stripped := stored w network { network with atable := network.atable.erase key } present id
    rcases rest with rfl | ⟨t, session, found, rfl⟩
    · exact stripped
    · exact stripped
  | created id uuid rest =>
    have apart : v ≠ switch.vnetCount := Nat.ne_of_lt (inv.vnets v vnet home).known
    exact rest ▸ ⟨vnet, (Function.update_of_ne apart ..).trans home, bound⟩
  | deleted uuid w network members asked known present walked rest =>
    exact absurd asked (allowed _)

/-! ## Runs -/

theorem reachable_addresses (events : List Event) (switch : Switch)
    (calm : ∀ event ∈ events, ∀ uuid, event ≠ .delNetwork uuid)
    (reached : run step Switch.initial events = some switch) :
    Inv switch ∧ AddressesExact switch := by
  refine invariant_of_allowed step (fun event => ∀ uuid, event ≠ .delNetwork uuid)
    (fun switch => Inv switch ∧ AddressesExact switch) ?_ Switch.initial switch events
    ⟨initial_inv, initial_addresses⟩ calm reached
  rintro state event next ⟨inv, exact⟩ allowed taken
  exact ⟨step_inv state event next inv taken,
    addresses_step state event next inv exact allowed taken⟩

/-- In every run without del-network, a forwarding table has exactly the addresses that the
sessions of its network keep, and no address is kept twice. An address stays bound to its
session in every step that does not end the session, and to a session that was disconnected
no address is bound.

Proof: every step keeps the table of a network the inverse of the address lists of its
sessions. The other statements are read off this: an entry is lost only with its session, and
an ended session has no list. -/
theorem addresses_consistent (events : List Event) (switch : Switch)
    (calm : ∀ event ∈ events, ∀ uuid, event ≠ .delNetwork uuid)
    (reached : run step Switch.initial events = some switch) :
    (∀ v vnet, switch.vnets v = some vnet → ∀ mac s, vnet.ftable.find mac = some s ↔
      ∃ session, switch.sessions s = some session ∧ session.vnetwork = some v ∧
        mac ∈ session.macList) ∧
    (∀ v s session, switch.sessions s = some session → session.vnetwork = some v →
      session.macList.Nodup ∧ ∀ t other, switch.sessions t = some other →
        other.vnetwork = some v → ∀ mac ∈ session.macList, mac ∈ other.macList → s = t) ∧
    (∀ event after, (∀ uuid, event ≠ .delNetwork uuid) → step switch event = some after →
      ∀ v vnet mac s, switch.vnets v = some vnet → vnet.ftable.find mac = some s →
        ends switch event ≠ some s →
        ∃ changed, after.vnets v = some changed ∧ changed.ftable.find mac = some s) ∧
    ∀ s gone, onDisconnect switch s = some gone → ∀ v vnet mac, gone.vnets v = some vnet →
      vnet.ftable.find mac ≠ some s := by
  obtain ⟨inv, exact⟩ := reachable_addresses events switch calm reached
  refine ⟨?_, ?_, ?_, ?_⟩
  · intro v vnet home mac s
    rw [(exact v vnet home).exact, mem_macsIn]
  · intro v s session found member
    obtain ⟨_, alive⟩ := reachable_alive switch events
      (fun uuid inside => calm _ inside uuid rfl) reached
    obtain ⟨vnet, home⟩ := alive s session v found member
    have kept := member_macs switch s session v v found member
    rw [if_pos rfl] at kept
    refine ⟨kept ▸ (exact v vnet home).nodup s, ?_⟩
    intro t other there belongs mac own shared
    exact (exact v vnet home).unique mac s t
      ((mem_macsIn switch v s mac).mpr ⟨session, found, member, own⟩)
      ((mem_macsIn switch v t mac).mpr ⟨other, there, belongs, shared⟩)
  · intro event after allowed taken v vnet mac s home bound lasts
    exact bound_stays switch event after inv exact allowed taken v vnet mac s home bound lasts
  · intro s gone disconnected v vnet mac home bound
    have after := addresses_step switch (.disconnect s) gone inv exact (by simp) disconnected
    obtain ⟨session, found, _⟩ := (mem_macsIn gone v s mac).mp
      (((after v vnet home).exact mac s).mp bound)
    have none : gone.sessions s = none := by
      obtain ⟨_, _, ⟨_, rfl⟩ | ⟨_, _, _, _, _, rfl⟩⟩ := onDisconnect_cases _ _ _ disconnected
      · simp
      · simp
    rw [none] at found
    cases found

/-- A session sends from an address, which another one then claims, too. -/
def spoofRun : List Event :=
  pairRun ++ [.input 1 { now := 0, rand := 0 } (.ethernet unknownFrame)]

def spoofSwitch : Switch := (run step Switch.initial spoofRun).get (by decide)

theorem spoofRun_bound : ∃ vnet after changed, spoofSwitch.vnets 0 = some vnet ∧
    vnet.ftable.find (List.replicate 6 2) = some 1 ∧
    step spoofSwitch (.input 2 { now := 0, rand := 0 } (.ethernet unknownFrame)) = some after ∧
    after.vnets 0 = some changed ∧ changed.ftable.find (List.replicate 6 2) = some 1 := by
  have home := Option.some_get (show (spoofSwitch.vnets 0).isSome = true by decide)
  have taken := Option.some_get (show (step spoofSwitch
    (.input 2 { now := 0, rand := 0 } (.ethernet unknownFrame))).isSome = true by decide)
  obtain ⟨changed, there, bound⟩ := (addresses_consistent spoofRun spoofSwitch
    (by simp [spoofRun, pairRun, sampleNetwork, sampleJoin, sampleAsk])
    (Option.some_get _).symm).2.2.1 _ _ (by simp) taken.symm 0 _ (List.replicate 6 2) 1 home.symm
    (by decide) (by decide)
  exact ⟨_, _, changed, home.symm, by decide, taken.symm, there, bound⟩

end NetVirt.Nvswitch
