import NetVirt.SwitchRuns

/-!
# The session list of a network

The list that a network's session_list leads is the list of its members, as long as no
session is disconnected between its accepted authRequest and the check of the access
table. Such a session has no neighbours, so vnetwork_del_session takes it for the only one
of the list: the list is dropped with everybody on it, and the count goes down by one.
-/

namespace NetVirt.Nvswitch

open Bitv Cert LinkStates LinkedLists Tables Runs

/-- Following `next` visits each member of the network once and nobody else, `prev` is the
inverse of `next`, and active_node is the length of the list. -/
structure ListExact (switch : Switch) (v : VnetId) (vnet : VNetwork) (list : List SessionId) :
    Prop where
  walked : switch.sessionList vnet.sessionList = some list
  once : list.Nodup
  members : ∀ s, s ∈ list ↔ Member switch v s
  inverse : ∀ s ∈ list, ∀ t ∈ list,
    (switch.links v).next s = some t ↔ (switch.links v).prev t = some s
  counted : list.length ≤ maxNode → vnet.activeNode.toNat = list.length

/-- The list of every network is exact. -/
def ListsExact (switch : Switch) : Prop :=
  ∀ v vnet, switch.vnets v = some vnet → ∃ list, ListExact switch v vnet list

/-- A session that the event ends has no network, or has passed the check for it. -/
def EndsListed (switch : Switch) (event : Event) : Prop :=
  ∀ s ∈ ends switch event, ∀ session ∈ switch.sessions s,
    session.vnetwork = none ∨ Passed switch s

/-- The members of a network form one chain, which its session_list leads. -/
structure Listed (switch : Switch) (v : VnetId) (vnet : VNetwork) (list : List SessionId) :
    Prop where
  formed : Chains (switch.links v) [list]
  members : ∀ s, s ∈ list ↔ Member switch v s
  counted : vnet.activeNode = BitVec.ofNat 32 list.length

/-- There is a single chain for each network. -/
def AllListed (switch : Switch) : Prop :=
  ∀ v vnet, switch.vnets v = some vnet → ∃ list, Listed switch v vnet list

theorem Listed.led {switch : Switch} {v : VnetId} {vnet : VNetwork} {list : List SessionId}
    (listed : Listed switch v vnet list) : (switch.links v).head = list.head? := by
  obtain ⟨chain, inside, head⟩ := listed.formed.led
  rwa [List.mem_singleton.mp inside] at head

/-- A list that a step does not disturb is still the list. -/
theorem Undisturbed.listed {switch after : Switch} {v : VnetId} {vnet changed : VNetwork}
    {list : List SessionId} (same : Undisturbed switch after v)
    (listed : Listed switch v vnet list) (count : changed.activeNode = vnet.activeNode) :
    Listed after v changed list := by
  have inside : ∀ s ∈ [list].flatten, Member switch v s := by
    intro s within
    exact (listed.members s).mp (by simpa using within)
  constructor
  · exact listed.formed.congr same.head (fun s within => same.next s (inside s within))
      (fun s within => same.prev s (inside s within))
  · intro s
    rw [listed.members, same.member]
  · rw [count, listed.counted]

/-- One chain for each network is what the lists need. -/
theorem AllListed.exact {switch : Switch} (inv : Inv switch) (all : AllListed switch) :
    ListsExact switch := by
  intro v vnet home
  obtain ⟨list, listed⟩ := all v vnet home
  have formed := listed.formed.runs list List.mem_cons_self
  have distinct : list.Nodup := by simpa using listed.formed.apart
  have leader : vnet.sessionList = list.head? := by
    rw [← listed.led]
    simp [Switch.links, home]
  refine ⟨list, ?_, distinct, listed.members, ?_, ?_⟩
  · rw [leader]
    exact inv.walked v list formed distinct fun s inside => (listed.members s).mp inside
  · exact fun s inside t within => run_inverse (switch.links v) list formed s t inside within
  · intro bounded
    have small : list.length < 2 ^ 32 := Nat.lt_of_le_of_lt bounded (by decide)
    rw [listed.counted, BitVec.toNat_ofNat, Nat.mod_eq_of_lt small]

theorem initial_listed : AllListed Switch.initial := fun v vnet home => by cases home

/-- A step that disturbs no list and changes no count. -/
theorem AllListed.undisturbed {switch after : Switch} (all : AllListed switch)
    (same : ∀ v, Undisturbed switch after v)
    (counts : ∀ v changed, after.vnets v = some changed → ∃ vnet, switch.vnets v = some vnet ∧
      changed.activeNode = vnet.activeNode) : AllListed after := by
  intro v changed there
  obtain ⟨vnet, home, count⟩ := counts v changed there
  obtain ⟨list, listed⟩ := all v vnet home
  exact ⟨list, (same v).listed listed count⟩

theorem Quiet.allListed {switch after : Switch} (quiet : Quiet switch after)
    (all : AllListed switch) : AllListed after := by
  refine all.undisturbed quiet.undisturbed ?_
  intro v changed there
  obtain ⟨vnet, home, core⟩ := quiet.vnet v changed there
  exact ⟨vnet, home, congrArg VNetworkCore.activeNode core⟩

/-- A network keeps its count when something else of it changes. -/
theorem count_setVnet (switch : Switch) (v w : VnetId) (vnet changed other : VNetwork)
    (home : switch.vnets v = some vnet) (same : changed.activeNode = vnet.activeNode)
    (there : (switch.setVnet v changed).vnets w = some other) :
    ∃ kept, switch.vnets w = some kept ∧ other.activeNode = kept.activeNode := by
  by_cases own : w = v
  · subst own
    rw [Switch.setVnet_vnets, Function.update_self, Option.some.injEq] at there
    exact ⟨vnet, home, there ▸ same⟩
  · rw [Switch.setVnet_vnets, Function.update_of_ne own] at there
    exact ⟨other, there, rfl⟩

/-- An admitted session is at the front of its network's list. -/
theorem admitted_listed (switch : Switch) (inv : Inv switch) (all : AllListed switch)
    (s : SessionId) (session changed : Session) (v : VnetId) (vnet : VNetwork)
    (found : switch.sessions s = some session) (unknown : ¬ Passed switch s)
    (home : switch.vnets v = some vnet) (belongs : changed.vnetwork = some v)
    (next : changed.next = session.next) (prev : changed.prev = session.prev) :
    AllListed (switch.admitted v s changed vnet) := by
  intro w other there
  rw [admitted_vnets] at there
  by_cases own : w = v
  · subst own
    rw [if_pos rfl, Option.some.injEq] at there
    subst there
    obtain ⟨list, listed⟩ := all w vnet home
    have outside : s ∉ list := by
      rw [listed.members]
      rintro ⟨_, _, _, told⟩
      exact unknown told
    have unlinked : (switch.links w).prev s = none := by
      simp [Switch.links, found, ((inv.sessions s session found).unlinked unknown).2.1]
    refine ⟨s :: list, ?_, ?_, ?_⟩
    · have pushed := listed.formed.push listed.led (by simpa using outside) unlinked
      have links := admitted_links switch s session changed w vnet found next prev
      have inside : ∀ t ∈ [s :: list].flatten, t = s ∨ ∃ other, switch.sessions t = some other := by
        intro t within
        rw [List.flatten_singleton, List.mem_cons, listed.members] at within
        rcases within with rfl | ⟨before, present, _⟩
        · exact Or.inl rfl
        · exact Or.inr ⟨before, present⟩
      refine pushed.congr (by simp [Switch.links, admitted_vnets, Links.push]) ?_ ?_
      · exact fun t within => (links t w home (inside t within)).1
      · exact fun t within => (links t w home (inside t within)).2
    · intro t
      rw [List.mem_cons, listed.members,
        admitted_member switch s session changed w vnet found next prev w t belongs unknown]
      simp
    · simp only [listed.counted, List.length_cons]
      exact (BitVec.ofNat_add _ _).symm
  · rw [if_neg own] at there
    obtain ⟨list, listed⟩ := all w other there
    exact ⟨list, (admitted_undisturbed inv s session changed v w vnet found unknown home
      belongs next prev own).listed listed rfl⟩

/-- A member that leaves is taken out of its network's list. -/
theorem left_listed (switch : Switch) (inv : Inv switch) (all : AllListed switch)
    (s : SessionId) (session : Session) (v : VnetId) (vnet : VNetwork)
    (found : switch.sessions s = some session) (member : session.vnetwork = some v)
    (passed : Passed switch s) (home : switch.vnets v = some vnet) :
    AllListed (switch.left v s session vnet) := by
  intro w other there
  rw [left_vnets] at there
  by_cases own : w = v
  · subst own
    rw [if_pos rfl, Option.some.injEq] at there
    subst there
    obtain ⟨list, listed⟩ := all w vnet home
    have distinct : list.Nodup := by simpa using listed.formed.apart
    have inside : s ∈ list := (listed.members s).mpr ⟨session, found, member, passed⟩
    have present : ∀ t ∈ [list.erase s].flatten, t ≠ s ∧
        ∃ before, switch.sessions t = some before := by
      intro t within
      rw [List.flatten_singleton, distinct.mem_erase_iff, listed.members] at within
      obtain ⟨apart, before, there, _⟩ := within
      exact ⟨apart, before, there⟩
    refine ⟨list.erase s, ?_, ?_, ?_⟩
    · refine (listed.formed.erase inside).congr (by simp [Switch.links, left_vnets]) ?_ ?_
      · exact fun t within => (left_links switch s t session w w vnet (present t within).1
          (present t within).2).1
      · exact fun t within => (left_links switch s t session w w vnet (present t within).1
          (present t within).2).2
    · intro t
      rw [distinct.mem_erase_iff, listed.members, left_member]
    · have positive : 0 < list.length := List.length_pos_of_mem inside
      rw [List.length_erase_of_mem inside, ← Nat.sub_add_cancel positive]
      simp only [listed.counted]
      bv_omega
  · rw [if_neg own] at there
    obtain ⟨list, listed⟩ := all w other there
    exact ⟨list, (left_undisturbed inv s session v w vnet found member home own).listed
      listed rfl⟩

/-- A created network has no members. -/
theorem created_listed (switch : Switch) (inv : Inv switch) (all : AllListed switch)
    (id uuid : List UInt8) : AllListed (vnetworkCreate switch id uuid) := by
  intro v vnet there
  by_cases own : v = switch.vnetCount
  · subst own
    simp only [vnetworkCreate, Function.update_self, Option.some.injEq] at there
    subst there
    refine ⟨[], { runs := ?_, apart := by simp, led := ?_ }, ?_, rfl⟩
    · intro chain inside
      obtain rfl := List.mem_singleton.mp inside
      trivial
    · exact ⟨[], List.mem_cons_self, by simp [Switch.links, vnetworkCreate, vnetworkNew]⟩
    · intro s
      refine iff_of_false List.not_mem_nil ?_
      rintro ⟨session, found, member, _⟩
      exact Nat.lt_irrefl _ ((inv.sessions s session found).placed _ member)
  · simp only [vnetworkCreate, Function.update_of_ne own] at there
    obtain ⟨list, listed⟩ := all v vnet there
    exact ⟨list, (created_undisturbed switch id uuid v own).listed listed rfl⟩

/-- A step that ends no session before its check keeps every list. -/
theorem step_listed (switch : Switch) (event : Event) (after : Switch) (inv : Inv switch)
    (all : AllListed switch) (allowed : ∀ uuid, event ≠ .delNetwork uuid)
    (met : EndsListed switch event) (taken : step switch event = some after) :
    AllListed after := by
  cases step_effect switch after inv event taken with
  | quiet rest => exact rest.allListed all
  | connected s peerHost fresh rest =>
    subst rest
    refine all.undisturbed (fun v => ?_) fun v changed there => ⟨changed, there, rfl⟩
    exact connected_undisturbed inv s peerHost v fresh
  | accepted s session v vnet env certName asked found state home rest =>
    have unknown := ((inv.sessions s session found).unknown state).2
    refine rest.allListed (all.undisturbed (fun w => ?_) fun w changed there =>
      ⟨changed, there, rfl⟩)
    exact setSession_undisturbed switch s session _ w found rfl rfl (Or.inl unknown)
  | admitted s session v vnet cert info asked read found state member home listed rest =>
    have unknown := ((inv.sessions s session found).waiting state).2
    apply rest.allListed
    exact admitted_listed switch inv all s session _ v vnet found unknown home member rfl rfl
  | learned s session v vnet mac found state member home unbound rest =>
    refine rest.allListed (all.undisturbed (fun w => ?_) fun w changed there => ?_)
    · exact learned_undisturbed switch s session v w vnet mac found home
    · exact count_setVnet switch v w vnet _ changed home (by rfl) there
  | left s session v vnet ended found state member home rest =>
    have passed : Passed switch s := (met s ended session found).resolve_left (by simp [member])
    apply rest.allListed
    exact left_listed switch inv all s session v vnet found member passed home
  | freed s session ended found state rest =>
    have alone : session.vnetwork = none := by
      rcases state with fresh | alone
      · exact ((inv.sessions s session found).unknown fresh).1
      · exact alone
    refine rest.allListed (all.undisturbed (fun v => ?_) fun v changed there =>
      ⟨changed, there, rfl⟩)
    exact freed_undisturbed switch s session v found alone
  | granted uuid networkUuid key v vnet asked known home read rest =>
    subst rest
    refine all.undisturbed (fun w => ?_) fun w changed there => ?_
    · exact setVnet_undisturbed switch v w vnet _ home rfl
    · exact count_setVnet switch v w vnet _ changed home (by rfl) there
  | revoked v vnet key node asked home rest =>
    have stripped := fun w => setVnet_undisturbed switch v w vnet
      { vnet with atable := vnet.atable.erase key } home rfl
    rcases rest with rfl | ⟨s, session, found, rfl⟩
    · refine all.undisturbed stripped fun w changed there => ?_
      exact count_setVnet switch v w vnet _ changed home (by rfl) there
    · refine all.undisturbed (fun w => (stripped w).trans ?_) fun w changed there => ?_
      · exact setSession_undisturbed _ s session _ w found rfl rfl (Or.inr rfl)
      · exact count_setVnet switch v w vnet _ changed home (by rfl) there
  | created id uuid rest => exact rest ▸ created_listed switch inv all id uuid
  | deleted uuid v vnet members asked known home walked rest => exact absurd asked (allowed _)

/-- A session that is disconnected before its check drops the list of its network. -/
theorem step_unlisted (switch : Switch) (event : Event) (after : Switch) (inv : Inv switch)
    (all : AllListed switch) (unmet : ¬ EndsListed switch event)
    (taken : step switch event = some after) : ¬ ListsExact after := by
  intro exact
  simp only [EndsListed, not_forall, not_or] at unmet
  obtain ⟨s, ended, session, found, placed, unknown⟩ := unmet
  obtain ⟨v, member⟩ := Option.ne_none_iff_exists'.mp placed
  have present : switch.sessions s = some session := found
  have held := inv.sessions s session found
  have past : session.state ≠ .notAuthed := fun fresh => placed (held.unknown fresh).1
  obtain ⟨gone, disconnected, rest⟩ := ends_disconnect switch after event s ended taken
  obtain ⟨vnet, home, left⟩ :=
    onDisconnect_left switch gone s session v present past member disconnected
  have quiet := left.trans rest
  obtain ⟨changed, there, core⟩ := quiet.symmetric_vnet v _
    ((left_vnets switch s session v v vnet).trans (if_pos rfl))
  obtain ⟨walked, _, members, _, counted⟩ := (exact v changed there).choose_spec
  -- The session has no neighbours, so the head is set to NULL.
  have dropped : changed.sessionList = none := by
    refine (congrArg VNetworkCore.sessionList core).trans ?_
    simp [VNetwork.core, Links.remove, Switch.links, present, (held.unlinked unknown).1,
      (held.unlinked unknown).2.1]
  rw [dropped] at walked
  have empty : (exact v changed there).choose = [] := by
    rw [Switch.sessionList, walk_none] at walked
    exact (Option.some.inj walked).symm
  rw [empty] at members counted
  obtain ⟨before, listed⟩ := all v vnet home
  cases before with
  | nil =>
    have count := counted (Nat.zero_le _)
    have less : changed.activeNode = vnet.activeNode - 1 := congrArg VNetworkCore.activeNode core
    rw [less, listed.counted] at count
    cases count
  | cons t others =>
    have member := (listed.members t).mp List.mem_cons_self
    have apart : t ≠ s := by
      rintro rfl
      obtain ⟨_, _, _, told⟩ := member
      exact unknown told
    have stays := (left_member switch s t session v v vnet).mpr ⟨apart, member⟩
    exact List.not_mem_nil ((members t).mpr ((quiet.member v t).mpr stays))

/-! ## Runs -/

/-- In a run without del-network, the lists are exact all along if and only if no session is
disconnected between its accepted authRequest and its check.

Proof: as long as every authenticated session is listed, the invariant of the switch makes the
lists exact. A step that meets the condition keeps them all listed, and one that does not
unlists a session that is still there. -/
theorem lists_exact_iff (events : List Event) (final : Switch)
    (allowed : ∀ uuid, Event.delNetwork uuid ∉ events)
    (reached : run step Switch.initial events = some final) :
    (∀ past, past <+: events → ∀ switch, run step Switch.initial past = some switch →
      ListsExact switch) ↔ Meets step EndsListed Switch.initial events := by
  refine holds_along_iff step (fun event => ∀ uuid, event ≠ .delNetwork uuid) EndsListed
    (fun switch => Inv switch ∧ AllListed switch) ListsExact ?_ ?_ ?_ Switch.initial final
    events ⟨initial_inv, initial_listed⟩ ?_ reached
  · exact fun switch ⟨inv, all⟩ => all.exact inv
  · intro switch event next ⟨inv, all⟩ known met taken
    exact ⟨step_inv switch event next inv taken,
      step_listed switch event next inv all known met taken⟩
  · intro switch event next ⟨inv, all⟩ _ unmet taken
    exact step_unlisted switch event next inv all unmet taken
  · exact fun event inside uuid same => allowed uuid (same ▸ inside)

instance (switch : Switch) (s : SessionId) : Decidable (Passed switch s) :=
  inferInstanceAs (Decidable ((s, Outgoing.authResponse .success) ∈ switch.sent))

instance (switch : Switch) (event : Event) : Decidable (EndsListed switch event) :=
  inferInstanceAs (Decidable (∀ s ∈ ends switch event, ∀ session ∈ switch.sessions s,
    session.vnetwork = none ∨ Passed switch s))

/-- Two sessions join, and one that has not asked for a network goes. -/
def calmRun : List Event :=
  sampleNetwork [0x61, 0x62] ++ sampleJoin 1 0x61 ++ sampleJoin 2 0x62 ++
    [.connect 3 [], .disconnect 3, .disconnect 1]

theorem calmRun_lists_exact : run step Switch.initial calmRun ≠ none ∧
    ∀ past, past <+: calmRun → ∀ switch, run step Switch.initial past = some switch →
      ListsExact switch := by
  refine ⟨by decide, ?_⟩
  exact (lists_exact_iff calmRun ((run step Switch.initial calmRun).get (by decide))
    (by simp [calmRun, sampleNetwork, sampleJoin, sampleAsk]) (Option.some_get _).symm).mpr
    (by decide)

/-- Two sessions join, and one that was accepted goes before its check. -/
def dropRun : List Event :=
  sampleNetwork [0x61, 0x62, 0x63] ++ sampleJoin 1 0x61 ++ sampleJoin 2 0x62 ++
    sampleAsk 3 0x63 ++ [.disconnect 3]

def droppedList : Switch := (run step Switch.initial dropRun).get (by decide)

theorem dropped_member (s : SessionId) (either : s = 1 ∨ s = 2) : Member droppedList 0 s := by
  rcases either with rfl | rfl
  · exact ⟨(droppedList.sessions 1).get (by decide), (Option.some_get _).symm, by decide,
      by decide⟩
  · exact ⟨(droppedList.sessions 2).get (by decide), (Option.some_get _).symm, by decide,
      by decide⟩

/-- Afterwards the list is empty with two members connected, and one is counted. -/
theorem dropRun_drops_list : run step Switch.initial dropRun = some droppedList ∧
    ∃ vnet, droppedList.vnets 0 = some vnet ∧ vnet.sessionList = none ∧ vnet.activeNode = 1 ∧
      Member droppedList 0 1 ∧ Member droppedList 0 2 ∧ ¬ ListsExact droppedList := by
  refine ⟨(Option.some_get _).symm, (droppedList.vnets 0).get (by decide),
    (Option.some_get _).symm, by decide, by decide, dropped_member 1 (Or.inl rfl),
    dropped_member 2 (Or.inr rfl), ?_⟩
  intro exact
  obtain ⟨list, walked, _, members, _⟩ :=
    exact 0 ((droppedList.vnets 0).get (by decide)) (Option.some_get _).symm
  have dropped : ((droppedList.vnets 0).get (by decide)).sessionList = none := by decide
  rw [dropped, Switch.sessionList, walk_none] at walked
  obtain rfl := Option.some.inj walked
  exact List.not_mem_nil ((members 1).mpr (dropped_member 1 (Or.inl rfl)))

end NetVirt.Nvswitch
