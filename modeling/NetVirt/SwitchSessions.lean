import NetVirt.SwitchRuns

/-!
# What an event does to a session

A session's state and network are written in four places: by authRequest, by on_secure and
by two commands of the controller. What one event can do to them is said once here.
-/

namespace NetVirt.Nvswitch

open Bitv Cert LinkStates LinkedLists Tables Runs

/-- The state of a connected session. -/
def Switch.stateOf (switch : Switch) (s : SessionId) : Option SessionState :=
  (switch.sessions s).map Session.state

/-- The session that an event happens on. -/
def Event.session : Event → Option SessionId
  | .connect s _ => some s
  | .input s _ _ => some s
  | .secure s _ => some s
  | .disconnect s => some s
  | _ => none

/-- What an event does to the state and the network of a session that stays connected. -/
inductive Change (switch : Switch) (event : Event) (s : SessionId) (session later : Session) :
    Prop where
  | kept (state : later.state = session.state) (vnetwork : later.vnetwork = session.vnetwork)
    (verified : later.verified = session.verified)
  | accepted (env : Env) (certName : List UInt8) (v : VnetId) (vnet : VNetwork)
    (asked : event = .input s env (.authRequest certName)) (home : switch.vnets v = some vnet)
    (before : session.state = .notAuthed) (state : later.state = .waitStepup)
    (vnetwork : later.vnetwork = some v)
  | admitted (cert : X509) (info : NodeInfo) (v : VnetId) (vnet : VNetwork)
    (asked : event = .secure s cert) (read : certNodeInfo cert = some (some info))
    (member : session.vnetwork = some v) (home : switch.vnets v = some vnet)
    (listed : vnet.atable.find info.uuid = some ()) (before : session.state = .waitStepup)
    (state : later.state = .authed) (vnetwork : later.vnetwork = session.vnetwork)
    (verified : later.verified = some (withNetworkUuid info vnet))
  | purged (asked : (∃ node, event = .delNode node) ∨ ∃ uuid, event = .delNetwork uuid)
    (state : later.state = .purge)
    (vnetwork : later.vnetwork = session.vnetwork ∨ later.vnetwork = none)

/-- A session keeps its state and its network, and the node that it has shown. -/
structure Stays (session later : Session) : Prop where
  state : later.state = session.state
  vnetwork : later.vnetwork = session.vnetwork
  verified : later.verified = session.verified

theorem Stays.refl (session : Session) : Stays session session := ⟨rfl, rfl, rfl⟩

theorem Stays.change {switch : Switch} {event : Event} {s : SessionId} {session later : Session}
    (stays : Stays session later) : Change switch event s session later :=
  .kept stays.state stays.vnetwork stays.verified

/-- A session stays in the quiet rest of a step. -/
theorem Quiet.stays {middle after : Switch} (quiet : Quiet middle after) {s : SessionId}
    {later : Session} (there : after.sessions s = some later) :
    ∃ session, middle.sessions s = some session ∧ Stays session later := by
  obtain ⟨session, present, same⟩ := quiet.session s later there
  exact ⟨session, present, congrArg SessionCore.state same, congrArg SessionCore.vnetwork same,
    congrArg SessionCore.verified same⟩

/-- A session that is there after another one was set is that one, or was there before. -/
theorem Switch.setSession_cases {switch : Switch} {t s : SessionId} {changed later : Session}
    (there : (switch.setSession t changed).sessions s = some later) :
    s = t ∧ later = changed ∨ switch.sessions s = some later := by
  by_cases own : s = t
  · rw [own, Switch.setSession_sessions, Function.update_self, Option.some.injEq] at there
    exact Or.inl ⟨own, there.symm⟩
  · rw [Switch.setSession_sessions, Function.update_of_ne own] at there
    exact Or.inr there

/-- A session that is connected after an event is new, or was connected and has changed in
one of these ways.

Proof: case by case over the effects of a step. Each one writes a session or none before the
quiet rest, in which every session stays as it is. -/
theorem session_step (switch after : Switch) (event : Event) (inv : Inv switch)
    (taken : step switch event = some after) (s : SessionId) (later : Session)
    (there : after.sessions s = some later) :
    (s ∉ switch.opened ∧ later.state = .notAuthed) ∨
      ∃ session, switch.sessions s = some session ∧ Change switch event s session later := by
  cases step_effect switch after inv event taken with
  | quiet rest =>
    obtain ⟨session, present, stays⟩ := rest.stays there
    exact Or.inr ⟨session, present, stays.change⟩
  | connected t peerHost fresh rest =>
    subst rest
    by_cases own : s = t
    · subst own
      simp only [onConnect, Function.update_self, Option.some.injEq] at there
      exact Or.inl ⟨fresh, there ▸ rfl⟩
    · simp only [onConnect, Function.update_of_ne own] at there
      exact Or.inr ⟨later, there, (Stays.refl later).change⟩
  | accepted t session v vnet env certName asked found state home rest =>
    obtain ⟨changed, present, stays⟩ := rest.stays there
    obtain ⟨rfl, rfl⟩ | before := Switch.setSession_cases present
    · exact Or.inr ⟨session, found,
        .accepted env certName v vnet asked home state stays.state stays.vnetwork⟩
    · exact Or.inr ⟨changed, before, stays.change⟩
  | admitted t session v vnet cert info asked read found state member home listed rest =>
    obtain ⟨changed, present, stays⟩ := rest.stays there
    rw [admitted_sessions switch t session (session.admitted vnet info) v vnet found rfl rfl]
      at present
    by_cases own : s = t
    · subst own
      rw [if_pos rfl, Option.some.injEq] at present
      subst present
      exact Or.inr ⟨session, found, .admitted cert info v vnet asked read member home listed
        state stays.state stays.vnetwork stays.verified⟩
    · rw [if_neg own, Option.map_eq_some_iff] at present
      obtain ⟨before, found, rfl⟩ := present
      exact Or.inr ⟨before, found, .kept stays.state stays.vnetwork stays.verified⟩
  | learned t session v vnet mac found state member home unbound rest =>
    obtain ⟨changed, present, stays⟩ := rest.stays there
    obtain ⟨rfl, rfl⟩ | before := Switch.setSession_cases present
    · exact Or.inr ⟨session, found, .kept stays.state stays.vnetwork stays.verified⟩
    · exact Or.inr ⟨changed, before, stays.change⟩
  | left t session v vnet ended found state member home rest =>
    obtain ⟨changed, present, stays⟩ := rest.stays there
    rw [left_sessions] at present
    by_cases own : s = t
    · rw [if_pos own] at present
      cases present
    · rw [if_neg own, Option.map_eq_some_iff] at present
      obtain ⟨before, found, rfl⟩ := present
      exact Or.inr ⟨before, found, .kept stays.state stays.vnetwork stays.verified⟩
  | freed t session ended found state rest =>
    obtain ⟨changed, present, stays⟩ := rest.stays there
    by_cases own : s = t
    · simp [own] at present
    · rw [Switch.sessionFree_sessions, Function.update_of_ne own] at present
      exact Or.inr ⟨changed, present, stays.change⟩
  | granted uuid networkUuid key v vnet asked known home read rest =>
    subst rest
    exact Or.inr ⟨later, there, (Stays.refl later).change⟩
  | revoked v vnet key node asked home rest =>
    rcases rest with rfl | ⟨t, session, found, rfl⟩
    · exact Or.inr ⟨later, there, (Stays.refl later).change⟩
    · obtain ⟨rfl, rfl⟩ | before := Switch.setSession_cases there
      · exact Or.inr ⟨session, found, .purged (Or.inl ⟨node, asked⟩) rfl (Or.inl rfl)⟩
      · exact Or.inr ⟨later, before, (Stays.refl later).change⟩
  | created id uuid rest =>
    subst rest
    exact Or.inr ⟨later, there, (Stays.refl later).change⟩
  | deleted uuid v vnet members asked known home walked rest =>
    subst rest
    obtain ⟨session, found, changed⟩ := Option.map_eq_some_iff.mp there
    by_cases within : s ∈ members
    · rw [if_pos within] at changed
      exact Or.inr ⟨session, found, .purged (Or.inr ⟨some uuid, asked⟩) (changed ▸ rfl)
        (Or.inr (changed ▸ rfl))⟩
    · rw [if_neg within] at changed
      exact Or.inr ⟨session, found, changed ▸ (Stays.refl session).change⟩

/-- What an event does to the name and the access table of a network. -/
inductive Evolution (switch : Switch) (event : Event) (v : VnetId) (changed : VNetwork) : Prop where
  | new (fresh : v = switch.vnetCount) (nobody : changed.atable = .empty)
  | kept (vnet : VNetwork) (home : switch.vnets v = some vnet) (uuid : changed.uuid = vnet.uuid)
    (atable : ∀ key, changed.atable.find key = none ∨
      changed.atable.find key = vnet.atable.find key)
  | granted (vnet : VNetwork) (node key : List UInt8) (home : switch.vnets v = some vnet)
    (uuid : changed.uuid = vnet.uuid) (asked : event = .listNode node vnet.uuid)
    (known : switch.vnetworks.find vnet.uuid = some v)
    (read : ctableKey (uuidStrLen + 1) node = some key)
    (atable : changed.atable = vnet.atable.insert key ())

/-- A network whose name and access table stay. -/
theorem Evolution.same {switch : Switch} {event : Event} {v : VnetId} {changed : VNetwork}
    (vnet : VNetwork) (home : switch.vnets v = some vnet) (uuid : changed.uuid = vnet.uuid)
    (atable : changed.atable = vnet.atable) : Evolution switch event v changed :=
  .kept vnet home uuid fun key => Or.inr (by rw [atable])

/-- One network is written back with its name and access table. -/
theorem Evolution.updated {switch : Switch} {event : Event} {v w : VnetId}
    {changed middle vnet vnet' : VNetwork} (home : switch.vnets w = some vnet)
    (present : (if v = w then some vnet' else switch.vnets v) = some middle)
    (named : vnet'.uuid = vnet.uuid) (listed : vnet'.atable = vnet.atable)
    (uuid : changed.uuid = middle.uuid) (atable : changed.atable = middle.atable) :
    Evolution switch event v changed := by
  by_cases own : v = w
  · subst own
    rw [if_pos rfl, Option.some.injEq] at present
    subst present
    exact .same vnet home (uuid.trans named) (atable.trans listed)
  · rw [if_neg own] at present
    exact .same middle present uuid atable

/-- A network after an event is new, or was there and has changed in one of these ways. -/
theorem network_step (switch after : Switch) (event : Event) (inv : Inv switch)
    (taken : step switch event = some after) (v : VnetId) (changed : VNetwork)
    (there : after.vnets v = some changed) : Evolution switch event v changed := by
  have core : ∀ middle, Quiet middle after → ∃ vnet, middle.vnets v = some vnet ∧
      changed.uuid = vnet.uuid ∧ changed.atable = vnet.atable := by
    intro middle quiet
    obtain ⟨vnet, present, same⟩ := quiet.vnet v changed there
    exact ⟨vnet, present, congrArg VNetworkCore.uuid same, congrArg VNetworkCore.atable same⟩
  cases step_effect switch after inv event taken with
  | quiet rest =>
    obtain ⟨vnet, home, uuid, atable⟩ := core _ rest
    exact .same vnet home uuid atable
  | connected t peerHost fresh rest =>
    subst rest
    exact .same changed there rfl rfl
  | accepted t session w vnet env certName asked found state home rest =>
    obtain ⟨vnet, home, uuid, atable⟩ := core _ rest
    exact .same vnet home uuid atable
  | admitted t session w vnet cert info asked read found state member home listed rest =>
    obtain ⟨middle, present, uuid, atable⟩ := core _ rest
    rw [admitted_vnets] at present
    exact .updated home present rfl rfl uuid atable
  | learned t session w vnet mac found state member home unbound rest =>
    obtain ⟨middle, present, uuid, atable⟩ := core _ rest
    rw [Switch.setSession_vnets, Switch.setVnet_vnets, Function.update_apply] at present
    exact .updated home present rfl rfl uuid atable
  | left t session w vnet ended found state member home rest =>
    obtain ⟨middle, present, uuid, atable⟩ := core _ rest
    rw [left_vnets] at present
    exact .updated home present rfl rfl uuid atable
  | freed t session ended found state rest =>
    obtain ⟨vnet, home, uuid, atable⟩ := core _ rest
    exact .same vnet home uuid atable
  | granted node networkUuid key w vnet asked known home read rest =>
    subst rest
    by_cases own : v = w
    · subst own
      rw [Switch.setVnet_vnets, Function.update_self, Option.some.injEq] at there
      obtain ⟨kept, before, named⟩ := inv.indexed networkUuid v known
      obtain rfl := Option.some.inj (home.symm.trans before)
      exact .granted vnet node key home (there ▸ rfl) (named ▸ asked) (named ▸ known) read
        (there ▸ rfl)
    · rw [Switch.setVnet_vnets, Function.update_of_ne own] at there
      exact .same changed there rfl rfl
  | revoked w vnet key node asked home rest =>
    have stored : after.vnets v = (switch.setVnet w { vnet with
        atable := vnet.atable.erase key }).vnets v := by
      rcases rest with rfl | ⟨_, _, _, rfl⟩
      · rfl
      · rfl
    rw [stored] at there
    by_cases own : v = w
    · subst own
      rw [Switch.setVnet_vnets, Function.update_self, Option.some.injEq] at there
      subst there
      refine .kept vnet home rfl fun other => ?_
      simp only [Table.find_erase]
      by_cases erased : other = key
      · exact Or.inl (if_pos erased)
      · exact Or.inr (if_neg erased)
    · rw [Switch.setVnet_vnets, Function.update_of_ne own] at there
      exact .same changed there rfl rfl
  | created id uuid rest =>
    subst rest
    by_cases own : v = switch.vnetCount
    · simp only [vnetworkCreate, own, Function.update_self, Option.some.injEq] at there
      exact .new own (there ▸ rfl)
    · simp only [vnetworkCreate, Function.update_of_ne own] at there
      exact .same changed there rfl rfl
  | deleted uuid w vnet members asked known home walked rest =>
    subst rest
    by_cases own : v = w
    · simp [own] at there
    · simp only [Function.update_of_ne own] at there
      exact .same changed there rfl rfl

/-- A network that its uuid leads to is still found under it, or was deleted. -/
theorem index_step (switch after : Switch) (event : Event) (inv : Inv switch)
    (taken : step switch event = some after) (uuid : List UInt8) (v : VnetId)
    (known : switch.vnetworks.find uuid = some v) :
    after.vnetworks.find uuid = some v ∨ after.vnets v = none := by
  cases step_effect switch after inv event taken with
  | quiet rest => exact Or.inl (rest.vnetworks ▸ known)
  | connected _ _ _ rest => exact Or.inl (rest ▸ known)
  | accepted _ _ _ _ _ _ _ _ _ _ rest => exact Or.inl (rest.vnetworks ▸ known)
  | admitted _ _ _ _ _ _ _ _ _ _ _ _ _ rest => exact Or.inl (rest.vnetworks ▸ known)
  | learned _ _ _ _ _ _ _ _ _ _ rest => exact Or.inl (rest.vnetworks ▸ known)
  | left _ _ _ _ _ _ _ _ _ rest => exact Or.inl (rest.vnetworks ▸ known)
  | freed _ _ _ _ _ rest => exact Or.inl (rest.vnetworks ▸ known)
  | granted _ _ _ _ _ _ _ _ _ rest => exact Or.inl (rest ▸ known)
  | revoked _ _ _ _ _ _ rest =>
    left
    rcases rest with rfl | ⟨_, _, _, rfl⟩
    · exact known
    · exact known
  | created id other rest =>
    left
    subst rest
    simp only [vnetworkCreate, Table.find_insert, known]
    by_cases same : uuid = other
    · simp [← same, known]
    · simp [same]
  | deleted other w vnet members asked there home walked rest =>
    subst rest
    by_cases same : uuid = other
    · right
      subst same
      obtain rfl := Option.some.inj (known.symm.trans there)
      simp
    · left
      simp only [Table.find_erase, if_neg same, known]

/-- A step accepts at most one connection. -/
theorem step_opens (switch after : Switch) (event : Event) (inv : Inv switch)
    (taken : step switch event = some after) :
    after.opened = switch.opened ∨ ∃ s, after.opened = s :: switch.opened := by
  cases step_effect switch after inv event taken with
  | quiet rest => exact Or.inl rest.opened
  | connected t peerHost fresh rest => exact Or.inr ⟨t, rest ▸ rfl⟩
  | accepted _ _ _ _ _ _ _ _ _ _ rest => exact Or.inl rest.opened
  | admitted _ _ _ _ _ _ _ _ _ _ _ _ _ rest => exact Or.inl rest.opened
  | learned _ _ _ _ _ _ _ _ _ _ rest => exact Or.inl rest.opened
  | left _ _ _ _ _ _ _ _ _ rest => exact Or.inl rest.opened
  | freed _ _ _ _ _ rest => exact Or.inl rest.opened
  | granted _ _ _ _ _ _ _ _ _ rest => exact Or.inl (rest ▸ rfl)
  | revoked _ _ _ _ _ _ rest =>
    rcases rest with rfl | ⟨_, _, _, rfl⟩
    · exact Or.inl rfl
    · exact Or.inl rfl
  | created _ _ rest => exact Or.inl (rest ▸ rfl)
  | deleted _ _ _ _ _ _ _ _ rest => exact Or.inl (rest ▸ rfl)

/-- A number that was given to a connection is not given to another. -/
theorem step_opened (switch after : Switch) (event : Event) (inv : Inv switch)
    (taken : step switch event = some after) (s : SessionId) (opened : s ∈ switch.opened) :
    s ∈ after.opened := by
  rcases step_opens switch after event inv taken with same | ⟨t, more⟩
  · exact same ▸ opened
  · exact more ▸ List.mem_cons_of_mem t opened

/-- Whatever of a session's state and network every change keeps is kept along a run. -/
theorem session_run (s : SessionId) (Keeps : SessionState → Option VnetId → Prop)
    (stable : ∀ switch event session later, Change switch event s session later →
      Keeps session.state session.vnetwork → Keeps later.state later.vnetwork)
    (switch after : Switch) (events : List Event) (inv : Inv switch) (session later : Session)
    (found : switch.sessions s = some session) (now : Keeps session.state session.vnetwork)
    (reached : run step switch events = some after) (there : after.sessions s = some later) :
    Keeps later.state later.vnetwork := by
  have holds := invariant step (fun switch => Inv switch ∧ s ∈ switch.opened ∧
    ∀ session, switch.sessions s = some session → Keeps session.state session.vnetwork) ?_
    switch after events ⟨inv, (inv.sessions s session found).opened, ?_⟩ reached
  · exact holds.2.2 later there
  · rintro state event next ⟨inv, opened, keeps⟩ taken
    refine ⟨step_inv state event next inv taken, step_opened state next event inv taken s opened,
      ?_⟩
    intro other present
    rcases session_step state next event inv taken s other present with
      ⟨unopened, _⟩ | ⟨before, found, change⟩
    · exact absurd opened unopened
    · exact stable state event before other change (keeps before found)
  · intro other present
    obtain rfl := Option.some.inj (found.symm.trans present)
    exact now

/-- Nothing can be done for a session that was freed. -/
theorem dispatchOperation_gone (switch : Switch) (s : SessionId) (env : Env) (message : Message)
    (gone : switch.sessions s = none) : dispatchOperation switch s env message = none := by
  cases message with
  | provRequest | authRequest | netinfoRequest | other | ethernet | invalid =>
    simp [dispatchOperation, authRequest, handleNetinfoRequest, sessionTerminate, onDisconnect,
      forwardEthernet, gone]

/-- A session's own messages do not mark it. -/
theorem input_awake (switch after : Switch) (inv : Inv switch) (s : SessionId)
    (session later : Session) (env : Env) (message : Message)
    (found : switch.sessions s = some session) (active : session.state ≠ .purge)
    (taken : step switch (.input s env message) = some after)
    (there : after.sessions s = some later) : later.state ≠ .purge := by
  rcases session_step switch after _ inv taken s later there with
    ⟨_, fresh⟩ | ⟨before, same, change⟩
  · simp [fresh]
  · obtain rfl := Option.some.inj (found.symm.trans same)
    cases change with
    | kept state _ _ => exact state ▸ active
    | accepted _ _ _ _ _ _ _ state => simp [state]
    | admitted _ _ _ _ asked => cases asked
    | purged asked =>
      rcases asked with ⟨_, asked⟩ | ⟨_, asked⟩
      · cases asked
      · cases asked

/-- A batch of messages is the run of its messages, for a session that is not to be purged. -/
theorem onInput_run (switch : Switch) (inv : Inv switch) (s : SessionId) (session : Session)
    (found : switch.sessions s = some session) (active : session.state ≠ .purge)
    (queueMsg : List (Env × Message)) :
    onInput switch s queueMsg =
      run step switch (queueMsg.map fun (env, message) => .input s env message) := by
  have batch : ∀ switch session queueMsg, switch.sessions s = some session →
      session.state ≠ .purge → onInput switch s queueMsg =
        queueMsg.foldlM (fun switch (env, message) => dispatchOperation switch s env message)
          switch := by
    intro switch session queueMsg found active
    simp [onInput, found, active]
  rw [batch switch session queueMsg found active]
  induction queueMsg generalizing switch session with
  | nil => rfl
  | cons first rest inductionHypothesis =>
    obtain ⟨env, message⟩ := first
    have single : step switch (.input s env message) = dispatchOperation switch s env message := by
      simp [step, batch switch session _ found active]
    simp only [List.map_cons, run, single, List.foldlM_cons, Option.bind_eq_bind]
    cases taken : dispatchOperation switch s env message with
    | none => simp
    | some next =>
      simp only [Option.bind_some]
      cases there : next.sessions s with
      | none =>
        cases rest with
        | nil => rfl
        | cons second rest =>
          have gone := dispatchOperation_gone next s second.1 second.2 there
          simp [run, step, onInput, there, gone]
      | some later =>
        have inv' := step_inv switch _ next inv (single.trans taken)
        have awake := input_awake switch next inv s session later env message found active
          (single.trans taken) there
        exact inductionHypothesis next inv' later there awake

end NetVirt.Nvswitch
