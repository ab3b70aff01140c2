import NetVirt.SwitchSessions

/-!
# Sessions that forward frames

Along every run, a session that forwards a frame has been accepted by authRequest and
admitted by on_secure, in this order; it keeps its network from then on or loses it; and a
session to be purged stays one.
-/

namespace NetVirt.Nvswitch

open Bitv Cert LinkStates LinkedLists Tables Runs

/-! ## Histories -/

/-- In this run an authRequest of the session was accepted. -/
def Accepted (events : List Event) (s : SessionId) : Prop :=
  ∃ early env certName late before after,
    events = early ++ Event.input s env (.authRequest certName) :: late ∧
      run step Switch.initial early = some before ∧
      step before (.input s env (.authRequest certName)) = some after ∧
      before.stateOf s = some .notAuthed ∧ after.stateOf s = some .waitStepup

/-- In this run an authRequest of the session was accepted, and later a certificate of it,
whose uuid was in the access table of its network. -/
def Authorised (events : List Event) (s : SessionId) : Prop :=
  ∃ early cert late before after session info v vnet,
    events = early ++ Event.secure s cert :: late ∧ Accepted early s ∧
      run step Switch.initial early = some before ∧
      step before (.secure s cert) = some after ∧
      before.stateOf s = some .waitStepup ∧ after.stateOf s = some .authed ∧
      before.sessions s = some session ∧ session.vnetwork = some v ∧
      before.vnets v = some vnet ∧ certNodeInfo cert = some (some info) ∧
      vnet.atable.find info.uuid = some ()

theorem Accepted.extend {events : List Event} {s : SessionId} (accepted : Accepted events s)
    (event : Event) : Accepted (events ++ [event]) s := by
  obtain ⟨early, env, certName, late, before, after, rfl, rest⟩ := accepted
  exact ⟨early, env, certName, late ++ [event], before, after, by simp, rest⟩

theorem Authorised.extend {events : List Event} {s : SessionId}
    (authorised : Authorised events s) (event : Event) : Authorised (events ++ [event]) s := by
  obtain ⟨early, cert, late, before, after, session, info, v, vnet, rfl, rest⟩ := authorised
  exact ⟨early, cert, late ++ [event], before, after, session, info, v, vnet, by simp, rest⟩

/-- A session that waits for its step-up was accepted, and one that is authenticated was
authorised. -/
structure Documented (events : List Event) (switch : Switch) : Prop where
  inv : Inv switch
  waiting : ∀ s, switch.stateOf s = some .waitStepup → Accepted events s
  authed : ∀ s, switch.stateOf s = some .authed → Authorised events s

/-- Every event keeps the documents and adds the one for what it does. -/
theorem step_documented (past : List Event) (switch after : Switch) (event : Event)
    (reached : run step Switch.initial past = some switch) (held : Documented past switch)
    (taken : step switch event = some after) : Documented (past ++ [event]) after := by
  have changes : ∀ s state, after.stateOf s = some state → state ≠ .notAuthed →
      ∃ session later, switch.sessions s = some session ∧ later.state = state ∧
        Change switch event s session later := by
    intro s state now past
    obtain ⟨later, there, rfl⟩ := Option.map_eq_some_iff.mp now
    rcases session_step switch after event held.inv taken s later there with
      ⟨_, fresh⟩ | ⟨session, found, change⟩
    · exact absurd fresh past
    · exact ⟨session, later, found, rfl, change⟩
  refine ⟨step_inv switch event after held.inv taken, ?_, ?_⟩
  · intro s now
    obtain ⟨session, later, found, state, change⟩ := changes s _ now (by simp)
    have stateOf : switch.stateOf s = some session.state := by simp [Switch.stateOf, found]
    cases change with
    | kept same _ _ => exact (held.waiting s (by rw [stateOf, ← same, state])).extend event
    | accepted env certName _ _ asked _ before _ _ =>
      subst asked
      exact ⟨past, env, certName, [], switch, after, rfl, reached, taken, by rw [stateOf, before],
        now⟩
    | admitted _ _ _ _ _ _ _ _ _ _ authed _ _ =>
      rw [state] at authed
      cases authed
    | purged _ purged _ =>
      rw [state] at purged
      cases purged
  · intro s now
    obtain ⟨session, later, found, state, change⟩ := changes s _ now (by simp)
    have stateOf : switch.stateOf s = some session.state := by simp [Switch.stateOf, found]
    cases change with
    | kept same _ _ => exact (held.authed s (by rw [stateOf, ← same, state])).extend event
    | accepted _ _ _ _ _ _ _ waiting _ =>
      rw [state] at waiting
      cases waiting
    | admitted cert info v vnet asked read member home listed before _ _ _ =>
      subst asked
      have waiting : switch.stateOf s = some .waitStepup := by rw [stateOf, before]
      exact ⟨past, cert, [], switch, after, session, info, v, vnet, rfl, held.waiting s waiting,
        reached, taken, waiting, now, found, member, home, read, listed⟩
    | purged _ purged _ =>
      rw [state] at purged
      cases purged

theorem reachable_documented (events : List Event) (switch : Switch)
    (reached : run step Switch.initial events = some switch) : Documented events switch := by
  refine history_invariant step Documented Switch.initial ?_ switch events ?_ reached
  · exact fun past state event next early held taken =>
      step_documented past state next event early held taken
  · exact ⟨initial_inv, (fun s now => by cases now), (fun s now => by cases now)⟩

/-! ## What stays -/

/-- Past its authRequest, a session keeps its network or loses it. -/
theorem vnetwork_run (switch after : Switch) (events : List Event) (inv : Inv switch)
    (s : SessionId) (session later : Session) (found : switch.sessions s = some session)
    (past : session.state ≠ .notAuthed) (reached : run step switch events = some after)
    (there : after.sessions s = some later) :
    later.vnetwork = session.vnetwork ∨ later.vnetwork = none := by
  have settled := session_run s (fun state vnetwork => state ≠ .notAuthed ∧
    (vnetwork = session.vnetwork ∨ vnetwork = none)) ?_ switch after events inv session later
    found ⟨past, Or.inl rfl⟩ reached there
  · exact settled.2
  · rintro state event before other change ⟨known, placed⟩
    cases change with
    | kept same vnetwork _ => exact ⟨same ▸ known, vnetwork ▸ placed⟩
    | accepted _ _ _ _ _ _ fresh _ _ => exact absurd fresh known
    | admitted _ _ _ _ _ _ _ _ _ _ authed vnetwork _ =>
      exact ⟨by simp [authed], vnetwork ▸ placed⟩
    | purged _ purge vnetwork =>
      refine ⟨by simp [purge], ?_⟩
      rcases vnetwork with same | lost
      · exact same ▸ placed
      · exact Or.inr lost

/-- A session to be purged stays one. -/
theorem purge_run (switch after : Switch) (events : List Event) (inv : Inv switch)
    (s : SessionId) (session later : Session) (found : switch.sessions s = some session)
    (purge : session.state = .purge) (reached : run step switch events = some after)
    (there : after.sessions s = some later) : later.state = .purge := by
  refine session_run s (fun state _ => state = .purge) ?_ switch after events inv session later
    found purge reached there
  intro state event before other change now
  cases change with
  | kept same _ _ => exact same.trans now
  | accepted _ _ _ _ _ _ fresh _ _ =>
    rw [now] at fresh
    cases fresh
  | admitted _ _ _ _ _ _ _ _ _ waiting _ _ _ =>
    rw [now] at waiting
    cases waiting
  | purged _ purge _ => exact purge

/-- A disconnect sends nothing. -/
theorem onDisconnect_sent (switch after : Switch) (s : SessionId)
    (taken : onDisconnect switch s = some after) : after.sent = switch.sent := by
  obtain ⟨session, found, ⟨_, rfl⟩ | ⟨left, info, _, leaving, _, rfl⟩⟩ :=
    onDisconnect_cases _ _ _ taken
  · rfl
  · obtain ⟨statuses, reported⟩ :=
      updateNodeStatus_eq left .offline session.ip info.uuid info.networkUuid
    have gone : left.sent = switch.sent := by
      obtain ⟨own, present, ⟨_, rfl⟩ | ⟨_, _, _, _, _, _, rfl⟩⟩ := leaveVnetwork_cases _ _ _ leaving
      · rfl
      · rfl
    rw [reported]
    exact gone

/-! ## The guarantee -/

/-- Forwarding needs an authenticated session. -/
theorem forwardEthernet_authed (switch after : Switch) (s : SessionId) (frame : List UInt8)
    (now rand : Nat) (taken : forwardEthernet switch s frame now rand = some after)
    (other : switch.stateOf s ≠ some .authed) : after = switch := by
  obtain ⟨session, found, ⟨_, rfl⟩ | sent⟩ := forwardEthernet_cases _ _ _ _ _ _ taken
  · rfl
  · obtain ⟨_, _, _, _, authed, _⟩ := sent
    exact absurd (by simp [Switch.stateOf, found, authed]) other

/-- In every reachable state, a session whose frames are sent or learned from was
authorised; from its acceptance on it keeps its network or loses it; and once it is marked,
it stays marked, its frames change nothing, and its input sends nothing.

Proof: a frame has an effect only on an authenticated session, and the history of one
documents its authorisation. From any later state on, a run leaves an accepted session its
network or takes it away, and keeps the mark, with which forwarding returns at once and input
only disconnects. -/
theorem only_authorised_forward (events : List Event) (switch : Switch)
    (reached : run step Switch.initial events = some switch) (s : SessionId) :
    (∀ frame now rand after, forwardEthernet switch s frame now rand = some after →
      (after.sent ≠ switch.sent ∨ ∃ v, (after.vnets v).map VNetwork.ftable ≠
        (switch.vnets v).map VNetwork.ftable) → Authorised events s) ∧
    ∀ session, switch.sessions s = some session → ∀ later after,
      run step switch later = some after → ∀ other, after.sessions s = some other →
      (session.state ≠ .notAuthed →
        other.vnetwork = session.vnetwork ∨ other.vnetwork = none) ∧
      (session.state = .purge → other.state = .purge ∧
        (∀ frame now rand next, forwardEthernet after s frame now rand = some next →
          next = after) ∧
        ∀ queueMsg next, onInput after s queueMsg = some next → next.sent = after.sent) := by
  have inv := reachable_inv switch events reached
  constructor
  · intro frame now rand after taken effect
    apply (reachable_documented events switch reached).authed
    by_contra other
    have same := forwardEthernet_authed switch after s frame now rand taken other
    subst same
    simp at effect
  · intro session found later after taken other there
    refine ⟨fun past => vnetwork_run switch after later inv s session other found past taken
      there, fun purge => ?_⟩
    have marked := purge_run switch after later inv s session other found purge taken there
    refine ⟨marked, ?_, ?_⟩
    · intro frame now rand next forwarded
      refine forwardEthernet_authed after next s frame now rand forwarded ?_
      simp [Switch.stateOf, there, marked]
    · intro queueMsg next handled
      obtain ⟨same, present, handled⟩ := Option.bind_eq_some_iff.mp handled
      obtain rfl := Option.some.inj (there.symm.trans present)
      rw [if_pos marked] at handled
      exact onDisconnect_sent after next s handled

/-- The node "a" joins. -/
def forwardRun : List Event := sampleNetwork [0x61, 0x62] ++ sampleJoin 1 0x61

/-- A broadcast from the address 02:02:02:02:02:02. -/
def broadcastFrame : List UInt8 := List.replicate 6 0xff ++ List.replicate 6 2 ++ [8, 0]

theorem forwardRun_authorised : Authorised forwardRun 1 :=
  (only_authorised_forward forwardRun ((run step Switch.initial forwardRun).get (by decide))
    (Option.some_get _).symm 1).1 broadcastFrame 0 0
    ((forwardEthernet ((run step Switch.initial forwardRun).get (by decide)) 1
      broadcastFrame 0 0).get (by decide)) (Option.some_get _).symm (Or.inl (by decide))

end NetVirt.Nvswitch
