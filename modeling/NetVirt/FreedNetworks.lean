import NetVirt.SwitchSessions

/-!
# Networks that were freed

del_network takes the sessions of the network's list out of it and frees it. When no pointer
to the network is left, no later event reads or writes its memory: whatever that memory
holds makes no difference to the run, and is there afterwards.
-/

namespace NetVirt.Nvswitch

open Bitv Cert LinkStates LinkedLists Tables Runs

/-- The switch with something in the memory of a network. -/
def Switch.holding (switch : Switch) (v : VnetId) (memory : VNetwork) : Switch :=
  switch.setVnet v memory

/-- No session and no index leads to the network, and it is not to come. -/
structure Unreachable (switch : Switch) (v : VnetId) : Prop where
  freed : switch.vnets v = none
  past : v < switch.vnetCount
  sessions : ∀ s session, switch.sessions s = some session → session.vnetwork ≠ some v

/-- What commutes with a change of the state commutes with it after another step. -/
theorem bind_commutes {State Result : Type} (change : State → State) (later : Result → Result)
    (first : Option State) (left right : State → Option Result)
    (same : ∀ state, left (change state) = (right state).map later) :
    (first.map change).bind left = (first.bind right).map later := by
  cases first with
  | none => rfl
  | some state => exact same state

section Holding
variable (switch : Switch) (v : VnetId) (memory : VNetwork)

theorem holding_sessions : (switch.holding v memory).sessions = switch.sessions := rfl

theorem holding_vnets (w : VnetId) (apart : w ≠ v) :
    (switch.holding v memory).vnets w = switch.vnets w :=
  Function.update_of_ne apart _ _

theorem holding_setVnet (w : VnetId) (vnet : VNetwork) (apart : w ≠ v) :
    (switch.holding v memory).setVnet w vnet = (switch.setVnet w vnet).holding v memory := by
  unfold Switch.holding Switch.setVnet
  congr 1
  exact (Function.update_comm apart _ _ _).symm

theorem holding_setSession (s : SessionId) (session : Session) :
    (switch.holding v memory).setSession s session =
      (switch.setSession s session).holding v memory := rfl

theorem holding_setNext (s : SessionId) (pointer : Option SessionId) :
    (switch.holding v memory).setNext s pointer =
      (switch.setNext s pointer).map fun after => after.holding v memory := by
  simp only [Switch.setNext, holding_sessions, Option.map_map]
  rfl

theorem holding_setPrev (s : SessionId) (pointer : Option SessionId) :
    (switch.holding v memory).setPrev s pointer =
      (switch.setPrev s pointer).map fun after => after.holding v memory := by
  simp only [Switch.setPrev, holding_sessions, Option.map_map]
  rfl

theorem holding_setSessionList (w : VnetId) (pointer : Option SessionId) (apart : w ≠ v) :
    (switch.holding v memory).setSessionList w pointer =
      (switch.setSessionList w pointer).map fun after => after.holding v memory := by
  simp only [Switch.setSessionList, holding_vnets switch v memory w apart, Option.map_map]
  congr 1
  funext vnet
  exact holding_setVnet switch v memory w _ apart

theorem holding_linkSession (w : VnetId) (s : SessionId) (apart : w ≠ v) :
    linkSession (switch.holding v memory) w s =
      (linkSession switch w s).map fun after => after.holding v memory := by
  simp only [linkSession, holding_vnets switch v memory w apart]
  cases switch.vnets w with
  | none => rfl
  | some vnet =>
    cases first : vnet.sessionList with
    | none =>
      simp only [first, Option.bind_eq_bind, Option.bind_some]
      rw [holding_setSessionList switch v memory w _ apart]
      refine bind_commutes _ _ _ _ _ fun listed => ?_
      rw [holding_setNext]
      exact bind_commutes _ _ _ _ _ fun forward => holding_setPrev forward v memory s none
    | some head =>
      simp only [first, Option.bind_eq_bind, Option.bind_some]
      rw [holding_setNext]
      refine bind_commutes _ _ _ _ _ fun forward => ?_
      rw [holding_setPrev]
      exact bind_commutes _ _ _ _ _ fun backward =>
        holding_setSessionList backward v memory w _ apart

theorem holding_vnetworkAddSession (w : VnetId) (s : SessionId) (apart : w ≠ v) :
    vnetworkAddSession (switch.holding v memory) w s =
      (vnetworkAddSession switch w s).map fun after => after.holding v memory := by
  simp only [vnetworkAddSession, holding_linkSession switch v memory w s apart]
  cases linkSession switch w s with
  | none => rfl
  | some linked =>
    simp only [Option.map_some, Option.bind_eq_bind, Option.bind_some, holding_sessions,
      holding_vnets linked v memory w apart]
    cases linked.sessions s with
    | none => rfl
    | some session =>
      cases linked.vnets w with
      | none => rfl
      | some vnet =>
        simp only [Option.bind_some]
        exact congrArg some (holding_setVnet (linked.setSession s _) v memory w _ apart)

theorem holding_unlinkSession (w : VnetId) (s : SessionId) (apart : w ≠ v) :
    unlinkSession (switch.holding v memory) w s =
      (unlinkSession switch w s).map fun after => after.holding v memory := by
  simp only [unlinkSession, holding_sessions]
  cases switch.sessions s with
  | none => rfl
  | some session =>
    cases following : session.next with
    | none =>
      cases before : session.prev with
      | none => simp [following, before, holding_setSessionList switch v memory w _ apart]
      | some front => simp [following, before, holding_setNext]
    | some back =>
      cases before : session.prev with
      | none =>
        simp only [following, before, Option.bind_eq_bind, Option.bind_some]
        rw [holding_setSessionList switch v memory w _ apart]
        exact bind_commutes _ _ _ _ _ fun listed => holding_setPrev listed v memory back none
      | some front =>
        simp only [following, before, Option.bind_eq_bind, Option.bind_some]
        rw [holding_setNext]
        exact bind_commutes _ _ _ _ _ fun forward => holding_setPrev forward v memory back _

theorem holding_vnetworkDelSession (w : VnetId) (s : SessionId) (apart : w ≠ v) :
    vnetworkDelSession (switch.holding v memory) w s =
      (vnetworkDelSession switch w s).map fun after => after.holding v memory := by
  simp only [vnetworkDelSession, holding_unlinkSession switch v memory w s apart]
  cases unlinkSession switch w s with
  | none => rfl
  | some unlinked =>
    simp only [Option.map_some, Option.bind_eq_bind, Option.bind_some, holding_sessions,
      holding_vnets unlinked v memory w apart]
    cases unlinked.sessions s with
    | none => rfl
    | some session =>
      cases unlinked.vnets w with
      | none => rfl
      | some vnet =>
        exact congrArg some (holding_setVnet unlinked v memory w _ apart)

theorem holding_updateNodeStatus (status : Presence)
    (localIpaddr uuid networkUuid : List UInt8) :
    updateNodeStatus (switch.holding v memory) status localIpaddr uuid networkUuid =
      (updateNodeStatus switch status localIpaddr uuid networkUuid).holding v memory := by
  unfold updateNodeStatus
  split
  · rfl
  · rfl

theorem holding_sendEach (recipients : List SessionId) (message : Outgoing) :
    sendEach (switch.holding v memory) recipients message =
      (sendEach switch recipients message).holding v memory := by
  induction recipients generalizing switch with
  | nil => rfl
  | cons s rest inductionHypothesis => exact inductionHypothesis (switch.netSendMsg s message)

theorem holding_detach (members : List SessionId) :
    members.foldlM detach (switch.holding v memory) =
      (members.foldlM detach switch).map fun after => after.holding v memory := by
  induction members generalizing switch with
  | nil => rfl
  | cons s rest inductionHypothesis =>
    have first : detach (switch.holding v memory) s =
        (detach switch s).map fun after => after.holding v memory := by
      simp only [detach, holding_sessions]
      cases switch.sessions s with
      | none => rfl
      | some session => rfl
    rw [List.foldlM_cons, List.foldlM_cons, first]
    exact bind_commutes _ _ _ _ _ inductionHypothesis

theorem holding_vnetworkFree (w : VnetId) (apart : w ≠ v) :
    vnetworkFree (switch.holding v memory) w = (vnetworkFree switch w).holding v memory := by
  unfold vnetworkFree Switch.holding Switch.setVnet
  congr 1
  exact (Function.update_comm apart _ _ _).symm

end Holding

/-! ## The handlers -/

section Handlers
variable {switch : Switch} {v : VnetId} (clear : Unreachable switch v)
  (memory : VNetwork)
include clear

/-- The network of a session is another one. -/
theorem Unreachable.member_apart (s : SessionId) (session : Session) (w : VnetId)
    (found : switch.sessions s = some session) (member : session.vnetwork = some w) : w ≠ v :=
  fun same => clear.sessions s session found (same ▸ member)

theorem Unreachable.byUuid (inv : Inv switch) (uuid : List UInt8) :
    switch.vnetworks.find uuid ≠ some v := by
  intro found
  obtain ⟨vnet, home, _⟩ := inv.indexed uuid v found
  rw [clear.freed] at home
  cases home

theorem Unreachable.byId (inv : Inv switch) (id : List UInt8) :
    switch.vnetworksId.find id ≠ some v := by
  intro found
  obtain ⟨vnet, home, _⟩ := inv.indexedId id v found
  rw [clear.freed] at home
  cases home

theorem holding_learn (s : SessionId) (mac : List UInt8) :
    learn (switch.holding v memory) s mac =
      (learn switch s mac).map fun (after, source) => (after.holding v memory, source) := by
  simp only [learn, holding_sessions]
  cases found : switch.sessions s with
  | none => rfl
  | some session =>
    cases member : session.vnetwork with
    | none => simp [member]
    | some w =>
      have apart := clear.member_apart s session w found member
      simp only [member, Option.bind_eq_bind, Option.bind_some,
        holding_vnets switch v memory w apart]
      cases switch.vnets w with
      | none => rfl
      | some vnet =>
        cases bound : vnet.ftable.find mac with
        | some source => simp [bound]
        | none => simp [bound, holding_setVnet switch v memory w _ apart]; rfl

theorem holding_introduce (source target : SessionId) (now rand : Nat) :
    introduce (switch.holding v memory) source target now rand =
      (introduce switch source target now rand).map fun after => after.holding v memory := by
  simp only [introduce, holding_sessions]
  cases found : switch.sessions source with
  | none => rfl
  | some sessionSrc =>
    cases other : switch.sessions target with
    | none => rfl
    | some sessionDst =>
      cases member : sessionSrc.vnetwork with
      | none => simp [member]
      | some w =>
        have apart := clear.member_apart source sessionSrc w found member
        simp only [member, Option.bind_eq_bind, Option.bind_some,
          holding_vnets switch v memory w apart]
        cases switch.vnets w with
        | none => rfl
        | some vnet =>
          by_cases up : vnet.linkst.joined sessionSrc.id.toNat sessionDst.id.toNat = 1
          · simp [up]
          · simp only [Option.bind_some, up, if_false, p2pRequest, holding_sessions, found, other,
              Option.bind_eq_bind]
            exact congrArg some (holding_setVnet ((switch.netSendMsg source _).netSendMsg target _)
              v memory w _ apart)

/-- Learning an address leads to no freed network. -/
theorem learn_unreachable (learned : Switch) (s source : SessionId) (mac : List UInt8)
    (taken : learn switch s mac = some (learned, source)) : Unreachable learned v := by
  obtain ⟨session, w, vnet, found, member, _, ⟨_, rfl⟩ | ⟨_, _, rfl⟩⟩ := learn_cases _ _ _ _ _ taken
  · exact clear
  · have apart := clear.member_apart s session w found member
    refine ⟨?_, clear.past, fun t other there => ?_⟩
    · simpa [apart.symm] using clear.freed
    · by_cases own : t = s
      · subst own
        simp only [Switch.setSession_sessions, Function.update_self, Option.some.injEq] at there
        rw [← there]
        exact clear.sessions t session found
      · simp only [Switch.setSession_sessions, Function.update_of_ne own] at there
        exact clear.sessions t other there

theorem holding_forwardEthernet (s : SessionId) (frame : List UInt8) (now rand : Nat) :
    forwardEthernet (switch.holding v memory) s frame now rand =
      (forwardEthernet switch s frame now rand).map fun after => after.holding v memory := by
  simp only [forwardEthernet, holding_sessions, holding_learn clear memory s]
  cases found : switch.sessions s with
  | none => rfl
  | some session =>
    by_cases authed : session.state = .authed
    · by_cases short : frame.length < 12
      · simp only [Option.bind_eq_bind, Option.bind_some, authed, ne_eq, not_true_eq_false,
          if_false, short, if_true]
        rfl
      · simp only [Option.bind_eq_bind, Option.bind_some, authed, ne_eq, not_true_eq_false,
          if_false, short]
        cases learning : learn switch s (inetGetMacAddrSrc frame) with
        | none => rfl
        | some taught =>
          obtain ⟨learned, source⟩ := taught
          have still := learn_unreachable clear learned s source _ learning
          cases member : session.vnetwork with
          | none => rfl
          | some w =>
            have apart := clear.member_apart s session w found member
            simp only [Option.map_some, Option.bind_some, holding_vnets learned v memory w apart]
            cases learned.vnets w with
            | none => rfl
            | some vnet =>
              have flooded : ((learned.holding v memory).sessionList vnet.sessionList).bind
                    (fun recipients => some (sendEach (learned.holding v memory) recipients
                      (.ethernet frame))) =
                  ((learned.sessionList vnet.sessionList).bind fun recipients =>
                    some (sendEach learned recipients (.ethernet frame))).map
                      fun after => after.holding v memory := by
                have same : (learned.holding v memory).sessionList vnet.sessionList =
                    learned.sessionList vnet.sessionList := rfl
                rw [same]
                cases learned.sessionList vnet.sessionList with
                | none => rfl
                | some recipients =>
                  exact congrArg some (holding_sendEach learned v memory recipients _)
              cases bound : vnet.ftable.find (inetGetMacAddrDst frame) with
              | none =>
                simp only [Option.bind_some, bound]
                exact flooded
              | some target =>
                simp only [Option.bind_some, bound]
                by_cases loop : target = source
                · simp [loop]
                · by_cases unicast : inetGetMacAddrType (inetGetMacAddrDst frame) = .unicast
                  · simp only [loop, unicast, if_false, if_true]
                    have sent : Unreachable (learned.netSendMsg target (.ethernet frame)) v :=
                      ⟨still.freed, still.past, still.sessions⟩
                    exact holding_introduce sent memory source target now rand
                  · simp only [loop, unicast, if_false]
                    exact flooded
    · simp [authed]

theorem holding_authRequest (inv : Inv switch) (s : SessionId) (certName : List UInt8) :
    authRequest (switch.holding v memory) s certName =
      (authRequest switch s certName).map fun (after, code) => (after.holding v memory, code) := by
  simp only [authRequest, holding_sessions]
  cases found : switch.sessions s with
  | none => rfl
  | some session =>
    by_cases fresh : session.state = .notAuthed
    · simp only [Option.bind_eq_bind, Option.bind_some, fresh, ne_eq, not_true_eq_false, if_false]
      cases cn2nodeInfo (cstring certName) with
      | none => rfl
      | some named =>
        cases named with
        | none => rfl
        | some info =>
          have same : lookupNodeInfo (switch.holding v memory) info =
            lookupNodeInfo switch info := rfl
          simp only [Option.bind_some, same]
          cases looked : lookupNodeInfo switch info with
          | none => rfl
          | some w =>
            have apart : w ≠ v := by
              rintro rfl
              unfold lookupNodeInfo at looked
              split at looked
              · exact clear.byId inv _ looked
              · exact clear.byUuid inv _ looked
            simp only [holding_vnets switch v memory w apart]
            cases switch.vnets w with
            | none => rfl
            | some vnet =>
              simp only [Option.bind_some, holding_setVnet switch v memory w _ apart]
              split
              · rfl
              · rfl
    · simp [fresh]

theorem holding_onSecure (s : SessionId) (cert : X509) :
    onSecure (switch.holding v memory) s cert =
      (onSecure switch s cert).map fun after => after.holding v memory := by
  simp only [onSecure, holding_sessions]
  cases found : switch.sessions s with
  | none => rfl
  | some session =>
    by_cases waiting : session.state = .waitStepup
    · simp only [Option.bind_eq_bind, Option.bind_some, waiting, ne_eq, not_true_eq_false, if_false]
      cases session.nodeInfo with
      | none => rfl
      | some shown =>
        cases certNodeInfo cert with
        | none => rfl
        | some named =>
          cases named with
          | none => rfl
          | some info =>
            cases member : session.vnetwork with
            | none => rfl
            | some w =>
              have apart := clear.member_apart s session w found member
              simp only [Option.bind_some, holding_vnets switch v memory w apart]
              cases switch.vnets w with
              | none => rfl
              | some vnet =>
                cases listed : vnet.atable.find info.uuid with
                | none =>
                  simp only [Option.bind_some, listed]
                  rfl
                | some access =>
                  simp only [Option.bind_some, listed]
                  rw [holding_setSession, holding_vnetworkAddSession _ v memory w s apart]
                  refine bind_commutes _ _ _ _ _ fun added => ?_
                  rw [holding_updateNodeStatus]
                  rfl
    · simp [waiting]

theorem holding_leaveVnetwork (s : SessionId) :
    leaveVnetwork (switch.holding v memory) s =
      (leaveVnetwork switch s).map fun after => after.holding v memory := by
  simp only [leaveVnetwork, holding_sessions]
  cases found : switch.sessions s with
  | none => rfl
  | some session =>
    cases member : session.vnetwork with
    | none => simp [member]
    | some w =>
      have apart := clear.member_apart s session w found member
      simp only [member, Option.bind_eq_bind, Option.bind_some,
        holding_vnets switch v memory w apart]
      cases switch.vnets w with
      | none => rfl
      | some vnet =>
        cases session.nodeInfo with
        | none => rfl
        | some info =>
          simp only [Option.bind_some, holding_setVnet switch v memory w _ apart]
          exact holding_vnetworkDelSession ((switch.setVnet w _).setSession s _) v memory w s apart

theorem holding_onDisconnect (s : SessionId) :
    onDisconnect (switch.holding v memory) s =
      (onDisconnect switch s).map fun after => after.holding v memory := by
  simp only [onDisconnect, holding_sessions, holding_leaveVnetwork clear memory s]
  cases switch.sessions s with
  | none => rfl
  | some session =>
    by_cases fresh : session.state = .notAuthed
    · simp only [Option.bind_eq_bind, Option.bind_some, fresh, if_true]
      rfl
    · simp only [Option.bind_eq_bind, Option.bind_some, fresh, if_false]
      refine bind_commutes _ _ _ _ _ fun left => ?_
      cases session.nodeInfo with
      | none => rfl
      | some info =>
        simp only [Option.bind_some, holding_updateNodeStatus]
        rfl

theorem holding_input (inv : Inv switch) (s : SessionId) (env : Env) (message : Message) :
    onInput (switch.holding v memory) s [(env, message)] =
      (onInput switch s [(env, message)]).map fun after => after.holding v memory := by
  simp only [onInput, holding_sessions]
  cases found : switch.sessions s with
  | none => rfl
  | some session =>
    by_cases purged : session.state = .purge
    · simp only [Option.bind_eq_bind, Option.bind_some, purged, if_true]
      exact holding_onDisconnect clear memory s
    · simp only [Option.bind_eq_bind, Option.bind_some, purged, if_false, List.foldlM_cons,
        List.foldlM_nil, Option.pure_def, Option.bind_fun_some]
      cases message with
      | provRequest provCode =>
        simp only [dispatchOperation, holding_sessions, found]
        rfl
      | authRequest certName =>
        simp only [dispatchOperation, holding_authRequest clear memory inv s certName,
          Option.map_map]
        rfl
      | netinfoRequest ipLocal macAddr =>
        simp only [dispatchOperation, handleNetinfoRequest, holding_sessions, found]
        rfl
      | other =>
        simp only [dispatchOperation, sessionTerminate, holding_onDisconnect clear memory s]
        exact bind_commutes _ _ _ _ _ fun gone => rfl
      | ethernet frame =>
        exact holding_forwardEthernet clear memory s frame env.now env.rand
      | invalid =>
        simp only [dispatchOperation, holding_sessions, found]
        rfl

theorem holding_listNode (inv : Inv switch) (uuid networkUuid : List UInt8) :
    listNode (switch.holding v memory) uuid networkUuid =
      (listNode switch uuid networkUuid).map fun after => after.holding v memory := by
  have same : (switch.holding v memory).vnetworks = switch.vnetworks := rfl
  simp only [listNode, same]
  cases known : switch.vnetworks.find networkUuid with
  | none => rfl
  | some w =>
    have apart : w ≠ v := fun own => clear.byUuid inv networkUuid (own ▸ known)
    simp only [holding_vnets switch v memory w apart]
    cases switch.vnets w with
    | none => rfl
    | some vnet =>
      cases ctableKey (uuidStrLen + 1) uuid with
      | none => rfl
      | some key => exact congrArg some (holding_setVnet switch v memory w _ apart)

theorem holding_delNode (inv : Inv switch) (node : Option NodeDocument) :
    delNode (switch.holding v memory) node =
      (delNode switch node).map fun (after, code) => (after.holding v memory, code) := by
  have same : (switch.holding v memory).vnetworks = switch.vnetworks := rfl
  unfold delNode
  split
  · next uuid networkUuid _ _ =>
    rw [same]
    cases known : switch.vnetworks.find networkUuid with
    | none => rfl
    | some w =>
      have apart : w ≠ v := fun own => clear.byUuid inv networkUuid (own ▸ known)
      simp only [holding_vnets switch v memory w apart]
      cases switch.vnets w with
      | none => rfl
      | some vnet =>
        cases ctableKey uuidStrLen uuid with
        | none => rfl
        | some key =>
          simp only [Option.bind_eq_bind, Option.bind_some,
            holding_setVnet switch v memory w _ apart]
          cases vnet.ctable.find key with
          | none => rfl
          | some s =>
            simp only [holding_sessions]
            cases found : (switch.setVnet w { vnet with
                atable := vnet.atable.erase key }).sessions s with
            | none => rfl
            | some session => rfl
  · rfl

theorem holding_delNetwork (inv : Inv switch) (networkUuid : Option (List UInt8)) :
    delNetwork (switch.holding v memory) networkUuid =
      (delNetwork switch networkUuid).map fun (after, code) => (after.holding v memory, code) := by
  cases networkUuid with
  | none => rfl
  | some uuid =>
    have same : (switch.holding v memory).vnetworks = switch.vnetworks := rfl
    simp only [delNetwork, vnetworkDisable, same]
    cases known : switch.vnetworks.find uuid with
    | none => rfl
    | some w =>
      have apart : w ≠ v := fun own => clear.byUuid inv uuid (own ▸ known)
      simp only [holding_vnets switch v memory w apart]
      cases home : switch.vnets w with
      | none => rfl
      | some vnet =>
        generalize disabled : ({ switch with
          vnetworks := switch.vnetworks.erase uuid
          vnetworksId := switch.vnetworksId.erase vnet.id } : Switch) = rest
        have there : rest.vnets w = some vnet := disabled ▸ home
        have kept : ({ switch.holding v memory with
            vnetworks := switch.vnetworks.erase uuid
            vnetworksId := (switch.holding v memory).vnetworksId.erase vnet.id } : Switch) =
              rest.holding v memory := disabled ▸ rfl
        have list : (rest.holding v memory).sessionList vnet.sessionList =
          rest.sessionList vnet.sessionList := rfl
        simp only [Option.bind_eq_bind, Option.bind_some, Option.pure_def, disabled, kept,
          holding_vnets rest v memory w apart, there, list]
        cases rest.sessionList vnet.sessionList with
        | none => rfl
        | some members =>
          simp only [Option.bind_some, holding_detach]
          refine bind_commutes _ _ _ _ _ fun left => ?_
          rw [holding_vnetworkFree left v memory w apart]
          rfl

theorem holding_vnetworkCreate (id uuid : List UInt8) :
    vnetworkCreate (switch.holding v memory) id uuid =
      (vnetworkCreate switch id uuid).holding v memory := by
  have apart : switch.vnetCount ≠ v := Nat.ne_of_gt clear.past
  unfold vnetworkCreate Switch.holding Switch.setVnet
  congr 1
  exact (Function.update_comm apart _ _ _).symm

/-- No event reads the memory of a freed network that nothing leads to, or writes it. -/
theorem holding_step (inv : Inv switch) (event : Event) :
    step (switch.holding v memory) event =
      (step switch event).map fun after => after.holding v memory := by
  cases event with
  | connect s peerHost =>
    have same : (switch.holding v memory).opened = switch.opened := rfl
    simp only [step, same]
    split
    · rfl
    · rfl
  | input s env message => exact holding_input clear memory inv s env message
  | secure s cert => exact holding_onSecure clear memory s cert
  | disconnect s => exact holding_onDisconnect clear memory s
  | createNetwork id uuid => exact congrArg some (holding_vnetworkCreate clear memory id uuid)
  | listNode uuid networkUuid => exact holding_listNode clear memory inv uuid networkUuid
  | delNode node =>
    simp only [step, holding_delNode clear memory inv node, Option.map_map]
    rfl
  | delNetwork networkUuid =>
    simp only [step, holding_delNetwork clear memory inv networkUuid, Option.map_map]
    rfl

end Handlers

/-- The number of networks there have been does not go down. -/
theorem step_vnetCount (switch after : Switch) (event : Event) (inv : Inv switch)
    (taken : step switch event = some after) : switch.vnetCount ≤ after.vnetCount := by
  cases step_effect switch after inv event taken with
  | quiet rest => exact Nat.le_of_eq rest.vnetCount.symm
  | connected _ _ _ rest => exact Nat.le_of_eq (rest ▸ rfl)
  | accepted _ _ _ _ _ _ _ _ _ _ rest => exact Nat.le_of_eq rest.vnetCount.symm
  | admitted _ _ _ _ _ _ _ _ _ _ _ _ _ rest => exact Nat.le_of_eq rest.vnetCount.symm
  | learned _ _ _ _ _ _ _ _ _ _ rest => exact Nat.le_of_eq rest.vnetCount.symm
  | left _ _ _ _ _ _ _ _ _ rest => exact Nat.le_of_eq rest.vnetCount.symm
  | freed _ _ _ _ _ rest => exact Nat.le_of_eq rest.vnetCount.symm
  | granted _ _ _ _ _ _ _ _ _ rest => exact Nat.le_of_eq (rest ▸ rfl)
  | revoked _ _ _ _ _ _ rest =>
    rcases rest with rfl | ⟨_, _, _, rfl⟩
    · exact Nat.le_refl _
    · exact Nat.le_refl _
  | created _ _ rest => exact rest ▸ Nat.le_succ _
  | deleted _ _ _ _ _ _ _ _ rest => exact Nat.le_of_eq (rest ▸ rfl)

/-- Nothing comes to lead to a freed network again. -/
theorem unreachable_step (v : VnetId) (switch : Switch) (event : Event) (after : Switch)
    (inv : Inv switch) (clear : Unreachable switch v) (taken : step switch event = some after) :
    Unreachable after v := by
  refine ⟨?_, Nat.lt_of_lt_of_le clear.past (step_vnetCount switch after event inv taken), ?_⟩
  · apply Option.eq_none_iff_forall_not_mem.mpr
    intro changed there
    cases network_step switch after event inv taken v changed there with
    | new fresh _ => exact Nat.ne_of_lt clear.past fresh
    | kept vnet home _ _ =>
      rw [clear.freed] at home
      cases home
    | granted vnet _ _ home _ _ _ _ _ =>
      rw [clear.freed] at home
      cases home
  · intro s later there member
    rcases session_step switch after event inv taken s later there with
      ⟨_, fresh⟩ | ⟨session, found, change⟩
    · have alone := ((step_inv switch event after inv taken).sessions s later there).unknown fresh
      rw [alone.1] at member
      cases member
    · cases change with
      | kept _ same _ => exact clear.sessions s session found (same.symm.trans member)
      | accepted _ _ w vnet _ home _ _ placed =>
        obtain rfl := Option.some.inj (member.symm.trans placed)
        rw [clear.freed] at home
        cases home
      | admitted _ _ w vnet _ _ _ _ _ _ _ same _ =>
        exact clear.sessions s session found (same.symm.trans member)
      | purged _ _ moved =>
        rcases moved with same | lost
        · exact clear.sessions s session found (same.symm.trans member)
        · rw [lost] at member
          cases member

/-- A run with something in the memory of a freed network that nothing leads to is the run
without it, and leaves it there. -/
theorem holding_run (switch : Switch) (inv : Inv switch) (v : VnetId)
    (clear : Unreachable switch v) (memory : VNetwork) (events : List Event) :
    run step (switch.holding v memory) events =
      (run step switch events).map fun later => later.holding v memory := by
  induction events generalizing switch with
  | nil => rfl
  | cons event rest inductionHypothesis =>
    simp only [run, holding_step clear memory inv event]
    cases taken : step switch event with
    | none => rfl
    | some next =>
      exact inductionHypothesis next (step_inv switch event next inv taken)
        (unreachable_step v switch event next inv clear taken)

end NetVirt.Nvswitch
