import NetVirt.Introductions
import NetVirt.LinkPairs
import NetVirt.SwitchRuns

/-!
# Introductions between peers

What decides whether two sessions are introduced to each other: the number a session has in
its network, the pool that numbers are taken from, and the link states of the numbers. Each
step of the switch is one of a few steps on these.
-/

namespace NetVirt.Nvswitch

open Bitmaps Bitv Cert Introductions LinkStates LinkedLists Tables Runs

/-! ## Calls of p2pRequest -/

/-- The calls of p2pRequest, which sends to its first session as the client and to its
second one as the server. -/
def p2pRequests : List (SessionId × Outgoing) → List (SessionId × SessionId)
  | (a, .p2pRequest _ _ _ .client) :: (b, .p2pRequest _ _ _ .server) :: rest =>
    (a, b) :: p2pRequests rest
  | _ :: rest => p2pRequests rest
  | [] => []

/-- The message is neither the client's side of an introduction nor the server's. -/
def Outgoing.Aside (message : Outgoing) : Prop :=
  ∀ mac ip port side, message ≠ .p2pRequest mac ip port side

theorem p2pRequests_aside (sent : List (SessionId × Outgoing)) (s : SessionId)
    (message : Outgoing) (aside : message.Aside) :
    p2pRequests (sent ++ [(s, message)]) = p2pRequests sent := by
  fun_induction p2pRequests sent with
  | case1 a _ _ _ b _ _ _ rest inductionHypothesis =>
    simp only [List.cons_append, p2pRequests, inductionHypothesis]
  | case2 first rest notPair inductionHypothesis =>
    rw [List.cons_append, p2pRequests, inductionHypothesis]
    intro a mac ip port b macB ipB portB tail client server
    cases rest with
    | nil =>
      obtain ⟨_, same⟩ := Prod.mk.inj (List.cons.inj server).1
      exact aside _ _ _ _ same
    | cons second rest =>
      obtain ⟨rfl, _⟩ := List.cons.inj server
      exact notPair a mac ip port b macB ipB portB rest client rfl
  | case3 =>
    rw [List.nil_append, p2pRequests, p2pRequests]
    intro a mac ip port b macB ipB portB tail _ server
    cases server

/-- A call sends its two messages one after the other. -/
theorem p2pRequests_call (sent : List (SessionId × Outgoing)) (a b : SessionId)
    (macA ipA macB ipB : List UInt8) (portA portB : Nat) :
    p2pRequests (sent ++ [(a, .p2pRequest macA ipA portA .client)] ++
      [(b, .p2pRequest macB ipB portB .server)]) = p2pRequests sent ++ [(a, b)] := by
  rw [List.append_assoc]
  fun_induction p2pRequests sent with
  | case1 c _ _ _ d _ _ _ rest inductionHypothesis =>
    simp only [List.cons_append, p2pRequests] at inductionHypothesis ⊢
    rw [inductionHypothesis]
  | case2 first rest notPair inductionHypothesis =>
    rw [List.cons_append, p2pRequests, inductionHypothesis]
    intro c mac ip port d macD ipD portD tail client server
    cases rest with
    | nil =>
      obtain ⟨_, same⟩ := Prod.mk.inj (List.cons.inj server).1
      cases same
    | cons second rest =>
      obtain ⟨rfl, _⟩ := List.cons.inj server
      exact notPair c mac ip port d macD ipD portD rest client rfl
  | case3 => rfl

/-! ## The view -/

/-- What is looked at of a session. -/
structure Place where
  vnetwork : Option VnetId
  id : BitVec 32

/-- What is looked at of a network. -/
structure Numbers where
  linkst : FormedLinkst
  bitpool : List (BitVec 8)

structure LinkView where
  session : SessionId → Option Place
  vnet : VnetId → Option Numbers
  passed : SessionId → Prop
  calls : List (SessionId × SessionId)

def Session.place (session : Session) : Place :=
  { vnetwork := session.vnetwork, id := session.id }

def VNetwork.numbers (vnet : VNetwork) : Numbers :=
  { linkst := vnet.linkst, bitpool := vnet.bitpool }

def Switch.linkView (switch : Switch) : LinkView where
  session s := (switch.sessions s).map Session.place
  vnet v := (switch.vnets v).map VNetwork.numbers
  passed := Passed switch
  calls := p2pRequests switch.sent

/-- Store a session, or take it away. -/
@[simps]
def LinkView.put (view : LinkView) (s : SessionId) (place : Option Place) : LinkView :=
  { view with session := Function.update view.session s place }

/-- Store a network. -/
@[simps]
def LinkView.store (view : LinkView) (v : VnetId) (numbers : Numbers) : LinkView :=
  { view with vnet := Function.update view.vnet v (some numbers) }

theorem linkView_setSession (switch : Switch) (s : SessionId) (session : Session) :
    (switch.setSession s session).linkView = switch.linkView.put s (some session.place) := by
  unfold Switch.linkView LinkView.put
  congr 1
  funext t
  by_cases own : t = s
  · simp [own]
  · simp [own]

theorem linkView_setVnet (switch : Switch) (v : VnetId) (vnet : VNetwork) :
    (switch.setVnet v vnet).linkView = switch.linkView.store v vnet.numbers := by
  unfold Switch.linkView LinkView.store
  congr 1
  funext w
  by_cases own : w = v
  · simp [own]
  · simp [own]

/-- Storing what is there already. -/
theorem put_same (switch : Switch) (s : SessionId) (session : Session)
    (found : switch.sessions s = some session) :
    switch.linkView.put s (some session.place) = switch.linkView := by
  have kept : Function.update switch.linkView.session s (some session.place) =
      switch.linkView.session := by
    rw [Function.update_eq_self_iff]
    simp [Switch.linkView, found]
  rw [LinkView.put, kept]

theorem store_same (switch : Switch) (v : VnetId) (vnet : VNetwork)
    (home : switch.vnets v = some vnet) :
    switch.linkView.store v vnet.numbers = switch.linkView := by
  have kept : Function.update switch.linkView.vnet v (some vnet.numbers) =
      switch.linkView.vnet := by
    rw [Function.update_eq_self_iff]
    simp [Switch.linkView, home]
  rw [LinkView.store, kept]

theorem put_put (view : LinkView) (s : SessionId) (early late : Option Place) :
    (view.put s early).put s late = view.put s late := by
  simp only [LinkView.put, Function.update_idem]

theorem store_store (view : LinkView) (v : VnetId) (early late : Numbers) :
    (view.store v early).store v late = view.store v late := by
  simp only [LinkView.store, Function.update_idem]

theorem put_store (view : LinkView) (s : SessionId) (place : Option Place) (v : VnetId)
    (numbers : Numbers) : (view.store v numbers).put s place = (view.put s place).store v numbers :=
  rfl

/-- A message that is neither part of an introduction nor tells of success. -/
theorem linkView_send (switch : Switch) (s : SessionId) (message : Outgoing)
    (aside : message.Aside) (other : message ≠ .authResponse .success) :
    (switch.netSendMsg s message).linkView = switch.linkView := by
  have passed : Passed (switch.netSendMsg s message) = Passed switch := by
    funext t
    simp [Passed, Ne.symm other]
  simp only [Switch.linkView, passed, Switch.netSendMsg_sent, p2pRequests_aside _ s message aside,
    Switch.netSendMsg_sessions, Switch.netSendMsg_vnets]

theorem linkView_success (switch : Switch) (s : SessionId) :
    (switch.netSendMsg s (.authResponse .success)).linkView =
      { switch.linkView with passed := fun t => switch.linkView.passed t ∨ t = s } := by
  have passed : Passed (switch.netSendMsg s (.authResponse .success)) =
      fun t => Passed switch t ∨ t = s := by
    funext t
    simp [Passed]
  simp only [Switch.linkView, passed, Switch.netSendMsg_sent, Switch.netSendMsg_sessions,
    p2pRequests_aside _ s (.authResponse .success) (by simp [Outgoing.Aside]),
    Switch.netSendMsg_vnets]

/-- The two messages of a call. -/
theorem linkView_call (switch : Switch) (a b : SessionId) (macA ipA macB ipB : List UInt8)
    (portA portB : Nat) :
    ((switch.netSendMsg a (.p2pRequest macA ipA portA .client)).netSendMsg b
      (.p2pRequest macB ipB portB .server)).linkView =
        { switch.linkView with calls := switch.linkView.calls ++ [(a, b)] } := by
  have passed : Passed ((switch.netSendMsg a (.p2pRequest macA ipA portA .client)).netSendMsg b
      (.p2pRequest macB ipB portB .server)) = Passed switch := by
    funext t
    simp [Passed]
  simp only [Switch.linkView, passed, Switch.netSendMsg_sent, p2pRequests_call,
    Switch.netSendMsg_sessions, Switch.netSendMsg_vnets]

theorem linkView_sendEach (switch : Switch) (recipients : List SessionId) (message : Outgoing)
    (aside : message.Aside) (other : message ≠ .authResponse .success) :
    (sendEach switch recipients message).linkView = switch.linkView := by
  induction recipients generalizing switch with
  | nil => rfl
  | cons s rest inductionHypothesis =>
    exact (inductionHypothesis (switch.netSendMsg s message)).trans
      (linkView_send switch s message aside other)

theorem linkView_status (switch : Switch) (status : Presence)
    (localIpaddr uuid networkUuid : List UInt8) :
    (updateNodeStatus switch status localIpaddr uuid networkUuid).linkView = switch.linkView := by
  obtain ⟨statuses, same⟩ := updateNodeStatus_eq switch status localIpaddr uuid networkUuid
  rw [same]
  rfl

theorem linkView_free (switch : Switch) (s : SessionId) :
    (switch.sessionFree s).linkView = switch.linkView.put s none := by
  unfold Switch.linkView LinkView.put
  congr 1
  funext t
  by_cases own : t = s
  · simp [own]
  · simp [own]

theorem linkView_relinked (switch : Switch) (v : VnetId) (vnet : VNetwork)
    (links : Links SessionId) :
    (switch.relinked v vnet links).linkView = switch.linkView.store v vnet.numbers := by
  have pointed : ((switch.setVnet v { vnet with sessionList := links.head }).pointed links.next
      links.prev).linkView = (switch.setVnet v { vnet with
        sessionList := links.head }).linkView := by
    unfold Switch.linkView Switch.pointed
    congr 1
    funext t
    exact (Option.map_map ..).trans rfl
  exact pointed.trans (linkView_setVnet switch v { vnet with sessionList := links.head })

/-! ## Steps of the view -/

/-- The number of a session in a network. A session that was not added has the id 0. -/
def Place.number (v : VnetId) (place : Place) : Option Nat :=
  if place.vnetwork = some v ∧ place.id ≠ 0 then some place.id.toNat else none

/-- What a network is for its peers: its numbers, which of them are linked, and the
introductions, of this network and of others. -/
def LinkView.group (view : LinkView) (v : VnetId) : Group SessionId Nat where
  number := (·.bind (Place.number v)) ∘ view.session
  linked n m := ∃ numbers, view.vnet v = some numbers ∧ numbers.linkst.joined n m = 1
  made := view.calls

/-- What a step of the switch does to what is looked at. -/
inductive LinkStep (view after : LinkView) : Prop where
  | same (rest : after = view)
  | opened (s : SessionId) (fresh : view.session s = none) (unpassed : ¬ view.passed s)
    (rest : after = view.put s (some { vnetwork := none, id := 0 }))
  | placed (s : SessionId) (place : Place) (v : VnetId) (found : view.session s = some place)
    (unpassed : ¬ view.passed s)
    (rest : after = view.put s (some { place with vnetwork := some v }))
  | admitted (s : SessionId) (place : Place) (v : VnetId) (numbers : Numbers)
    (found : view.session s = some place) (member : place.vnetwork = some v)
    (unpassed : ¬ view.passed s) (home : view.vnet v = some numbers)
    (rest : after = { (view.put s (some { place with
          id := (bitpoolAllocateBit numbers.bitpool maxNode).2.getD place.id + 1 })).store v
        { numbers with bitpool := (bitpoolAllocateBit numbers.bitpool maxNode).1 } with
      passed := fun t => view.passed t ∨ t = s })
  | introduced (a b : SessionId) (placeA placeB : Place) (v : VnetId) (numbers : Numbers)
    (now : Nat) (foundA : view.session a = some placeA) (foundB : view.session b = some placeB)
    (memberA : placeA.vnetwork = some v) (memberB : placeB.vnetwork = some v)
    (passedA : view.passed a) (passedB : view.passed b) (home : view.vnet v = some numbers)
    (down : numbers.linkst.joined placeA.id.toNat placeB.id.toNat ≠ 1)
    (rest : after = { view.store v { numbers with
        linkst := (numbers.linkst.join placeA.id.toNat placeB.id.toNat now).1 } with
      calls := view.calls ++ [(a, b)] })
  | left (s : SessionId) (place : Place) (v : VnetId) (numbers : Numbers)
    (found : view.session s = some place) (member : place.vnetwork = some v)
    (home : view.vnet v = some numbers)
    (rest : after = (view.put s none).store v
      { linkst := (numbers.linkst.disjoin place.id.toNat).1
        bitpool := (bitpoolReleaseBit numbers.bitpool maxNode (place.id - 1)).1 })
  | freed (s : SessionId) (place : Place) (found : view.session s = some place)
    (alone : place.vnetwork = none) (rest : after = view.put s none)
  | created (v : VnetId) (id uuid : List UInt8) (absent : view.vnet v = none)
    (empty : ∀ s place, view.session s = some place → place.vnetwork ≠ some v)
    (rest : after = view.store v (vnetworkNew id uuid).numbers)

/-! ## Handlers -/

section Views
variable {switch : Switch}

theorem session_viewed {s : SessionId} {session : Session}
    (found : switch.sessions s = some session) :
    switch.linkView.session s = some session.place := by
  simp [Switch.linkView, found]

theorem vnet_viewed {v : VnetId} {vnet : VNetwork} (home : switch.vnets v = some vnet) :
    switch.linkView.vnet v = some vnet.numbers := by
  simp [Switch.linkView, home]

end Views

theorem authRequest_links (switch after : Switch) (inv : Inv switch) (s : SessionId)
    (certName : List UInt8) (code : Int)
    (taken : authRequest switch s certName = some (after, code)) :
    LinkStep switch.linkView after.linkView := by
  obtain ⟨session, found, ⟨_, rfl⟩ | ⟨_, rfl⟩ | ⟨info, fresh, _, _, rfl⟩ |
    ⟨info, v, vnet, fresh, _, _, home, rfl⟩⟩ := authRequest_cases _ _ _ _ _ taken
  · exact .same rfl
  · exact .same ((linkView_setSession switch s _).trans (put_same switch s session found))
  · have nowhere := ((inv.sessions s session found).unknown fresh).1
    have place : ({ session with nodeInfo := some info, vnetwork := none } : Session).place =
        session.place := by simp [Session.place, nowhere]
    refine .same ?_
    rw [linkView_send _ _ _ (by simp [Outgoing.Aside]) (by simp), linkView_setSession, place]
    exact put_same switch s session found
  · have secured : session.netc.securityLevel ≠ .unsecure := by
      simp [(inv.sessions s session found).listener]
    refine .placed s session.place v (session_viewed found)
      ((inv.sessions s session found).unknown fresh).2 ?_
    rw [if_neg secured, if_neg secured, linkView_setSession,
      linkView_send _ _ _ (by simp [Outgoing.Aside]) (by simp), linkView_setVnet]
    exact congrArg (LinkView.put · s _) (store_same switch v vnet home)

/-- A certificate changes nothing that is looked at, or admits its session. -/
theorem onSecure_links (switch after : Switch) (inv : Inv switch) (s : SessionId) (cert : X509)
    (taken : onSecure switch s cert = some after) :
    after.linkView = switch.linkView ∨
    ∃ place v numbers, switch.linkView.session s = some place ∧ place.vnetwork = some v ∧
      ¬ Passed switch s ∧ switch.linkView.vnet v = some numbers ∧
      after.linkView = { (switch.linkView.put s (some { place with
            id := (bitpoolAllocateBit numbers.bitpool maxNode).2.getD place.id + 1 })).store v
          { numbers with bitpool := (bitpoolAllocateBit numbers.bitpool maxNode).1 } with
        passed := fun t => Passed switch t ∨ t = s } := by
  obtain ⟨session, found, ⟨_, rfl⟩ | ⟨_, _, rfl⟩ | ⟨_, _, _, _, _, _, _, _, rfl⟩ |
    ⟨info, v, vnet, joined, waiting, _, member, home, _, added, rfl⟩⟩ :=
    onSecure_cases _ _ _ _ taken
  · exact Or.inl rfl
  · exact Or.inl ((linkView_setSession switch s _).trans (put_same switch s session found))
  · left
    rw [linkView_send _ _ _ (by simp [Outgoing.Aside]) (by simp), linkView_setSession]
    exact put_same switch s session found
  · obtain rfl := admitted_joined switch joined inv s session v vnet info found waiting home added
    refine Or.inr ⟨session.place, v, vnet.numbers, session_viewed found, member,
      ((inv.sessions s session found).waiting waiting).2, vnet_viewed home, ?_⟩
    rw [linkView_success, linkView_status, Switch.joined, linkView_setSession, linkView_relinked,
      linkView_setSession, put_store, put_put]
    rfl

/-- The source of a frame that is learned, or is bound already. -/
theorem learn_links (switch learned : Switch) (s source : SessionId) (macaddrSrc : List UInt8)
    (taken : learn switch s macaddrSrc = some (learned, source)) :
    learned.linkView = switch.linkView := by
  obtain ⟨session, v, vnet, found, _, home, ⟨_, rfl⟩ | ⟨_, _, rfl⟩⟩ := learn_cases _ _ _ _ _ taken
  · rfl
  · rw [linkView_setSession, linkView_setVnet]
    exact (congrArg (LinkView.put · s _) (store_same switch v vnet home)).trans
      (put_same switch s session found)

/-- An introduction calls p2pRequest unless the link of the two is up. -/
theorem introduce_links (switch after : Switch) (source target : SessionId) (now rand : Nat)
    (taken : introduce switch source target now rand = some after) :
    ∃ sessionSrc sessionDst v vnet, switch.sessions source = some sessionSrc ∧
      switch.sessions target = some sessionDst ∧ sessionSrc.vnetwork = some v ∧
      switch.vnets v = some vnet ∧
      ((vnet.linkst.joined sessionSrc.id.toNat sessionDst.id.toNat = 1 ∧ after = switch) ∨
      (vnet.linkst.joined sessionSrc.id.toNat sessionDst.id.toNat ≠ 1 ∧
        after.linkView = { switch.linkView.store v { vnet.numbers with
            linkst := (vnet.linkst.join sessionSrc.id.toNat sessionDst.id.toNat now).1 } with
          calls := switch.linkView.calls ++ [(source, target)] })) := by
  obtain ⟨sessionSrc, found, taken⟩ := Option.bind_eq_some_iff.mp taken
  obtain ⟨sessionDst, other, taken⟩ := Option.bind_eq_some_iff.mp taken
  obtain ⟨v, member, taken⟩ := Option.bind_eq_some_iff.mp taken
  obtain ⟨vnet, home, taken⟩ := Option.bind_eq_some_iff.mp taken
  refine ⟨sessionSrc, sessionDst, v, vnet, found, other, member, home, ?_⟩
  by_cases up : vnet.linkst.joined sessionSrc.id.toNat sessionDst.id.toNat = 1
  · rw [if_pos up] at taken
    exact Or.inl ⟨up, (Option.some.inj taken).symm⟩
  · rw [if_neg up] at taken
    obtain ⟨introduced, asked, taken⟩ := Option.bind_eq_some_iff.mp taken
    simp only [p2pRequest, found, other, Option.bind_eq_bind, Option.bind_some] at asked
    obtain rfl := Option.some.inj asked
    obtain rfl := Option.some.inj taken
    refine Or.inr ⟨up, ?_⟩
    rw [linkView_setVnet, linkView_call]
    rfl

/-- The source of a frame is bound to its session once it is learned. -/
theorem learn_bound (switch learned : Switch) (s source : SessionId) (session : Session)
    (v : VnetId) (vnet : VNetwork) (mac : List UInt8) (found : switch.sessions s = some session)
    (member : session.vnetwork = some v) (home : learned.vnets v = some vnet)
    (taken : learn switch s mac = some (learned, source)) : vnet.ftable.find mac = some source := by
  obtain ⟨own, w, before, present, within, there, ⟨bound, rfl⟩ | ⟨unbound, rfl, rfl⟩⟩ :=
    learn_cases _ _ _ _ _ taken
  · obtain rfl := Option.some.inj (found.symm.trans present)
    obtain rfl := Option.some.inj (member.symm.trans within)
    obtain rfl := Option.some.inj (home.symm.trans there)
    exact bound
  · obtain rfl := Option.some.inj (found.symm.trans present)
    obtain rfl := Option.some.inj (member.symm.trans within)
    simp only [Switch.setSession_vnets, Switch.setVnet_vnets, Function.update_self,
      Option.some.injEq] at home
    subst home
    simp [Table.find_insert, unbound]

/-- Two sessions that a frame goes between by the unicast branch, after the source is learned. -/
theorem unicast_members (switch learned : Switch) (inv : Inv switch) (s source target : SessionId)
    (session : Session) (v : VnetId) (vnet : VNetwork) (frame : List UInt8)
    (found : switch.sessions s = some session) (authed : session.state = .authed)
    (member : session.vnetwork = some v)
    (learning : learn switch s (inetGetMacAddrSrc frame) = some (learned, source))
    (home : learned.vnets v = some vnet)
    (bound : vnet.ftable.find (inetGetMacAddrDst frame) = some target) :
    Member learned v source ∧ Member learned v target := by
  have here := (learn_inv switch learned inv s source session _ found authed learning).vnets v vnet
    home
  have known := learn_bound switch learned s source session v vnet _ found member home learning
  obtain ⟨own, there, belongs, passed, _⟩ := here.bound _ source known
  obtain ⟨other, present, within, told, _⟩ := here.bound _ target bound
  exact ⟨⟨own, there, belongs, passed⟩, ⟨other, present, within, told⟩⟩

/-- Forwarding a frame introduces at most two sessions of the sender's network. -/
theorem forwardEthernet_links (switch after : Switch) (inv : Inv switch) (s : SessionId)
    (frame : List UInt8) (now rand : Nat)
    (taken : forwardEthernet switch s frame now rand = some after) :
    LinkStep switch.linkView after.linkView := by
  obtain ⟨session, found, ⟨_, rfl⟩ | ⟨v, vnet, learned, source, authed, _, member, learning,
    home, cases⟩⟩ := forwardEthernet_cases _ _ _ _ _ _ taken
  · exact .same rfl
  · have same := learn_links switch learned s source _ learning
    rcases cases with ⟨_, rfl⟩ | ⟨target, bound, _, _, introduced⟩ | ⟨recipients, _, _, _, rfl⟩
    · exact .same same
    · have sent := linkView_send learned target (.ethernet frame) (by simp [Outgoing.Aside])
        (by simp)
      obtain ⟨⟨own, there, belongs, passed⟩, ⟨other, present, within, told⟩⟩ :=
        unicast_members switch learned inv s source target session v vnet frame found authed member
          learning home bound
      obtain ⟨sessionSrc, sessionDst, w, network, here, beyond, placed, stored,
        ⟨_, rfl⟩ | ⟨down, rest⟩⟩ := introduce_links _ _ _ _ _ _ introduced
      · exact .same (sent.trans same)
      · obtain rfl := Option.some.inj (there.symm.trans here)
        obtain rfl := Option.some.inj (present.symm.trans beyond)
        obtain rfl := Option.some.inj (belongs.symm.trans placed)
        rw [← same]
        rw [sent] at rest
        exact .introduced source target own.place other.place v network.numbers now
          (session_viewed there) (session_viewed present) belongs within passed told
          (vnet_viewed stored) down rest
    · refine .same ?_
      rw [linkView_sendEach _ _ _ (by simp [Outgoing.Aside]) (by simp)]
      exact same

theorem onDisconnect_links (switch after : Switch) (inv : Inv switch) (s : SessionId)
    (taken : onDisconnect switch s = some after) :
    LinkStep switch.linkView after.linkView := by
  obtain ⟨session, found, ⟨fresh, rfl⟩ | ⟨left, info, _, leaving, _, rfl⟩⟩ :=
    onDisconnect_cases _ _ _ taken
  · exact .freed s session.place (session_viewed found)
      ((inv.sessions s session found).unknown fresh).1 (linkView_free switch s)
  · rw [linkView_free, linkView_status]
    obtain ⟨own, present, ⟨alone, rfl⟩ | ⟨v, vnet, node, member, home, _, rfl⟩⟩ :=
      leaveVnetwork_cases _ _ _ leaving
    · exact .freed s own.place (session_viewed present) alone rfl
    · refine .left s own.place v vnet.numbers (session_viewed present) member (vnet_viewed home) ?_
      rw [Switch.departed, Switch.parted, linkView_relinked, linkView_setSession,
        linkView_setVnet]
      simp only [put_store, put_put, store_store]
      rfl

/-- Each event but del-network does one of these things. -/
theorem link_step (switch after : Switch) (inv : Inv switch) (event : Event)
    (allowed : ∀ uuid, event ≠ .delNetwork uuid) (taken : step switch event = some after) :
    LinkStep switch.linkView after.linkView := by
  cases event with
  | connect s peerHost =>
    simp only [step, Option.ite_none_left_eq_some] at taken
    obtain rfl := Option.some.inj taken.2
    obtain ⟨absent, unpassed⟩ := inv.unopened s taken.1
    exact .opened s (by simp [Switch.linkView, absent]) unpassed
      (linkView_setSession switch s
        (sessionNew peerHost { peerHost := peerHost, securityLevel := .secureAdh }))
  | input s env message =>
    obtain ⟨session, found, ⟨_, ended⟩ | ⟨_, dispatched⟩⟩ := input_cases _ _ _ _ _ taken
    · exact onDisconnect_links switch after inv s ended
    · cases message with
      | provRequest provCode =>
        obtain ⟨_, _, rfl⟩ := Option.map_eq_some_iff.mp dispatched
        exact .same rfl
      | authRequest certName =>
        obtain ⟨⟨_, code⟩, answered, rfl⟩ := Option.map_eq_some_iff.mp dispatched
        exact authRequest_links switch _ inv s certName code answered
      | netinfoRequest ipLocal macAddr =>
        obtain ⟨own, present, stored⟩ := Option.bind_eq_some_iff.mp dispatched
        obtain rfl := Option.some.inj stored
        refine .same ?_
        rw [linkView_send _ _ _ (by simp [Outgoing.Aside]) (by simp), linkView_setSession]
        exact put_same switch s own present
      | other =>
        obtain ⟨gone, ended, released⟩ := Option.bind_eq_some_iff.mp dispatched
        obtain rfl := Option.some.inj released
        exact onDisconnect_links switch gone inv s ended
      | ethernet frame => exact forwardEthernet_links switch after inv s frame _ _ dispatched
      | invalid =>
        obtain ⟨_, _, rfl⟩ := Option.map_eq_some_iff.mp dispatched
        exact .same rfl
  | secure s cert =>
    rcases onSecure_links switch after inv s cert taken with
      same | ⟨place, v, numbers, found, member, unpassed, home, rest⟩
    · exact .same same
    · exact .admitted s place v numbers found member unpassed home rest
  | disconnect s => exact onDisconnect_links switch after inv s taken
  | createNetwork id uuid =>
    obtain rfl := Option.some.inj taken
    have absent : switch.vnets switch.vnetCount = none := by
      apply Option.eq_none_iff_forall_not_mem.mpr
      intro vnet home
      exact Nat.lt_irrefl _ (inv.vnets _ vnet home).known
    refine .created switch.vnetCount id uuid (by simp [Switch.linkView, absent]) ?_
      (linkView_setVnet switch switch.vnetCount (vnetworkNew id uuid))
    intro s place viewed member
    obtain ⟨session, found, rfl⟩ := Option.map_eq_some_iff.mp viewed
    exact Nat.lt_irrefl _ ((inv.sessions s session found).placed _ member)
  | listNode uuid networkUuid =>
    rcases listNode_cases _ _ _ _ taken with ⟨_, rfl⟩ | ⟨v, vnet, key, _, home, _, rfl⟩
    · exact .same rfl
    · exact .same ((linkView_setVnet switch v _).trans (store_same switch v vnet home))
  | delNode node =>
    obtain ⟨⟨_, code⟩, deleted, rfl⟩ := Option.map_eq_some_iff.mp taken
    rcases delNode_cases _ _ _ _ deleted with ⟨_, rfl⟩ | ⟨uuid, networkUuid, v, vnet, key, _, _,
      _, home, _, ⟨_, rfl⟩ | ⟨s, session, _, found, rfl⟩⟩
    · exact .same rfl
    · exact .same ((linkView_setVnet switch v _).trans (store_same switch v vnet home))
    · refine .same ?_
      rw [linkView_setSession, linkView_setVnet]
      exact (congrArg (LinkView.put · s _) (store_same switch v vnet home)).trans
        (put_same switch s session found)
  | delNetwork uuid => exact absurd rfl (allowed uuid)

end NetVirt.Nvswitch
