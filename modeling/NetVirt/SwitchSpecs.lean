import NetVirt.SwitchEvents

/-!
# What each event does

One lemma for each function of the switch says what state it leads to, with the branch
that was taken. The invariants of the later modules are derived from these alone.
-/

namespace NetVirt.Nvswitch

open Bitv Cert LinkStates LinkedLists Tables

/-- The switch whose sessions have the given pointers instead of their own. -/
def Switch.pointed (switch : Switch) (next prev : SessionId → Option SessionId) : Switch :=
  { switch with
    sessions := fun t => (switch.sessions t).map fun session =>
      { session with next := next t, prev := prev t } }

/-- The switch with the given pointers for the list of a virtual network. -/
def Switch.relinked (switch : Switch) (v : VnetId) (vnet : VNetwork) (links : Links SessionId) :
    Switch :=
  (switch.setVnet v { vnet with sessionList := links.head }).pointed links.next links.prev

/-- A status message is the only thing that update_node_status changes. -/
theorem updateNodeStatus_eq (switch : Switch) (status : Presence)
    (localIpaddr uuid networkUuid : List UInt8) :
    ∃ statuses, updateNodeStatus switch status localIpaddr uuid networkUuid =
      { switch with statuses := statuses } := by
  unfold updateNodeStatus
  split
  · exact ⟨_, rfl⟩
  · exact ⟨switch.statuses, rfl⟩

theorem pointed_self (switch : Switch) (v : VnetId) :
    switch.pointed (switch.links v).next (switch.links v).prev = switch := by
  unfold Switch.pointed
  congr 1
  funext t
  cases found : switch.sessions t <;> simp [Switch.links, found]

theorem setNext_pointed (switch after : Switch) (next prev : SessionId → Option SessionId)
    (s : SessionId) (pointer : Option SessionId)
    (taken : (switch.pointed next prev).setNext s pointer = some after) :
    after = switch.pointed (Function.update next s pointer) prev := by
  obtain ⟨session, found, rfl⟩ := Option.map_eq_some_iff.mp taken
  obtain ⟨own, present, rfl⟩ := Option.map_eq_some_iff.mp found
  unfold Switch.setSession Switch.pointed
  congr 1
  funext t
  by_cases same : t = s
  · simp [same, present]
  · simp [same]

theorem setPrev_pointed (switch after : Switch) (next prev : SessionId → Option SessionId)
    (s : SessionId) (pointer : Option SessionId)
    (taken : (switch.pointed next prev).setPrev s pointer = some after) :
    after = switch.pointed next (Function.update prev s pointer) := by
  obtain ⟨session, found, rfl⟩ := Option.map_eq_some_iff.mp taken
  obtain ⟨own, present, rfl⟩ := Option.map_eq_some_iff.mp found
  unfold Switch.setSession Switch.pointed
  congr 1
  funext t
  by_cases same : t = s
  · simp [same, present]
  · simp [same]

theorem setSessionList_pointed (switch after : Switch) (next prev : SessionId → Option SessionId)
    (v : VnetId) (pointer : Option SessionId)
    (taken : (switch.pointed next prev).setSessionList v pointer = some after) :
    ∃ vnet, switch.vnets v = some vnet ∧
      after = (switch.setVnet v { vnet with sessionList := pointer }).pointed next prev := by
  obtain ⟨vnet, found, rfl⟩ := Option.map_eq_some_iff.mp taken
  exact ⟨vnet, found, rfl⟩

theorem setVnet_self (switch : Switch) (v : VnetId) (vnet : VNetwork)
    (home : switch.vnets v = some vnet) : switch.setVnet v vnet = switch := by
  unfold Switch.setVnet
  congr 1
  rw [← home, Function.update_eq_self]

/-- What adding a session does to the pointers. -/
theorem linkSession_cases (switch after : Switch) (v : VnetId) (s : SessionId)
    (vnet : VNetwork) (home : switch.vnets v = some vnet)
    (unlinked : (switch.links v).prev s = none) (taken : linkSession switch v s = some after) :
    after = switch.relinked v vnet ((switch.links v).push s) := by
  have leader : (switch.links v).head = vnet.sessionList := by simp [Switch.links, home]
  have own := pointed_self switch v
  simp only [linkSession, home, Option.bind_eq_bind, Option.bind_some] at taken
  cases first : vnet.sessionList with
  | none =>
    simp only [first] at taken
    obtain ⟨listed, stored, taken⟩ := Option.bind_eq_some_iff.mp taken
    obtain ⟨forward, forwarded, backed⟩ := Option.bind_eq_some_iff.mp taken
    rw [← own] at stored
    obtain ⟨same, found, rfl⟩ := setSessionList_pointed _ _ _ _ _ _ stored
    obtain rfl := Option.some.inj (home.symm.trans found)
    obtain rfl := setNext_pointed _ _ _ _ _ _ forwarded
    obtain rfl := setPrev_pointed _ _ _ _ _ _ backed
    rw [← unlinked, Function.update_eq_self]
    simp only [Switch.relinked, Links.push, leader, first, redirect, unlinked]
  | some head =>
    simp only [first] at taken
    obtain ⟨forward, forwarded, taken⟩ := Option.bind_eq_some_iff.mp taken
    obtain ⟨backward, backed, stored⟩ := Option.bind_eq_some_iff.mp taken
    rw [← own] at forwarded
    obtain rfl := setNext_pointed _ _ _ _ _ _ forwarded
    obtain rfl := setPrev_pointed _ _ _ _ _ _ backed
    obtain ⟨same, found, rfl⟩ := setSessionList_pointed _ _ _ _ _ _ stored
    obtain rfl := Option.some.inj (home.symm.trans found)
    simp only [Switch.relinked, Links.push, leader, first, redirect]

/-- What deleting a session does to the pointers. The four branches are one operation: the
pointers into the session are set to the ones out of it. -/
theorem unlinkSession_cases (switch after : Switch) (v : VnetId) (s : SessionId)
    (vnet : VNetwork) (home : switch.vnets v = some vnet)
    (taken : unlinkSession switch v s = some after) :
    after = switch.relinked v vnet ((switch.links v).remove s) := by
  obtain ⟨session, present, taken⟩ := Option.bind_eq_some_iff.mp taken
  have own := pointed_self switch v
  have kept := setVnet_self switch v vnet home
  have leader : (switch.links v).head = vnet.sessionList := by simp [Switch.links, home]
  have following : (switch.links v).next s = session.next := by simp [Switch.links, present]
  have previous : (switch.links v).prev s = session.prev := by simp [Switch.links, present]
  cases back : session.next with
  | none =>
    cases front : session.prev with
    | none =>
      simp only [back, front] at taken
      rw [← own] at taken
      obtain ⟨same, found, rfl⟩ := setSessionList_pointed _ _ _ _ _ _ taken
      obtain rfl := Option.some.inj (home.symm.trans found)
      simp [Switch.relinked, Links.remove, following, previous, back, front, redirect]
    | some before =>
      simp only [back, front] at taken
      rw [← own] at taken
      obtain rfl := setNext_pointed _ _ _ _ _ _ taken
      simp [Switch.relinked, Links.remove, following, previous, back, front, redirect, leader,
        kept]
  | some beyond =>
    cases front : session.prev with
    | none =>
      simp only [back, front] at taken
      obtain ⟨listed, stored, backed⟩ := Option.bind_eq_some_iff.mp taken
      rw [← own] at stored
      obtain ⟨same, found, rfl⟩ := setSessionList_pointed _ _ _ _ _ _ stored
      obtain rfl := Option.some.inj (home.symm.trans found)
      obtain rfl := setPrev_pointed _ _ _ _ _ _ backed
      simp [Switch.relinked, Links.remove, following, previous, back, front, redirect]
    | some before =>
      simp only [back, front] at taken
      obtain ⟨forward, forwarded, backed⟩ := Option.bind_eq_some_iff.mp taken
      rw [← own] at forwarded
      obtain rfl := setNext_pointed _ _ _ _ _ _ forwarded
      obtain rfl := setPrev_pointed _ _ _ _ _ _ backed
      simp [Switch.relinked, Links.remove, following, previous, back, front, redirect, leader,
        kept]

/-- The switch after a session was added to a virtual network. -/
def Switch.joined (switch : Switch) (v : VnetId) (s : SessionId) (session : Session)
    (vnet : VNetwork) : Switch :=
  let (bitpool, bit) := bitpoolAllocateBit vnet.bitpool maxNode
  (switch.relinked v { vnet with bitpool := bitpool, activeNode := vnet.activeNode + 1 }
    ((switch.links v).push s)).setSession s { session with
      id := bit.getD session.id + 1
      next := vnet.sessionList
      prev := redirect (switch.links v).prev vnet.sessionList (some s) s }

/-- The switch after a session was deleted from a virtual network. -/
def Switch.parted (switch : Switch) (v : VnetId) (s : SessionId) (session : Session)
    (vnet : VNetwork) : Switch :=
  switch.relinked v { vnet with
    bitpool := (bitpoolReleaseBit vnet.bitpool maxNode (session.id - 1)).1
    activeNode := vnet.activeNode - 1 } ((switch.links v).remove s)

/-- The switch after a session gave up its addresses and was deleted from its virtual
network, which has been stripped of what belongs to the session. -/
def Switch.departed (switch : Switch) (v : VnetId) (s : SessionId) (session : Session)
    (stripped : VNetwork) : Switch :=
  ((switch.setVnet v stripped).setSession s { session with macList := [] }).parted v s
    { session with macList := [] } stripped

/-- `vnetwork_add_session` pushes the session, gives it an id and counts it. -/
theorem vnetworkAddSession_cases (switch after : Switch) (v : VnetId) (s : SessionId)
    (session : Session) (vnet : VNetwork) (found : switch.sessions s = some session)
    (home : switch.vnets v = some vnet) (unlinked : (switch.links v).prev s = none)
    (taken : vnetworkAddSession switch v s = some after) :
    after = switch.joined v s session vnet := by
  obtain ⟨linked, pushed, taken⟩ := Option.bind_eq_some_iff.mp taken
  obtain rfl := linkSession_cases switch linked v s vnet home unlinked pushed
  have leader : (switch.links v).head = vnet.sessionList := by simp [Switch.links, home]
  simp only [Switch.relinked, Switch.pointed, Switch.setVnet_vnets, Function.update_self,
    Switch.setVnet_sessions, found, Option.map_some, Option.bind_eq_bind,
    Option.bind_some] at taken
  obtain rfl := Option.some.inj taken
  simp only [Switch.joined, Switch.relinked, Switch.pointed, Switch.setVnet, Switch.setSession,
    Links.push, Function.update_self, Function.update_idem, leader]

/-- `vnetwork_del_session` takes the session out, releases its id and counts it. -/
theorem vnetworkDelSession_cases (switch after : Switch) (v : VnetId) (s : SessionId)
    (session : Session) (vnet : VNetwork) (found : switch.sessions s = some session)
    (home : switch.vnets v = some vnet)
    (taken : vnetworkDelSession switch v s = some after) :
    after = switch.parted v s session vnet := by
  obtain ⟨unlinked, removed, taken⟩ := Option.bind_eq_some_iff.mp taken
  obtain rfl := unlinkSession_cases switch unlinked v s vnet home removed
  simp only [Switch.relinked, Switch.pointed, Switch.setVnet_vnets, Function.update_self,
    Switch.setVnet_sessions, found, Option.map_some, Option.bind_eq_bind,
    Option.bind_some] at taken
  obtain rfl := Option.some.inj taken
  simp only [Switch.parted, Switch.relinked, Switch.pointed, Switch.setVnet,
    Function.update_idem]

/-! ## Handlers -/

/-- An authRequest is a duplicate, names nothing, names an unknown network, or is accepted
for a network. -/
theorem authRequest_cases (switch after : Switch) (s : SessionId) (certName : List UInt8)
    (code : Int) (taken : authRequest switch s certName = some (after, code)) :
    ∃ session, switch.sessions s = some session ∧
      ((session.state ≠ .notAuthed ∧ after = switch) ∨
      (session.state = .notAuthed ∧ after = switch.setSession s { session with
        nodeInfo := none }) ∨
      (∃ info, session.state = .notAuthed ∧ cn2nodeInfo (cstring certName) = some (some info) ∧
        lookupNodeInfo switch info = none ∧
        after = (switch.setSession s { session with
          nodeInfo := some info
          vnetwork := none }).netSendMsg s (.authResponse .noRight)) ∨
      ∃ info v vnet, session.state = .notAuthed ∧
        cn2nodeInfo (cstring certName) = some (some info) ∧
        lookupNodeInfo switch info = some v ∧ switch.vnets v = some vnet ∧
        after = (((switch.setVnet v { vnet with
          ctable := vnet.ctable.insert (withNetworkUuid info vnet).uuid s }).netSendMsg s
            (.authResponse (if session.netc.securityLevel = .unsecure then .success
              else .secureStepUp))).setSession s { session with
          nodeInfo := some (withNetworkUuid info vnet)
          vnetwork := some v
          certName := some (cstring certName)
          state := if session.netc.securityLevel = .unsecure then .authed
            else .waitStepup })) := by
  obtain ⟨session, found, taken⟩ := Option.bind_eq_some_iff.mp taken
  refine ⟨session, found, ?_⟩
  by_cases fresh : session.state = .notAuthed
  · rw [if_neg (by simpa using fresh)] at taken
    obtain ⟨parsed, named, taken⟩ := Option.bind_eq_some_iff.mp taken
    cases parsed with
    | none =>
      obtain ⟨rfl, _⟩ := Prod.mk.inj (Option.some.inj taken)
      exact Or.inr (Or.inl ⟨fresh, rfl⟩)
    | some info =>
      cases looked : lookupNodeInfo switch info with
      | none =>
        simp only [looked] at taken
        obtain ⟨rfl, _⟩ := Prod.mk.inj (Option.some.inj taken)
        exact Or.inr (Or.inr (Or.inl ⟨info, fresh, named, looked, rfl⟩))
      | some v =>
        simp only [looked] at taken
        obtain ⟨vnet, home, taken⟩ := Option.bind_eq_some_iff.mp taken
        refine Or.inr (Or.inr (Or.inr ⟨info, v, vnet, fresh, named, looked, home, ?_⟩))
        by_cases plain : session.netc.securityLevel = .unsecure
        · simp only [if_pos plain] at taken ⊢
          exact (Prod.mk.inj (Option.some.inj taken)).1.symm
        · simp only [if_neg plain] at taken ⊢
          exact (Prod.mk.inj (Option.some.inj taken)).1.symm
  · rw [if_pos (by simpa using fresh)] at taken
    obtain ⟨rfl, _⟩ := Prod.mk.inj (Option.some.inj taken)
    exact Or.inl ⟨fresh, rfl⟩

/-- Learning binds an unbound source address to the session the frame came from. -/
theorem learn_cases (switch after : Switch) (s source : SessionId) (macaddrSrc : List UInt8)
    (taken : learn switch s macaddrSrc = some (after, source)) :
    ∃ session v vnet, switch.sessions s = some session ∧ session.vnetwork = some v ∧
      switch.vnets v = some vnet ∧
      ((vnet.ftable.find macaddrSrc = some source ∧ after = switch) ∨
      (vnet.ftable.find macaddrSrc = none ∧ source = s ∧
        after = (switch.setVnet v { vnet with
          ftable := vnet.ftable.insert macaddrSrc s }).setSession s { session with
          macAddr := macaddrSrc
          macList := macaddrSrc :: session.macList })) := by
  obtain ⟨session, found, taken⟩ := Option.bind_eq_some_iff.mp taken
  obtain ⟨v, member, taken⟩ := Option.bind_eq_some_iff.mp taken
  obtain ⟨vnet, home, taken⟩ := Option.bind_eq_some_iff.mp taken
  refine ⟨session, v, vnet, found, member, home, ?_⟩
  cases bound : vnet.ftable.find macaddrSrc with
  | some owner =>
    simp only [bound] at taken
    obtain ⟨rfl, rfl⟩ := Prod.mk.inj (Option.some.inj taken)
    exact Or.inl ⟨rfl, rfl⟩
  | none =>
    simp only [bound] at taken
    obtain ⟨rfl, rfl⟩ := Prod.mk.inj (Option.some.inj taken)
    exact Or.inr ⟨rfl, rfl, rfl⟩

/-- An introduction sends requests to the two peers and records their link. -/
theorem introduce_cases (switch after : Switch) (source target : SessionId) (now rand : Nat)
    (taken : introduce switch source target now rand = some after) :
    ∃ sessionSrc sessionDst v vnet, switch.sessions source = some sessionSrc ∧
      switch.sessions target = some sessionDst ∧ sessionSrc.vnetwork = some v ∧
      switch.vnets v = some vnet ∧ (after = switch ∨
      ∃ toSource toTarget linkst portA portB sideA sideB macA macB ipA ipB,
        toSource = Outgoing.p2pRequest macA ipA portA sideA ∧
        toTarget = Outgoing.p2pRequest macB ipB portB sideB ∧
        after = ((switch.netSendMsg source toSource).netSendMsg target toTarget).setVnet v
          { vnet with linkst := linkst }) := by
  obtain ⟨sessionSrc, found, taken⟩ := Option.bind_eq_some_iff.mp taken
  obtain ⟨sessionDst, other, taken⟩ := Option.bind_eq_some_iff.mp taken
  obtain ⟨v, member, taken⟩ := Option.bind_eq_some_iff.mp taken
  obtain ⟨vnet, home, taken⟩ := Option.bind_eq_some_iff.mp taken
  refine ⟨sessionSrc, sessionDst, v, vnet, found, other, member, home, ?_⟩
  by_cases up : vnet.linkst.joined sessionSrc.id.toNat sessionDst.id.toNat = 1
  · rw [if_pos up] at taken
    exact Or.inl (Option.some.inj taken).symm
  · rw [if_neg up] at taken
    obtain ⟨introduced, asked, taken⟩ := Option.bind_eq_some_iff.mp taken
    simp only [p2pRequest, found, other, Option.bind_eq_bind, Option.bind_some] at asked
    obtain rfl := Option.some.inj asked
    obtain rfl := Option.some.inj taken
    exact Or.inr ⟨_, _, _, _, _, _, _, _, _, _, _, rfl, rfl, rfl⟩

/-- A frame is ignored unless its session is authenticated. Then its source is learned, and
it is dropped, sent to the session of its destination, or flooded. -/
theorem forwardEthernet_cases (switch after : Switch) (s : SessionId) (frame : List UInt8)
    (now rand : Nat) (taken : forwardEthernet switch s frame now rand = some after) :
    ∃ session, switch.sessions s = some session ∧
      ((session.state ≠ .authed ∧ after = switch) ∨
      ∃ v vnet learned source, session.state = .authed ∧ 12 ≤ frame.length ∧
        session.vnetwork = some v ∧
        learn switch s (inetGetMacAddrSrc frame) = some (learned, source) ∧
        learned.vnets v = some vnet ∧
        ((vnet.ftable.find (inetGetMacAddrDst frame) = some source ∧ after = learned) ∨
        (∃ target, vnet.ftable.find (inetGetMacAddrDst frame) = some target ∧
          target ≠ source ∧ inetGetMacAddrType (inetGetMacAddrDst frame) = .unicast ∧
          introduce (learned.netSendMsg target (.ethernet frame)) source target now rand =
            some after) ∨
        (∃ recipients, vnet.ftable.find (inetGetMacAddrDst frame) ≠ some source ∧
          (vnet.ftable.find (inetGetMacAddrDst frame) = none ∨
            inetGetMacAddrType (inetGetMacAddrDst frame) ≠ .unicast) ∧
          learned.sessionList vnet.sessionList = some recipients ∧
          after = sendEach learned recipients (.ethernet frame)))) := by
  obtain ⟨session, found, taken⟩ := Option.bind_eq_some_iff.mp taken
  refine ⟨session, found, ?_⟩
  by_cases authed : session.state = .authed
  · right
    rw [if_neg (by simpa using authed)] at taken
    by_cases short : frame.length < 12
    · rw [if_pos short] at taken
      cases taken
    · rw [if_neg short] at taken
      obtain ⟨⟨learned, source⟩, learning, taken⟩ := Option.bind_eq_some_iff.mp taken
      obtain ⟨v, member, taken⟩ := Option.bind_eq_some_iff.mp taken
      obtain ⟨vnet, home, taken⟩ := Option.bind_eq_some_iff.mp taken
      refine ⟨v, vnet, learned, source, authed, Nat.not_lt.mp short, member, learning, home, ?_⟩
      cases bound : vnet.ftable.find (inetGetMacAddrDst frame) with
      | none =>
        simp only [bound] at taken
        obtain ⟨recipients, walked, taken⟩ := Option.bind_eq_some_iff.mp taken
        exact Or.inr (Or.inr ⟨recipients, by simp, Or.inl rfl, walked,
          (Option.some.inj taken).symm⟩)
      | some target =>
        simp only [bound] at taken
        by_cases loop : target = source
        · rw [if_pos loop] at taken
          exact Or.inl ⟨by rw [loop], (Option.some.inj taken).symm⟩
        · rw [if_neg loop] at taken
          by_cases unicast : inetGetMacAddrType (inetGetMacAddrDst frame) = .unicast
          · rw [if_pos unicast] at taken
            exact Or.inr (Or.inl ⟨target, rfl, loop, unicast, taken⟩)
          · rw [if_neg unicast] at taken
            obtain ⟨recipients, walked, taken⟩ := Option.bind_eq_some_iff.mp taken
            exact Or.inr (Or.inr ⟨recipients, fun same => loop (Option.some.inj same),
              Or.inr unicast, walked, (Option.some.inj taken).symm⟩)
  · rw [if_pos (by simpa using authed)] at taken
    exact Or.inl ⟨authed, (Option.some.inj taken).symm⟩

/-- A certificate is looked at while the session waits for it. It names nothing, a node that
is not listed, or a listed one, whose session joins its network. -/
theorem onSecure_cases (switch after : Switch) (s : SessionId) (cert : X509)
    (taken : onSecure switch s cert = some after) :
    ∃ session, switch.sessions s = some session ∧
      ((session.state ≠ .waitStepup ∧ after = switch) ∨
      (session.state = .waitStepup ∧ certNodeInfo cert = some none ∧
        after = switch.setSession s { session with nodeInfo := none }) ∨
      (∃ info v vnet, session.state = .waitStepup ∧ certNodeInfo cert = some (some info) ∧
        session.vnetwork = some v ∧ switch.vnets v = some vnet ∧
        vnet.atable.find info.uuid = none ∧
        after = (switch.setSession s { session with
          nodeInfo := some info }).netSendMsg s (.authResponse .noRight)) ∨
      ∃ info v vnet joined, session.state = .waitStepup ∧
        certNodeInfo cert = some (some info) ∧
        session.vnetwork = some v ∧ switch.vnets v = some vnet ∧
        vnet.atable.find info.uuid = some () ∧
        vnetworkAddSession (switch.setSession s { session with
          nodeInfo := some (withNetworkUuid info vnet)
          state := .authed }) v s = some joined ∧
        after = (updateNodeStatus joined .online session.ip (withNetworkUuid info vnet).uuid
          (withNetworkUuid info vnet).networkUuid).netSendMsg s (.authResponse .success)) := by
  obtain ⟨session, found, taken⟩ := Option.bind_eq_some_iff.mp taken
  refine ⟨session, found, ?_⟩
  by_cases waiting : session.state = .waitStepup
  · right
    rw [if_neg (by simpa using waiting)] at taken
    obtain ⟨_, _, taken⟩ := Option.bind_eq_some_iff.mp taken
    obtain ⟨named, read, taken⟩ := Option.bind_eq_some_iff.mp taken
    cases named with
    | none => exact Or.inl ⟨waiting, read, (Option.some.inj taken).symm⟩
    | some info =>
      obtain ⟨v, member, taken⟩ := Option.bind_eq_some_iff.mp taken
      obtain ⟨vnet, home, taken⟩ := Option.bind_eq_some_iff.mp taken
      cases listed : vnet.atable.find info.uuid with
      | none =>
        simp only [listed] at taken
        exact Or.inr (Or.inl ⟨info, v, vnet, waiting, read, member, home, listed,
          (Option.some.inj taken).symm⟩)
      | some access =>
        simp only [listed] at taken
        obtain ⟨joined, added, taken⟩ := Option.bind_eq_some_iff.mp taken
        exact Or.inr (Or.inr ⟨info, v, vnet, joined, waiting, read, member, home, listed, added,
          (Option.some.inj taken).symm⟩)
  · rw [if_pos (by simpa using waiting)] at taken
    exact Or.inl ⟨waiting, (Option.some.inj taken).symm⟩

/-- A session leaves its network, if it has one. -/
theorem leaveVnetwork_cases (switch after : Switch) (s : SessionId)
    (taken : leaveVnetwork switch s = some after) :
    ∃ session, switch.sessions s = some session ∧
      ((session.vnetwork = none ∧ after = switch) ∨
      ∃ v vnet info, session.vnetwork = some v ∧ switch.vnets v = some vnet ∧
        session.nodeInfo = some info ∧
        after = switch.departed v s session { vnet with
          linkst := (vnet.linkst.disjoin session.id.toNat).1
          ftable := session.macList.foldl Table.erase vnet.ftable
          ctable := vnet.ctable.erase info.uuid }) := by
  obtain ⟨session, found, taken⟩ := Option.bind_eq_some_iff.mp taken
  refine ⟨session, found, ?_⟩
  cases member : session.vnetwork with
  | none =>
    simp only [member] at taken
    exact Or.inl ⟨rfl, (Option.some.inj taken).symm⟩
  | some v =>
    simp only [member] at taken
    obtain ⟨vnet, home, taken⟩ := Option.bind_eq_some_iff.mp taken
    obtain ⟨info, named, taken⟩ := Option.bind_eq_some_iff.mp taken
    refine Or.inr ⟨v, vnet, info, rfl, home, named, ?_⟩
    rw [← member] at taken
    refine vnetworkDelSession_cases _ after v s _ _ ?_ ?_ taken
    · rw [Switch.setSession_sessions, Function.update_self]
    · rw [Switch.setSession_vnets, Switch.setVnet_vnets, Function.update_self]

/-- A disconnected session is freed; past its authRequest it leaves its network and its node
is reported offline first. -/
theorem onDisconnect_cases (switch after : Switch) (s : SessionId)
    (taken : onDisconnect switch s = some after) :
    ∃ session, switch.sessions s = some session ∧
      ((session.state = .notAuthed ∧ after = switch.sessionFree s) ∨
      ∃ left info, session.state ≠ .notAuthed ∧ leaveVnetwork switch s = some left ∧
        session.nodeInfo = some info ∧
        after = (updateNodeStatus left .offline session.ip info.uuid
          info.networkUuid).sessionFree s) := by
  obtain ⟨session, found, taken⟩ := Option.bind_eq_some_iff.mp taken
  refine ⟨session, found, ?_⟩
  by_cases fresh : session.state = .notAuthed
  · rw [if_pos fresh] at taken
    exact Or.inl ⟨fresh, (Option.some.inj taken).symm⟩
  · rw [if_neg fresh] at taken
    obtain ⟨left, leaving, taken⟩ := Option.bind_eq_some_iff.mp taken
    obtain ⟨info, named, taken⟩ := Option.bind_eq_some_iff.mp taken
    exact Or.inr ⟨left, info, fresh, leaving, named, (Option.some.inj taken).symm⟩

/-- del_node takes the uuid off the access table of its network, and marks the session that
the connection table holds for it. -/
theorem delNode_cases (switch after : Switch) (node : Option NodeDocument) (code : Int)
    (taken : delNode switch node = some (after, code)) :
    (code = -1 ∧ after = switch) ∨
    ∃ uuid networkUuid v vnet key, code = 0 ∧
      node = some { uuid := some uuid, networkuuid := some networkUuid } ∧
      switch.vnetworks.find networkUuid = some v ∧ switch.vnets v = some vnet ∧
      ctableKey uuidStrLen uuid = some key ∧
      ((vnet.ctable.find key = none ∧
        after = switch.setVnet v { vnet with atable := vnet.atable.erase key }) ∨
      ∃ s session, vnet.ctable.find key = some s ∧ switch.sessions s = some session ∧
        after = (switch.setVnet v { vnet with atable := vnet.atable.erase key }).setSession s
          { session with state := .purge }) := by
  unfold delNode at taken
  split at taken
  · next uuid networkUuid named network =>
    have document : node = some { uuid := some uuid, networkuuid := some networkUuid } := by
      cases node with
      | none => simp at named
      | some document =>
        cases document
        simp_all
    cases known : switch.vnetworks.find networkUuid with
    | none =>
      simp only [known] at taken
      obtain ⟨rfl, rfl⟩ := Prod.mk.inj (Option.some.inj taken)
      exact Or.inl ⟨rfl, rfl⟩
    | some v =>
      simp only [known] at taken
      obtain ⟨vnet, home, taken⟩ := Option.bind_eq_some_iff.mp taken
      obtain ⟨key, read, taken⟩ := Option.bind_eq_some_iff.mp taken
      right
      cases connected : vnet.ctable.find key with
      | none =>
        simp only [connected] at taken
        obtain ⟨rfl, rfl⟩ := Prod.mk.inj (Option.some.inj taken)
        exact ⟨uuid, networkUuid, v, vnet, key, rfl, document, known, home, read,
          Or.inl ⟨connected, rfl⟩⟩
      | some s =>
        simp only [connected] at taken
        obtain ⟨session, found, taken⟩ := Option.bind_eq_some_iff.mp taken
        obtain ⟨rfl, rfl⟩ := Prod.mk.inj (Option.some.inj taken)
        exact ⟨uuid, networkUuid, v, vnet, key, rfl, document, known, home, read,
          Or.inr ⟨s, session, connected, found, rfl⟩⟩
  · obtain ⟨rfl, rfl⟩ := Prod.mk.inj (Option.some.inj taken)
    exact Or.inl ⟨rfl, rfl⟩

/-- listall_node lists a uuid with a known network. -/
theorem listNode_cases (switch after : Switch) (uuid networkUuid : List UInt8)
    (taken : listNode switch uuid networkUuid = some after) :
    (switch.vnetworks.find networkUuid = none ∧ after = switch) ∨
    ∃ v vnet key, switch.vnetworks.find networkUuid = some v ∧ switch.vnets v = some vnet ∧
      ctableKey (uuidStrLen + 1) uuid = some key ∧
      after = switch.setVnet v { vnet with atable := vnet.atable.insert key () } := by
  unfold listNode at taken
  cases known : switch.vnetworks.find networkUuid with
  | none =>
    simp only [known] at taken
    exact Or.inl ⟨rfl, (Option.some.inj taken).symm⟩
  | some v =>
    simp only [known] at taken
    obtain ⟨vnet, home, taken⟩ := Option.bind_eq_some_iff.mp taken
    obtain ⟨key, read, taken⟩ := Option.bind_eq_some_iff.mp taken
    exact Or.inr ⟨v, vnet, key, rfl, home, read, (Option.some.inj taken).symm⟩

/-- The sessions of a list, each marked and without a network. -/
def detached (members : List SessionId) (sessions : SessionId → Option Session)
    (t : SessionId) : Option Session :=
  (sessions t).map fun session =>
    if t ∈ members then { session with state := .purge, vnetwork := none } else session

theorem detach_run (switch after : Switch) (members : List SessionId)
    (taken : members.foldlM detach switch = some after) :
    after = { switch with sessions := detached members switch.sessions } := by
  induction members generalizing switch with
  | nil =>
    obtain rfl := Option.some.inj taken
    have kept : detached [] switch.sessions = switch.sessions := by
      funext t
      simp [detached]
    rw [kept]
  | cons s rest inductionHypothesis =>
    obtain ⟨middle, first, taken⟩ := Option.bind_eq_some_iff.mp taken
    obtain ⟨session, found, first⟩ := Option.bind_eq_some_iff.mp first
    obtain rfl := Option.some.inj first
    rw [inductionHypothesis _ taken]
    unfold Switch.setSession
    congr 1
    funext t
    by_cases same : t = s
    · subst same
      simp [detached, found]
    · simp [detached, same]

/-- del_network takes a known network out of the trees, detaches the sessions of its list,
and frees it. -/
theorem delNetwork_cases (switch after : Switch) (networkUuid : Option (List UInt8))
    (code : Int) (taken : delNetwork switch networkUuid = some (after, code)) :
    (code = -1 ∧ after = switch) ∨
    ∃ uuid v vnet members, code = 0 ∧ networkUuid = some uuid ∧
      switch.vnetworks.find uuid = some v ∧ switch.vnets v = some vnet ∧
      switch.sessionList vnet.sessionList = some members ∧
      after = { switch with
        sessions := detached members switch.sessions
        vnets := Function.update switch.vnets v none
        vnetworks := switch.vnetworks.erase uuid
        vnetworksId := switch.vnetworksId.erase vnet.id } := by
  unfold delNetwork at taken
  cases networkUuid with
  | none =>
    obtain ⟨rfl, rfl⟩ := Prod.mk.inj (Option.some.inj taken)
    exact Or.inl ⟨rfl, rfl⟩
  | some uuid =>
    cases known : switch.vnetworks.find uuid with
    | none =>
      simp only [vnetworkDisable, known, Option.bind_eq_bind, Option.bind_some] at taken
      obtain ⟨rfl, rfl⟩ := Prod.mk.inj (Option.some.inj taken)
      exact Or.inl ⟨rfl, rfl⟩
    | some v =>
      obtain ⟨⟨disabled, found⟩, disabling, taken⟩ := Option.bind_eq_some_iff.mp taken
      simp only [vnetworkDisable, known] at disabling
      obtain ⟨vnet, home, disabling⟩ := Option.bind_eq_some_iff.mp disabling
      obtain ⟨rfl, rfl⟩ := Prod.mk.inj (Option.some.inj disabling)
      obtain ⟨same, present, taken⟩ := Option.bind_eq_some_iff.mp taken
      obtain rfl := Option.some.inj (home.symm.trans present)
      obtain ⟨members, walked, taken⟩ := Option.bind_eq_some_iff.mp taken
      obtain ⟨purged, detaching, taken⟩ := Option.bind_eq_some_iff.mp taken
      obtain ⟨rfl, rfl⟩ := Prod.mk.inj (Option.some.inj taken)
      rw [detach_run _ _ _ detaching]
      exact Or.inr ⟨uuid, v, vnet, members, rfl, rfl, known, home, walked, rfl⟩

/-- One message of an input callback: a session to be purged is disconnected instead. -/
theorem input_cases (switch after : Switch) (s : SessionId) (env : Env) (message : Message)
    (taken : onInput switch s [(env, message)] = some after) :
    ∃ session, switch.sessions s = some session ∧
      ((session.state = .purge ∧ onDisconnect switch s = some after) ∨
      (session.state ≠ .purge ∧ dispatchOperation switch s env message = some after)) := by
  obtain ⟨session, found, taken⟩ := Option.bind_eq_some_iff.mp taken
  refine ⟨session, found, ?_⟩
  by_cases purged : session.state = .purge
  · rw [if_pos purged] at taken
    exact Or.inl ⟨purged, taken⟩
  · rw [if_neg purged] at taken
    exact Or.inr ⟨purged, by simpa using taken⟩

end NetVirt.Nvswitch
