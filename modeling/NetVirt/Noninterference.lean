import NetVirt.SwitchSessions

/-!
# Connections that are never authenticated

A run is compared with the run that lacks every event of one connection. `hide` takes what
the connection leaves behind out of a state: its session, what it was sent, and the keys of
connection tables that lead to it. As long as the connection ends before its authRequest is
accepted, and no other session presents a key that leads to it, the run without its events
reaches the hidden state.
-/

namespace NetVirt.Nvswitch

open Bitv Cert LinkStates LinkedLists Tables Runs

/-- The table without the keys of a session. -/
def without (c : SessionId) (table : Table (List UInt8) SessionId) :
    Table (List UInt8) SessionId :=
  fun key => if table.find key = some c then none else table.find key

def VNetwork.hide (c : SessionId) (vnet : VNetwork) : VNetwork :=
  { vnet with ctable := without c vnet.ctable }

/-- The switch without a connection. -/
def Switch.hide (c : SessionId) (switch : Switch) : Switch :=
  { switch with
    sessions := Function.update switch.sessions c none
    vnets := fun v => (switch.vnets v).map (VNetwork.hide c)
    opened := switch.opened.filter (· ≠ c)
    sent := switch.sent.filter (·.1 ≠ c)
    provRequests := switch.provRequests.filter (·.1 ≠ c)
    released := switch.released.filter (· ≠ c) }

theorem find_without (c : SessionId) (table : Table (List UInt8) SessionId) (key : List UInt8) :
    (without c table).find key = if table.find key = some c then none else table.find key := rfl

theorem without_insert (c s : SessionId) (table : Table (List UInt8) SessionId)
    (key : List UInt8) (other : s ≠ c) (free : table.find key ≠ some c) :
    without c (table.insert key s) = (without c table).insert key s := by
  apply Table.ext
  intro asked
  simp only [find_without, Table.find_insert]
  by_cases same : asked = key
  · subst same
    cases found : table.find asked with
    | none => simp [other]
    | some kept =>
      have apart : kept ≠ c := fun same => free (same ▸ found)
      simp [apart]
  · simp [same]

theorem without_insert_own (c : SessionId) (table : Table (List UInt8) SessionId)
    (key : List UInt8) : without c (table.insert key c) = without c table := by
  apply Table.ext
  intro asked
  simp only [find_without, Table.find_insert]
  by_cases same : asked = key
  · subst same
    cases found : table.find asked with
    | none => simp
    | some kept => simp
  · simp [same]

theorem without_erase (c : SessionId) (table : Table (List UInt8) SessionId)
    (key : List UInt8) : without c (table.erase key) = (without c table).erase key := by
  apply Table.ext
  intro asked
  simp only [find_without, Table.find_erase]
  by_cases same : asked = key
  · simp [same]
  · simp [same]

/-! ## Records and heap -/

section Hide
variable (c : SessionId) (switch : Switch)

theorem hide_sessions (s : SessionId) (other : s ≠ c) :
    (switch.hide c).sessions s = switch.sessions s :=
  Function.update_of_ne other _ _

theorem hide_vnets (v : VnetId) (vnet : VNetwork) (home : switch.vnets v = some vnet) :
    (switch.hide c).vnets v = some (vnet.hide c) := by
  simp [Switch.hide, home]

theorem hide_setSession (s : SessionId) (session : Session) (other : s ≠ c) :
    (switch.setSession s session).hide c = (switch.hide c).setSession s session := by
  simp [Switch.hide, Switch.setSession, Function.update_comm other]

theorem hide_setSession_own (session : Session) :
    (switch.setSession c session).hide c = switch.hide c := by
  simp [Switch.hide, Switch.setSession]

theorem hide_setVnet (v : VnetId) (vnet : VNetwork) :
    (switch.setVnet v vnet).hide c = (switch.hide c).setVnet v (vnet.hide c) := by
  unfold Switch.hide Switch.setVnet
  congr 1
  funext w
  by_cases own : w = v
  · simp [own]
  · simp [own]

theorem hide_send (s : SessionId) (message : Outgoing) (other : s ≠ c) :
    (switch.netSendMsg s message).hide c = (switch.hide c).netSendMsg s message := by
  simp [Switch.hide, Switch.netSendMsg, other]

theorem hide_send_own (message : Outgoing) :
    (switch.netSendMsg c message).hide c = switch.hide c := by
  simp [Switch.hide, Switch.netSendMsg]

theorem hide_free (s : SessionId) (other : s ≠ c) :
    (switch.sessionFree s).hide c = (switch.hide c).sessionFree s := by
  simp [Switch.hide, Switch.sessionFree, Function.update_comm other, other]

theorem hide_status (status : Presence) (localIpaddr uuid networkUuid : List UInt8) :
    (updateNodeStatus switch status localIpaddr uuid networkUuid).hide c =
      updateNodeStatus (switch.hide c) status localIpaddr uuid networkUuid := by
  unfold updateNodeStatus
  split <;> rfl

/-- A network that does not change is hidden as it is. -/
theorem hide_sendEach (recipients : List SessionId) (message : Outgoing)
    (others : c ∉ recipients) :
    (sendEach switch recipients message).hide c =
      sendEach (switch.hide c) recipients message := by
  induction recipients generalizing switch with
  | nil => rfl
  | cons s rest inductionHypothesis =>
    rw [List.mem_cons, not_or] at others
    have later := inductionHypothesis (switch.netSendMsg s message) others.2
    rw [hide_send c switch s message (Ne.symm others.1)] at later
    exact later

end Hide

/-! ## Session lists -/

section Lists
variable (c : SessionId) (switch after : Switch)

theorem hide_setNext (s : SessionId) (pointer : Option SessionId) (other : s ≠ c)
    (taken : switch.setNext s pointer = some after) :
    (switch.hide c).setNext s pointer = some (after.hide c) := by
  obtain ⟨session, found, rfl⟩ := Option.map_eq_some_iff.mp taken
  rw [Switch.setNext, hide_sessions c switch s other, found, hide_setSession c switch s _ other]
  rfl

theorem hide_setPrev (s : SessionId) (pointer : Option SessionId) (other : s ≠ c)
    (taken : switch.setPrev s pointer = some after) :
    (switch.hide c).setPrev s pointer = some (after.hide c) := by
  obtain ⟨session, found, rfl⟩ := Option.map_eq_some_iff.mp taken
  rw [Switch.setPrev, hide_sessions c switch s other, found, hide_setSession c switch s _ other]
  rfl

theorem hide_setSessionList (v : VnetId) (pointer : Option SessionId)
    (taken : switch.setSessionList v pointer = some after) :
    (switch.hide c).setSessionList v pointer = some (after.hide c) := by
  obtain ⟨vnet, home, rfl⟩ := Option.map_eq_some_iff.mp taken
  rw [Switch.setSessionList, hide_vnets c switch v vnet home, hide_setVnet]
  rfl

/-- Pushing a session, when the hidden one does not lead the list. -/
theorem hide_linkSession (v : VnetId) (s : SessionId) (other : s ≠ c)
    (leads : ∀ vnet, switch.vnets v = some vnet → vnet.sessionList ≠ some c)
    (taken : linkSession switch v s = some after) :
    linkSession (switch.hide c) v s = some (after.hide c) := by
  obtain ⟨vnet, home, taken⟩ := Option.bind_eq_some_iff.mp taken
  rw [linkSession, hide_vnets c switch v vnet home, Option.bind_eq_bind, Option.bind_some]
  cases first : vnet.sessionList with
  | none =>
    simp only [first] at taken
    obtain ⟨listed, stored, taken⟩ := Option.bind_eq_some_iff.mp taken
    obtain ⟨forward, forwarded, backed⟩ := Option.bind_eq_some_iff.mp taken
    simp only [VNetwork.hide, first, Option.bind_eq_bind]
    rw [hide_setSessionList c switch listed v _ stored, Option.bind_some,
      hide_setNext c listed forward s _ other forwarded, Option.bind_some,
      hide_setPrev c forward after s _ other backed]
  | some head =>
    have apart : head ≠ c := fun same => leads vnet home (same ▸ first)
    simp only [first] at taken
    obtain ⟨forward, forwarded, taken⟩ := Option.bind_eq_some_iff.mp taken
    obtain ⟨backward, backed, stored⟩ := Option.bind_eq_some_iff.mp taken
    simp only [VNetwork.hide, first, Option.bind_eq_bind]
    rw [hide_setNext c switch forward s _ other forwarded, Option.bind_some,
      hide_setPrev c forward backward head _ apart backed, Option.bind_some,
      hide_setSessionList c backward after v _ stored]

theorem hide_vnetworkAddSession (v : VnetId) (s : SessionId) (other : s ≠ c)
    (leads : ∀ vnet, switch.vnets v = some vnet → vnet.sessionList ≠ some c)
    (taken : vnetworkAddSession switch v s = some after) :
    vnetworkAddSession (switch.hide c) v s = some (after.hide c) := by
  obtain ⟨linked, pushed, taken⟩ := Option.bind_eq_some_iff.mp taken
  obtain ⟨session, found, taken⟩ := Option.bind_eq_some_iff.mp taken
  obtain ⟨vnet, home, taken⟩ := Option.bind_eq_some_iff.mp taken
  obtain rfl := Option.some.inj taken
  rw [vnetworkAddSession, hide_linkSession c switch linked v s other leads pushed,
    Option.bind_eq_bind, Option.bind_some, hide_sessions c linked s other, found,
    Option.bind_eq_bind, Option.bind_some, hide_vnets c linked v vnet home, Option.bind_eq_bind,
    Option.bind_some, hide_setVnet, hide_setSession c _ s _ other]
  rfl

/-- Taking a session out, when the hidden one is not its neighbour. -/
theorem hide_unlinkSession (v : VnetId) (s : SessionId) (other : s ≠ c)
    (away : ∀ session, switch.sessions s = some session →
      session.next ≠ some c ∧ session.prev ≠ some c)
    (taken : unlinkSession switch v s = some after) :
    unlinkSession (switch.hide c) v s = some (after.hide c) := by
  obtain ⟨session, found, taken⟩ := Option.bind_eq_some_iff.mp taken
  rw [unlinkSession, hide_sessions c switch s other, found, Option.bind_eq_bind,
    Option.bind_some]
  obtain ⟨following, previous⟩ := away session found
  cases back : session.next with
  | none =>
    cases front : session.prev with
    | none =>
      simp only [back, front] at taken
      exact hide_setSessionList c switch after v _ taken
    | some before =>
      have apart : before ≠ c := fun same => previous (same ▸ front)
      simp only [back, front] at taken
      exact hide_setNext c switch after before _ apart taken
  | some beyond =>
    have beyondApart : beyond ≠ c := fun same => following (same ▸ back)
    cases front : session.prev with
    | none =>
      simp only [back, front] at taken
      obtain ⟨listed, stored, backed⟩ := Option.bind_eq_some_iff.mp taken
      simp only [Option.bind_eq_bind]
      rw [hide_setSessionList c switch listed v _ stored, Option.bind_some,
        hide_setPrev c listed after beyond _ beyondApart backed]
    | some before =>
      have beforeApart : before ≠ c := fun same => previous (same ▸ front)
      simp only [back, front] at taken
      obtain ⟨forward, forwarded, backed⟩ := Option.bind_eq_some_iff.mp taken
      simp only [Option.bind_eq_bind]
      rw [hide_setNext c switch forward before _ beforeApart forwarded, Option.bind_some,
        hide_setPrev c forward after beyond _ beyondApart backed]

theorem hide_vnetworkDelSession (v : VnetId) (s : SessionId) (other : s ≠ c)
    (away : ∀ session, switch.sessions s = some session →
      session.next ≠ some c ∧ session.prev ≠ some c)
    (taken : vnetworkDelSession switch v s = some after) :
    vnetworkDelSession (switch.hide c) v s = some (after.hide c) := by
  obtain ⟨unlinked, removed, taken⟩ := Option.bind_eq_some_iff.mp taken
  obtain ⟨session, found, taken⟩ := Option.bind_eq_some_iff.mp taken
  obtain ⟨vnet, home, taken⟩ := Option.bind_eq_some_iff.mp taken
  obtain rfl := Option.some.inj taken
  rw [vnetworkDelSession, hide_unlinkSession c switch unlinked v s other away removed,
    Option.bind_eq_bind, Option.bind_some, hide_sessions c unlinked s other, found,
    Option.bind_eq_bind, Option.bind_some, hide_vnets c unlinked v vnet home,
    Option.bind_eq_bind, Option.bind_some, hide_setVnet]
  rfl

end Lists

/-! ## Requests of the other sessions -/

/-- The session that the key of an authRequest which would be accepted leads to already. -/
def keyHolder (switch : Switch) (s : SessionId) (certName : List UInt8) : Option SessionId := do
  let session ← switch.sessions s
  if session.state ≠ .notAuthed then failure
  let info ← (cn2nodeInfo (cstring certName)).join
  let v ← lookupNodeInfo switch info
  let vnet ← switch.vnets v
  vnet.ctable.find (withNetworkUuid info vnet).uuid

section Others
variable (c : SessionId) (switch after : Switch)

/-- An authRequest under a key that does not lead to the hidden session. -/
theorem hide_authRequest (s : SessionId) (certName : List UInt8) (code : Int) (other : s ≠ c)
    (unclaimed : keyHolder switch s certName ≠ some c)
    (taken : authRequest switch s certName = some (after, code)) :
    authRequest (switch.hide c) s certName = some (after.hide c, code) := by
  obtain ⟨session, found, taken⟩ := Option.bind_eq_some_iff.mp taken
  rw [authRequest, hide_sessions c switch s other, found, Option.bind_eq_bind, Option.bind_some]
  by_cases fresh : session.state = .notAuthed
  · rw [if_neg (by simpa using fresh)] at taken ⊢
    obtain ⟨parsed, named, taken⟩ := Option.bind_eq_some_iff.mp taken
    simp only [named, Option.bind_eq_bind, Option.bind_some]
    cases parsed with
    | none =>
      obtain ⟨rfl, rfl⟩ := Prod.mk.inj (Option.some.inj taken)
      rw [hide_setSession c switch s _ other]
      rfl
    | some info =>
      have looks : lookupNodeInfo (switch.hide c) info = lookupNodeInfo switch info := rfl
      simp only [looks]
      cases looked : lookupNodeInfo switch info with
      | none =>
        simp only [looked] at taken
        obtain ⟨rfl, rfl⟩ := Prod.mk.inj (Option.some.inj taken)
        rw [hide_send c _ s _ other, hide_setSession c switch s _ other]
        rfl
      | some v =>
        simp only [looked] at taken
        obtain ⟨vnet, home, taken⟩ := Option.bind_eq_some_iff.mp taken
        have free : vnet.ctable.find (withNetworkUuid info vnet).uuid ≠ some c := by
          simpa [keyHolder, found, fresh, named, looked, home] using unclaimed
        have named : withNetworkUuid info (vnet.hide c) = withNetworkUuid info vnet := rfl
        have stored : ({ vnet with
            ctable := vnet.ctable.insert (withNetworkUuid info vnet).uuid s } : VNetwork).hide c =
            { vnet.hide c with
              ctable := (vnet.hide c).ctable.insert (withNetworkUuid info vnet).uuid s } := by
          simp only [VNetwork.hide, without_insert c s vnet.ctable _ other free]
        simp only [hide_vnets c switch v vnet home, Option.bind_some, named]
        by_cases plain : session.netc.securityLevel = .unsecure
        · simp only [if_pos plain] at taken ⊢
          obtain ⟨rfl, rfl⟩ := Prod.mk.inj (Option.some.inj taken)
          rw [hide_setSession c _ s _ other, hide_send c _ s _ other, hide_setVnet, stored]
          rfl
        · simp only [if_neg plain] at taken ⊢
          obtain ⟨rfl, rfl⟩ := Prod.mk.inj (Option.some.inj taken)
          rw [hide_setSession c _ s _ other, hide_send c _ s _ other, hide_setVnet, stored]
          rfl
  · rw [if_pos (by simpa using fresh)] at taken ⊢
    obtain ⟨rfl, rfl⟩ := Prod.mk.inj (Option.some.inj taken)
    rfl

theorem hide_handleNetinfoRequest (s : SessionId) (ipLocal macAddr : List UInt8) (other : s ≠ c)
    (taken : handleNetinfoRequest switch s ipLocal macAddr = some after) :
    handleNetinfoRequest (switch.hide c) s ipLocal macAddr = some (after.hide c) := by
  obtain ⟨session, found, taken⟩ := Option.bind_eq_some_iff.mp taken
  obtain rfl := Option.some.inj taken
  rw [handleNetinfoRequest, hide_sessions c switch s other, found, hide_send c _ s _ other,
    hide_setSession c switch s _ other]
  rfl

theorem hide_onSecure (s : SessionId) (cert : X509) (other : s ≠ c)
    (leads : ∀ v vnet, switch.vnets v = some vnet → vnet.sessionList ≠ some c)
    (taken : onSecure switch s cert = some after) :
    onSecure (switch.hide c) s cert = some (after.hide c) := by
  obtain ⟨session, found, taken⟩ := Option.bind_eq_some_iff.mp taken
  rw [onSecure, hide_sessions c switch s other, found, Option.bind_eq_bind, Option.bind_some]
  by_cases waiting : session.state = .waitStepup
  · rw [if_neg (by simpa using waiting)] at taken ⊢
    obtain ⟨held, kept, taken⟩ := Option.bind_eq_some_iff.mp taken
    obtain ⟨named, read, taken⟩ := Option.bind_eq_some_iff.mp taken
    rw [kept, Option.bind_eq_bind, Option.bind_some, read, Option.bind_eq_bind,
      Option.bind_some]
    cases named with
    | none =>
      obtain rfl := Option.some.inj taken
      rw [hide_setSession c switch s _ other]
      rfl
    | some info =>
      obtain ⟨v, member, taken⟩ := Option.bind_eq_some_iff.mp taken
      obtain ⟨vnet, home, taken⟩ := Option.bind_eq_some_iff.mp taken
      refine Option.bind_eq_some_iff.mpr ⟨v, member, ?_⟩
      refine Option.bind_eq_some_iff.mpr ⟨vnet.hide c, hide_vnets c switch v vnet home, ?_⟩
      have table : (vnet.hide c).atable = vnet.atable := rfl
      have named : withNetworkUuid info (vnet.hide c) = withNetworkUuid info vnet := rfl
      rw [table, named]
      cases listed : vnet.atable.find info.uuid with
      | none =>
        simp only [listed] at taken
        obtain rfl := Option.some.inj taken
        rw [hide_send c _ s _ other, hide_setSession c switch s _ other]
        rfl
      | some access =>
        simp only [listed] at taken
        obtain ⟨joined, added, taken⟩ := Option.bind_eq_some_iff.mp taken
        obtain rfl := Option.some.inj taken
        have pushed := hide_vnetworkAddSession c (switch.setSession s
          (session.admitted vnet info)) joined v s other
          (fun vnet home => leads v vnet home) added
        rw [hide_setSession c switch s _ other] at pushed
        refine Option.bind_eq_some_iff.mpr ⟨joined.hide c, pushed, ?_⟩
        rw [hide_send c _ s _ other, hide_status]
        rfl
  · rw [if_pos (by simpa using waiting)] at taken ⊢
    obtain rfl := Option.some.inj taken
    rfl

theorem hide_leaveVnetwork (s : SessionId) (other : s ≠ c)
    (away : ∀ v vnet session, switch.vnets v = some vnet → switch.sessions s = some session →
      session.vnetwork = some v → session.next ≠ some c ∧ session.prev ≠ some c)
    (taken : leaveVnetwork switch s = some after) :
    leaveVnetwork (switch.hide c) s = some (after.hide c) := by
  obtain ⟨session, found, taken⟩ := Option.bind_eq_some_iff.mp taken
  rw [leaveVnetwork, hide_sessions c switch s other, found, Option.bind_eq_bind, Option.bind_some]
  cases member : session.vnetwork with
  | none =>
    simp only [member] at taken
    obtain rfl := Option.some.inj taken
    rfl
  | some v =>
    simp only [member] at taken
    obtain ⟨vnet, home, taken⟩ := Option.bind_eq_some_iff.mp taken
    obtain ⟨info, named, taken⟩ := Option.bind_eq_some_iff.mp taken
    refine Option.bind_eq_some_iff.mpr ⟨vnet.hide c, hide_vnets c switch v vnet home, ?_⟩
    refine Option.bind_eq_some_iff.mpr ⟨info, named, ?_⟩
    have removed := hide_vnetworkDelSession c _ after v s other ?_ taken
    · rw [hide_setSession c _ s _ other, hide_setVnet] at removed
      simp only [VNetwork.hide, without_erase] at removed
      exact removed
    · intro stripped present
      rw [Switch.setSession_sessions, Function.update_self, Option.some.injEq] at present
      subst present
      exact away v vnet session home found member

theorem hide_onDisconnect (s : SessionId) (other : s ≠ c)
    (away : ∀ v vnet session, switch.vnets v = some vnet → switch.sessions s = some session →
      session.vnetwork = some v → session.next ≠ some c ∧ session.prev ≠ some c)
    (taken : onDisconnect switch s = some after) :
    onDisconnect (switch.hide c) s = some (after.hide c) := by
  obtain ⟨session, found, taken⟩ := Option.bind_eq_some_iff.mp taken
  rw [onDisconnect, hide_sessions c switch s other, found, Option.bind_eq_bind, Option.bind_some]
  by_cases fresh : session.state = .notAuthed
  · rw [if_pos fresh] at taken ⊢
    obtain rfl := Option.some.inj taken
    rw [hide_free c switch s other]
    rfl
  · rw [if_neg fresh] at taken ⊢
    obtain ⟨left, leaving, taken⟩ := Option.bind_eq_some_iff.mp taken
    obtain ⟨info, named, taken⟩ := Option.bind_eq_some_iff.mp taken
    obtain rfl := Option.some.inj taken
    refine Option.bind_eq_some_iff.mpr ⟨left.hide c,
      hide_leaveVnetwork c switch left s other away leaving, ?_⟩
    refine Option.bind_eq_some_iff.mpr ⟨info, named, ?_⟩
    rw [hide_free c _ s other, hide_status]
    rfl

theorem hide_learn (s source : SessionId) (mac : List UInt8) (other : s ≠ c)
    (taken : learn switch s mac = some (after, source)) :
    learn (switch.hide c) s mac = some (after.hide c, source) := by
  obtain ⟨session, found, taken⟩ := Option.bind_eq_some_iff.mp taken
  obtain ⟨v, member, taken⟩ := Option.bind_eq_some_iff.mp taken
  obtain ⟨vnet, home, taken⟩ := Option.bind_eq_some_iff.mp taken
  rw [learn, hide_sessions c switch s other, found, Option.bind_eq_bind, Option.bind_some]
  refine Option.bind_eq_some_iff.mpr ⟨v, member, ?_⟩
  refine Option.bind_eq_some_iff.mpr ⟨vnet.hide c, hide_vnets c switch v vnet home, ?_⟩
  have table : (vnet.hide c).ftable = vnet.ftable := rfl
  rw [table]
  cases bound : vnet.ftable.find mac with
  | some owner =>
    simp only [bound] at taken
    obtain ⟨rfl, rfl⟩ := Prod.mk.inj (Option.some.inj taken)
    rfl
  | none =>
    simp only [bound] at taken
    obtain ⟨rfl, rfl⟩ := Prod.mk.inj (Option.some.inj taken)
    rw [hide_setSession c _ s _ other, hide_setVnet]
    rfl

theorem hide_p2pRequest (a b : SessionId) (rand : Nat) (first : a ≠ c) (second : b ≠ c)
    (taken : p2pRequest switch a b rand = some after) :
    p2pRequest (switch.hide c) a b rand = some (after.hide c) := by
  obtain ⟨sessionA, foundA, taken⟩ := Option.bind_eq_some_iff.mp taken
  obtain ⟨sessionB, foundB, taken⟩ := Option.bind_eq_some_iff.mp taken
  obtain rfl := Option.some.inj taken
  refine Option.bind_eq_some_iff.mpr ⟨sessionA, (hide_sessions c switch a first).trans foundA, ?_⟩
  refine Option.bind_eq_some_iff.mpr ⟨sessionB, (hide_sessions c switch b second).trans foundB, ?_⟩
  rw [hide_send c _ b _ second, hide_send c _ a _ first]
  rfl

theorem hide_introduce (source target : SessionId) (now rand : Nat) (first : source ≠ c)
    (second : target ≠ c) (taken : introduce switch source target now rand = some after) :
    introduce (switch.hide c) source target now rand = some (after.hide c) := by
  obtain ⟨sessionSrc, foundSrc, taken⟩ := Option.bind_eq_some_iff.mp taken
  obtain ⟨sessionDst, foundDst, taken⟩ := Option.bind_eq_some_iff.mp taken
  obtain ⟨v, member, taken⟩ := Option.bind_eq_some_iff.mp taken
  obtain ⟨vnet, home, taken⟩ := Option.bind_eq_some_iff.mp taken
  rw [introduce, hide_sessions c switch source first, foundSrc, Option.bind_eq_bind,
    Option.bind_some, hide_sessions c switch target second, foundDst, Option.bind_eq_bind,
    Option.bind_some]
  refine Option.bind_eq_some_iff.mpr ⟨v, member, ?_⟩
  refine Option.bind_eq_some_iff.mpr ⟨vnet.hide c, hide_vnets c switch v vnet home, ?_⟩
  have links : (vnet.hide c).linkst = vnet.linkst := rfl
  rw [links]
  by_cases up : vnet.linkst.joined sessionSrc.id.toNat sessionDst.id.toNat = 1
  · rw [if_pos up] at taken ⊢
    obtain rfl := Option.some.inj taken
    rfl
  · rw [if_neg up] at taken ⊢
    obtain ⟨introduced, asked, taken⟩ := Option.bind_eq_some_iff.mp taken
    obtain rfl := Option.some.inj taken
    refine Option.bind_eq_some_iff.mpr ⟨introduced.hide c,
      hide_p2pRequest c switch introduced source target rand first second asked, ?_⟩
    rw [hide_setVnet]
    rfl

end Others

/-! ## A session that has not passed -/

section Unseen
variable {c : SessionId} {switch : Switch} (inv : Inv switch) (unseen : ¬ Passed switch c)
include inv unseen

/-- It is in no chain of pointers. -/
theorem Inv.apart (v : VnetId) (vnet : VNetwork) (home : switch.vnets v = some vnet) :
    vnet.sessionList ≠ some c ∧ ∀ s session, switch.sessions s = some session →
      session.vnetwork = some v → session.next ≠ some c ∧ session.prev ≠ some c := by
  have outside : ¬ Member switch v c := fun ⟨_, _, _, told⟩ => unseen told
  constructor
  · intro leads
    refine outside ((threaded_closed _ _ (inv.vnets v vnet home).threaded).1 c ?_)
    simpa [Switch.links, home] using leads
  · intro s session found member
    have neighbour := (inv.neighbours s session v vnet found member home).2 c
    constructor
    · intro points
      exact outside (neighbour (Or.inl (by simpa [Switch.links, found] using points)))
    · intro points
      exact outside (neighbour (Or.inr (by simpa [Switch.links, found] using points)))

/-- Nothing learned leads to it. -/
theorem Inv.unbound (v : VnetId) (vnet : VNetwork) (home : switch.vnets v = some vnet)
    (mac : List UInt8) : vnet.ftable.find mac ≠ some c := by
  intro bound
  obtain ⟨_, _, _, told, _⟩ := (inv.vnets v vnet home).bound mac c bound
  exact unseen told

/-- A walk over a session list does not meet it. -/
theorem hide_sessionList (v : VnetId) (vnet : VNetwork) (home : switch.vnets v = some vnet) :
    ∃ list, switch.sessionList vnet.sessionList = some list ∧
      (switch.hide c).sessionList vnet.sessionList = some list ∧ c ∉ list := by
  obtain ⟨list, head, formed, distinct, members⟩ :=
    threaded_list _ _ (inv.vnets v vnet home).threaded
  have leader : vnet.sessionList = list.head? := by
    rw [← head]
    simp [Switch.links, home]
  have outside : c ∉ list := fun inside => by
    obtain ⟨_, _, _, told⟩ := members c inside
    exact unseen told
  refine ⟨list, leader ▸ inv.walked v list formed distinct members, ?_, outside⟩
  have bounded : list.length ≤ (switch.hide c).opened.length := by
    apply (List.subperm_of_subset distinct ?_).length_le
    intro s inside
    obtain ⟨session, found, _⟩ := members s inside
    have other : s ≠ c := fun same => outside (same ▸ inside)
    exact List.mem_filter.mpr ⟨(inv.sessions s session found).opened, by simpa using other⟩
  rw [leader]
  refine walk_run (switch.links v) _ _ none list ?_ bounded formed
  intro s inside
  obtain ⟨session, found, _⟩ := members s inside
  have other : s ≠ c := fun same => outside (same ▸ inside)
  simp [hide_sessions c switch s other, Switch.links, found]

end Unseen

section Forwarding
variable (c : SessionId) (switch after : Switch) (inv : Inv switch)
  (unseen : ¬ Passed switch c)
include inv unseen

theorem hide_forwardEthernet (s : SessionId) (frame : List UInt8) (now rand : Nat)
    (other : s ≠ c) (taken : forwardEthernet switch s frame now rand = some after) :
    forwardEthernet (switch.hide c) s frame now rand = some (after.hide c) := by
  obtain ⟨session, found, taken⟩ := Option.bind_eq_some_iff.mp taken
  refine Option.bind_eq_some_iff.mpr ⟨session, (hide_sessions c switch s other).trans found, ?_⟩
  by_cases authed : session.state = .authed
  · rw [if_neg (by simpa using authed)] at taken ⊢
    by_cases short : frame.length < 12
    · rw [if_pos short] at taken
      cases taken
    · rw [if_neg short] at taken ⊢
      obtain ⟨⟨learned, source⟩, learning, taken⟩ := Option.bind_eq_some_iff.mp taken
      obtain ⟨v, member, taken⟩ := Option.bind_eq_some_iff.mp taken
      obtain ⟨vnet, home, taken⟩ := Option.bind_eq_some_iff.mp taken
      have later := learn_inv switch learned inv s source session _ found authed learning
      have still : ¬ Passed learned c := by
        obtain ⟨_, _, _, _, _, _, ⟨_, rfl⟩ | ⟨_, _, rfl⟩⟩ := learn_cases _ _ _ _ _ learning
        · exact unseen
        · exact unseen
      have unbound := later.unbound still v vnet home
      have apart : source ≠ c := by
        rintro rfl
        obtain ⟨own, w, here, present, _, there, ⟨bound, rfl⟩ | ⟨_, same, rfl⟩⟩ :=
          learn_cases _ _ _ _ _ learning
        · exact later.unbound still w here there _ bound
        · exact other same.symm
      refine Option.bind_eq_some_iff.mpr ⟨(learned.hide c, source),
        hide_learn c switch learned s source _ other learning, ?_⟩
      refine Option.bind_eq_some_iff.mpr ⟨v, member, ?_⟩
      refine Option.bind_eq_some_iff.mpr ⟨vnet.hide c, hide_vnets c learned v vnet home, ?_⟩
      have table : (vnet.hide c).ftable = vnet.ftable := rfl
      have leader : (vnet.hide c).sessionList = vnet.sessionList := rfl
      obtain ⟨list, walked, hidden, outside⟩ := hide_sessionList later still v vnet home
      rw [table, leader, hidden]
      rw [walked] at taken
      cases bound : vnet.ftable.find (inetGetMacAddrDst frame) with
      | none =>
        simp only [bound] at taken
        obtain rfl := Option.some.inj taken
        rw [hide_sendEach c learned list _ outside]
        rfl
      | some target =>
        simp only [bound] at taken
        by_cases loop : target = source
        · rw [if_pos loop] at taken
          obtain rfl := Option.some.inj taken
          exact if_pos loop
        · rw [if_neg loop] at taken
          refine (if_neg loop).trans ?_
          by_cases unicast : inetGetMacAddrType (inetGetMacAddrDst frame) = .unicast
          · rw [if_pos unicast] at taken ⊢
            have aimed : target ≠ c := fun same => unbound _ (same ▸ bound)
            rw [← hide_send c learned target _ aimed]
            exact hide_introduce c _ after source target now rand apart aimed taken
          · rw [if_neg unicast] at taken ⊢
            obtain rfl := Option.some.inj taken
            rw [hide_sendEach c learned list _ outside]
            rfl
  · rw [if_pos (by simpa using authed)] at taken ⊢
    obtain rfl := Option.some.inj taken
    rfl

end Forwarding

/-! ## Commands of the controller -/

section Commands
variable (c : SessionId) (switch after : Switch)

theorem hide_vnetworkCreate (id uuid : List UInt8) :
    (vnetworkCreate switch id uuid).hide c = vnetworkCreate (switch.hide c) id uuid := by
  unfold Switch.hide vnetworkCreate
  congr 1
  funext w
  by_cases own : w = switch.vnetCount
  · have nobody : without c (.empty : Table (List UInt8) SessionId) = .empty := by
      apply Table.ext
      intro key
      rfl
    simp [own, VNetwork.hide, vnetworkNew, nobody]
  · simp [own]

theorem hide_listNode (uuid networkUuid : List UInt8)
    (taken : listNode switch uuid networkUuid = some after) :
    listNode (switch.hide c) uuid networkUuid = some (after.hide c) := by
  have index : (switch.hide c).vnetworks = switch.vnetworks := rfl
  unfold listNode at taken ⊢
  rw [index]
  cases known : switch.vnetworks.find networkUuid with
  | none =>
    simp only [known] at taken
    obtain rfl := Option.some.inj taken
    rfl
  | some v =>
    simp only [known] at taken
    obtain ⟨vnet, home, taken⟩ := Option.bind_eq_some_iff.mp taken
    obtain ⟨key, read, taken⟩ := Option.bind_eq_some_iff.mp taken
    obtain rfl := Option.some.inj taken
    refine Option.bind_eq_some_iff.mpr ⟨vnet.hide c, hide_vnets c switch v vnet home, ?_⟩
    refine Option.bind_eq_some_iff.mpr ⟨key, read, ?_⟩
    rw [hide_setVnet]
    rfl

/-- A command that marks the hidden session does nothing to the others. -/
theorem hide_delNode (node : Option NodeDocument) (code : Int)
    (taken : delNode switch node = some (after, code)) :
    delNode (switch.hide c) node = some (after.hide c, code) := by
  have index : (switch.hide c).vnetworks = switch.vnetworks := rfl
  unfold delNode at taken ⊢
  rw [index]
  split at taken
  · next uuid networkUuid _ _ =>
    cases known : switch.vnetworks.find networkUuid with
    | none =>
      simp only [known] at taken
      obtain ⟨rfl, rfl⟩ := Prod.mk.inj (Option.some.inj taken)
      rfl
    | some v =>
      simp only [known] at taken
      obtain ⟨vnet, home, taken⟩ := Option.bind_eq_some_iff.mp taken
      obtain ⟨key, read, taken⟩ := Option.bind_eq_some_iff.mp taken
      refine Option.bind_eq_some_iff.mpr ⟨vnet.hide c, hide_vnets c switch v vnet home, ?_⟩
      refine Option.bind_eq_some_iff.mpr ⟨key, read, ?_⟩
      have table : (vnet.hide c).ctable = without c vnet.ctable := rfl
      rw [table, find_without]
      cases connected : vnet.ctable.find key with
      | none =>
        simp only [connected] at taken
        obtain ⟨rfl, rfl⟩ := Prod.mk.inj (Option.some.inj taken)
        rw [hide_setVnet]
        rfl
      | some s =>
        simp only [connected] at taken
        obtain ⟨session, found, taken⟩ := Option.bind_eq_some_iff.mp taken
        obtain ⟨rfl, rfl⟩ := Prod.mk.inj (Option.some.inj taken)
        by_cases own : s = c
        · subst own
          rw [if_pos rfl, hide_setSession_own, hide_setVnet]
          rfl
        · have kept := hide_sessions c switch s own
          rw [if_neg (by simpa using own), hide_setSession c _ s _ own, hide_setVnet]
          exact Option.bind_eq_some_iff.mpr ⟨session, kept.trans found, rfl⟩
  · obtain ⟨rfl, rfl⟩ := Prod.mk.inj (Option.some.inj taken)
    rfl

theorem hide_detach (members : List SessionId) (outside : c ∉ members)
    (taken : members.foldlM detach switch = some after) :
    members.foldlM detach (switch.hide c) = some (after.hide c) := by
  induction members generalizing switch with
  | nil =>
    obtain rfl := Option.some.inj taken
    rfl
  | cons s rest inductionHypothesis =>
    rw [List.mem_cons, not_or] at outside
    have other : s ≠ c := Ne.symm outside.1
    obtain ⟨middle, first, taken⟩ := Option.bind_eq_some_iff.mp taken
    refine Option.bind_eq_some_iff.mpr ⟨middle.hide c, ?_,
      inductionHypothesis middle outside.2 taken⟩
    obtain ⟨session, found, first⟩ := Option.bind_eq_some_iff.mp first
    obtain rfl := Option.some.inj first
    refine Option.bind_eq_some_iff.mpr ⟨session, (hide_sessions c switch s other).trans found, ?_⟩
    rw [hide_setSession c switch s _ other]
    rfl

theorem hide_delNetwork (inv : Inv switch) (unseen : ¬ Passed switch c)
    (networkUuid : Option (List UInt8)) (code : Int)
    (taken : delNetwork switch networkUuid = some (after, code)) :
    delNetwork (switch.hide c) networkUuid = some (after.hide c, code) := by
  have index : (switch.hide c).vnetworks = switch.vnetworks := rfl
  cases networkUuid with
  | none =>
    obtain ⟨rfl, rfl⟩ := Prod.mk.inj (Option.some.inj taken)
    rfl
  | some uuid =>
    cases known : switch.vnetworks.find uuid with
    | none =>
      simp only [delNetwork, vnetworkDisable, known, Option.bind_eq_bind, Option.bind_some]
        at taken
      obtain ⟨rfl, rfl⟩ := Prod.mk.inj (Option.some.inj taken)
      simp [delNetwork, vnetworkDisable, index, known]
    | some v =>
      obtain ⟨⟨disabled, found⟩, disabling, taken⟩ := Option.bind_eq_some_iff.mp taken
      simp only [vnetworkDisable, known] at disabling
      obtain ⟨vnet, home, disabling⟩ := Option.bind_eq_some_iff.mp disabling
      obtain ⟨rfl, rfl⟩ := Prod.mk.inj (Option.some.inj disabling)
      obtain ⟨same, present, taken⟩ := Option.bind_eq_some_iff.mp taken
      obtain rfl := Option.some.inj (home.symm.trans present)
      obtain ⟨members, walked, taken⟩ := Option.bind_eq_some_iff.mp taken
      obtain ⟨purged, detaching, taken⟩ := Option.bind_eq_some_iff.mp taken
      obtain ⟨rfl, rfl⟩ := Prod.mk.inj (Option.some.inj taken)
      obtain ⟨list, same, hidden, outside⟩ := hide_sessionList inv unseen v vnet home
      obtain rfl := Option.some.inj (walked.symm.trans same)
      have there := hide_vnets c switch v vnet home
      have later := hide_detach c _ purged members outside detaching
      refine Option.bind_eq_some_iff.mpr ⟨({ switch.hide c with
        vnetworks := switch.vnetworks.erase uuid
        vnetworksId := switch.vnetworksId.erase vnet.id }, some v), ?_, ?_⟩
      · simp only [vnetworkDisable, index, known, there]
        rfl
      · refine Option.bind_eq_some_iff.mpr ⟨vnet.hide c, there, ?_⟩
        refine Option.bind_eq_some_iff.mpr ⟨members, hidden, ?_⟩
        refine Option.bind_eq_some_iff.mpr ⟨purged.hide c, later, ?_⟩
        simp only [vnetworkFree, Switch.hide]
        congr 3
        funext w
        by_cases own : w = v
        · simp [own]
        · simp [own]

end Commands

/-! ## Steps -/

/-- What a step of another connection, or of the controller, must not meet: a key that leads
to the connection. And the connection itself ends before its authRequest is accepted. -/
def Harmless (c : SessionId) (switch : Switch) (event : Event) : Prop :=
  (ends switch event = some c → switch.stateOf c = some .notAuthed) ∧
  match event with
  | .input s _ (.authRequest certName) => s ≠ c → keyHolder switch s certName ≠ some c
  | _ => True

instance (c : SessionId) (switch : Switch) (event : Event) :
    Decidable (Harmless c switch event) := by
  unfold Harmless
  cases event with
  | input s env message => cases message <;> exact inferInstance
  | _ => exact inferInstance

/-- A session that has passed stays one that has. -/
theorem step_passed (switch after : Switch) (event : Event) (inv : Inv switch)
    (taken : step switch event = some after) (s : SessionId) (passed : Passed switch s) :
    Passed after s := by
  cases step_effect switch after inv event taken with
  | quiet rest => exact rest.kept _ passed
  | connected _ _ _ rest => exact rest ▸ passed
  | accepted _ _ _ _ _ _ _ _ _ _ rest => exact rest.kept _ passed
  | admitted t session v vnet _ info _ _ _ _ _ _ _ rest =>
    refine rest.kept _ ?_
    exact (admitted_passed switch t s (session.admitted vnet info) v vnet).mpr (Or.inr passed)
  | learned _ _ _ _ _ _ _ _ _ _ rest => exact rest.kept _ passed
  | left _ _ _ _ _ _ _ _ _ rest => exact rest.kept _ passed
  | freed _ _ _ _ _ rest => exact rest.kept _ passed
  | granted _ _ _ _ _ _ _ _ _ rest => exact rest ▸ passed
  | revoked _ _ _ _ _ _ rest =>
    rcases rest with rfl | ⟨_, _, _, rfl⟩
    · exact passed
    · exact passed
  | created _ _ rest => exact rest ▸ passed
  | deleted _ _ _ _ _ _ _ _ rest => exact rest ▸ passed

section Steps
variable (c : SessionId) (switch after : Switch) (inv : Inv switch)
  (unseen : ¬ Passed switch c)
include inv unseen

/-- The disconnect of another session. -/
theorem hide_ends (s : SessionId) (other : s ≠ c) (taken : onDisconnect switch s = some after) :
    onDisconnect (switch.hide c) s = some (after.hide c) := by
  refine hide_onDisconnect c switch after s other ?_ taken
  intro v vnet session home found member
  exact (inv.apart unseen v vnet home).2 s session found member

/-- What another session or the controller does, it does without the connection too. -/
theorem hide_step_other (event : Event) (other : event.session ≠ some c)
    (harmless : Harmless c switch event) (taken : step switch event = some after) :
    step (switch.hide c) event = some (after.hide c) := by
  cases event with
  | connect s peerHost =>
    have apart : s ≠ c := fun same => other (congrArg some same)
    by_cases known : s ∈ switch.opened
    · rw [step, if_pos known] at taken
      cases taken
    · rw [step, if_neg known, Option.some.injEq] at taken
      subst taken
      have fresh : s ∉ (switch.hide c).opened := fun inside => known (List.mem_filter.mp inside).1
      rw [step, if_neg fresh]
      simp [onConnect, Switch.hide, Function.update_comm apart, apart]
  | input s env message =>
    have apart : s ≠ c := fun same => other (congrArg some same)
    obtain ⟨session, found, cases⟩ := input_cases switch after s env message taken
    have there := (hide_sessions c switch s apart).trans found
    rcases cases with ⟨purged, ended⟩ | ⟨active, done⟩
    · have gone := hide_ends c switch after inv unseen s apart ended
      simpa [step, onInput, there, purged] using gone
    · have dispatched : dispatchOperation (switch.hide c) s env message =
          some (after.hide c) := by
        cases message with
        | provRequest provCode =>
          simp only [dispatchOperation, found, Option.map_some, Option.some.injEq] at done
          subst done
          refine Option.map_eq_some_iff.mpr ⟨session, there, ?_⟩
          simp [provRequest, Switch.hide, apart]
        | authRequest certName =>
          obtain ⟨⟨later, code⟩, asked, rfl⟩ := Option.map_eq_some_iff.mp done
          have hidden := hide_authRequest c switch later s certName code apart
            (harmless.2 apart) asked
          simp [dispatchOperation, hidden]
        | netinfoRequest ipLocal macAddr =>
          exact hide_handleNetinfoRequest c switch after s ipLocal macAddr apart done
        | other =>
          obtain ⟨left, ended, later⟩ := Option.bind_eq_some_iff.mp done
          obtain rfl := Option.some.inj later
          have gone := hide_ends c switch left inv unseen s apart ended
          refine Option.bind_eq_some_iff.mpr ⟨left.hide c, gone, ?_⟩
          simp [Switch.hide, apart]
        | ethernet frame =>
          exact hide_forwardEthernet c switch after inv unseen s frame env.now env.rand apart done
        | invalid =>
          simp only [dispatchOperation, found, Option.map_some, Option.some.injEq] at done
          subst done
          simp [dispatchOperation, there]
      simpa [step, onInput, there, active] using dispatched
  | secure s cert =>
    have apart : s ≠ c := fun same => other (congrArg some same)
    exact hide_onSecure c switch after s cert apart
      (fun v vnet home => (inv.apart unseen v vnet home).1) taken
  | disconnect s =>
    have apart : s ≠ c := fun same => other (congrArg some same)
    exact hide_ends c switch after inv unseen s apart taken
  | createNetwork id uuid =>
    obtain rfl := Option.some.inj taken
    rw [hide_vnetworkCreate]
    rfl
  | listNode uuid networkUuid => exact hide_listNode c switch after uuid networkUuid taken
  | delNode node =>
    obtain ⟨⟨later, code⟩, done, rfl⟩ := Option.map_eq_some_iff.mp taken
    simp [step, hide_delNode c switch later node code done]
  | delNetwork networkUuid =>
    obtain ⟨⟨later, code⟩, done, rfl⟩ := Option.map_eq_some_iff.mp taken
    simp [step, hide_delNetwork c switch later inv unseen networkUuid code done]

/-- What the connection does does not show. -/
theorem hide_step_own (event : Event) (own : event.session = some c)
    (harmless : Harmless c switch event) (unnoticed : ¬ Passed after c)
    (taken : step switch event = some after) : after.hide c = switch.hide c := by
  have freed : ∀ left, onDisconnect switch c = some left →
      switch.stateOf c = some .notAuthed → left.hide c = switch.hide c := by
    intro left ended fresh
    obtain ⟨session, found, ⟨_, rfl⟩ | ⟨_, _, state, _⟩⟩ := onDisconnect_cases _ _ _ ended
    · simp [Switch.hide, Switch.sessionFree]
    · exact absurd (by simpa [Switch.stateOf, found] using fresh) state
  cases event with
  | connect s peerHost =>
    obtain rfl := Option.some.inj own
    by_cases known : s ∈ switch.opened
    · rw [step, if_pos known] at taken
      cases taken
    · rw [step, if_neg known, Option.some.injEq] at taken
      subst taken
      simp [onConnect, Switch.hide]
  | input s env message =>
    obtain rfl := Option.some.inj own
    obtain ⟨session, found, cases⟩ := input_cases switch after s env message taken
    have held := inv.sessions s session found
    rcases cases with ⟨purged, ended⟩ | ⟨_, done⟩
    · refine freed after ended (harmless.1 ?_)
      simp [ends, found, purged]
    · cases message with
      | provRequest provCode =>
        obtain ⟨_, _, rfl⟩ := Option.map_eq_some_iff.mp done
        simp [provRequest, Switch.hide]
      | authRequest certName =>
        obtain ⟨⟨later, code⟩, asked, rfl⟩ := Option.map_eq_some_iff.mp done
        obtain ⟨_, _, ⟨_, rfl⟩ | ⟨_, rfl⟩ | ⟨_, _, _, _, rfl⟩ |
          ⟨info, v, vnet, _, _, _, home, rfl⟩⟩ := authRequest_cases _ _ _ _ _ asked
        · rfl
        · exact hide_setSession_own s switch _
        · rw [hide_send_own, hide_setSession_own]
        · rw [hide_setSession_own, hide_send_own, hide_setVnet]
          refine setVnet_self (switch.hide s) v _ ?_
          rw [hide_vnets s switch v vnet home]
          simp [VNetwork.hide, without_insert_own]
      | netinfoRequest ipLocal macAddr =>
        obtain ⟨_, _, done⟩ := Option.bind_eq_some_iff.mp done
        obtain rfl := Option.some.inj done
        exact (hide_send_own s _ _).trans (hide_setSession_own s switch _)
      | other =>
        obtain ⟨left, ended, later⟩ := Option.bind_eq_some_iff.mp done
        obtain rfl := Option.some.inj later
        have gone := freed left ended (harmless.1 (by simp [ends]))
        rw [← gone]
        simp [Switch.hide]
      | ethernet frame =>
        obtain ⟨other, present, ⟨_, rfl⟩ | ⟨_, _, _, _, authed, _⟩⟩ :=
          forwardEthernet_cases _ _ _ _ _ _ done
        · rfl
        · obtain rfl := Option.some.inj (found.symm.trans present)
          exact absurd (held.authed authed).2 unseen
      | invalid =>
        obtain ⟨_, _, rfl⟩ := Option.map_eq_some_iff.mp done
        rfl
  | secure s cert =>
    obtain rfl := Option.some.inj own
    obtain ⟨_, _, ⟨_, rfl⟩ | ⟨_, _, rfl⟩ | ⟨_, _, _, _, _, _, _, _, rfl⟩ |
      ⟨_, _, _, _, _, _, _, _, _, _, rfl⟩⟩ := onSecure_cases _ _ _ _ taken
    · rfl
    · exact hide_setSession_own s switch _
    · rw [hide_send_own, hide_setSession_own]
    · exact absurd (List.mem_append_right _ List.mem_cons_self) unnoticed
  | disconnect s =>
    obtain rfl := Option.some.inj own
    exact freed after taken (harmless.1 rfl)
  | createNetwork | listNode | delNode | delNetwork => cases own

end Steps

/-! ## Runs -/

/-- What the connection would not have changed, in the states of a run with it and of one
without it. -/
structure Unaffected (c : SessionId) (switch other : Switch) : Prop where
  sessions : ∀ s, s ≠ c → other.sessions s = switch.sessions s
  gone : ∀ v, switch.vnets v = none → other.vnets v = none
  sessionList : ∀ v, (other.vnets v).map VNetwork.sessionList =
    (switch.vnets v).map VNetwork.sessionList
  activeNode : ∀ v, (other.vnets v).map VNetwork.activeNode =
    (switch.vnets v).map VNetwork.activeNode
  bitpool : ∀ v, (other.vnets v).map VNetwork.bitpool = (switch.vnets v).map VNetwork.bitpool
  linkst : ∀ v, (other.vnets v).map VNetwork.linkst = (switch.vnets v).map VNetwork.linkst
  ftable : ∀ v, (other.vnets v).map VNetwork.ftable = (switch.vnets v).map VNetwork.ftable
  ctable : ∀ v vnet kept, switch.vnets v = some vnet → other.vnets v = some kept →
    ∀ key s, s ≠ c → (kept.ctable.find key = some s ↔ vnet.ctable.find key = some s)
  statuses : other.statuses = switch.statuses

/-- Hiding the connection takes nothing else away. -/
theorem hide_unaffected (c : SessionId) (switch : Switch) :
    Unaffected c switch (switch.hide c) where
  sessions s other := hide_sessions c switch s other
  gone v absent := by simp [Switch.hide, absent]
  sessionList v := by cases home : switch.vnets v <;> simp [Switch.hide, home, VNetwork.hide]
  activeNode v := by cases home : switch.vnets v <;> simp [Switch.hide, home, VNetwork.hide]
  bitpool v := by cases home : switch.vnets v <;> simp [Switch.hide, home, VNetwork.hide]
  linkst v := by cases home : switch.vnets v <;> simp [Switch.hide, home, VNetwork.hide]
  ftable v := by cases home : switch.vnets v <;> simp [Switch.hide, home, VNetwork.hide]
  ctable v vnet kept home there key s other := by
    rw [hide_vnets c switch v vnet home, Option.some.injEq] at there
    subst there
    simp only [VNetwork.hide, find_without]
    by_cases own : vnet.ctable.find key = some c
    · simp [own, Ne.symm other]
    · rw [if_neg own]
  statuses := rfl

theorem hide_initial (c : SessionId) : Switch.initial.hide c = Switch.initial := by
  simp [Switch.hide, Switch.initial]

/-- A connection that never passes, and meets the others nowhere, might as well not be.

Proof: the run without the connection's events is followed with the connection hidden from
each state. An event of its own leaves the hidden state as it is, another event steps it to
the next one; what is hidden does not show in what the others are sent. -/
theorem unauthenticated_harmless (c : SessionId) (events : List Event) (switch : Switch)
    (reached : run step Switch.initial events = some switch) (unseen : ¬ Passed switch c)
    (harmless : Meets step (Harmless c) Switch.initial events) :
    ∃ other, run step Switch.initial (events.filter (·.session ≠ some c)) = some other ∧
      Unaffected c switch other := by
  have hidden : ¬ Passed switch c →
      run step Switch.initial (events.filter (·.session ≠ some c)) = some (switch.hide c) := by
    refine history_under step (Harmless c) (fun past switch => ¬ Passed switch c →
      run step Switch.initial (past.filter (·.session ≠ some c)) = some (switch.hide c))
      Switch.initial ?_ switch events (fun _ => ?_) harmless reached
    rotate_left
    · rw [hide_initial]
      rfl
    intro past before event next early without harmless taken unnoticed
    have inv := reachable_inv before past early
    have unseen : ¬ Passed before c := fun passed =>
      unnoticed (step_passed before next event inv taken c passed)
    rw [List.filter_append]
    by_cases own : event.session = some c
    · have still := hide_step_own c before next inv unseen event own harmless unnoticed taken
      simpa [own, still] using without unseen
    · have taken' := hide_step_other c before next inv unseen event own harmless taken
      rw [List.filter_singleton, decide_eq_true own, cond_true]
      exact run_extend step _ _ _ _ event (without unseen) taken'
  exact ⟨switch.hide c, hidden unseen, hide_unaffected c switch⟩

/-- Session 1 joins as node "a"; session 2 asks for another network, which is not there, and
disconnects. -/
def aloofRun : List Event :=
  sampleNetwork [0x61] ++ sampleJoin 1 0x61 ++ [.connect 2 [],
    .input 2 { now := 0, rand := 0 } (.authRequest
      (ascii ['n', 'v', 'a', '-'] ++ sampleUuid 0x61 ++ ascii ['@', '8'])), .disconnect 2]

def aloofSwitch : Switch := (run step Switch.initial aloofRun).get (by decide)

theorem aloofRun_harmless : ∃ other,
    run step Switch.initial (aloofRun.filter (·.session ≠ some 2)) = some other ∧
      Unaffected 2 aloofSwitch other :=
  unauthenticated_harmless 2 aloofRun aloofSwitch (Option.some_get _).symm
    (by unfold Passed; decide) (by decide)

/-- Session 1 joins as node "a"; session 2 asks under the same name, shows no certificate,
and disconnects. -/
def impostorRun : List Event :=
  sampleNetwork [0x61] ++ sampleJoin 1 0x61 ++ sampleAsk 2 0x61 ++ [.disconnect 2]

def impostorSwitch : Switch := (run step Switch.initial impostorRun).get (by decide)

/-- The run without session 2. -/
def spareSwitch : Switch :=
  (run step Switch.initial (impostorRun.filter (·.session ≠ some 2))).get (by decide)

/-- The list of the network is lost, nobody is counted in it any more, the first session's
entry is gone from the connection table, and its node was reported offline. -/
theorem impostorRun_disturbs : run step Switch.initial impostorRun = some impostorSwitch ∧
    ¬ Passed impostorSwitch 2 ∧
    run step Switch.initial (impostorRun.filter (·.session ≠ some 2)) = some spareSwitch ∧
    (impostorSwitch.vnets 0).map VNetwork.sessionList = some none ∧
    (spareSwitch.vnets 0).map VNetwork.sessionList = some (some 1) ∧
    (impostorSwitch.vnets 0).map VNetwork.activeNode = some 0 ∧
    (spareSwitch.vnets 0).map VNetwork.activeNode = some 1 ∧
    ((impostorSwitch.vnets 0).bind fun vnet => vnet.ctable.find (sampleUuid 0x61)) = none ∧
    ((spareSwitch.vnets 0).bind fun vnet => vnet.ctable.find (sampleUuid 0x61)) = some 1 ∧
    impostorSwitch.statuses.getLast? ≠ spareSwitch.statuses.getLast? ∧
    ¬ Unaffected 2 impostorSwitch spareSwitch := by
  have count : (impostorSwitch.vnets 0).map VNetwork.activeNode = some 0 := by decide
  have spare : (spareSwitch.vnets 0).map VNetwork.activeNode = some 1 := by decide
  refine ⟨(Option.some_get _).symm, by unfold Passed; decide, (Option.some_get _).symm,
    by decide, by decide, count, spare, by decide, by decide, by decide, ?_⟩
  intro unaffected
  have same := unaffected.activeNode 0
  rw [count, spare] at same
  cases same

end NetVirt.Nvswitch
