import NetVirt.SwitchSessions

/-!
# Isolation of the networks

A frame goes to members of its session's own network, to each at most once, and floods the
session list when nothing is known of its destination. What happens on a session touches
the table, the link states and the list of its own network only. Without del-network the
network of a session is always there, so forwarding a whole frame never fails.
-/

namespace NetVirt.Nvswitch

open Bitv Cert LinkStates LinkedLists Tables Runs

/-! ## Networks that stay -/

/-- The network of every session is there. -/
def Alive (switch : Switch) : Prop :=
  ∀ s session v, switch.sessions s = some session → session.vnetwork = some v →
    ∃ vnet, switch.vnets v = some vnet

/-- Only del-network takes a network away. -/
theorem vnets_stay (switch after : Switch) (event : Event) (inv : Inv switch)
    (allowed : ∀ uuid, event ≠ .delNetwork uuid) (taken : step switch event = some after)
    (v : VnetId) (vnet : VNetwork) (home : switch.vnets v = some vnet) :
    ∃ changed, after.vnets v = some changed := by
  have quiet : ∀ middle, Quiet middle after → (∃ there, middle.vnets v = some there) →
      ∃ changed, after.vnets v = some changed := by
    rintro middle quiet ⟨there, present⟩
    obtain ⟨changed, stays, _⟩ := quiet.symmetric_vnet v there present
    exact ⟨changed, stays⟩
  have stored : ∀ w changed, ∃ there, (switch.setVnet w changed).vnets v = some there := by
    intro w changed
    by_cases own : v = w
    · exact ⟨changed, by simp [own]⟩
    · exact ⟨vnet, by simp [own, home]⟩
  cases step_effect switch after inv event taken with
  | quiet rest => exact quiet _ rest ⟨vnet, home⟩
  | connected s peerHost fresh rest => exact rest ▸ ⟨vnet, home⟩
  | accepted s session w other env certName asked found state there rest =>
    exact quiet _ rest ⟨vnet, home⟩
  | admitted s session w other cert info asked read found state member there listed rest =>
    refine quiet _ rest ?_
    rw [admitted_vnets]
    by_cases own : v = w
    · exact ⟨_, if_pos own⟩
    · exact ⟨vnet, (if_neg own).trans home⟩
  | learned s session w other mac found state member there unbound rest =>
    exact quiet _ rest (stored w _)
  | left s session w other ended found state member there rest =>
    refine quiet _ rest ?_
    rw [left_vnets]
    by_cases own : v = w
    · exact ⟨_, if_pos own⟩
    · exact ⟨vnet, (if_neg own).trans home⟩
  | freed s session ended found state rest => exact quiet _ rest ⟨vnet, home⟩
  | granted uuid networkUuid key w other asked known there read rest => exact rest ▸ stored w _
  | revoked w other key node asked there rest =>
    rcases rest with rfl | ⟨_, _, _, rfl⟩
    · exact stored w _
    · exact stored w _
  | created id uuid rest =>
    subst rest
    by_cases own : v = switch.vnetCount
    · exact ⟨_, by simp [vnetworkCreate, own]; rfl⟩
    · exact ⟨vnet, by simp [vnetworkCreate, own, home]⟩
  | deleted uuid w other members asked known there walked rest => exact absurd asked (allowed _)

theorem alive_step (switch : Switch) (event : Event) (after : Switch) (inv : Inv switch)
    (alive : Alive switch) (allowed : ∀ uuid, event ≠ .delNetwork uuid)
    (taken : step switch event = some after) : Alive after := by
  intro s later v there member
  have stays := fun vnet => vnets_stay switch after event inv allowed taken v vnet
  rcases session_step switch after event inv taken s later there with
    ⟨_, fresh⟩ | ⟨session, found, change⟩
  · have alone := ((step_inv switch event after inv taken).sessions s later there).unknown fresh
    rw [alone.1] at member
    cases member
  · cases change with
    | kept _ same _ =>
      obtain ⟨vnet, home⟩ := alive s session v found (same.symm.trans member)
      exact stays vnet home
    | accepted _ _ w vnet _ home _ _ placed =>
      obtain rfl := Option.some.inj (member.symm.trans placed)
      exact stays vnet home
    | admitted _ _ w vnet _ _ within home _ _ _ same _ =>
      obtain rfl := Option.some.inj (member.symm.trans (same.trans within))
      exact stays vnet home
    | purged _ _ moved =>
      rcases moved with same | lost
      · obtain ⟨vnet, home⟩ := alive s session v found (same.symm.trans member)
        exact stays vnet home
      · rw [lost] at member
        cases member

theorem reachable_alive (switch : Switch) (events : List Event)
    (allowed : ∀ uuid, Event.delNetwork uuid ∉ events)
    (reached : run step Switch.initial events = some switch) : Inv switch ∧ Alive switch :=
  invariant_of_allowed step (fun event => ∀ uuid, event ≠ .delNetwork uuid)
    (fun switch => Inv switch ∧ Alive switch)
    (fun switch event after ⟨inv, alive⟩ allowed taken =>
      ⟨step_inv switch event after inv taken,
        alive_step switch event after inv alive allowed taken⟩)
    Switch.initial switch events ⟨initial_inv, fun s session v found => by cases found⟩
    (fun event inside uuid same => allowed uuid (same ▸ inside)) reached

/-! ## Forwarding -/

/-- The state in which a frame's source has been looked up or learned. -/
structure Looked (switch learned : Switch) (s : SessionId) (v : VnetId) (source : SessionId) :
    Prop where
  inv : Inv learned
  undisturbed : Undisturbed switch learned v
  sent : learned.sent = switch.sent
  lists : ∀ first, learned.sessionList first = switch.sessionList first
  source : Member learned v source

/-- Learning keeps everything but the table, which gets the source's address. -/
theorem learn_looked (switch : Switch) (inv : Inv switch) (s : SessionId) (session : Session)
    (v : VnetId) (vnet : VNetwork) (mac : List UInt8) (found : switch.sessions s = some session)
    (authed : session.state = .authed) (member : session.vnetwork = some v)
    (home : switch.vnets v = some vnet) :
    ∃ learned source changed, learn switch s mac = some (learned, source) ∧
      Looked switch learned s v source ∧ learned.vnets v = some changed ∧
      changed.sessionList = vnet.sessionList ∧
      changed.ftable = vnet.ftable.insert mac s := by
  have passed := ((inv.sessions s session found).authed authed).2
  cases bound : vnet.ftable.find mac with
  | some source =>
    have unchanged := Table.insert_present vnet.ftable mac s (by simp [bound])
    obtain ⟨owner, there, belongs, told, _⟩ := (inv.vnets v vnet home).bound mac source bound
    refine ⟨switch, source, vnet, by simp [learn, found, member, home, bound], ?_, home, rfl,
      unchanged.symm⟩
    exact ⟨inv, (Quiet.refl switch).undisturbed v, rfl, fun _ => rfl,
      ⟨owner, there, belongs, told⟩⟩
  | none =>
    have learned := learned_inv inv s session v vnet mac found authed member home bound
    refine ⟨_, s, { vnet with ftable := vnet.ftable.insert mac s }, ?_,
      ⟨learned, ?_, rfl, fun first => ?_, ?_⟩, ?_, rfl, rfl⟩
    · simp only [learn, found, member, home, bound, Option.bind_eq_bind, Option.bind_some]
      rfl
    · exact learned_undisturbed switch s session v v vnet mac found home
    · unfold Switch.sessionList
      congr 1
      funext t
      by_cases own : t = s
      · simp [own, found]
      · simp [own]
    · exact ⟨{ session with macAddr := mac, macList := mac :: session.macList },
        Function.update_self _ _ _, member, passed⟩
    · rw [Switch.setSession_vnets, Switch.setVnet_vnets, Function.update_self]

/-- An introduction has a result, and sends no frame. -/
theorem introduce_done (switch : Switch) (source target : SessionId) (now rand : Nat)
    (v : VnetId) (vnet : VNetwork) (home : switch.vnets v = some vnet)
    (sender : Member switch v source) (receiver : Member switch v target) :
    ∃ after others, introduce switch source target now rand = some after ∧
      after.sent = switch.sent ++ others ∧ ∀ t frame, (t, Outgoing.ethernet frame) ∉ others := by
  have done : ∃ after, introduce switch source target now rand = some after := by
    obtain ⟨sessionSrc, found, member, _⟩ := sender
    obtain ⟨sessionDst, other, _⟩ := receiver
    simp only [introduce, found, other, member, home, Option.bind_eq_bind, Option.bind_some,
      p2pRequest]
    split
    · exact ⟨switch, rfl⟩
    · exact ⟨_, rfl⟩
  obtain ⟨after, introduced⟩ := done
  refine ⟨after, ?_⟩
  obtain ⟨_, _, _, _, _, _, _, _, rfl | asked⟩ := introduce_cases _ _ _ _ _ _ introduced
  · exact ⟨[], introduced, by simp, by simp⟩
  · obtain ⟨toSource, toTarget, linkst, _, _, _, _, _, _, _, _, first, second, rfl⟩ := asked
    refine ⟨[(source, toSource), (target, toTarget)], introduced, ?_, ?_⟩
    · simp
    · simp [first, second]

theorem sendEach_sent (switch : Switch) (recipients : List SessionId) (message : Outgoing) :
    (sendEach switch recipients message).sent =
      switch.sent ++ recipients.map fun t => (t, message) := by
  induction recipients generalizing switch with
  | nil => simp [sendEach]
  | cons s rest inductionHypothesis =>
    have later := inductionHypothesis (switch.netSendMsg s message)
    rw [Switch.netSendMsg_sent, List.append_assoc] at later
    exact later

/-- The session that a frame's source address is bound to, once it has been learned. -/
def VNetwork.sourceOf (vnet : VNetwork) (s : SessionId) (frame : List UInt8) : SessionId :=
  (vnet.ftable.find (inetGetMacAddrSrc frame)).getD s

/-- The sessions that a frame of a session is sent to, with the session list of its network:
nobody, the session of its destination, or the list. -/
def recipients (vnet : VNetwork) (list : List SessionId) (s : SessionId) (frame : List UInt8) :
    List SessionId :=
  if inetGetMacAddrDst frame = inetGetMacAddrSrc frame then []
  else match vnet.ftable.find (inetGetMacAddrDst frame) with
    | none => list
    | some target =>
      if target = vnet.sourceOf s frame then []
      else if inetGetMacAddrType (inetGetMacAddrDst frame) = .unicast then [target]
      else list

/-- A whole frame of an authenticated session is sent to its recipients, and to nobody else. -/
theorem forwardEthernet_recipients (switch : Switch) (inv : Inv switch) (s : SessionId)
    (session : Session) (v : VnetId) (vnet : VNetwork) (list : List SessionId)
    (found : switch.sessions s = some session) (authed : session.state = .authed)
    (member : session.vnetwork = some v) (home : switch.vnets v = some vnet)
    (walked : switch.sessionList vnet.sessionList = some list) (frame : List UInt8)
    (long : 12 ≤ frame.length) (now rand : Nat) :
    ∃ after others, forwardEthernet switch s frame now rand = some after ∧
      after.sent = switch.sent ++
        (recipients vnet list s frame).map (fun t => (t, .ethernet frame)) ++ others ∧
      ∀ t other, (t, Outgoing.ethernet other) ∉ others := by
  obtain ⟨learned, source, changed, learning, looked, there, head, table⟩ :=
    learn_looked switch inv s session v vnet (inetGetMacAddrSrc frame) found authed member home
  have origin : source = vnet.sourceOf s frame := by
    obtain ⟨own, w, net, here, within, present, bound⟩ := learn_cases _ _ _ _ _ learning
    obtain rfl := Option.some.inj (found.symm.trans here)
    obtain rfl := Option.some.inj (member.symm.trans within)
    obtain rfl := Option.some.inj (home.symm.trans present)
    rcases bound with ⟨known, _⟩ | ⟨unknown, own, _⟩
    · simp [VNetwork.sourceOf, known]
    · simp [VNetwork.sourceOf, unknown, own]
  have forwarded : forwardEthernet switch s frame now rand =
      (changed.ftable.find (inetGetMacAddrDst frame)).elim
        (some (sendEach learned list (.ethernet frame))) fun target =>
          if target = source then some learned
          else if inetGetMacAddrType (inetGetMacAddrDst frame) = .unicast then
            introduce (learned.netSendMsg target (.ethernet frame)) source target now rand
          else some (sendEach learned list (.ethernet frame)) := by
    rw [forwardEthernet]
    simp only [found, authed, learning, member, there, head, looked.lists, walked,
      Option.bind_eq_bind, Option.bind_some, ne_eq, not_true_eq_false, if_false]
    refine (if_neg (Nat.not_lt.mpr long)).trans ?_
    cases changed.ftable.find (inetGetMacAddrDst frame) with
    | none => rfl
    | some target => rfl
  -- The list is sent the frame.
  have flooded : (sendEach learned list (.ethernet frame)).sent =
      switch.sent ++ list.map (fun t => (t, .ethernet frame)) ++ [] := by
    rw [sendEach_sent, looked.sent, List.append_nil]
  have dropped : learned.sent = switch.sent ++
      ([] : List SessionId).map (fun t => (t, .ethernet frame)) ++ [] := by
    simp [looked.sent]
  rw [table, Table.find_insert] at forwarded
  unfold recipients
  by_cases loop : inetGetMacAddrDst frame = inetGetMacAddrSrc frame
  · -- The destination is learned with the source.
    rw [if_pos loop, Option.elim_some] at forwarded
    rw [if_pos loop]
    exact ⟨learned, [], forwarded.trans (if_pos origin.symm), dropped, by simp⟩
  · rw [if_neg loop] at forwarded
    rw [if_neg loop]
    cases bound : vnet.ftable.find (inetGetMacAddrDst frame) with
    | none =>
      rw [bound, Option.elim_none] at forwarded
      exact ⟨_, [], forwarded, flooded, by simp⟩
    | some target =>
      rw [bound, Option.elim_some] at forwarded
      simp only [← origin]
      by_cases own : target = source
      · rw [if_pos own] at forwarded ⊢
        exact ⟨learned, [], forwarded, dropped, by simp⟩
      · rw [if_neg own] at forwarded ⊢
        by_cases unicast : inetGetMacAddrType (inetGetMacAddrDst frame) = .unicast
        · rw [if_pos unicast] at forwarded ⊢
          have binds : changed.ftable.find (inetGetMacAddrDst frame) = some target := by
            rw [table, Table.find_insert, if_neg loop, bound]
          obtain ⟨owner, connected, belongs, told, _⟩ :=
            (looked.inv.vnets v changed there).bound _ target binds
          have sent : ∀ t, Member learned v t →
              Member (learned.netSendMsg target (.ethernet frame)) v t := by
            rintro t ⟨other, found, within, passed⟩
            exact ⟨other, found, within, List.mem_append_left _ passed⟩
          obtain ⟨after, others, introduced, messages, frameless⟩ :=
            introduce_done (learned.netSendMsg target (.ethernet frame)) source target now rand v
              changed there (sent source looked.source)
              (sent target ⟨owner, connected, belongs, told⟩)
          refine ⟨after, others, forwarded.trans introduced, ?_, frameless⟩
          rw [messages, Switch.netSendMsg_sent, looked.sent]
          rfl
        · rw [if_neg unicast] at forwarded ⊢
          exact ⟨_, [], forwarded, flooded, by simp⟩

/-- The recipients of a frame are members of the network, each of them once. -/
theorem recipients_members (switch : Switch) (inv : Inv switch) (v : VnetId) (vnet : VNetwork)
    (list : List SessionId) (home : switch.vnets v = some vnet) (distinct : list.Nodup)
    (inside : ∀ t ∈ list, Member switch v t) (s : SessionId) (frame : List UInt8) :
    (recipients vnet list s frame).Nodup ∧
      ∀ t ∈ recipients vnet list s frame, Member switch v t := by
  unfold recipients
  by_cases loop : inetGetMacAddrDst frame = inetGetMacAddrSrc frame
  · simp [loop]
  · rw [if_neg loop]
    cases bound : vnet.ftable.find (inetGetMacAddrDst frame) with
    | none => exact ⟨distinct, inside⟩
    | some target =>
      obtain ⟨owner, connected, belongs, told, _⟩ := (inv.vnets v vnet home).bound _ target bound
      simp only
      split
      · simp
      · split
        · refine ⟨List.nodup_singleton target, fun t here => ?_⟩
          obtain rfl := List.mem_singleton.mp here
          exact ⟨owner, connected, belongs, told⟩
        · exact ⟨distinct, inside⟩

/-- A frame of an authenticated session goes to members of its network, to each once. -/
theorem forwardEthernet_done (switch : Switch) (inv : Inv switch) (alive : Alive switch)
    (s : SessionId) (session : Session) (found : switch.sessions s = some session)
    (authed : session.state = .authed) (frame : List UInt8) (long : 12 ≤ frame.length)
    (now rand : Nat) :
    ∃ v vnet list after recipients others, session.vnetwork = some v ∧
      switch.vnets v = some vnet ∧ switch.sessionList vnet.sessionList = some list ∧
      list.Nodup ∧ forwardEthernet switch s frame now rand = some after ∧
      after.sent = switch.sent ++ recipients.map (fun t => (t, .ethernet frame)) ++ others ∧
      (∀ t other, (t, Outgoing.ethernet other) ∉ others) ∧ recipients.Nodup ∧
      (∀ t ∈ recipients, Member switch v t) ∧
      (vnet.ftable.find (inetGetMacAddrDst frame) = none →
        inetGetMacAddrDst frame ≠ inetGetMacAddrSrc frame → recipients = list) := by
  have placed := ((inv.sessions s session found).authed authed).1
  obtain ⟨v, member⟩ := Option.ne_none_iff_exists'.mp placed
  obtain ⟨vnet, home⟩ := alive s session v found member
  obtain ⟨list, walked, distinct, inside⟩ := inv.listed v vnet home
  obtain ⟨after, others, taken, sent, frameless⟩ := forwardEthernet_recipients switch inv s session
    v vnet list found authed member home walked frame long now rand
  obtain ⟨once, members⟩ := recipients_members switch inv v vnet list home distinct inside s frame
  refine ⟨v, vnet, list, after, _, others, member, home, walked, distinct, taken, sent, frameless,
    once, members, fun absent apart => ?_⟩
  rw [recipients, if_neg apart, absent]

/-! ## The other networks -/

/-- The network is as it was, but for its connection table. -/
def Spared (switch after : Switch) (w : VnetId) : Prop :=
  ∀ other, switch.vnets w = some other → ∃ ctable, after.vnets w =
    some { other with ctable := ctable }

theorem spared_of_eq {switch after : Switch} {w : VnetId}
    (same : after.vnets w = switch.vnets w) : Spared switch after w :=
  fun other there => ⟨other.ctable, same.trans there⟩

theorem authRequest_spared (switch after : Switch) (s : SessionId) (certName : List UInt8)
    (code : Int) (taken : authRequest switch s certName = some (after, code)) (w : VnetId) :
    Spared switch after w := by
  obtain ⟨session, found, ⟨_, rfl⟩ | ⟨_, rfl⟩ | ⟨_, _, _, _, rfl⟩ |
    ⟨info, v, vnet, _, _, _, home, rfl⟩⟩ := authRequest_cases _ _ _ _ _ taken
  · exact spared_of_eq rfl
  · exact spared_of_eq rfl
  · exact spared_of_eq rfl
  · intro other there
    by_cases own : w = v
    · subst own
      obtain rfl := Option.some.inj (home.symm.trans there)
      exact ⟨vnet.ctable.insert (withNetworkUuid info vnet).uuid s, by simp⟩
    · exact ⟨other.ctable, by simp [own, there]⟩

/-- The session is not one of the network. -/
def Foreign (switch : Switch) (s : SessionId) (w : VnetId) : Prop :=
  ∀ session, switch.sessions s = some session → session.vnetwork ≠ some w

theorem onDisconnect_spared (switch after : Switch) (s : SessionId) (w : VnetId)
    (foreign : Foreign switch s w) (taken : onDisconnect switch s = some after) :
    after.vnets w = switch.vnets w := by
  obtain ⟨session, found, ⟨_, rfl⟩ | ⟨left, info, _, leaving, _, rfl⟩⟩ :=
    onDisconnect_cases _ _ _ taken
  · rfl
  · obtain ⟨statuses, reported⟩ :=
      updateNodeStatus_eq left .offline session.ip info.uuid info.networkUuid
    rw [reported]
    change left.vnets w = switch.vnets w
    obtain ⟨own, present, ⟨_, rfl⟩ | ⟨v, vnet, node, member, home, _, rfl⟩⟩ :=
      leaveVnetwork_cases _ _ _ leaving
    · rfl
    · have apart : w ≠ v := fun same => foreign own present (same ▸ member)
      simp [Switch.departed, Switch.parted, Switch.relinked, Switch.pointed, apart]

theorem onSecure_spared (switch after : Switch) (inv : Inv switch) (s : SessionId)
    (cert : X509) (w : VnetId) (foreign : Foreign switch s w)
    (taken : onSecure switch s cert = some after) : after.vnets w = switch.vnets w := by
  obtain ⟨session, found, ⟨_, rfl⟩ | ⟨_, _, rfl⟩ | ⟨_, _, _, _, _, _, _, _, rfl⟩ |
    ⟨info, v, vnet, joined, waiting, _, member, home, _, added, rfl⟩⟩ :=
    onSecure_cases _ _ _ _ taken
  · rfl
  · rfl
  · rfl
  · have apart : w ≠ v := fun same => foreign session found (same ▸ member)
    obtain rfl := admitted_joined switch joined inv s session v vnet info found waiting home added
    obtain ⟨statuses, reported⟩ := updateNodeStatus_eq
      ((switch.setSession s (session.admitted vnet info)).joined v s
        (session.admitted vnet info) vnet) .online session.ip
      (withNetworkUuid info vnet).uuid (withNetworkUuid info vnet).networkUuid
    rw [reported]
    simp [Switch.joined, Switch.relinked, Switch.pointed, apart]

theorem sendEach_vnets (switch : Switch) (recipients : List SessionId) (message : Outgoing) :
    (sendEach switch recipients message).vnets = switch.vnets := by
  induction recipients generalizing switch with
  | nil => rfl
  | cons s rest inductionHypothesis => exact inductionHypothesis (switch.netSendMsg s message)

theorem forwardEthernet_spared (switch after : Switch) (inv : Inv switch) (s : SessionId)
    (frame : List UInt8) (now rand : Nat) (w : VnetId) (foreign : Foreign switch s w)
    (taken : forwardEthernet switch s frame now rand = some after) :
    after.vnets w = switch.vnets w := by
  obtain ⟨session, found, ⟨_, rfl⟩ | sent⟩ := forwardEthernet_cases _ _ _ _ _ _ taken
  · rfl
  · obtain ⟨v, changed, learned, source, authed, _, member, learning, there, cases⟩ := sent
    have apart : w ≠ v := fun same => foreign session found (same ▸ member)
    obtain ⟨own, u, vnet, present, within, home, learnt⟩ := learn_cases _ _ _ _ _ learning
    obtain rfl := Option.some.inj (found.symm.trans present)
    obtain rfl := Option.some.inj (member.symm.trans within)
    obtain ⟨again, first, _, taught, looked, _⟩ :=
      learn_looked switch inv s session v vnet _ found authed member home
    obtain ⟨rfl, rfl⟩ := Prod.mk.inj (Option.some.inj (learning.symm.trans taught))
    have kept : learned.vnets w = switch.vnets w := by
      rcases learnt with ⟨_, rfl⟩ | ⟨_, _, rfl⟩
      · rfl
      · simp [apart]
    rcases cases with ⟨_, rfl⟩ | ⟨target, _, _, _, introduced⟩ | ⟨recipients, _, _, _, rfl⟩
    · exact kept
    · obtain ⟨sessionSrc, _, x, _, there, _, belongs, _, rfl | asked⟩ :=
        introduce_cases _ _ _ _ _ _ introduced
      · exact kept
      · obtain ⟨_, _, _, _, _, _, _, _, _, _, _, _, _, rfl⟩ := asked
        -- The source is the session itself or one that the table binds, of the same network.
        have same : x = v :=
          (member_network learned source sessionSrc x v there belongs looked.source).symm
        simp [same, apart, kept]
    · rw [sendEach_vnets]
      exact kept

/-- An event on a session spares the networks that the session is not one of. -/
theorem session_spared (switch after : Switch) (inv : Inv switch) (event : Event)
    (s : SessionId) (w : VnetId) (on : event.session = some s) (foreign : Foreign switch s w)
    (taken : step switch event = some after) : Spared switch after w := by
  cases event with
  | connect t peerHost =>
    simp only [step, Option.ite_none_left_eq_some] at taken
    obtain rfl := Option.some.inj taken.2
    exact spared_of_eq rfl
  | input t env message =>
    obtain rfl := Option.some.inj on
    obtain ⟨session, found, ⟨_, ended⟩ | ⟨_, dispatched⟩⟩ := input_cases _ _ _ _ _ taken
    · exact spared_of_eq (onDisconnect_spared switch after t w foreign ended)
    · cases message with
      | provRequest provCode =>
        obtain ⟨_, _, rfl⟩ := Option.map_eq_some_iff.mp dispatched
        exact spared_of_eq rfl
      | authRequest certName =>
        obtain ⟨⟨_, code⟩, answered, rfl⟩ := Option.map_eq_some_iff.mp dispatched
        exact authRequest_spared switch _ t certName code answered w
      | netinfoRequest ipLocal macAddr =>
        obtain ⟨own, present, stored⟩ := Option.bind_eq_some_iff.mp dispatched
        obtain rfl := Option.some.inj stored
        exact spared_of_eq rfl
      | other =>
        obtain ⟨gone, ended, released⟩ := Option.bind_eq_some_iff.mp dispatched
        obtain rfl := Option.some.inj released
        exact spared_of_eq (onDisconnect_spared switch gone t w foreign ended)
      | ethernet frame =>
        exact spared_of_eq (forwardEthernet_spared switch after inv t frame env.now env.rand w
          foreign dispatched)
      | invalid =>
        obtain ⟨_, _, rfl⟩ := Option.map_eq_some_iff.mp dispatched
        exact spared_of_eq rfl
  | secure t cert =>
    obtain rfl := Option.some.inj on
    exact spared_of_eq (onSecure_spared switch after inv t cert w foreign taken)
  | disconnect t =>
    obtain rfl := Option.some.inj on
    exact spared_of_eq (onDisconnect_spared switch after t w foreign taken)
  | _ => cases on

theorem ends_session (switch : Switch) (event : Event) (s : SessionId)
    (ended : ends switch event = some s) : event.session = some s := by
  cases event with
  | disconnect t => exact ended
  | input t env message =>
    simp only [ends, Option.ite_none_right_eq_some] at ended
    exact ended.2
  | _ => cases ended

/-- An event on a session leaves the lists of the other networks as they were. -/
theorem session_undisturbed (switch after : Switch) (inv : Inv switch) (event : Event)
    (s : SessionId) (w : VnetId) (other : VNetwork) (on : event.session = some s)
    (foreign : Foreign switch s w) (there : switch.vnets w = some other)
    (taken : step switch event = some after) : Undisturbed switch after w := by
  cases step_effect switch after inv event taken with
  | quiet rest => exact rest.undisturbed w
  | connected t peerHost fresh rest => exact rest ▸ connected_undisturbed inv t peerHost w fresh
  | accepted t session v vnet env certName asked found state home rest =>
    have unknown := ((inv.sessions t session found).unknown state).2
    refine Undisturbed.trans ?_ (rest.undisturbed w)
    exact setSession_undisturbed switch t session _ w found rfl rfl (Or.inl unknown)
  | admitted t session v vnet cert info asked read found state member home listed rest =>
    subst asked
    obtain rfl := Option.some.inj on
    have unknown := ((inv.sessions t session found).waiting state).2
    have apart : w ≠ v := fun same => foreign session found (same ▸ member)
    refine Undisturbed.trans ?_ (rest.undisturbed w)
    exact admitted_undisturbed inv t session _ v w vnet found unknown home member rfl rfl apart
  | learned t session v vnet mac found state member home unbound rest =>
    refine Undisturbed.trans ?_ (rest.undisturbed w)
    exact learned_undisturbed switch t session v w vnet mac found home
  | left t session v vnet ended found state member home rest =>
    obtain rfl := Option.some.inj ((ends_session switch event t ended).symm.trans on)
    have apart : w ≠ v := fun same => foreign session found (same ▸ member)
    exact (left_undisturbed inv t session v w vnet found member home apart).trans
      (rest.undisturbed w)
  | freed t session ended found state rest =>
    have alone : session.vnetwork = none := by
      rcases state with fresh | alone
      · exact ((inv.sessions t session found).unknown fresh).1
      · exact alone
    exact (freed_undisturbed switch t session w found alone).trans (rest.undisturbed w)
  | granted _ _ _ _ _ asked => rw [asked] at on; cases on
  | revoked _ _ _ _ asked => rw [asked] at on; cases on
  | created id uuid rest =>
    subst rest
    have known := (inv.vnets w other there).known
    exact created_undisturbed switch id uuid w (Nat.ne_of_lt known)
  | deleted _ _ _ _ asked => rw [asked] at on; cases on

/-! ## The guarantee -/

/-- In every reachable state without del-network, a whole frame of an authenticated session
goes to members of its network, to each at most once, and to the whole list when its
destination is not known and is not its source; and an event on a session leaves the other
networks' tables, link states and lists alone.

Proof: in a reachable state without deletions the list of a network is walked over living
members. One pass of the forwarding function gives the recipients, and the frame of an event
on a session gives what it leaves of the other networks. -/
theorem network_isolation (events : List Event) (switch : Switch)
    (allowed : ∀ uuid, Event.delNetwork uuid ∉ events)
    (reached : run step Switch.initial events = some switch) :
    (∀ s session, switch.sessions s = some session → session.state = .authed →
      ∀ frame now rand, 14 ≤ frame.length →
      ∃ v vnet list after recipients others, session.vnetwork = some v ∧
        switch.vnets v = some vnet ∧ switch.sessionList vnet.sessionList = some list ∧
        list.Nodup ∧ forwardEthernet switch s frame now rand = some after ∧
        after.sent = switch.sent ++ recipients.map (fun t => (t, .ethernet frame)) ++ others ∧
        (∀ t other, (t, Outgoing.ethernet other) ∉ others) ∧ recipients.Nodup ∧
        (∀ t ∈ recipients, Member switch v t) ∧
        (vnet.ftable.find (inetGetMacAddrDst frame) = none →
          inetGetMacAddrDst frame ≠ inetGetMacAddrSrc frame → recipients = list)) ∧
    ∀ event after s w, event.session = some s → step switch event = some after →
      (∀ session, switch.sessions s = some session → session.vnetwork ≠ some w) →
      ∀ other, switch.vnets w = some other → ∃ changed, after.vnets w = some changed ∧
        changed.ftable = other.ftable ∧ changed.linkst = other.linkst ∧
        changed.sessionList = other.sessionList ∧ Undisturbed switch after w := by
  obtain ⟨inv, alive⟩ := reachable_alive switch events allowed reached
  constructor
  · intro s session found authed frame now rand long
    exact forwardEthernet_done switch inv alive s session found authed frame (by omega) now rand
  · intro event after s w on taken foreign other there
    obtain ⟨ctable, kept⟩ :=
      session_spared switch after inv event s w on foreign taken other there
    exact ⟨_, kept, rfl, rfl, rfl,
      session_undisturbed switch after inv event s w other on foreign there taken⟩

/-- Two nodes join. -/
def pairRun : List Event :=
  sampleNetwork [0x61, 0x62] ++ sampleJoin 1 0x61 ++ sampleJoin 2 0x62

def pairSwitch : Switch := (run step Switch.initial pairRun).get (by decide)

/-- A frame of the first to an unknown address: both are sent it. -/
def unknownFrame : List UInt8 := List.replicate 6 4 ++ List.replicate 6 2 ++ [8, 0]

theorem pairRun_floods : ∃ after others,
    forwardEthernet pairSwitch 1 unknownFrame 0 0 = some after ∧
    after.sent = pairSwitch.sent ++
      [(2, .ethernet unknownFrame), (1, .ethernet unknownFrame)] ++ others := by
  obtain ⟨v, vnet, list, after, recipients, others, member, home, walked, _, taken, sent, _, _, _,
    flooded⟩ := (network_isolation pairRun pairSwitch
      (by simp [pairRun, sampleNetwork, sampleJoin, sampleAsk])
      (Option.some_get _).symm).1 1 ((pairSwitch.sessions 1).get (by decide))
      (Option.some_get _).symm (by decide) unknownFrame 0 0 (by decide)
  have network : ((pairSwitch.sessions 1).get (by decide)).vnetwork = some 0 := by decide
  obtain rfl := Option.some.inj (network.symm.trans member)
  obtain rfl : vnet = (pairSwitch.vnets 0).get (by decide) := by
    rw [← Option.some_inj, Option.some_get, home]
  have both : pairSwitch.sessionList ((pairSwitch.vnets 0).get (by decide)).sessionList =
      some [2, 1] := by decide
  obtain rfl := Option.some.inj (both.symm.trans walked)
  rw [flooded (by decide) (by decide)] at sent
  exact ⟨after, others, taken, sent⟩

/-- A frame of the first from an address to itself. -/
def loopFrame : List UInt8 := List.replicate 6 2 ++ List.replicate 6 2 ++ [8, 0]

/-- The destination of the frame has no entry, and the other session is not sent it. -/
theorem pairRun_loop_not_flooded : run step Switch.initial pairRun = some pairSwitch ∧
    14 ≤ loopFrame.length ∧ ∃ session vnet list after,
    pairSwitch.sessions 1 = some session ∧ session.state = .authed ∧
    session.vnetwork = some 0 ∧ pairSwitch.vnets 0 = some vnet ∧
    vnet.ftable.find (inetGetMacAddrDst loopFrame) = none ∧
    pairSwitch.sessionList vnet.sessionList = some list ∧ list.Nodup ∧ 2 ∈ list ∧
    forwardEthernet pairSwitch 1 loopFrame 0 0 = some after ∧ after.sent = pairSwitch.sent := by
  refine ⟨(Option.some_get _).symm, by decide, (pairSwitch.sessions 1).get (by decide),
    (pairSwitch.vnets 0).get (by decide), [2, 1],
    (forwardEthernet pairSwitch 1 loopFrame 0 0).get (by decide), (Option.some_get _).symm,
    by decide, by decide, (Option.some_get _).symm, by decide, by decide, by decide, by decide,
    (Option.some_get _).symm, by decide⟩

end NetVirt.Nvswitch
