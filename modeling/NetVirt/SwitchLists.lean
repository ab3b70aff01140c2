import NetVirt.SwitchEffects

/-!
# What the effects do to the session lists

Only three effects touch the list of a network: an admitted session is pushed, a session
that leaves is removed whether it was linked or not, and a deleted network goes with the
sessions of its list. Every other list is left undisturbed.
-/

namespace NetVirt.Nvswitch

open Bitv Cert LinkStates LinkedLists Tables

/-- A step that leaves the list of a network as it was: its members, its head, and the
pointers of its members. -/
structure Undisturbed (switch after : Switch) (v : VnetId) : Prop where
  member : ∀ s, Member after v s ↔ Member switch v s
  head : (after.links v).head = (switch.links v).head
  next : ∀ s, Member switch v s → (after.links v).next s = (switch.links v).next s
  prev : ∀ s, Member switch v s → (after.links v).prev s = (switch.links v).prev s

theorem Undisturbed.threaded {switch after : Switch} {v : VnetId}
    (same : Undisturbed switch after v) (threaded : Threaded (switch.links v) (Member switch v)) :
    Threaded (after.links v) (Member after v) :=
  threaded_congr _ _ _ _ threaded same.member same.head same.next same.prev

theorem Quiet.undisturbed {switch after : Switch} (quiet : Quiet switch after) (v : VnetId) :
    Undisturbed switch after v :=
  { member := quiet.member v
    head := by rw [quiet.links]
    next := fun _ _ => by rw [quiet.links]
    prev := fun _ _ => by rw [quiet.links] }

theorem Undisturbed.trans {switch middle after : Switch} {v : VnetId}
    (early : Undisturbed switch middle v) (late : Undisturbed middle after v) :
    Undisturbed switch after v where
  member s := (late.member s).trans (early.member s)
  head := late.head.trans early.head
  next s inside := (late.next s ((early.member s).mpr inside)).trans (early.next s inside)
  prev s inside := (late.prev s ((early.member s).mpr inside)).trans (early.prev s inside)

/-- A session changes anything but its pointers, and its network only before it passed. -/
theorem setSession_undisturbed (switch : Switch) (s : SessionId) (session changed : Session)
    (v : VnetId) (found : switch.sessions s = some session)
    (next : changed.next = session.next) (prev : changed.prev = session.prev)
    (unmoved : ¬ Passed switch s ∨ changed.vnetwork = session.vnetwork) :
    Undisturbed switch (switch.setSession s changed) v := by
  have pointers := links_setSession switch s session changed v found next prev
  refine ⟨?_, by rw [pointers], fun _ _ => by rw [pointers], fun _ _ => by rw [pointers]⟩
  intro t
  unfold Member
  by_cases own : t = s
  · subst own
    rcases unmoved with new | same
    · have never : ¬ Passed (switch.setSession t changed) t := new
      simp [new, never]
    · simp [found, same]
      exact fun _ => Iff.rfl
  · simp only [Switch.setSession_sessions, Function.update_of_ne own]
    exact Iff.rfl

/-- A network changes anything but its session_list. -/
theorem setVnet_undisturbed (switch : Switch) (v w : VnetId) (vnet changed : VNetwork)
    (home : switch.vnets v = some vnet) (same : changed.sessionList = vnet.sessionList) :
    Undisturbed switch (switch.setVnet v changed) w := by
  have pointers := links_setVnet switch v w vnet changed home same
  exact ⟨fun _ => Iff.rfl, by rw [pointers], fun _ _ => by rw [pointers],
    fun _ _ => by rw [pointers]⟩

/-- A session is a member of its own network at most. -/
theorem member_network (switch : Switch) (s : SessionId) (session : Session) (v w : VnetId)
    (found : switch.sessions s = some session) (member : session.vnetwork = some v)
    (inside : Member switch w s) : w = v := by
  obtain ⟨same, present, belongs, _⟩ := inside
  obtain rfl := Option.some.inj (found.symm.trans present)
  exact Option.some.inj (belongs.symm.trans member)

/-- A learned address is in no list. -/
theorem learned_undisturbed (switch : Switch) (s : SessionId) (session : Session)
    (v w : VnetId) (vnet : VNetwork) (mac : List UInt8)
    (found : switch.sessions s = some session) (home : switch.vnets v = some vnet) :
    Undisturbed switch ((switch.setVnet v { vnet with
        ftable := vnet.ftable.insert mac s }).setSession s { session with
      macAddr := mac
      macList := mac :: session.macList }) w := by
  apply (setVnet_undisturbed switch v w vnet _ home ?_).trans
  · exact setSession_undisturbed _ s session _ w found rfl rfl (Or.inr rfl)
  · rfl

/-- A session without a network is in no list. -/
theorem freed_undisturbed (switch : Switch) (s : SessionId) (session : Session) (v : VnetId)
    (found : switch.sessions s = some session) (alone : session.vnetwork = none) :
    Undisturbed switch (switch.sessionFree s) v := by
  have outside : ¬ Member switch v s := by
    rintro ⟨other, there, member, _⟩
    obtain rfl := Option.some.inj (found.symm.trans there)
    rw [alone] at member
    cases member
  have apart : ∀ t, Member switch v t → t ≠ s := fun t member same => outside (same ▸ member)
  refine ⟨?_, rfl, fun t member => ?_, fun t member => ?_⟩
  · intro t
    by_cases own : t = s
    · subst own
      refine iff_of_false ?_ outside
      rintro ⟨other, there, _⟩
      simp at there
    · simp only [Member, Switch.sessionFree_sessions, Function.update_of_ne own]
      exact Iff.rfl
  · simp [Switch.links, apart t member]
  · simp [Switch.links, apart t member]

/-- A created network is none of those before it. -/
theorem created_undisturbed (switch : Switch) (id uuid : List UInt8) (v : VnetId)
    (apart : v ≠ switch.vnetCount) : Undisturbed switch (vnetworkCreate switch id uuid) v :=
  ⟨fun _ => Iff.rfl, by simp [Switch.links, vnetworkCreate, apart], fun _ _ => rfl,
    fun _ _ => rfl⟩

/-- The sessions that go with a network are in no other network's list. -/
theorem deleted_undisturbed (switch after : Switch) (v w : VnetId) (members : List SessionId)
    (inside : ∀ t ∈ members, Member switch v t) (own : w ≠ v)
    (sessions : after.sessions = detached members switch.sessions)
    (vnets : after.vnets w = switch.vnets w) (sent : after.sent = switch.sent) :
    Undisturbed switch after w := by
  have passed : ∀ t, Passed after t ↔ Passed switch t := fun t => by rw [Passed, sent, Passed]
  have spared : ∀ t, Member switch w t → after.sessions t = switch.sessions t := by
    rintro t ⟨session, found, belongs, _⟩
    have outside : t ∉ members := fun within =>
      own (member_network switch t session w v found belongs (inside t within)).symm
    simp [sessions, detached, outside]
  refine ⟨?_, by simp only [Switch.links, vnets], ?_, ?_⟩
  · intro t
    constructor
    · rintro ⟨changed, present, belongs, told⟩
      rw [sessions] at present
      obtain ⟨session, found, rfl⟩ := Option.map_eq_some_iff.mp present
      by_cases within : t ∈ members
      · simp [within] at belongs
      · rw [if_neg within] at belongs
        exact ⟨session, found, belongs, (passed t).mp told⟩
    · intro member
      have kept := spared t member
      obtain ⟨session, found, belongs, told⟩ := member
      exact ⟨session, kept.trans found, belongs, (passed t).mpr told⟩
  · intro t member
    simp only [Switch.links, spared t member]
  · intro t member
    simp only [Switch.links, spared t member]

/-! ## A session that leaves -/

theorem left_sessions (switch : Switch) (s t : SessionId) (session : Session) (v : VnetId)
    (vnet : VNetwork) :
    (switch.left v s session vnet).sessions t = if t = s then none else
      (switch.sessions t).map fun other => { other with
        next := ((switch.links v).remove s).next t
        prev := ((switch.links v).remove s).prev t } := by
  by_cases own : t = s
  · simp [Switch.left, own]
  · simp [Switch.left, Switch.parted, Switch.relinked, Switch.pointed, own]

/-- The members of every network, but for the session that left. -/
theorem left_member (switch : Switch) (s t : SessionId) (session : Session) (v w : VnetId)
    (vnet : VNetwork) :
    Member (switch.left v s session vnet) w t ↔ t ≠ s ∧ Member switch w t := by
  unfold Member
  rw [left_sessions]
  by_cases own : t = s
  · simp [own]
  · cases there : switch.sessions t with
    | none => simp
    | some other => simp [own, Passed, Switch.left, Switch.parted, Switch.relinked, Switch.pointed]

theorem left_vnets (switch : Switch) (s : SessionId) (session : Session) (v w : VnetId)
    (vnet : VNetwork) :
    (switch.left v s session vnet).vnets w = if w = v then some { vnet with
        ftable := session.macList.foldl Table.erase vnet.ftable
        bitpool := (bitpoolReleaseBit vnet.bitpool maxNode (session.id - 1)).1
        activeNode := vnet.activeNode - 1
        sessionList := ((switch.links v).remove s).head } else switch.vnets w := by
  by_cases own : w = v
  · simp [Switch.left, Switch.parted, Switch.relinked, Switch.pointed, own]
  · simp [Switch.left, Switch.parted, Switch.relinked, Switch.pointed, own]

/-- The pointers of the sessions that stay. -/
theorem left_links (switch : Switch) (s t : SessionId) (session : Session) (v w : VnetId)
    (vnet : VNetwork) (apart : t ≠ s) (there : ∃ other, switch.sessions t = some other) :
    ((switch.left v s session vnet).links w).next t = ((switch.links v).remove s).next t ∧
      ((switch.left v s session vnet).links w).prev t =
        ((switch.links v).remove s).prev t := by
  obtain ⟨other, present⟩ := there
  simp only [Switch.links, left_sessions, if_neg apart, present, Option.map_some,
    Option.bind_some]
  exact ⟨trivial, trivial⟩

/-! ## An admitted session -/

theorem admitted_passed (switch : Switch) (s t : SessionId) (session : Session) (v : VnetId)
    (vnet : VNetwork) :
    Passed (switch.admitted v s session vnet) t ↔ t = s ∨ Passed switch t := by
  unfold Passed
  simp only [Switch.admitted, Switch.netSendMsg_sent, List.mem_append, List.mem_singleton,
    Prod.mk.injEq, and_true, Switch.joined, Switch.relinked, Switch.pointed, Switch.setSession_sent,
    Switch.setVnet_sent]
  exact or_comm

section Admitted
variable (switch : Switch) (s : SessionId) (session changed : Session) (v : VnetId)
  (vnet : VNetwork) (found : switch.sessions s = some session)
  (next : changed.next = session.next) (prev : changed.prev = session.prev)
include found next prev

/-- The admitted session gets an id and the pointers of the list's front; the others keep
what they have, but for the pointers. -/
theorem admitted_sessions (t : SessionId) :
    (switch.admitted v s changed vnet).sessions t = if t = s then some { changed with
        id := (bitpoolAllocateBit vnet.bitpool maxNode).2.getD changed.id + 1
        next := vnet.sessionList
        prev := redirect (switch.links v).prev vnet.sessionList (some s) s } else
      (switch.sessions t).map fun other => { other with
        next := ((switch.links v).push s).next t
        prev := ((switch.links v).push s).prev t } := by
  have pointers := links_setSession switch s session changed v found next prev
  by_cases own : t = s
  · simp [Switch.admitted, Switch.joined, own, pointers]
  · simp [Switch.admitted, Switch.joined, Switch.relinked, Switch.pointed, own, pointers]

/-- The pointers are those of the list with the session pushed. -/
theorem admitted_links (t : SessionId) (w : VnetId) (home : switch.vnets v = some vnet)
    (there : t = s ∨ ∃ other, switch.sessions t = some other) :
    ((switch.admitted v s changed vnet).links w).next t = ((switch.links v).push s).next t ∧
      ((switch.admitted v s changed vnet).links w).prev t =
        ((switch.links v).push s).prev t := by
  have sessions := admitted_sessions switch s session changed v vnet found next prev t
  by_cases own : t = s
  · subst own
    simp [Switch.links, sessions, Links.push, home]
  · obtain ⟨other, present⟩ := there.resolve_left own
    simp only [Switch.links, sessions, if_neg own, present, Option.map_some, Option.bind_some]
    exact ⟨trivial, trivial⟩

/-- The admitted session is a member of its network, and no other session is that was not
one before. -/
theorem admitted_member (w : VnetId) (t : SessionId) (belongs : changed.vnetwork = some v)
    (unknown : ¬ Passed switch s) :
    Member (switch.admitted v s changed vnet) w t ↔ t = s ∧ w = v ∨ Member switch w t := by
  unfold Member
  rw [admitted_sessions switch s session changed v vnet found next prev, admitted_passed]
  by_cases own : t = s
  · subst own
    simp [unknown, belongs, eq_comm]
  · cases there : switch.sessions t with
    | none => simp [own]
    | some other => simp [own]

end Admitted

theorem admitted_vnets (switch : Switch) (s : SessionId) (session : Session) (v w : VnetId)
    (vnet : VNetwork) :
    (switch.admitted v s session vnet).vnets w = if w = v then some { vnet with
        bitpool := (bitpoolAllocateBit vnet.bitpool maxNode).1
        activeNode := vnet.activeNode + 1
        sessionList := some s } else switch.vnets w := by
  by_cases own : w = v
  · simp [Switch.admitted, Switch.joined, Switch.relinked, Switch.pointed, Links.push, own]
  · simp [Switch.admitted, Switch.joined, Switch.relinked, Switch.pointed, own]

/-! ## Effects on the other networks -/

section Others
variable {switch : Switch} (inv : Inv switch)
include inv

/-- A new connection has passed nothing. -/
theorem Inv.unopened (s : SessionId) (fresh : s ∉ switch.opened) :
    switch.sessions s = none ∧ ¬ Passed switch s := by
  constructor
  · apply Option.eq_none_iff_forall_not_mem.mpr
    intro session found
    exact fresh (inv.sessions s session found).opened
  · exact fun told => fresh (inv.heard s _ told)

/-- A new connection is in no list. -/
theorem connected_undisturbed (s : SessionId) (peerHost : List UInt8) (v : VnetId)
    (fresh : s ∉ switch.opened) : Undisturbed switch (onConnect switch s peerHost) v := by
  obtain ⟨absent, unknown⟩ := inv.unopened s fresh
  have apart : ∀ t, Member switch v t → t ≠ s := by
    rintro t ⟨other, there, _⟩ rfl
    simp [absent] at there
  refine ⟨?_, rfl, fun t member => ?_, fun t member => ?_⟩
  · intro t
    unfold Member
    by_cases own : t = s
    · subst own
      have never : ¬ Passed (onConnect switch t peerHost) t := unknown
      simp [absent, never]
    · simp only [onConnect, Function.update_of_ne own]
      exact Iff.rfl
  · simp [Switch.links, onConnect, apart t member]
  · simp [Switch.links, onConnect, apart t member]

/-- A session's neighbours are sessions of its network that have passed. -/
theorem Inv.neighbours (s : SessionId) (session : Session) (v : VnetId) (vnet : VNetwork)
    (found : switch.sessions s = some session) (member : session.vnetwork = some v)
    (home : switch.vnets v = some vnet) :
    (Member switch v s ∨ (switch.links v).next s = none ∧ (switch.links v).prev s = none) ∧
      ∀ t, (switch.links v).next s = some t ∨ (switch.links v).prev s = some t →
        Member switch v t := by
  by_cases passed : Passed switch s
  · have inside : Member switch v s := ⟨session, found, member, passed⟩
    obtain ⟨_, next, prev⟩ := threaded_closed _ _ (inv.vnets v vnet home).threaded
    refine ⟨Or.inl inside, ?_⟩
    rintro t (points | points)
    · exact next s t inside points
    · exact prev s t inside points
  · have alone := (inv.sessions s session found).unlinked passed
    have next : (switch.links v).next s = none := by simp [Switch.links, found, alone.1]
    have prev : (switch.links v).prev s = none := by simp [Switch.links, found, alone.2.1]
    refine ⟨Or.inr ⟨next, prev⟩, ?_⟩
    rintro t (points | points)
    · rw [next] at points
      cases points
    · rw [prev] at points
      cases points

/-- Removing a session leaves the pointers of sessions that are not in its network's
chains. -/
theorem Inv.steady (s t : SessionId) (session : Session) (v : VnetId) (vnet : VNetwork)
    (found : switch.sessions s = some session) (member : session.vnetwork = some v)
    (home : switch.vnets v = some vnet) (outside : ¬ Member switch v t) :
    ((switch.links v).remove s).next t = (switch.links v).next t ∧
      ((switch.links v).remove s).prev t = (switch.links v).prev t := by
  obtain ⟨_, neighbour⟩ := inv.neighbours s session v vnet found member home
  constructor
  · exact redirect_of_ne _ _ _ _ fun points => outside (neighbour t (Or.inr points))
  · exact redirect_of_ne _ _ _ _ fun points => outside (neighbour t (Or.inl points))

/-- A session that leaves is in no other network's list. -/
theorem left_undisturbed (s : SessionId) (session : Session) (v w : VnetId) (vnet : VNetwork)
    (found : switch.sessions s = some session) (member : session.vnetwork = some v)
    (home : switch.vnets v = some vnet) (own : w ≠ v) :
    Undisturbed switch (switch.left v s session vnet) w := by
  have away : ∀ t, Member switch w t → ¬ Member switch v t ∧ t ≠ s := by
    intro t inside
    have other := inside
    obtain ⟨before, present, belongs, _⟩ := other
    constructor
    · intro elsewhere
      exact own (member_network switch t before w v present belongs elsewhere).symm
    · rintro rfl
      exact own (member_network switch t session v w found member inside)
  refine ⟨?_, by simp [Switch.links, left_vnets, own], ?_, ?_⟩
  · intro t
    rw [left_member]
    exact ⟨And.right, fun inside => ⟨(away t inside).2, inside⟩⟩
  · intro t inside
    obtain ⟨outside, apart⟩ := away t inside
    obtain ⟨before, present, _⟩ := inside
    rw [(left_links switch s t session v w vnet apart ⟨before, present⟩).1]
    exact (inv.steady s t session v vnet found member home outside).1
  · intro t inside
    obtain ⟨outside, apart⟩ := away t inside
    obtain ⟨before, present, _⟩ := inside
    rw [(left_links switch s t session v w vnet apart ⟨before, present⟩).2]
    exact (inv.steady s t session v vnet found member home outside).2

/-- Pushing a session changes the pointers of its network's members only. -/
theorem Inv.pushed_steady (s t : SessionId) (v : VnetId) (vnet : VNetwork)
    (home : switch.vnets v = some vnet) (apart : t ≠ s) (stranger : ¬ Member switch v t) :
    ((switch.links v).push s).next t = (switch.links v).next t ∧
      ((switch.links v).push s).prev t = (switch.links v).prev t := by
  constructor
  · exact Function.update_of_ne apart _ _
  · refine redirect_of_ne _ _ _ _ fun leads => stranger ?_
    exact (threaded_closed _ _ (inv.vnets v vnet home).threaded).1 t leads

/-- An admitted session is in no other network's list. -/
theorem admitted_undisturbed (s : SessionId) (session changed : Session) (v w : VnetId)
    (vnet : VNetwork) (found : switch.sessions s = some session)
    (unknown : ¬ Passed switch s) (home : switch.vnets v = some vnet)
    (belongs : changed.vnetwork = some v) (next : changed.next = session.next)
    (prev : changed.prev = session.prev) (own : w ≠ v) :
    Undisturbed switch (switch.admitted v s changed vnet) w := by
  have links := admitted_links switch s session changed v vnet found next prev
  have steady : ∀ t, Member switch w t → t ≠ s ∧ ((switch.links v).push s).next t =
      (switch.links v).next t ∧ ((switch.links v).push s).prev t = (switch.links v).prev t := by
    intro t inside
    have apart : t ≠ s := by
      rintro rfl
      obtain ⟨_, _, _, told⟩ := inside
      exact unknown told
    refine ⟨apart, inv.pushed_steady s t v vnet home apart ?_⟩
    rintro ⟨before, present, within, _⟩
    exact own (member_network switch t before v w present within inside)
  refine ⟨?_, by simp [Switch.links, admitted_vnets, own], ?_, ?_⟩
  · intro t
    simp [admitted_member switch s session changed v vnet found next prev w t belongs unknown,
      own]
  · intro t inside
    obtain ⟨_, forward, _⟩ := steady t inside
    obtain ⟨before, present, _⟩ := inside
    rw [(links t w home (Or.inr ⟨before, present⟩)).1]
    exact forward
  · intro t inside
    obtain ⟨_, _, backward⟩ := steady t inside
    obtain ⟨before, present, _⟩ := inside
    rw [(links t w home (Or.inr ⟨before, present⟩)).2]
    exact backward

end Others

end NetVirt.Nvswitch
