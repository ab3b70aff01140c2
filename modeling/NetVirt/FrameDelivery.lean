import NetVirt.Isolation

/-!
# Whom a frame reaches

The session that a frame came from may be sent it back, and a group address that was used
as a source is learned like any other, so that what is sent to it may reach nobody or one
session alone. Both are said for every frame of every reachable state by what the tables
hold before the frame.
-/

namespace NetVirt.Nvswitch

open Bitv Cert LinkStates LinkedLists Tables Runs

/-- What was sent for a frame of an authenticated session, in any reachable state in which
forwarding it has a result. -/
theorem frame_sent (events : List Event) (switch : Switch)
    (reached : run step Switch.initial events = some switch) (s : SessionId) (session : Session)
    (found : switch.sessions s = some session) (authed : session.state = .authed)
    (frame : List UInt8) (now rand : Nat) (after : Switch)
    (taken : forwardEthernet switch s frame now rand = some after) :
    ∃ v vnet list news, session.vnetwork = some v ∧ switch.vnets v = some vnet ∧
      switch.sessionList vnet.sessionList = some list ∧ after.sent = switch.sent ++ news ∧
      ∀ t, (t, .ethernet frame) ∈ news ↔ t ∈ recipients vnet list s frame := by
  have inv := reachable_inv switch events reached
  obtain ⟨own, present, ⟨idle, _⟩ | ⟨v, _, learned, source, _, long, member, learning, _⟩⟩ :=
    forwardEthernet_cases _ _ _ _ _ _ taken
  · exact absurd (Option.some.inj (found.symm.trans present) ▸ authed) idle
  · obtain rfl := Option.some.inj (found.symm.trans present)
    obtain ⟨again, w, vnet, here, within, home, _⟩ := learn_cases _ _ _ _ _ learning
    obtain rfl := Option.some.inj (found.symm.trans here)
    obtain ⟨list, walked, _⟩ := inv.listed w vnet home
    obtain ⟨done, others, forwarded, sent, frameless⟩ := forwardEthernet_recipients switch inv s
      session w vnet list found authed within home walked frame long now rand
    obtain rfl := Option.some.inj (taken.symm.trans forwarded)
    refine ⟨w, vnet, list, _, within, home, walked, by rw [sent, List.append_assoc],
      fun t => ?_⟩
    simp [frameless]

/-! ## Back to where it came from -/

/-- The frame is dropped as a loop; or it is for a known unicast address, of another session
than the one it came from; or it floods a list that this session is not on. -/
def LeavesOut (vnet : VNetwork) (list : List SessionId) (s : SessionId) (frame : List UInt8) :
    Prop :=
  inetGetMacAddrDst frame = inetGetMacAddrSrc frame ∨
  vnet.ftable.find (inetGetMacAddrDst frame) = some (vnet.sourceOf s frame) ∨
  if inetGetMacAddrType (inetGetMacAddrDst frame) = .unicast ∧
      (vnet.ftable.find (inetGetMacAddrDst frame)).isSome then
    vnet.ftable.find (inetGetMacAddrDst frame) ≠ some s
  else s ∉ list

theorem recipients_leaves_out (vnet : VNetwork) (list : List SessionId) (s : SessionId)
    (frame : List UInt8) : s ∉ recipients vnet list s frame ↔ LeavesOut vnet list s frame := by
  unfold recipients LeavesOut
  by_cases loop : inetGetMacAddrDst frame = inetGetMacAddrSrc frame
  · simp [loop]
  · cases bound : vnet.ftable.find (inetGetMacAddrDst frame) with
    | none => simp [loop]
    | some target =>
      by_cases own : target = vnet.sourceOf s frame
      · simp [loop, own]
      · by_cases unicast : inetGetMacAddrType (inetGetMacAddrDst frame) = .unicast
        · simp [loop, own, unicast, eq_comm]
        · simp [loop, own, unicast]

/-- In every reachable state, a frame of an authenticated session is not sent back to the
session exactly when the tables leave the session out.

Proof: the sessions that a frame is sent to are the recipients computed from the tables, in
which the session is missing exactly under this condition. -/
theorem ingress_left_out_iff (events : List Event) (switch : Switch)
    (reached : run step Switch.initial events = some switch) (s : SessionId) (session : Session)
    (found : switch.sessions s = some session) (authed : session.state = .authed)
    (frame : List UInt8) (now rand : Nat) (after : Switch)
    (taken : forwardEthernet switch s frame now rand = some after) :
    ∃ v vnet list news, session.vnetwork = some v ∧ switch.vnets v = some vnet ∧
      switch.sessionList vnet.sessionList = some list ∧ after.sent = switch.sent ++ news ∧
      ((s, .ethernet frame) ∉ news ↔ LeavesOut vnet list s frame) := by
  obtain ⟨v, vnet, list, news, member, home, walked, sent, reaches⟩ :=
    frame_sent events switch reached s session found authed frame now rand after taken
  refine ⟨v, vnet, list, news, member, home, walked, sent, ?_⟩
  rw [reaches, recipients_leaves_out]

/-- A frame from the first session to the second, which has been heard: not sent back. -/
def knownFrame : List UInt8 := List.replicate 6 2 ++ List.replicate 6 3 ++ [8, 0]

/-- The two sessions of the pair, of which the first has sent a frame. -/
def heardRun : List Event :=
  pairRun ++ [.input 1 { now := 0, rand := 0 } (.ethernet unknownFrame)]

def heardSwitch : Switch := (run step Switch.initial heardRun).get (by decide)

theorem heardSwitch_answer_not_returned : ∃ after news,
    forwardEthernet heardSwitch 2 knownFrame 0 0 = some after ∧
    after.sent = heardSwitch.sent ++ news ∧ (2, .ethernet knownFrame) ∉ news := by
  have taken := (Option.some_get (show
    (forwardEthernet heardSwitch 2 knownFrame 0 0).isSome = true by decide)).symm
  obtain ⟨v, vnet, list, news, member, home, _, sent, left⟩ := ingress_left_out_iff heardRun
    heardSwitch (Option.some_get _).symm 2 ((heardSwitch.sessions 2).get (by decide))
    (Option.some_get _).symm (by decide) knownFrame 0 0 _ taken
  have network : ((heardSwitch.sessions 2).get (by decide)).vnetwork = some 0 := by decide
  obtain rfl := Option.some.inj (network.symm.trans member)
  obtain rfl : vnet = (heardSwitch.vnets 0).get (by decide) := by
    rw [← Option.some_inj, Option.some_get, home]
  refine ⟨_, news, taken, sent, left.mpr (Or.inr (Or.inr ?_))⟩
  rw [if_pos (by decide)]
  decide

/-- A flooded frame is sent back to the session that it came from. -/
theorem pairSwitch_flood_returns : ∃ session after news,
    run step Switch.initial pairRun = some pairSwitch ∧
    pairSwitch.sessions 1 = some session ∧ session.state = .authed ∧
    forwardEthernet pairSwitch 1 unknownFrame 0 0 = some after ∧
    after.sent = pairSwitch.sent ++ news ∧ (1, .ethernet unknownFrame) ∈ news := by
  refine ⟨(pairSwitch.sessions 1).get (by decide),
    (forwardEthernet pairSwitch 1 unknownFrame 0 0).get (by decide),
    [(2, .ethernet unknownFrame), (1, .ethernet unknownFrame)], (Option.some_get _).symm,
    (Option.some_get _).symm, by decide, (Option.some_get _).symm, by decide, by decide⟩

/-! ## Group addresses -/

/-- The least significant bit of the first octet. -/
def groupAddress (mac : List UInt8) : Prop := ∃ octet ∈ mac.head?, octet &&& 1 = 1

instance (mac : List UInt8) : Decidable (groupAddress mac) :=
  inferInstanceAs (Decidable (∃ octet ∈ mac.head?, octet &&& 1 = 1))

/-- The session has nobody to reach; or the frame is no loop, and its destination is not
known, is a broadcast or IPv4 multicast address, or is bound to the only other session. -/
def ReachesAll (vnet : VNetwork) (list : List SessionId) (s : SessionId) (frame : List UInt8) :
    Prop :=
  (∀ t ∈ list, t = s) ∨
  inetGetMacAddrDst frame ≠ inetGetMacAddrSrc frame ∧
  vnet.ftable.find (inetGetMacAddrDst frame) ≠ some (vnet.sourceOf s frame) ∧
  (vnet.ftable.find (inetGetMacAddrDst frame) = none ∨
    inetGetMacAddrType (inetGetMacAddrDst frame) ≠ .unicast ∨
    ∀ t ∈ list, t ≠ s → vnet.ftable.find (inetGetMacAddrDst frame) = some t)

theorem recipients_reach_all (vnet : VNetwork) (list : List SessionId) (s : SessionId)
    (frame : List UInt8) :
    (∀ t ∈ list, t ≠ s → t ∈ recipients vnet list s frame) ↔ ReachesAll vnet list s frame := by
  have nobody : (∀ t ∈ list, t ≠ s → t ∈ ([] : List SessionId)) ↔ ∀ t ∈ list, t = s := by
    simp
  unfold recipients ReachesAll
  by_cases loop : inetGetMacAddrDst frame = inetGetMacAddrSrc frame
  · simp only [loop, if_true, nobody, ne_eq, not_true_eq_false, false_and, or_false]
  · cases bound : vnet.ftable.find (inetGetMacAddrDst frame) with
    | none => simpa [loop] using fun t inside _ => inside
    | some target =>
      by_cases own : target = vnet.sourceOf s frame
      · simp only [loop, own, if_false, if_true, nobody, ne_eq, not_true_eq_false, false_and,
          and_false, or_false]
      · by_cases unicast : inetGetMacAddrType (inetGetMacAddrDst frame) = .unicast
        · -- The frame is captured by one session.
          simp only [loop, own, unicast, if_false, if_true, List.mem_singleton, ne_eq,
            not_false_eq_true, not_true_eq_false, Option.some.injEq, reduceCtorEq, true_and,
            false_or, eq_comm (a := target)]
          refine (or_iff_right_of_imp fun alone t inside other => ?_).symm
          exact absurd (alone t inside) other
        · simpa [loop, own, unicast] using fun t inside _ => inside

/-- In every reachable state, a group frame of an authenticated session is sent to every
other session of the list exactly under this condition; and it is when no group address has
been learned and its source is none.

Proof: as for the ingress, from the recipients. Where no group address is learned, the
destination is not found and the frame is flooded. -/
theorem group_reaches_all_iff (events : List Event) (switch : Switch)
    (reached : run step Switch.initial events = some switch) (s : SessionId) (session : Session)
    (found : switch.sessions s = some session) (authed : session.state = .authed)
    (frame : List UInt8) (group : groupAddress (inetGetMacAddrDst frame)) (now rand : Nat)
    (after : Switch) (taken : forwardEthernet switch s frame now rand = some after) :
    ∃ v vnet list news, session.vnetwork = some v ∧ switch.vnets v = some vnet ∧
      switch.sessionList vnet.sessionList = some list ∧ after.sent = switch.sent ++ news ∧
      ((∀ t ∈ list, t ≠ s → (t, .ethernet frame) ∈ news) ↔ ReachesAll vnet list s frame) ∧
      ((∀ mac, groupAddress mac → vnet.ftable.find mac = none) →
        ¬ groupAddress (inetGetMacAddrSrc frame) → ReachesAll vnet list s frame) := by
  obtain ⟨v, vnet, list, news, member, home, walked, sent, reaches⟩ :=
    frame_sent events switch reached s session found authed frame now rand after taken
  refine ⟨v, vnet, list, news, member, home, walked, sent, ?_, fun unlearned single => ?_⟩
  · simp only [reaches]
    exact recipients_reach_all vnet list s frame
  · have unknown := unlearned _ group
    refine Or.inr ⟨fun same => single (same ▸ group), ?_, Or.inl unknown⟩
    simp [unknown]

/-- Three nodes join. -/
def trioRun : List Event :=
  sampleNetwork [0x61, 0x62, 0x63] ++ sampleJoin 1 0x61 ++ sampleJoin 2 0x62 ++ sampleJoin 3 0x63

def trioSwitch : Switch := (run step Switch.initial trioRun).get (by decide)

/-- A frame to an IPv6 multicast address. -/
def groupFrame : List UInt8 := [0x33, 0x33, 0, 0, 0, 1] ++ List.replicate 6 2 ++ [0x86, 0xdd]

theorem trioSwitch_group_reaches : ∃ after news,
    forwardEthernet trioSwitch 1 groupFrame 0 0 = some after ∧
    after.sent = trioSwitch.sent ++ news ∧ (2, .ethernet groupFrame) ∈ news ∧
    (3, .ethernet groupFrame) ∈ news := by
  have taken := (Option.some_get (show
    (forwardEthernet trioSwitch 1 groupFrame 0 0).isSome = true by decide)).symm
  obtain ⟨v, vnet, list, news, member, home, walked, sent, iff, _⟩ := group_reaches_all_iff trioRun
    trioSwitch (Option.some_get _).symm 1 ((trioSwitch.sessions 1).get (by decide))
    (Option.some_get _).symm (by decide) groupFrame (by decide) 0 0 _ taken
  have network : ((trioSwitch.sessions 1).get (by decide)).vnetwork = some 0 := by decide
  obtain rfl := Option.some.inj (network.symm.trans member)
  obtain rfl : vnet = (trioSwitch.vnets 0).get (by decide) := by
    rw [← Option.some_inj, Option.some_get, home]
  have all : trioSwitch.sessionList ((trioSwitch.vnets 0).get (by decide)).sessionList =
      some [3, 2, 1] := by decide
  obtain rfl := Option.some.inj (all.symm.trans walked)
  have reached := iff.mpr (Or.inr ⟨by decide, by decide, Or.inl (by decide)⟩)
  exact ⟨_, news, taken, sent, reached 2 (by decide) (by decide), reached 3 (by decide) (by decide)⟩

/-- The second session sends from the group address. -/
def captureFrame : List UInt8 := List.replicate 6 4 ++ [0x33, 0x33, 0, 0, 0, 1] ++ [0x86, 0xdd]

def captureRun : List Event :=
  trioRun ++ [.input 2 { now := 0, rand := 0 } (.ethernet captureFrame)]

def captureSwitch : Switch := (run step Switch.initial captureRun).get (by decide)

/-- From then on, frames to the group reach that session alone. -/
theorem captureSwitch_group_captured : ∃ session vnet after news,
    run step Switch.initial captureRun = some captureSwitch ∧
    captureSwitch.sessions 1 = some session ∧ session.state = .authed ∧
    session.vnetwork = some 0 ∧ captureSwitch.vnets 0 = some vnet ∧
    captureSwitch.sessionList vnet.sessionList = some [3, 2, 1] ∧
    groupAddress (inetGetMacAddrDst groupFrame) ∧
    forwardEthernet captureSwitch 1 groupFrame 0 0 = some after ∧
    after.sent = captureSwitch.sent ++ news ∧ (3, .ethernet groupFrame) ∉ news := by
  refine ⟨(captureSwitch.sessions 1).get (by decide), (captureSwitch.vnets 0).get (by decide),
    (forwardEthernet captureSwitch 1 groupFrame 0 0).get (by decide),
    ((forwardEthernet captureSwitch 1 groupFrame 0 0).get (by decide)).sent.drop
      captureSwitch.sent.length, (Option.some_get _).symm, (Option.some_get _).symm, by decide,
    by decide, (Option.some_get _).symm, by decide, by decide, (Option.some_get _).symm,
    by decide, by decide⟩

end NetVirt.Nvswitch
