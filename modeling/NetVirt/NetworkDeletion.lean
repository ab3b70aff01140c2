import NetVirt.FreedNetworks
import NetVirt.Isolation
import NetVirt.Revocation

/-!
# Deleting a network

A session points to its network from its authRequest on, but del_network finds only those
of the list that its session_list leads. The deletion detaches everybody exactly when every
session that points to the network is in that list.
-/

namespace NetVirt.Nvswitch

open Bitv Cert LinkStates LinkedLists Tables Runs

/-- No connected session points to the freed network, none that was authenticated in it
still is, and no later event reads its memory or writes it. -/
structure Detached (switch after : Switch) (v : VnetId) : Prop where
  pointers : ∀ s session, after.sessions s = some session → session.vnetwork ≠ some v
  demoted : ∀ s before later, switch.sessions s = some before → before.vnetwork = some v →
    before.state = .authed → after.sessions s = some later → later.state ≠ .authed
  untouched : ∀ memory events, run step (after.holding v memory) events =
    (run step after events).map fun later => later.holding v memory

/-- Every session that points to the network is in the list that it leads. -/
def AllInList (switch : Switch) (v : VnetId) : Prop :=
  ∃ vnet members, switch.vnets v = some vnet ∧
    switch.sessionList vnet.sessionList = some members ∧
    ∀ s session, switch.sessions s = some session → session.vnetwork = some v → s ∈ members

theorem deletion_detaches_iff (events : List Event) (switch after : Switch)
    (reached : run step Switch.initial events = some switch) (uuid : List UInt8) (v : VnetId)
    (known : switch.vnetworks.find uuid = some v)
    (deleted : delNetwork switch (some uuid) = some (after, 0)) :
    Detached switch after v ↔ AllInList switch v := by
  have inv := reachable_inv switch events reached
  have taken : step switch (.delNetwork (some uuid)) = some after :=
    congrArg (Option.map Prod.fst) deleted
  obtain ⟨code, _⟩ | ⟨name, w, vnet, members, _, named, found, home, walked, rfl⟩ :=
    delNetwork_cases _ _ _ _ deleted
  · cases code
  · obtain rfl := Option.some.inj named
    obtain rfl := Option.some.inj (known.symm.trans found)
    constructor
    · intro detached
      refine ⟨vnet, members, home, walked, fun s session present member => ?_⟩
      by_contra outside
      refine detached.pointers s session ?_ member
      show (switch.sessions s).map _ = some session
      rw [present, Option.map_some, if_neg outside]
    · rintro ⟨same, list, there, listed, complete⟩
      obtain rfl := Option.some.inj (home.symm.trans there)
      obtain rfl := Option.some.inj (walked.symm.trans listed)
      have pointers : ∀ s session, NetVirt.Nvswitch.detached members switch.sessions s =
          some session → session.vnetwork ≠ some v := by
        intro s session present member
        obtain ⟨before, was, rfl⟩ := Option.map_eq_some_iff.mp present
        by_cases inside : s ∈ members
        · rw [if_pos inside] at member
          cases member
        · rw [if_neg inside] at member
          exact inside (complete s before was member)
      refine ⟨pointers, ?_, fun memory later => ?_⟩
      · intro s before later was member _ present
        obtain ⟨again, also, rfl⟩ := Option.map_eq_some_iff.mp present
        obtain rfl := Option.some.inj (was.symm.trans also)
        rw [if_pos (complete s before was member)]
        simp
      · refine holding_run _ (step_inv switch _ _ inv taken) v ⟨by simp, ?_, pointers⟩ memory later
        exact (inv.vnets v vnet home).known

/-- The network of the nodes "a" and "b" is deleted after both joined. -/
theorem pairSwitch_detached :
    Detached pairSwitch ((delNetwork pairSwitch (some (sampleUuid 0x4e))).get (by decide)).1
      0 := by
  have inv := reachable_inv pairSwitch pairRun (Option.some_get _).symm
  refine (deletion_detaches_iff pairRun pairSwitch _ (Option.some_get _).symm
    (sampleUuid 0x4e) 0 (by decide) (returned_code (delNetwork pairSwitch (some (sampleUuid 0x4e)))
      0 (by decide) (by decide))).mpr ?_
  refine ⟨(pairSwitch.vnets 0).get (by decide), [2, 1], (Option.some_get _).symm, by decide, ?_⟩
  intro s session found _
  have own := (inv.sessions s session found).opened
  rwa [show pairSwitch.opened = [2, 1] by decide] at own

/-- A session was accepted for the network and has not shown its certificate. -/
def askedRun : List Event := sampleNetwork [0x61] ++ sampleAsk 1 0x61

def askedSwitch : Switch := (run step Switch.initial askedRun).get (by decide)

def askedAfter : Switch := ((delNetwork askedSwitch (some (sampleUuid 0x4e))).get (by decide)).1

/-- The network is freed, and the session points to it. -/
theorem askedRun_not_detached : run step Switch.initial askedRun = some askedSwitch ∧
    delNetwork askedSwitch (some (sampleUuid 0x4e)) = some (askedAfter, 0) ∧
    ¬ Detached askedSwitch askedAfter 0 := by
  refine ⟨(Option.some_get _).symm,
    returned_code (delNetwork askedSwitch (some (sampleUuid 0x4e))) 0 (by decide) (by decide), ?_⟩
  intro detached
  exact detached.pointers 1 ((askedAfter.sessions 1).get (by decide)) (Option.some_get _).symm
    (by decide)

end NetVirt.Nvswitch
