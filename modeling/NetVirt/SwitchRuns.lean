import NetVirt.SwitchLists
import Mathlib.Data.List.Perm.Subperm

/-!
# The invariant along runs

Each effect keeps the invariant, so every state that the switch reaches has it.
-/

namespace NetVirt.Nvswitch

open Bitv Cert LinkStates LinkedLists Tables Runs

theorem initial_inv : Inv Switch.initial where
  sessions s session found := by cases found
  vnets v vnet home := by cases home
  heard s message inside := by cases inside
  indexed uuid v found := by cases found
  indexedId id v found := by cases found

/-- An index still leads to networks of the name it was asked for, after a new network was
inserted or not. -/
theorem index_insert (vnets : VnetId → Option VNetwork) (table : Table (List UInt8) VnetId)
    (name : VNetwork → List UInt8) (v : VnetId) (vnet : VNetwork) (absent : vnets v = none)
    (indexed : ∀ key w, table.find key = some w → ∃ kept, vnets w = some kept ∧ name kept = key)
    (key : List UInt8) (w : VnetId) (known : (table.insert (name vnet) v).find key = some w) :
    ∃ kept, Function.update vnets v (some vnet) w = some kept ∧ name kept = key := by
  rw [Table.find_insert] at known
  cases before : table.find key with
  | some old =>
    have same : old = w := by
      by_cases named : key = name vnet
      · simpa [← named, before] using known
      · simpa [named, before] using known
    obtain ⟨kept, home, called⟩ := indexed key old before
    have apart : w ≠ v := by
      rintro rfl
      rw [same, absent] at home
      cases home
    exact ⟨kept, by rw [Function.update_of_ne apart, ← same, home], called⟩
  | none =>
    by_cases named : key = name vnet
    · have same : v = w := by simpa [← named, before] using known
      exact ⟨vnet, by rw [← same, Function.update_self], named.symm⟩
    · simp [named, before] at known

/-- An index still leads to networks of the name it was asked for when a network changes,
but not its name. -/
theorem index_update (vnets after : VnetId → Option VNetwork) (table : Table (List UInt8) VnetId)
    (name : VNetwork → List UInt8) (v : VnetId) (vnet changed : VNetwork)
    (home : vnets v = some vnet) (same : name changed = name vnet)
    (stored : ∀ w, after w = if w = v then some changed else vnets w)
    (indexed : ∀ key w, table.find key = some w → ∃ kept, vnets w = some kept ∧ name kept = key)
    (key : List UInt8) (w : VnetId) (known : table.find key = some w) :
    ∃ kept, after w = some kept ∧ name kept = key := by
  obtain ⟨kept, before, called⟩ := indexed key w known
  rw [stored]
  by_cases own : w = v
  · subst own
    obtain rfl := Option.some.inj (home.symm.trans before)
    exact ⟨changed, if_pos rfl, same.trans called⟩
  · exact ⟨kept, (if_neg own).trans before, called⟩

/-- A key is erased with the network it names. -/
theorem index_erase (vnets : VnetId → Option VNetwork) (table : Table (List UInt8) VnetId)
    (name : VNetwork → List UInt8) (v : VnetId) (vnet : VNetwork) (home : vnets v = some vnet)
    (indexed : ∀ key w, table.find key = some w → ∃ kept, vnets w = some kept ∧ name kept = key)
    (key : List UInt8) (w : VnetId) (known : (table.erase (name vnet)).find key = some w) :
    ∃ kept, Function.update vnets v none w = some kept ∧ name kept = key := by
  rw [Table.find_erase] at known
  by_cases named : key = name vnet
  · rw [if_pos named] at known
    cases known
  · rw [if_neg named] at known
    obtain ⟨kept, before, called⟩ := indexed key w known
    have apart : w ≠ v := by
      rintro rfl
      obtain rfl := Option.some.inj (home.symm.trans before)
      exact named called.symm
    exact ⟨kept, (Function.update_of_ne apart _ _).trans before, called⟩

/-- A bound session that stays is bound as before. -/
theorem left_bound (switch : Switch) (s t : SessionId) (session : Session) (v w : VnetId)
    (vnet : VNetwork) (mac : List UInt8) (apart : t ≠ s)
    (bound : ∃ before, switch.sessions t = some before ∧ before.vnetwork = some w ∧
      Passed switch t ∧ mac ∈ before.macList) :
    ∃ after, (switch.left v s session vnet).sessions t = some after ∧
      after.vnetwork = some w ∧ Passed (switch.left v s session vnet) t ∧
      mac ∈ after.macList := by
  obtain ⟨before, present, belongs, passed, learned⟩ := bound
  have stays := left_sessions switch s t session v vnet
  rw [if_neg apart, present, Option.map_some] at stays
  exact ⟨_, stays, belongs, passed, learned⟩

section Effects
variable {switch : Switch} (inv : Inv switch)
include inv

/-- A session changes its state, learns addresses, or before it has passed its network. -/
theorem Inv.setSession (s : SessionId) (session changed : Session)
    (found : switch.sessions s = some session)
    (level : changed.netc.securityLevel = session.netc.securityLevel)
    (next : changed.next = session.next) (prev : changed.prev = session.prev)
    (learned : ∀ mac ∈ session.macList, mac ∈ changed.macList)
    (unlearned : ¬ Passed switch s → changed.macList = [])
    (unmoved : ¬ Passed switch s ∨ changed.vnetwork = session.vnetwork)
    (placed : ∀ v, changed.vnetwork = some v → v < switch.vnetCount)
    (unknown : changed.state = .notAuthed → changed.vnetwork = none ∧ ¬ Passed switch s)
    (waiting : changed.state = .waitStepup → changed.vnetwork ≠ none ∧ ¬ Passed switch s)
    (authed : changed.state = .authed → changed.vnetwork ≠ none ∧ Passed switch s) :
    Inv (switch.setSession s changed) := by
  have held := inv.sessions s session found
  refine { inv with sessions := ?_, vnets := ?_ }
  · intro t other there
    by_cases own : t = s
    · subst own
      rw [Switch.setSession_sessions, Function.update_self, Option.some.injEq] at there
      subst there
      refine ⟨held.opened, level.trans held.listener, placed, unknown, waiting, authed, ?_⟩
      rw [next, prev]
      exact fun new => ⟨(held.unlinked new).1, (held.unlinked new).2.1, unlearned new⟩
    · rw [Switch.setSession_sessions, Function.update_of_ne own] at there
      exact { inv.sessions t other there with }
  · intro v vnet home
    have here := inv.vnets v vnet home
    refine ⟨here.known, ?_, ?_⟩
    · intro mac t owned
      obtain ⟨other, there, belongs, passed, known⟩ := here.bound mac t owned
      by_cases own : t = s
      · subst own
        obtain rfl := Option.some.inj (found.symm.trans there)
        have same := unmoved.resolve_left (not_not.mpr passed)
        exact ⟨changed, by simp, same.trans belongs, passed, learned mac known⟩
      · exact ⟨other, by simp [own, there], belongs, passed, known⟩
    · exact (setSession_undisturbed switch s session changed v found next prev unmoved).threaded
        here.threaded

/-- A network changes its tables; the sessions bound in it are members that have learned
the address. -/
theorem Inv.setVnet (v : VnetId) (vnet changed : VNetwork) (home : switch.vnets v = some vnet)
    (id : changed.id = vnet.id) (uuid : changed.uuid = vnet.uuid)
    (head : changed.sessionList = vnet.sessionList)
    (bound : ∀ mac s, changed.ftable.find mac = some s → ∃ session,
      switch.sessions s = some session ∧ session.vnetwork = some v ∧ Passed switch s ∧
        mac ∈ session.macList) :
    Inv (switch.setVnet v changed) := by
  refine { inv with sessions := ?_, vnets := ?_, indexed := ?_, indexedId := ?_ }
  · exact fun s session found => { inv.sessions s session found with }
  · intro w other there
    rw [Switch.setVnet_vnets] at there
    have same := setVnet_undisturbed switch v w vnet changed home head
    by_cases own : w = v
    · subst own
      rw [Function.update_self, Option.some.injEq] at there
      subst there
      have here := inv.vnets w vnet home
      exact ⟨here.known, bound, same.threaded here.threaded⟩
    · rw [Function.update_of_ne own] at there
      have here := inv.vnets w other there
      exact ⟨here.known, here.bound, same.threaded here.threaded⟩
  · exact index_update _ _ _ VNetwork.uuid v vnet changed home uuid
      (fun w => Function.update_apply _ _ _ _) inv.indexed
  · exact index_update _ _ _ VNetwork.id v vnet changed home id
      (fun w => Function.update_apply _ _ _ _) inv.indexedId

theorem connected_inv (s : SessionId) (peerHost : List UInt8) (fresh : s ∉ switch.opened) :
    Inv (onConnect switch s peerHost) := by
  obtain ⟨absent, unknown⟩ := inv.unopened s fresh
  refine { inv with sessions := ?_, vnets := ?_, heard := ?_ }
  · intro t other there
    by_cases own : t = s
    · subst own
      simp only [onConnect, Function.update_self, Option.some.injEq] at there
      subst there
      exact ⟨List.mem_cons_self, rfl, (by simp [sessionNew]), fun _ => ⟨rfl, unknown⟩,
        (by simp [sessionNew]), (by simp [sessionNew]), fun _ => ⟨rfl, rfl, rfl⟩⟩
    · simp only [onConnect, Function.update_of_ne own] at there
      exact { inv.sessions t other there with
              opened := List.mem_cons_of_mem s (inv.sessions t other there).opened }
  · intro v vnet home
    have here := inv.vnets v vnet home
    refine ⟨here.known, ?_, ?_⟩
    · intro mac t owned
      obtain ⟨other, there, rest⟩ := here.bound mac t owned
      have apart : t ≠ s := fun same => by simp [same, absent] at there
      exact ⟨other, by simp [onConnect, apart, there], rest⟩
    · exact (connected_undisturbed inv s peerHost v fresh).threaded here.threaded
  · exact fun t message told => List.mem_cons_of_mem s (inv.heard t message told)

theorem created_inv (id uuid : List UInt8) : Inv (vnetworkCreate switch id uuid) := by
  have absent : switch.vnets switch.vnetCount = none := by
    apply Option.eq_none_iff_forall_not_mem.mpr
    intro vnet home
    exact Nat.lt_irrefl _ (inv.vnets _ vnet home).known
  have apart : ∀ v vnet, switch.vnets v = some vnet → v ≠ switch.vnetCount := by
    intro v vnet home same
    rw [same, absent] at home
    cases home
  refine { inv with sessions := ?_, vnets := ?_, indexed := ?_, indexedId := ?_ }
  · intro s session found
    exact { inv.sessions s session found with
            placed := fun v member =>
              Nat.lt_succ_of_lt ((inv.sessions s session found).placed v member) }
  · intro v vnet home
    by_cases own : v = switch.vnetCount
    · subst own
      simp only [vnetworkCreate, Function.update_self, Option.some.injEq] at home
      subst home
      refine ⟨Nat.lt_succ_self _, fun mac s bound => (by cases bound), ?_⟩
      refine threaded_empty _ _ (by simp [Switch.links, vnetworkCreate, vnetworkNew]) ?_
      rintro s ⟨session, found, member, _⟩
      exact Nat.lt_irrefl _ ((inv.sessions s session found).placed _ member)
    · simp only [vnetworkCreate, Function.update_of_ne own] at home
      have here := inv.vnets v vnet home
      exact ⟨Nat.lt_succ_of_lt here.known, here.bound,
        (created_undisturbed switch id uuid v own).threaded here.threaded⟩
  · exact index_insert switch.vnets switch.vnetworks VNetwork.uuid switch.vnetCount
      (vnetworkNew id uuid) absent inv.indexed
  · exact index_insert switch.vnets switch.vnetworksId VNetwork.id switch.vnetCount
      (vnetworkNew id uuid) absent inv.indexedId

/-- A learned address goes with its session. -/
theorem learned_inv (s : SessionId) (session : Session) (v : VnetId) (vnet : VNetwork)
    (mac : List UInt8) (found : switch.sessions s = some session)
    (state : session.state = .authed) (member : session.vnetwork = some v)
    (home : switch.vnets v = some vnet) (unbound : vnet.ftable.find mac = none) :
    Inv ((switch.setVnet v { vnet with
        ftable := vnet.ftable.insert mac s }).setSession s { session with
      macAddr := mac
      macList := mac :: session.macList }) := by
  have held := inv.sessions s session found
  have passed := (held.authed state).2
  generalize taught : ({ session with
    macAddr := mac
    macList := mac :: session.macList } : Session) = learner
  have learning : Inv (switch.setSession s learner) := by
    subst taught
    exact inv.setSession s session _ found rfl rfl rfl
      (fun _ known => List.mem_cons_of_mem mac known) (fun new => absurd passed new)
      (Or.inr rfl) held.placed held.unknown held.waiting held.authed
  refine learning.setVnet v vnet { vnet with ftable := vnet.ftable.insert mac s } home rfl rfl
    rfl ?_
  intro other t owned
  simp only [Table.find_insert, unbound, Option.getD_none] at owned
  by_cases own : t = s
  · subst own
    refine ⟨learner, by simp, by rw [← taught, member], passed, ?_⟩
    by_cases new : other = mac
    · simp [← taught, new]
    · rw [if_neg new] at owned
      obtain ⟨same, there, _, _, known⟩ := (inv.vnets v vnet home).bound other t owned
      obtain rfl := Option.some.inj (found.symm.trans there)
      rw [← taught]
      exact List.mem_cons_of_mem mac known
  · by_cases new : other = mac
    · rw [if_pos new, Option.some.injEq] at owned
      exact absurd owned.symm own
    · rw [if_neg new] at owned
      obtain ⟨session, there, rest⟩ := (inv.vnets v vnet home).bound other t owned
      exact ⟨session, by simp [own, there], rest⟩

/-- A session without a network is in no list and has no address bound to it. -/
theorem freed_inv (s : SessionId) (session : Session) (found : switch.sessions s = some session)
    (alone : session.vnetwork = none) : Inv (switch.sessionFree s) := by
  refine { inv with sessions := ?_, vnets := ?_ }
  · intro t other there
    by_cases own : t = s
    · simp [own] at there
    · rw [Switch.sessionFree_sessions, Function.update_of_ne own] at there
      exact { inv.sessions t other there with }
  · intro v vnet home
    have here := inv.vnets v vnet home
    refine ⟨here.known, ?_, (freed_undisturbed switch s session v found alone).threaded
      here.threaded⟩
    intro mac t owned
    obtain ⟨other, there, member, passed, known⟩ := here.bound mac t owned
    have different : t ≠ s := by
      rintro rfl
      obtain rfl := Option.some.inj (found.symm.trans there)
      rw [alone] at member
      cases member
    exact ⟨other, by simp [different, there], member, passed, known⟩

/-- The chains of its network lose the session. -/
theorem left_threaded (s : SessionId) (session : Session) (v : VnetId) (vnet : VNetwork)
    (found : switch.sessions s = some session) (member : session.vnetwork = some v)
    (home : switch.vnets v = some vnet) :
    Threaded ((switch.left v s session vnet).links v)
      (Member (switch.left v s session vnet) v) := by
  have here := (inv.vnets v vnet home).threaded
  have known := (inv.neighbours s session v vnet found member home).1
  refine threaded_congr _ _ _ _ (threaded_remove (switch.links v) (Member switch v) s here known)
    (fun t => left_member switch s t session v v vnet) ?_ ?_ ?_
  · simp [Switch.links, left_vnets]
  · rintro t ⟨apart, before, present, _⟩
    exact (left_links switch s t session v v vnet apart ⟨before, present⟩).1
  · rintro t ⟨apart, before, present, _⟩
    exact (left_links switch s t session v v vnet apart ⟨before, present⟩).2

/-- A session that leaves its network, having been linked or not. -/
theorem left_inv (s : SessionId) (session : Session) (v : VnetId) (vnet : VNetwork)
    (found : switch.sessions s = some session) (member : session.vnetwork = some v)
    (home : switch.vnets v = some vnet) : Inv (switch.left v s session vnet) := by
  refine { inv with sessions := ?_, vnets := ?_, indexed := ?_, indexedId := ?_ }
  · intro t other there
    rw [left_sessions] at there
    by_cases own : t = s
    · simp [own] at there
    · rw [if_neg own, Option.map_eq_some_iff] at there
      obtain ⟨before, present, rfl⟩ := there
      have held := inv.sessions t before present
      refine { held with unlinked := fun new => ?_ }
      have outside : ¬ Member switch v t := fun ⟨_, _, _, passed⟩ => new passed
      have alone := held.unlinked new
      obtain ⟨next, prev⟩ := inv.steady s t session v vnet found member home outside
      refine ⟨?_, ?_, alone.2.2⟩
      · change ((switch.links v).remove s).next t = none
        rw [next]
        simp [Switch.links, present, alone.1]
      · change ((switch.links v).remove s).prev t = none
        rw [prev]
        simp [Switch.links, present, alone.2.1]
  · intro w other there
    rw [left_vnets] at there
    by_cases own : w = v
    · subst own
      rw [if_pos rfl, Option.some.injEq] at there
      subst there
      have here := inv.vnets w vnet home
      refine ⟨here.known, ?_, left_threaded inv s session w vnet found member home⟩
      intro mac t owned
      rw [Table.find_eraseAll] at owned
      by_cases erased : mac ∈ session.macList
      · rw [if_pos erased] at owned
        cases owned
      · rw [if_neg erased] at owned
        have bound := here.bound mac t owned
        refine left_bound switch s t session w w vnet mac ?_ bound
        rintro rfl
        obtain ⟨before, present, _, _, learned⟩ := bound
        obtain rfl := Option.some.inj (found.symm.trans present)
        exact erased learned
    · rw [if_neg own] at there
      have here := inv.vnets w other there
      refine ⟨here.known, ?_, (left_undisturbed inv s session v w vnet found member home
        own).threaded here.threaded⟩
      intro mac t owned
      have bound := here.bound mac t owned
      refine left_bound switch s t session v w vnet mac ?_ bound
      rintro rfl
      obtain ⟨before, present, belongs, passed, _⟩ := bound
      have inside : Member switch w t := ⟨before, present, belongs, passed⟩
      exact own (member_network switch t session v w found member inside)
  · exact index_update _ _ _ VNetwork.uuid v vnet _ home (by rfl)
      (fun w => left_vnets switch s session v w vnet) inv.indexed
  · exact index_update _ _ _ VNetwork.id v vnet _ home (by rfl)
      (fun w => left_vnets switch s session v w vnet) inv.indexedId

/-- A walk from the front of a list of members visits the list. -/
theorem Inv.walked (v : VnetId) (list : List SessionId)
    (formed : Run (switch.links v) none list none) (distinct : list.Nodup)
    (members : ∀ s ∈ list, Member switch v s) : switch.sessionList list.head? = some list := by
  have bounded : list.length ≤ switch.opened.length := by
    apply (List.subperm_of_subset distinct ?_).length_le
    intro s inside
    obtain ⟨session, found, _⟩ := members s inside
    exact (inv.sessions s session found).opened
  refine walk_run (switch.links v) _ _ none list ?_ bounded formed
  intro s inside
  obtain ⟨session, found, _⟩ := members s inside
  simp [Switch.links, found]

/-- What a network's session_list leads is a list of its members without repetition. -/
theorem Inv.listed (v : VnetId) (vnet : VNetwork) (home : switch.vnets v = some vnet) :
    ∃ list, switch.sessionList vnet.sessionList = some list ∧ list.Nodup ∧
      ∀ s ∈ list, Member switch v s := by
  obtain ⟨list, head, formed, distinct, members⟩ :=
    threaded_list _ _ (inv.vnets v vnet home).threaded
  have leader : vnet.sessionList = list.head? := by
    rw [← head]
    simp [Switch.links, home]
  rw [leader]
  exact ⟨list, inv.walked v list formed distinct members, distinct, members⟩

/-- A deleted network takes the sessions of its list with it. -/
theorem deleted_inv (uuid : List UInt8) (v : VnetId) (vnet : VNetwork)
    (members : List SessionId) (known : switch.vnetworks.find uuid = some v)
    (home : switch.vnets v = some vnet)
    (walked : switch.sessionList vnet.sessionList = some members) :
    Inv { switch with
      sessions := detached members switch.sessions
      vnets := Function.update switch.vnets v none
      vnetworks := switch.vnetworks.erase uuid
      vnetworksId := switch.vnetworksId.erase vnet.id } := by
  obtain ⟨list, same, _, inside⟩ := inv.listed v vnet home
  obtain rfl := Option.some.inj (walked.symm.trans same)
  have named : vnet.uuid = uuid := by
    obtain ⟨kept, before, called⟩ := inv.indexed uuid v known
    obtain rfl := Option.some.inj (home.symm.trans before)
    exact called
  refine { sessions := ?_, vnets := ?_, heard := inv.heard, indexed := ?_, indexedId := ?_ }
  · intro t other there
    obtain ⟨session, found, changed⟩ := Option.map_eq_some_iff.mp there
    have held := inv.sessions t session found
    by_cases within : t ∈ members
    · rw [if_pos within] at changed
      subst changed
      exact ⟨held.opened, held.listener, by simp, by simp, by simp, by simp, held.unlinked⟩
    · rw [if_neg within] at changed
      subst changed
      exact { held with }
  · intro w other there
    by_cases own : w = v
    · simp [own] at there
    · simp only [Function.update_of_ne own] at there
      have here := inv.vnets w other there
      refine ⟨here.known, ?_, ?_⟩
      · intro mac t owned
        obtain ⟨session, found, belongs, passed, learned⟩ := here.bound mac t owned
        have outside : t ∉ members := fun within =>
          own (member_network switch t session w v found belongs (inside t within)).symm
        exact ⟨session, by simp [detached, outside, found], belongs, passed, learned⟩
      · refine (deleted_undisturbed switch _ v w members inside own ?_ ?_ ?_).threaded
          here.threaded
        · rfl
        · simp [own]
        · rfl
  · rw [← named]
    exact index_erase _ _ VNetwork.uuid v vnet home inv.indexed
  · exact index_erase _ _ VNetwork.id v vnet home inv.indexedId

section Admission
variable {s : SessionId} {session changed : Session} {v : VnetId} {vnet : VNetwork}
  (home : switch.vnets v = some vnet)
include home

/-- The other sessions are as they were, and one without a place in a list still has none. -/
theorem admitted_others {t : SessionId} (own : t ≠ s) {before : Session}
    (present : switch.sessions t = some before) :
    SessionInv (switch.admitted v s changed vnet) t { before with
      next := ((switch.links v).push s).next t
      prev := ((switch.links v).push s).prev t } := by
  have kept := inv.sessions t before present
  have told : Passed (switch.admitted v s changed vnet) t ↔ Passed switch t := by
    rw [admitted_passed]
    simp [own]
  refine ⟨kept.opened, kept.listener, kept.placed, ?_, ?_, ?_, ?_⟩
  · rw [told]
    exact kept.unknown
  · rw [told]
    exact kept.waiting
  · rw [told]
    exact kept.authed
  · rw [told]
    intro new
    have elsewhere : ¬ Member switch v t := by
      rintro ⟨_, _, _, told⟩
      exact new told
    obtain ⟨forward, backward⟩ := inv.pushed_steady s t v vnet home own elsewhere
    have alone := kept.unlinked new
    refine ⟨?_, ?_, alone.2.2⟩
    · change ((switch.links v).push s).next t = none
      rw [forward]
      simp [Switch.links, present, alone.1]
    · change ((switch.links v).push s).prev t = none
      rw [backward]
      simp [Switch.links, present, alone.2.1]

variable (found : switch.sessions s = some session) (unknown : ¬ Passed switch s)
  (belongs : changed.vnetwork = some v) (next : changed.next = session.next)
  (prev : changed.prev = session.prev)
include found unknown next prev

omit inv home in
/-- Addresses are bound to the sessions that they were bound to. -/
theorem admitted_bound {w : VnetId} {mac : List UInt8} {t : SessionId}
    (bound : ∃ before, switch.sessions t = some before ∧ before.vnetwork = some w ∧
      Passed switch t ∧ mac ∈ before.macList) :
    ∃ after, (switch.admitted v s changed vnet).sessions t = some after ∧
      after.vnetwork = some w ∧ Passed (switch.admitted v s changed vnet) t ∧
      mac ∈ after.macList := by
  obtain ⟨before, present, within, told, learned⟩ := bound
  have apart : t ≠ s := fun own => unknown (own ▸ told)
  have stays := admitted_sessions switch s session changed v vnet found next prev t
  rw [if_neg apart, present, Option.map_some] at stays
  exact ⟨_, stays, within, (admitted_passed switch s t changed v vnet).mpr (Or.inr told), learned⟩

include belongs

/-- The list of the network is the list it was, with the session pushed. -/
theorem admitted_threaded :
    Threaded ((switch.admitted v s changed vnet).links v)
      (Member (switch.admitted v s changed vnet) v) := by
  have links := admitted_links switch s session changed v vnet found next prev
  have member := fun t =>
    admitted_member switch s session changed v vnet found next prev v t belongs unknown
  have unlinked : (switch.links v).prev s = none := by
    simp [Switch.links, found, ((inv.sessions s session found).unlinked unknown).2.1]
  have outside : ¬ Member switch v s := by
    rintro ⟨_, _, _, told⟩
    exact unknown told
  have connected : ∀ t, t = s ∨ Member switch v t →
      t = s ∨ ∃ before, switch.sessions t = some before := by
    rintro t (rfl | ⟨before, present, _⟩)
    · exact Or.inl rfl
    · exact Or.inr ⟨before, present⟩
  refine threaded_congr _ _ _ _ (threaded_push (switch.links v) (Member switch v) s
    (inv.vnets v vnet home).threaded outside unlinked) (fun t => by simp [member]) ?_ ?_ ?_
  · simp [Switch.links, admitted_vnets, Links.push]
  · exact fun t inside => (links t v home (connected t inside)).1
  · exact fun t inside => (links t v home (connected t inside)).2

end Admission

/-- A session that passed the check is pushed in front of its network's list.

Proof: the session itself has passed from here on, and the others keep what they have. Its
network's list is the list with the session pushed; the other lists are undisturbed. -/
theorem admitted_inv (s : SessionId) (session changed : Session) (v : VnetId) (vnet : VNetwork)
    (found : switch.sessions s = some session) (state : session.state = .waitStepup)
    (same : session.vnetwork = some v) (home : switch.vnets v = some vnet)
    (authed : changed.state = .authed) (level : changed.netc = session.netc)
    (belongs : changed.vnetwork = some v) (next : changed.next = session.next)
    (prev : changed.prev = session.prev) : Inv (switch.admitted v s changed vnet) := by
  have held := inv.sessions s session found
  have unknown := (held.waiting state).2
  refine { inv with sessions := ?_, vnets := ?_, heard := ?_, indexed := ?_, indexedId := ?_ }
  · intro t other there
    rw [admitted_sessions switch s session changed v vnet found next prev] at there
    by_cases own : t = s
    · subst own
      rw [if_pos rfl, Option.some.injEq] at there
      subst there
      have told : Passed (switch.admitted v t changed vnet) t :=
        (admitted_passed switch t t changed v vnet).mpr (Or.inl rfl)
      refine ⟨held.opened, ?_, ?_, ?_, ?_, ?_, fun new => absurd told new⟩
      · simpa [level] using held.listener
      · intro w within
        exact held.placed w (same.trans (belongs.symm.trans within))
      · simp [authed]
      · simp [authed]
      · exact fun _ => ⟨by simp [belongs], told⟩
    · rw [if_neg own, Option.map_eq_some_iff] at there
      obtain ⟨before, present, rfl⟩ := there
      exact admitted_others inv home own present
  · intro w other there
    rw [admitted_vnets] at there
    by_cases own : w = v
    · subst own
      rw [if_pos rfl, Option.some.injEq] at there
      subst there
      have here := inv.vnets w vnet home
      exact ⟨here.known,
        fun mac t owned => admitted_bound found unknown next prev (here.bound mac t owned),
        admitted_threaded inv home found unknown belongs next prev⟩
    · rw [if_neg own] at there
      have here := inv.vnets w other there
      exact ⟨here.known,
        fun mac t owned => admitted_bound found unknown next prev (here.bound mac t owned),
        (admitted_undisturbed inv s session changed v w vnet found unknown home belongs next
          prev own).threaded here.threaded⟩
  · intro t message told
    rcases List.mem_append.mp told with before | new
    · exact inv.heard t message before
    · obtain ⟨rfl, _⟩ := Prod.mk.inj (List.mem_singleton.mp new)
      exact held.opened
  · exact index_update _ _ _ VNetwork.uuid v vnet _ home (by rfl)
      (fun w => admitted_vnets switch s changed v w vnet) inv.indexed
  · exact index_update _ _ _ VNetwork.id v vnet _ home (by rfl)
      (fun w => admitted_vnets switch s changed v w vnet) inv.indexedId

end Effects

/-- Learning keeps the invariant. -/
theorem learn_inv (switch after : Switch) (inv : Inv switch) (s source : SessionId)
    (session : Session) (mac : List UInt8) (found : switch.sessions s = some session)
    (authed : session.state = .authed) (taken : learn switch s mac = some (after, source)) :
    Inv after := by
  obtain ⟨same, v, vnet, present, member, home, ⟨_, rfl⟩ | ⟨unbound, _, rfl⟩⟩ :=
    learn_cases switch after s source mac taken
  · exact inv
  · obtain rfl := Option.some.inj (found.symm.trans present)
    exact learned_inv inv s session v vnet mac found authed member home unbound

/-- Every step keeps the invariant. -/
theorem step_inv (switch : Switch) (event : Event) (after : Switch) (inv : Inv switch)
    (taken : step switch event = some after) : Inv after := by
  cases step_effect switch after inv event taken with
  | quiet rest => exact rest.inv inv
  | connected s peerHost fresh rest => exact rest ▸ connected_inv inv s peerHost fresh
  | accepted s session v vnet env certName asked found state home rest =>
    obtain ⟨_, unknown⟩ := (inv.sessions s session found).unknown state
    refine rest.inv (inv.setSession s session _ found rfl rfl rfl (fun _ learned => learned)
      (fun new => ((inv.sessions s session found).unlinked new).2.2) (Or.inl unknown) ?_
      (by simp) (fun _ => ⟨by simp, unknown⟩) (by simp))
    rintro w placed
    obtain rfl := Option.some.inj placed
    exact (inv.vnets v vnet home).known
  | admitted s session v vnet cert info asked read found state member home listed rest =>
    exact rest.inv (admitted_inv inv s session _ v vnet found state member home rfl rfl member
      rfl rfl)
  | learned s session v vnet mac found state member home unbound rest =>
    exact rest.inv (learned_inv inv s session v vnet mac found state member home unbound)
  | left s session v vnet ended found state member home rest =>
    exact rest.inv (left_inv inv s session v vnet found member home)
  | freed s session ended found state rest =>
    refine rest.inv (freed_inv inv s session found ?_)
    rcases state with fresh | alone
    · exact ((inv.sessions s session found).unknown fresh).1
    · exact alone
  | granted uuid networkUuid key v vnet asked known home read rest =>
    subst rest
    exact inv.setVnet v vnet _ home rfl rfl rfl (inv.vnets v vnet home).bound
  | revoked v vnet key node asked home rest =>
    have stripped : Inv (switch.setVnet v { vnet with atable := vnet.atable.erase key }) :=
      inv.setVnet v vnet _ home rfl rfl rfl (inv.vnets v vnet home).bound
    rcases rest with rfl | ⟨s, session, found, rfl⟩
    · exact stripped
    · have held := stripped.sessions s session found
      exact stripped.setSession s session { session with state := .purge } found rfl rfl rfl
        (fun _ learned => learned) (fun new => (held.unlinked new).2.2) (Or.inr rfl) held.placed
        (by simp) (by simp) (by simp)
  | created id uuid rest => exact rest ▸ created_inv inv id uuid
  | deleted uuid v vnet members asked known home walked rest =>
    exact rest ▸ deleted_inv inv uuid v vnet members known home walked

/-- The invariant holds in every state that the switch reaches. -/
theorem reachable_inv (switch : Switch) (events : List Event)
    (reached : run step Switch.initial events = some switch) : Inv switch :=
  invariant step Inv step_inv Switch.initial switch events initial_inv reached

/-! ## A network for examples

Its id is "7". A node's uuid repeats one byte, and so does the network's own, with "N". -/

def sampleUuid (byte : UInt8) : List UInt8 := List.replicate uuidStrLen byte

/-- "nva-uuid@id" -/
def sampleName (byte : UInt8) : List UInt8 :=
  ascii ['n', 'v', 'a', '-'] ++ sampleUuid byte ++ ascii ['@', '7']

/-- A certificate with the URI "uuid@networkUuid". -/
def sampleCert (byte : UInt8) : X509 :=
  { altname := some (sampleUuid byte ++ ascii ['@'] ++ sampleUuid 0x4e), commonName := none }

/-- The network is created, and nodes are listed with it. -/
def sampleNetwork (bytes : List UInt8) : List Event :=
  .createNetwork (ascii ['7']) (sampleUuid 0x4e) ::
    bytes.map fun byte => .listNode (sampleUuid byte) (sampleUuid 0x4e)

/-- A session asks for the network under the name of a node. -/
def sampleAsk (s : SessionId) (byte : UInt8) : List Event :=
  [.connect s [], .input s { now := 0, rand := 0 } (.authRequest (sampleName byte))]

/-- A session of a node asks for the network and shows the node's certificate. -/
def sampleJoin (s : SessionId) (byte : UInt8) : List Event :=
  sampleAsk s byte ++ [.secure s (sampleCert byte)]

end NetVirt.Nvswitch
