import NetVirt.SwitchLists
import Mathlib.Data.List.Perm.Subperm

/-!
# The ids of a network's sessions

vnetwork_add_session and vnetwork_del_session on a new network, in any order in which each
session is added once and only listed sessions are deleted. The session list is the sessions
that were added and not deleted, whatever their number. With an id for each of them the bits
of the pool are the listed ids; a session that is added beyond takes an id that is in use.
-/

namespace NetVirt.Nvswitch

open Bitmaps Bitv LinkedLists Runs

/-! ## Calls -/

inductive ListCall where
  | addSession (s : SessionId)
  | delSession (s : SessionId)
deriving DecidableEq

def listStep (v : VnetId) (switch : Switch) : ListCall → Option Switch
  | .addSession s => vnetworkAddSession switch v s
  | .delSession s => vnetworkDelSession switch v s

/-- The sessions that were added so far, and those of them that were not deleted, the most
recent first. -/
structure Roll where
  added : List SessionId
  listed : List SessionId

def Roll.initial : Roll := { added := [], listed := [] }

def rollStep (roll : Roll) : ListCall → Roll
  | .addSession s => { added := s :: roll.added, listed := s :: roll.listed }
  | .delSession s => { roll with listed := roll.listed.erase s }

def rollOf (calls : List ListCall) : Roll := calls.foldl rollStep Roll.initial

/-- A session is added once, and deleted while it is listed. -/
def Proper (calls : List ListCall) : Prop :=
  Guarded rollStep Roll.initial (fun roll call =>
    match call with
    | .addSession s => s ∉ roll.added
    | .delSession s => s ∈ roll.listed) calls

/-- No session is added to a list of MAX_NODE sessions. -/
def Roomy (calls : List ListCall) : Prop :=
  Guarded rollStep Roll.initial (fun roll call =>
    ∀ s, call = .addSession s → roll.listed.length < maxNode) calls

/-- A session as session_new returns it. -/
structure Session.Fresh (session : Session) : Prop where
  id : session.id = 0
  next : session.next = none
  prev : session.prev = none

/-- The id of a session. -/
def Switch.number (switch : Switch) (s : SessionId) : Option Nat :=
  (switch.sessions s).map fun session => session.id.toNat

/-- session_list leads this list. -/
def Switch.Leads (switch : Switch) (v : VnetId) (list : List SessionId) : Prop :=
  (switch.links v).head = list.head? ∧ Run (switch.links v) none list none

/-- The bit of the network's pool is set. -/
def Switch.marked (switch : Switch) (v : VnetId) (bit : Nat) : Bool :=
  (switch.vnets v).any fun vnet => getBit vnet.bitpool bit

/-- A network with this list, whose sessions have the ids that are marked. -/
structure Numbering (switch : Switch) (v : VnetId) (vnet : VNetwork) (list : List SessionId) :
    Prop where
  home : switch.vnets v = some vnet
  leads : switch.Leads v list
  apart : list.Nodup
  active : vnet.activeNode.toNat = list.length
  distinct : (list.map switch.number).Nodup
  range : ∀ s ∈ list, ∃ number, switch.number s = some number ∧ 1 ≤ number ∧ number ≤ maxNode
  stored : vnet.bitpool.length = maxNode / 8
  pool : ∀ bit, bit < maxNode →
    (getBit vnet.bitpool bit = true ↔ ∃ s ∈ list, switch.number s = some (bit + 1))

/-- The smallest id that no session of the list has. -/
structure SmallestFree (switch : Switch) (list : List SessionId) (number : Nat) : Prop where
  positive : 1 ≤ number
  free : ∀ s ∈ list, switch.number s ≠ some number
  smaller : ∀ lower, 1 ≤ lower → lower < number → ∃ s ∈ list, switch.number s = some lower

/-- No listed sessions have the same id, and the id of a listed session is not marked as free when
another session is deleted. -/
structure IdsHarmless (start : Switch) (v : VnetId) (calls : List ListCall) : Prop where
  distinct : ∀ past, past <+: calls → ∃ after list, run (listStep v) start past = some after ∧
    after.Leads v list ∧ (list.map after.number).Nodup
  spared : ∀ past s, past ++ [.delSession s] <+: calls → ∀ before after,
    run (listStep v) start past = some before → vnetworkDelSession before v s = some after →
    ∀ list, after.Leads v list → ∀ t ∈ list, ∀ bit, after.number t = some (bit + 1) →
      before.marked v bit = true → after.marked v bit = true

theorem IdsHarmless.early {start : Switch} {v : VnetId} {past calls : List ListCall}
    (harmless : IdsHarmless start v calls) (within : past <+: calls) :
    IdsHarmless start v past where
  distinct _ early := harmless.distinct _ (early.trans within)
  spared _ _ early := harmless.spared _ _ (early.trans within)

/-! ## Where the calls have a result -/

theorem setNext_defined (switch : Switch) (s : SessionId) (pointer : Option SessionId)
    (present : (switch.sessions s).isSome) :
    ∃ after, switch.setNext s pointer = some after ∧ after.vnets = switch.vnets ∧
      ∀ t, (after.sessions t).isSome = (switch.sessions t).isSome := by
  obtain ⟨session, found⟩ := Option.isSome_iff_exists.mp present
  refine ⟨switch.setSession s { session with next := pointer }, ?_, rfl, fun t => ?_⟩
  · simp [Switch.setNext, found]
  by_cases own : t = s
  · simp [own, found]
  · simp [own]

theorem setPrev_defined (switch : Switch) (s : SessionId) (pointer : Option SessionId)
    (present : (switch.sessions s).isSome) :
    ∃ after, switch.setPrev s pointer = some after ∧ after.vnets = switch.vnets ∧
      ∀ t, (after.sessions t).isSome = (switch.sessions t).isSome := by
  obtain ⟨session, found⟩ := Option.isSome_iff_exists.mp present
  refine ⟨switch.setSession s { session with prev := pointer }, ?_, rfl, fun t => ?_⟩
  · simp [Switch.setPrev, found]
  by_cases own : t = s
  · simp [own, found]
  · simp [own]

section Defined
variable {switch : Switch} {v : VnetId} {vnet : VNetwork} {s : SessionId}
  (home : switch.vnets v = some vnet) (present : (switch.sessions s).isSome)
include home present

theorem linkSession_defined
    (head : ∀ t, vnet.sessionList = some t → (switch.sessions t).isSome) :
    ∃ after, linkSession switch v s = some after := by
  cases first : vnet.sessionList with
  | none =>
    have listed : switch.setSessionList v (some s) =
        some (switch.setVnet v { vnet with sessionList := some s }) := by
      rw [Switch.setSessionList, home, Option.map_some]
    obtain ⟨forward, forwarded, _, kept⟩ := setNext_defined
      (switch.setVnet v { vnet with sessionList := some s }) s none present
    obtain ⟨after, backed, _⟩ := setPrev_defined forward s none ((kept s).trans present)
    refine ⟨after, ?_⟩
    simp only [linkSession, home, first, listed, forwarded, backed, Option.bind_eq_bind,
      Option.bind_some]
  | some t =>
    obtain ⟨forward, forwarded, same, kept⟩ := setNext_defined switch s (some t) present
    obtain ⟨backward, backed, still, _⟩ := setPrev_defined forward t (some s)
      ((kept t).trans (head t first))
    have listed : backward.setSessionList v (some s) =
        some (backward.setVnet v { vnet with sessionList := some s }) := by
      rw [Switch.setSessionList, still, same, home, Option.map_some]
    refine ⟨backward.setVnet v { vnet with sessionList := some s }, ?_⟩
    simp only [linkSession, home, first, forwarded, backed, Option.bind_eq_bind,
      Option.bind_some]
    exact listed

theorem unlinkSession_defined
    (next : ∀ t, (switch.links v).next s = some t → (switch.sessions t).isSome)
    (prev : ∀ t, (switch.links v).prev s = some t → (switch.sessions t).isSome) :
    ∃ after, unlinkSession switch v s = some after := by
  obtain ⟨session, found⟩ := Option.isSome_iff_exists.mp present
  have following : (switch.links v).next s = session.next := by simp [Switch.links, found]
  have previous : (switch.links v).prev s = session.prev := by simp [Switch.links, found]
  rw [following] at next
  rw [previous] at prev
  cases back : session.next with
  | none =>
    cases front : session.prev with
    | none =>
      refine ⟨switch.setVnet v { vnet with sessionList := none }, ?_⟩
      simp [unlinkSession, found, back, front, Switch.setSessionList, home]
    | some before =>
      obtain ⟨after, forwarded, _⟩ := setNext_defined switch before none (prev before front)
      exact ⟨after, by simp [unlinkSession, found, back, front, forwarded]⟩
  | some beyond =>
    cases front : session.prev with
    | none =>
      obtain ⟨after, backed, _⟩ := setPrev_defined
        (switch.setVnet v { vnet with sessionList := some beyond }) beyond none (next beyond back)
      exact ⟨after, by
        simp [unlinkSession, found, back, front, Switch.setSessionList, home, backed]⟩
    | some before =>
      obtain ⟨forward, forwarded, _, kept⟩ := setNext_defined switch before (some beyond)
        (prev before front)
      obtain ⟨after, backed, _⟩ := setPrev_defined forward beyond (some before)
        ((kept beyond).trans (next beyond back))
      exact ⟨after, by simp [unlinkSession, found, back, front, forwarded, backed]⟩

omit present in
theorem vnetworkAddSession_joined (session : Session) (found : switch.sessions s = some session)
    (unlinked : session.prev = none)
    (head : ∀ t, vnet.sessionList = some t → (switch.sessions t).isSome) :
    vnetworkAddSession switch v s = some (switch.joined v s session vnet) := by
  have alone : (switch.links v).prev s = none := by simp [Switch.links, found, unlinked]
  have present : (switch.sessions s).isSome := by simp [found]
  obtain ⟨linked, pushed⟩ := linkSession_defined home present head
  have shape := linkSession_cases switch linked v s vnet home alone pushed
  obtain ⟨after, taken⟩ : ∃ after, vnetworkAddSession switch v s = some after := by
    simp [vnetworkAddSession, pushed, shape, Switch.relinked, Switch.pointed, found]
  rw [taken, vnetworkAddSession_cases switch after v s session vnet found home alone taken]

omit present in
theorem vnetworkDelSession_parted (session : Session) (found : switch.sessions s = some session)
    (next : ∀ t, (switch.links v).next s = some t → (switch.sessions t).isSome)
    (prev : ∀ t, (switch.links v).prev s = some t → (switch.sessions t).isSome) :
    vnetworkDelSession switch v s = some (switch.parted v s session vnet) := by
  have present : (switch.sessions s).isSome := by simp [found]
  obtain ⟨unlinked, removed⟩ := unlinkSession_defined home present next prev
  have shape := unlinkSession_cases switch unlinked v s vnet home removed
  obtain ⟨after, taken⟩ : ∃ after, vnetworkDelSession switch v s = some after := by
    simp [vnetworkDelSession, removed, shape, Switch.relinked, Switch.pointed, found]
  rw [taken, vnetworkDelSession_cases switch after v s session vnet found home taken]

end Defined

/-! ## An added session -/

section Added
variable (switch : Switch) (v : VnetId) (vnet : VNetwork) (s : SessionId) (session : Session)
  (list : List SessionId)

theorem joined_sessions (t : SessionId) :
    (switch.joined v s session vnet).sessions t = if t = s then some { session with
        id := (bitpoolAllocateBit vnet.bitpool maxNode).2.getD session.id + 1
        next := vnet.sessionList
        prev := redirect (switch.links v).prev vnet.sessionList (some s) s } else
      (switch.sessions t).map fun other => { other with
        next := ((switch.links v).push s).next t
        prev := ((switch.links v).push s).prev t } := by
  by_cases own : t = s
  · simp [Switch.joined, own]
  · simp [Switch.joined, Switch.relinked, Switch.pointed, own]

/-- The added session gets the id of the allocated bit, or keeps its own, and one more. -/
theorem joined_number (t : SessionId) :
    (switch.joined v s session vnet).number t = if t = s then
        some ((bitpoolAllocateBit vnet.bitpool maxNode).2.getD session.id + 1).toNat
      else switch.number t := by
  unfold Switch.number
  rw [joined_sessions]
  by_cases own : t = s
  · simp [own]
  · simp [own, Option.map_map, Function.comp_def]

theorem joined_vnet : (switch.joined v s session vnet).vnets v = some { vnet with
    bitpool := (bitpoolAllocateBit vnet.bitpool maxNode).1
    activeNode := vnet.activeNode + 1
    sessionList := some s } := by
  simp [Switch.joined, Switch.relinked, Switch.pointed, Links.push]

variable (home : switch.vnets v = some vnet) (found : switch.sessions s = some session)
  (unlinked : session.prev = none) (leads : switch.Leads v list) (apart : list.Nodup)
  (fresh : s ∉ list) (present : ∀ t ∈ list, (switch.sessions t).isSome)
include home

/-- Sessions that are not listed are left as they were. -/
theorem joined_others (leads : switch.Leads v list) (t : SessionId) (outside : t ∉ s :: list) :
    (switch.joined v s session vnet).sessions t = switch.sessions t := by
  have head : (switch.links v).head = vnet.sessionList := by simp [Switch.links, home]
  obtain ⟨own, beyond⟩ : t ≠ s ∧ t ∉ list := by simpa using outside
  have next : ((switch.links v).push s).next t = (switch.links v).next t :=
    Function.update_of_ne own _ _
  have prev : ((switch.links v).push s).prev t = (switch.links v).prev t := by
    refine redirect_of_ne _ _ _ _ fun first => beyond ?_
    rw [leads.1] at first
    exact List.mem_of_head? first
  rw [joined_sessions, if_neg own, next, prev]
  cases there : switch.sessions t with
  | none => rfl
  | some other => simp [Switch.links, there]

include found unlinked leads apart fresh present

theorem joined_leads : (switch.joined v s session vnet).Leads v (s :: list) := by
  have head : (switch.links v).head = vnet.sessionList := by simp [Switch.links, home]
  have alone : (switch.links v).prev s = none := by simp [Switch.links, found, unlinked]
  have pushed := (chains_single _ _).mpr ⟨leads.1, leads.2, apart⟩
  have chains := pushed.push leads.1 (by simpa using fresh) alone
  obtain ⟨_, run, _⟩ := (chains_single _ _).mp chains
  refine ⟨by simp [Switch.links, joined_vnet], ?_⟩
  refine run_congr _ _ _ _ _ (fun t inside => ?_) (fun t inside => ?_) run
  all_goals
    by_cases own : t = s
    · simp [Switch.links, joined_sessions, own, Links.push, home]
    · have listed := present t ((List.mem_cons.mp inside).resolve_left own)
      obtain ⟨other, there⟩ := Option.isSome_iff_exists.mp listed
      simp [Switch.links, joined_sessions, own, there]

end Added

/-! ## A deleted session -/

section Deleted
variable (switch : Switch) (v : VnetId) (vnet : VNetwork) (s : SessionId) (session : Session)
  (list : List SessionId)

theorem parted_sessions (t : SessionId) :
    (switch.parted v s session vnet).sessions t =
      (switch.sessions t).map fun other => { other with
        next := ((switch.links v).remove s).next t
        prev := ((switch.links v).remove s).prev t } := by
  simp [Switch.parted, Switch.relinked, Switch.pointed]

theorem parted_number (t : SessionId) :
    (switch.parted v s session vnet).number t = switch.number t := by
  unfold Switch.number
  rw [parted_sessions, Option.map_map]
  rfl

theorem parted_vnet : (switch.parted v s session vnet).vnets v = some { vnet with
    bitpool := (bitpoolReleaseBit vnet.bitpool maxNode (session.id - 1)).1
    activeNode := vnet.activeNode - 1
    sessionList := ((switch.links v).remove s).head } := by
  simp [Switch.parted, Switch.relinked, Switch.pointed]

variable (leads : switch.Leads v list) (apart : list.Nodup) (listed : s ∈ list)
  (present : ∀ t ∈ list, (switch.sessions t).isSome)
include leads listed

/-- The neighbours of a listed session are listed. -/
theorem Switch.Leads.neighbours (t : SessionId)
    (points : (switch.links v).next s = some t ∨ (switch.links v).prev s = some t) :
    t ∈ list := by
  obtain ⟨forward, backward⟩ := run_closed _ none none list leads.2 s listed
  rcases points with next | prev
  · exact (forward t next).resolve_right nofun
  · exact (backward t prev).resolve_right nofun

/-- Sessions that are not listed are left as they were. -/
theorem parted_others (t : SessionId) (outside : t ∉ list) :
    (switch.parted v s session vnet).sessions t = switch.sessions t := by
  have near := Switch.Leads.neighbours switch v s list leads listed t
  have next : ((switch.links v).remove s).next t = (switch.links v).next t :=
    redirect_of_ne _ _ _ _ fun points => outside (near (Or.inr points))
  have prev : ((switch.links v).remove s).prev t = (switch.links v).prev t :=
    redirect_of_ne _ _ _ _ fun points => outside (near (Or.inl points))
  rw [parted_sessions, next, prev]
  cases there : switch.sessions t with
  | none => rfl
  | some other => simp [Switch.links, there]

include apart present

theorem parted_leads : (switch.parted v s session vnet).Leads v (list.erase s) := by
  have chains := ((chains_single _ _).mpr ⟨leads.1, leads.2, apart⟩).erase listed
  obtain ⟨head, run, _⟩ := (chains_single _ _).mp chains
  refine ⟨by simp [Switch.links, parted_vnet, ← head], ?_⟩
  refine run_congr _ _ _ _ _ (fun t inside => ?_) (fun t inside => ?_) run
  all_goals
    obtain ⟨other, there⟩ := Option.isSome_iff_exists.mp
      (present t (List.mem_of_mem_erase inside))
    simp [Switch.links, parted_sessions, there]

end Deleted

/-! ## The ids of a numbering -/

theorem numbering_new (switch : Switch) (v : VnetId) (id uuid : List UInt8)
    (home : switch.vnets v = some (vnetworkNew id uuid)) :
    Numbering switch v (vnetworkNew id uuid) [] where
  home := home
  leads := ⟨by simp [Switch.links, home, vnetworkNew], trivial⟩
  apart := List.nodup_nil
  active := rfl
  distinct := List.nodup_nil
  range := by simp
  stored := by
    simp [vnetworkNew, bitpoolNew_whole maxNode (by decide) (by decide)]
  pool bit inside := by
    simp [vnetworkNew, bitpoolNew_whole maxNode (by decide) (by decide)]

section Numbering
variable {switch : Switch} {v : VnetId} {vnet : VNetwork} {list : List SessionId}
  (numbering : Numbering switch v vnet list)
include numbering

theorem Numbering.present (t : SessionId) (inside : t ∈ list) : (switch.sessions t).isSome := by
  obtain ⟨number, has, _⟩ := numbering.range t inside
  obtain ⟨session, found, _⟩ := Option.map_eq_some_iff.mp has
  simp [found]

/-- A pool whose bits are all set belongs to MAX_NODE sessions. -/
theorem Numbering.full (full : ∀ bit, bit < maxNode → getBit vnet.bitpool bit = true) :
    maxNode ≤ list.length := by
  have distinct : ((List.range maxNode).map fun bit => some (bit + 1)).Nodup :=
    List.nodup_range.map fun early late same => by simpa using same
  have inside : ((List.range maxNode).map fun bit => some (bit + 1)) ⊆
      list.map switch.number := by
    intro number among
    obtain ⟨bit, within, rfl⟩ := List.mem_map.mp among
    obtain ⟨t, listed, has⟩ :=
      (numbering.pool bit (List.mem_range.mp within)).mp (full bit (List.mem_range.mp within))
    exact List.mem_map.mpr ⟨t, listed, has⟩
  simpa using (distinct.subperm inside).length_le

/-- The ids of MAX_NODE sessions leave no bit clear. -/
theorem Numbering.exhausted (many : maxNode ≤ list.length) (bit : Nat) (inside : bit < maxNode) :
    getBit vnet.bitpool bit = true := by
  by_contra clear
  have within : list.map switch.number ⊆
      ((List.range maxNode).erase bit).map fun other => some (other + 1) := by
    intro number among
    obtain ⟨t, listed, rfl⟩ := List.mem_map.mp among
    obtain ⟨number, has, positive, small⟩ := numbering.range t listed
    refine List.mem_map.mpr ⟨number - 1, ?_, by rw [has, Nat.sub_add_cancel positive]⟩
    rw [List.nodup_range.mem_erase_iff, List.mem_range]
    refine ⟨?_, by omega⟩
    rintro rfl
    refine clear ((numbering.pool _ inside).mpr ⟨t, listed, ?_⟩)
    rw [has, Nat.sub_add_cancel positive]
  have fewer := (numbering.distinct.subperm within).length_le
  rw [List.length_map, List.length_map, List.length_erase_of_mem (List.mem_range.mpr inside),
    List.length_range] at fewer
  omega

/-- With an id left, an added session gets the smallest free one. -/
theorem Numbering.add (s : SessionId) (session : Session) (found : switch.sessions s = some session)
    (unlinked : session.prev = none) (fresh : s ∉ list) (room : list.length < maxNode) :
    ∃ after number, Numbering (switch.joined v s session vnet) v after (s :: list) ∧
      (switch.joined v s session vnet).number s = some number ∧
      SmallestFree switch list number := by
  have present := numbering.present
  rcases bitpoolAllocateBit_spec vnet.bitpool maxNode (by decide) (by decide) numbering.stored with
    ⟨full, _⟩ | ⟨bit, inside, clear, set, taken⟩
  · exact absurd (numbering.full full) (Nat.not_le.mpr room)
  have small : bit < 1024 := inside
  have stored : bit / 8 < vnet.bitpool.length := by
    rw [numbering.stored]
    simp only [maxNode]
    omega
  -- The id does not wrap around.
  have number : ∀ t, (switch.joined v s session vnet).number t =
      if t = s then some (bit + 1) else switch.number t := by
    have id : (BitVec.ofNat 32 bit + 1).toNat = bit + 1 := by
      have same : (BitVec.ofNat 32 bit).toNat = bit := by
        rw [BitVec.toNat_ofNat]
        omega
      rw [toNat_succ _ (by omega), same]
    intro t
    rw [joined_number, taken, Option.getD_some, id]
  have own : (switch.joined v s session vnet).number s = some (bit + 1) := by
    rw [number, if_pos rfl]
  have others : ∀ t ∈ list, (switch.joined v s session vnet).number t = switch.number t := by
    intro t within
    have apart : t ≠ s := fun same => fresh (same ▸ within)
    rw [number, if_neg apart]
  have free : ∀ t ∈ list, switch.number t ≠ some (bit + 1) := by
    intro t within has
    have marked := (numbering.pool bit inside).mpr ⟨t, within, has⟩
    rw [clear] at marked
    cases marked
  obtain ⟨after, home, bitpool, active⟩ : ∃ after, (switch.joined v s session vnet).vnets v =
      some after ∧ after.bitpool = setBit vnet.bitpool bit ∧
      after.activeNode = vnet.activeNode + 1 :=
    ⟨_, joined_vnet switch v vnet s session, by rw [taken], rfl⟩
  refine ⟨after, bit + 1, ?_, own, by omega, free, ?_⟩
  · constructor
    case home => exact home
    case leads =>
      exact joined_leads switch v vnet s session list numbering.home found unlinked numbering.leads
        numbering.apart fresh present
    case apart => exact List.nodup_cons.mpr ⟨fresh, numbering.apart⟩
    case active =>
      have count := numbering.active
      simp only [maxNode] at room
      rw [active, List.length_cons, ← count, toNat_succ _ (by omega)]
    case distinct =>
      rw [List.map_cons, own, List.map_congr_left others, List.nodup_cons]
      refine ⟨fun among => ?_, numbering.distinct⟩
      obtain ⟨t, within, has⟩ := List.mem_map.mp among
      exact free t within has
    case range =>
      intro t within
      rcases List.mem_cons.mp within with rfl | within
      · exact ⟨bit + 1, own, by omega, inside⟩
      · rw [others t within]
        exact numbering.range t within
    case stored => rw [bitpool, setBit_length, numbering.stored]
    case pool =>
      intro tested within
      simp only [bitpool, getBit_setBit _ _ _ stored, Bool.or_eq_true, decide_eq_true_eq,
        numbering.pool tested within, List.mem_cons, exists_eq_or_imp, own, Option.some.injEq]
      rw [or_comm]
      apply or_congr
      · omega
      · apply exists_congr
        intro t
        apply and_congr_right
        intro listed
        rw [others t listed]
  · intro lower positive less
    have marked := set (lower - 1) (by omega)
    have has := (numbering.pool (lower - 1) (by omega)).mp marked
    rwa [Nat.sub_add_cancel positive] at has

/-- A deleted session's id is free again, and no other. -/
theorem Numbering.delete (s : SessionId) (session : Session)
    (found : switch.sessions s = some session) (listed : s ∈ list) :
    ∃ after, Numbering (switch.parted v s session vnet) v after (list.erase s) := by
  obtain ⟨number, has, positive, small⟩ := numbering.range s listed
  have id : session.id.toNat = number := by simpa [Switch.number, found] using has
  have bit : (session.id - 1).toNat = number - 1 := by
    rw [toNat_pred _ (by omega), id]
  have released : bitpoolReleaseBit vnet.bitpool maxNode (session.id - 1) =
      (clearBit vnet.bitpool (number - 1), 0) := by
    rw [bitpoolReleaseBit, bit, if_pos (by omega)]
  have numbers : ∀ t, (switch.parted v s session vnet).number t = switch.number t :=
    parted_number switch v vnet s session
  have alone : ∀ t ∈ list, switch.number t = some number → t = s := by
    intro t within same
    exact List.inj_on_of_nodup_map numbering.distinct within listed (same.trans has.symm)
  have kept : ∀ t, t ∈ list.erase s → t ≠ s ∧ t ∈ list :=
    fun t within => (numbering.apart.mem_erase_iff).mp within
  obtain ⟨after, home, bitpool, active⟩ : ∃ after, (switch.parted v s session vnet).vnets v =
      some after ∧ after.bitpool = clearBit vnet.bitpool (number - 1) ∧
      after.activeNode = vnet.activeNode - 1 :=
    ⟨_, parted_vnet switch v vnet s session, by rw [released], rfl⟩
  refine ⟨after, ?_⟩
  constructor
  case home => exact home
  case leads =>
    exact parted_leads switch v vnet s session list numbering.leads numbering.apart listed
      numbering.present
  case apart => exact numbering.apart.erase s
  case active =>
    have count := numbering.active
    have occupied := List.length_pos_of_mem listed
    rw [active, List.length_erase_of_mem listed, ← count, toNat_pred _ (by omega)]
  case distinct =>
    rw [List.map_congr_left fun t _ => numbers t]
    exact numbering.distinct.sublist ((List.erase_sublist).map _)
  case range =>
    intro t within
    rw [numbers]
    exact numbering.range t (kept t within).2
  case stored => rw [bitpool, clearBit_length, numbering.stored]
  case pool =>
    intro tested within
    simp only [bitpool, getBit_clearBit, Bool.and_eq_true, decide_eq_true_eq,
      numbering.pool tested within, numbers]
    constructor
    · rintro ⟨⟨t, inside, has'⟩, apart⟩
      refine ⟨t, numbering.apart.mem_erase_iff.mpr ⟨?_, inside⟩, has'⟩
      rintro rfl
      rw [has, Option.some.injEq] at has'
      omega
    · rintro ⟨t, inside, has'⟩
      obtain ⟨apart, inside⟩ := kept t inside
      refine ⟨⟨t, inside, has'⟩, ?_⟩
      rintro rfl
      rw [Nat.sub_add_cancel positive] at has'
      exact apart (alone t inside has')

/-- Without an id left, an added session gets the id of a session that is listed. -/
theorem Numbering.overrun (s : SessionId) (session : Session) (fresh : s ∉ list)
    (unnumbered : session.id = 0) (many : maxNode ≤ list.length) :
    ¬ ((s :: list).map (switch.joined v s session vnet).number).Nodup := by
  have full := numbering.exhausted many
  rcases bitpoolAllocateBit_spec vnet.bitpool maxNode (by decide) (by decide) numbering.stored with
    ⟨_, taken⟩ | ⟨bit, inside, clear, _⟩
  · obtain ⟨t, listed, has⟩ := (numbering.pool 0 (by decide)).mp (full 0 (by decide))
    have own : (switch.joined v s session vnet).number s = some 1 := by
      rw [joined_number, taken, if_pos rfl, Option.getD_none, unnumbered]
      rfl
    have other : (switch.joined v s session vnet).number t = some 1 := by
      have apart : t ≠ s := fun same => fresh (same ▸ listed)
      rw [joined_number, if_neg apart, has]
    rw [List.map_cons, List.nodup_cons, own]
    exact fun distinct => distinct.1 (List.mem_map.mpr ⟨t, listed, other⟩)
  · rw [full bit inside] at clear
    cases clear

/-- vnetwork_add_session on a list, whatever is left in the pool. -/
theorem Numbering.added (s : SessionId) (session : Session)
    (found : switch.sessions s = some session) (unlinked : session.prev = none) :
    vnetworkAddSession switch v s = some (switch.joined v s session vnet) := by
  refine vnetworkAddSession_joined numbering.home session found unlinked fun t first => ?_
  have head : (switch.links v).head = vnet.sessionList := by simp [Switch.links, numbering.home]
  rw [← head, numbering.leads.1] at first
  exact numbering.present t (List.mem_of_head? first)

/-- vnetwork_del_session of a listed session. -/
theorem Numbering.deleted (s : SessionId) (session : Session)
    (found : switch.sessions s = some session) (listed : s ∈ list) :
    vnetworkDelSession switch v s = some (switch.parted v s session vnet) := by
  have near := Switch.Leads.neighbours switch v s list numbering.leads listed
  exact vnetworkDelSession_parted numbering.home session found
    (fun t points => numbering.present t (near t (Or.inl points)))
    (fun t points => numbering.present t (near t (Or.inr points)))

end Numbering

/-! ## Runs -/

/-- What the calls leave: a numbering of the sessions on the roll, and the sessions that were not
added as they were. -/
structure Followed (start after : Switch) (v : VnetId) (vnet : VNetwork) (roll : Roll) :
    Prop where
  numbering : Numbering after v vnet roll.listed
  listed : ∀ s ∈ roll.listed, s ∈ roll.added
  others : ∀ s, s ∉ roll.added → after.sessions s = start.sessions s

section Followed
variable {start switch : Switch} {v : VnetId} {vnet : VNetwork} {roll : Roll}
  (followed : Followed start switch v vnet roll)
include followed

theorem Followed.add (s : SessionId) (made : ∃ session, start.sessions s = some session ∧
    session.Fresh) (fresh : s ∉ roll.added) (room : roll.listed.length < maxNode) :
    ∃ after vnet number, vnetworkAddSession switch v s = some after ∧
      Followed start after v vnet (rollStep roll (.addSession s)) ∧
      after.number s = some number ∧ SmallestFree switch roll.listed number := by
  obtain ⟨numbering, listed, others⟩ := followed
  obtain ⟨session, found, new⟩ := made
  rw [← others s fresh] at found
  have unlisted : s ∉ roll.listed := fun inside => fresh (listed s inside)
  obtain ⟨changed, number, after, own, least⟩ :=
    numbering.add s session found new.prev unlisted room
  refine ⟨_, changed, number, numbering.added s session found new.prev, ?_, own, least⟩
  refine ⟨after, ?_, ?_⟩
  · exact List.cons_subset_cons s listed
  · intro t outside
    obtain ⟨apart, before⟩ : t ≠ s ∧ t ∉ roll.added := by simpa [rollStep] using outside
    rw [joined_others switch v vnet s session _ numbering.home numbering.leads t ?_,
      others t before]
    exact fun inside => (List.mem_cons.mp inside).elim apart fun within => before (listed t within)

theorem Followed.delete (s : SessionId) (inside : s ∈ roll.listed) :
    ∃ after vnet, vnetworkDelSession switch v s = some after ∧
      Followed start after v vnet (rollStep roll (.delSession s)) := by
  obtain ⟨numbering, listed, others⟩ := followed
  obtain ⟨session, found⟩ := Option.isSome_iff_exists.mp (numbering.present s inside)
  obtain ⟨changed, after⟩ := numbering.delete s session found inside
  refine ⟨_, changed, numbering.deleted s session found inside, after, ?_, ?_⟩
  · exact fun t within => listed t (List.mem_of_mem_erase within)
  · intro t outside
    rw [parted_others switch v vnet s session _ numbering.leads inside t ?_, others t outside]
    exact fun within => outside (listed t within)

end Followed

section Calls
variable (start : Switch) (v : VnetId) (id uuid : List UInt8)
  (home : start.vnets v = some (vnetworkNew id uuid))
include home

/-- The calls have results, and keep the numbering. -/
theorem calls_followed (calls : List ListCall)
    (made : ∀ s, .addSession s ∈ calls → ∃ session, start.sessions s = some session ∧
      session.Fresh)
    (proper : Proper calls) (roomy : Roomy calls) :
    ∃ after vnet, run (listStep v) start calls = some after ∧
      Followed start after v vnet (rollOf calls) := by
  induction calls using List.reverseRecOn with
  | nil => exact ⟨start, _, rfl, numbering_new start v id uuid home, by simp [rollOf, Roll.initial],
      fun _ _ => rfl⟩
  | append_singleton past call inductionHypothesis =>
    obtain ⟨proper, permitted⟩ := (guarded_snoc _ _ _ past call).mp proper
    obtain ⟨roomy, room⟩ := (guarded_snoc _ _ _ past call).mp roomy
    obtain ⟨before, vnet, reached, followed⟩ := inductionHypothesis
      (fun s inside => made s (List.mem_append_left _ inside)) proper roomy
    have roll : rollOf (past ++ [call]) = rollStep (rollOf past) call := by simp [rollOf]
    rw [roll]
    cases call with
    | addSession s =>
      obtain ⟨after, changed, _, taken, followed, _⟩ :=
        followed.add s (made s (by simp)) permitted (room s rfl)
      exact ⟨after, changed, run_extend _ _ _ _ _ _ reached taken, followed⟩
    | delSession s =>
      obtain ⟨after, changed, taken, followed⟩ := followed.delete s permitted
      exact ⟨after, changed, run_extend _ _ _ _ _ _ reached taken, followed⟩

/-- On a new network, the list, the count, the ids and the pool agree after every sequence of
calls, and every added session got the smallest free id.

Proof: the roll of the calls so far has the sessions that were added and those still listed.
Every call keeps the ids of the listed sessions the bits of the pool; an addition takes the
lowest bit that is clear. -/
theorem session_list_ids (calls : List ListCall)
    (made : ∀ s, .addSession s ∈ calls → ∃ session, start.sessions s = some session ∧
      session.Fresh)
    (proper : Proper calls) (roomy : Roomy calls) :
    (∃ after vnet, run (listStep v) start calls = some after ∧
      Numbering after v vnet (rollOf calls).listed) ∧
    ∀ past s, past ++ [.addSession s] <+: calls → ∃ before after number,
      run (listStep v) start past = some before ∧
      vnetworkAddSession before v s = some after ∧ after.number s = some number ∧
      SmallestFree before (rollOf past).listed number := by
  constructor
  · obtain ⟨after, vnet, reached, followed⟩ :=
      calls_followed start v id uuid home calls made proper roomy
    exact ⟨after, vnet, reached, followed.numbering⟩
  · rintro past s ⟨late, rfl⟩
    have early : past <+: past ++ [.addSession s] ++ late := by simp
    obtain ⟨before, vnet, reached, followed⟩ := calls_followed start v id uuid home past
      (fun t inside => made t (by simp [inside])) (proper.early early) (roomy.early early)
    obtain ⟨after, _, number, taken, _, own, least⟩ := followed.add s (made s (by simp))
      (proper past (.addSession s) late (by simp))
      (roomy past (.addSession s) late (by simp) s rfl)
    exact ⟨before, after, number, reached, taken, own, least⟩

/-- As long as there are ids left, the ids of listed sessions are distinct and marked. -/
theorem roomy_harmless (calls : List ListCall)
    (made : ∀ s, .addSession s ∈ calls → ∃ session, start.sessions s = some session ∧
      session.Fresh)
    (proper : Proper calls) (roomy : Roomy calls) : IdsHarmless start v calls := by
  have reached : ∀ past, past <+: calls → ∃ after vnet, run (listStep v) start past = some after ∧
      Followed start after v vnet (rollOf past) := by
    intro past early
    exact calls_followed start v id uuid home past (fun s inside => made s (early.subset inside))
      (proper.early early) (roomy.early early)
  constructor
  case distinct =>
    intro past early
    obtain ⟨after, vnet, stopped, followed⟩ := reached past early
    exact ⟨after, _, stopped, followed.numbering.leads, followed.numbering.distinct⟩
  case spared =>
    intro past s early before after stopped taken list leads t inside bit has _
    obtain ⟨again, vnet, other, followed⟩ := reached _ early
    obtain rfl := Option.some.inj (other.symm.trans
      (run_extend _ start before after past (.delSession s) stopped taken))
    have numbering := followed.numbering
    obtain rfl := run_unique _ none _ _ (leads.1.symm.trans numbering.leads.1) leads.2
      numbering.leads.2
    obtain ⟨number, same, _, small⟩ := numbering.range t inside
    rw [has, Option.some.injEq] at same
    have marked := (numbering.pool bit (by omega)).mpr ⟨t, inside, has⟩
    simp [Switch.marked, numbering.home, marked]

/-- The first session that is added beyond the ids takes one that is in use. -/
theorem harmless_roomy (calls : List ListCall)
    (made : ∀ s, .addSession s ∈ calls → ∃ session, start.sessions s = some session ∧
      session.Fresh)
    (proper : Proper calls) (harmless : IdsHarmless start v calls) : Roomy calls := by
  induction calls using List.reverseRecOn with
  | nil => exact guarded_nil _ _ _
  | append_singleton past call inductionHypothesis =>
    have early : past <+: past ++ [call] := List.prefix_append past [call]
    have before := fun s inside => made s (List.mem_append_left [call] inside)
    have roomy := inductionHypothesis before (proper.early early) (harmless.early early)
    refine (guarded_snoc _ _ _ past call).mpr ⟨roomy, ?_⟩
    rintro s rfl
    by_contra many
    obtain ⟨switch, vnet, reached, numbering, listed, others⟩ :=
      calls_followed start v id uuid home past before (proper.early early) roomy
    have fresh : s ∉ (rollOf past).added := proper past (.addSession s) [] rfl
    have unlisted : s ∉ (rollOf past).listed := fun inside => fresh (listed s inside)
    obtain ⟨session, found, new⟩ := made s (by simp)
    rw [← others s fresh] at found
    have taken := numbering.added s session found new.prev
    have leads := joined_leads switch v vnet s session _ numbering.home found new.prev
      numbering.leads numbering.apart unlisted numbering.present
    obtain ⟨after, list, stopped, other, distinct⟩ := harmless.distinct _ (List.prefix_refl _)
    obtain rfl := Option.some.inj ((run_extend (listStep v) start switch _ past (.addSession s)
      reached taken).symm.trans stopped)
    obtain rfl := run_unique _ none _ _ (other.1.symm.trans leads.1) other.2 leads.2
    exact numbering.overrun s session unlisted new.id (Nat.not_lt.mp many) distinct

/-- Ids stay apart, and those of listed sessions marked, exactly as long as no session is added
to MAX_NODE others.

Proof: with room, the ids of the listed sessions are distinct and their bits are set. The
first session that is added beyond the ids takes one that is in use. -/
theorem ids_harmless_iff (calls : List ListCall)
    (made : ∀ s, .addSession s ∈ calls → ∃ session, start.sessions s = some session ∧
      session.Fresh)
    (proper : Proper calls) : IdsHarmless start v calls ↔ Roomy calls :=
  ⟨harmless_roomy start v id uuid home calls made proper,
    roomy_harmless start v id uuid home calls made proper⟩

end Calls

/-! ## A network of unlimited sessions -/

/-- A switch with one new network and as many new sessions as there are numbers. -/
def crowd : Switch :=
  { Switch.initial with
    sessions := fun _ => some (sessionNew [] { peerHost := [], securityLevel := .secureRsa })
    vnets := fun v => if v = 0 then some (vnetworkNew [] []) else none }

theorem crowd_made (calls : List ListCall) (s : SessionId) (_ : .addSession s ∈ calls) :
    ∃ session, crowd.sessions s = some session ∧ session.Fresh :=
  ⟨_, rfl, rfl, rfl, rfl⟩

def sampleListCalls : List ListCall :=
  [.addSession 7, .addSession 3, .addSession 5, .delSession 3, .addSession 4, .delSession 7]

theorem sampleListCalls_proper : Proper sampleListCalls := by
  simp [Proper, sampleListCalls, guarded_cons, guarded_nil, rollStep, Roll.initial]

theorem sampleListCalls_roomy : Roomy sampleListCalls := by
  simp [Roomy, sampleListCalls, guarded_cons, guarded_nil, rollStep, Roll.initial, maxNode]

theorem session_list_ids_sample :
    (∃ after vnet, run (listStep 0) crowd sampleListCalls = some after ∧
      Numbering after 0 vnet [4, 5]) ∧
    ∀ past s, past ++ [.addSession s] <+: sampleListCalls → ∃ before after number,
      run (listStep 0) crowd past = some before ∧
      vnetworkAddSession before 0 s = some after ∧ after.number s = some number ∧
      SmallestFree before (rollOf past).listed number :=
  session_list_ids crowd 0 [] [] rfl sampleListCalls (crowd_made sampleListCalls)
    sampleListCalls_proper sampleListCalls_roomy

theorem ids_harmless_sample : IdsHarmless crowd 0 sampleListCalls :=
  (ids_harmless_iff crowd 0 [] [] rfl sampleListCalls (crowd_made sampleListCalls)
    sampleListCalls_proper).mpr sampleListCalls_roomy

/-- Sessions that are added one after the other. -/
theorem adds_roll (sessions : List SessionId) (roll : Roll) :
    (sessions.map ListCall.addSession).foldl rollStep roll =
      { added := sessions.reverse ++ roll.added, listed := sessions.reverse ++ roll.listed } := by
  induction sessions generalizing roll with
  | nil => rfl
  | cons s rest inductionHypothesis => simp [inductionHypothesis, rollStep]

theorem adds_proper (sessions : List SessionId) (distinct : sessions.Nodup) :
    Proper (sessions.map ListCall.addSession) := by
  induction sessions using List.reverseRecOn with
  | nil => exact guarded_nil _ _ _
  | append_singleton rest s inductionHypothesis =>
    rw [← List.concat_eq_append, List.nodup_concat] at distinct
    rw [List.map_append, List.map_singleton]
    refine (guarded_snoc _ _ _ _ _).mpr ⟨inductionHypothesis distinct.2, ?_⟩
    simp only [adds_roll, Roll.initial, List.append_nil, List.mem_reverse]
    exact distinct.1

/-- Of MAX_NODE + 1 sessions at once two have the same id. -/
theorem crowd_shares_id :
    ¬ IdsHarmless crowd 0 ((List.range (maxNode + 1)).map ListCall.addSession) := by
  intro harmless
  have roomy := harmless_roomy crowd 0 [] [] rfl _ (crowd_made _) (adds_proper _ List.nodup_range)
    harmless
  rw [List.range_succ, List.map_append, List.map_singleton] at roomy
  have room := ((guarded_snoc _ _ _ _ _).mp roomy).2 maxNode rfl
  rw [adds_roll] at room
  simp [Roll.initial] at room

end NetVirt.Nvswitch
