import NetVirt.Agent
import Mathlib.Data.List.Dedup

/-!
# The peers of the agent

The functions of p2p.c with the memory that they work on. A request makes a session and a
connection that points to it; the connection's callbacks fill in the session, put it into the
table when it is secure, and free it. The table keeps the first session of an address and
refuses the others, so that a session that ends is freed by the table if the table has it, and
by the callback if not.

What was freed is not there any more, and a function that reads or frees it has no result.
Sessions and connections are numbered in the order in which they are made; allocation is assumed
to succeed.
-/

namespace NetVirt.PeerSessions

open Runs Tables
open Nvagent (SessionState)

abbrev SessionId := Nat
abbrev NetcId := Nat

/-- The six bytes of an ethernet address. -/
abbrev Mac := Vector UInt8 6

/-- The fields of `struct session` that p2p.c uses. -/
structure Session where
  macDst : Mac
  state : SessionState
  netc : Option NetcId
deriving DecidableEq

/-- The fields of a connection that p2p.c uses. The callback is p2p_on_disconnect or NULL. -/
structure Netc where
  onDisconnect : Bool
  extPtr : SessionId
deriving DecidableEq

structure Peers where
  sessions : SessionId → Option Session
  netcs : NetcId → Option Netc
  ftable : Table Mac SessionId
  made : Nat
  freed : List SessionId

/-- `p2p_init` -/
def p2pInit : Peers :=
  { sessions := fun _ => none, netcs := fun _ => none, ftable := .empty, made := 0, freed := [] }

/-! ## session.c -/

/-- `free` of a session. -/
def Peers.free (peers : Peers) (s : SessionId) : Option Peers :=
  (peers.sessions s).map fun _ =>
    { peers with sessions := Function.update peers.sessions s none, freed := peers.freed ++ [s] }

/-- `session_itemrel` -/
def sessionItemrel (peers : Peers) (s : SessionId) : Option Peers := do
  let session ← peers.sessions s
  let n ← session.netc
  let netc ← peers.netcs n
  { peers with
    netcs := Function.update peers.netcs n (some { netc with onDisconnect := false }) }.free s

/-! ## p2p.c -/

/-- `op_p2p_request`, and the connection that net_p2p makes. -/
def opP2pRequest (peers : Peers) (macDst : Mac) : Peers :=
  { peers with
    sessions := Function.update peers.sessions peers.made
      (some { macDst := macDst, state := .zero, netc := none })
    netcs := Function.update peers.netcs peers.made
      (some { onDisconnect := true, extPtr := peers.made })
    made := peers.made + 1 }

/-- `p2p_on_connect` -/
def p2pOnConnect (peers : Peers) : Option NetcId → Option Peers
  | none => some peers
  | some n => do
    let netc ← peers.netcs n
    let session ← peers.sessions netc.extPtr
    return { peers with
      sessions := Function.update peers.sessions netc.extPtr
        (some { session with netc := some n }) }

/-- `p2p_on_secure`. The table refuses an address that it has. -/
def p2pOnSecure (peers : Peers) : Option NetcId → Option Peers
  | none => some peers
  | some n => do
    let netc ← peers.netcs n
    let session ← peers.sessions netc.extPtr
    let own ← session.netc
    let connection ← peers.netcs own
    return { peers with
      sessions := Function.update peers.sessions netc.extPtr
        (some { session with state := .authed })
      netcs := Function.update peers.netcs own (some { connection with extPtr := netc.extPtr })
      ftable := peers.ftable.insert session.macDst netc.extPtr }

/-- `p2p_on_disconnect`. Erasing an entry releases its session. -/
def p2pOnDisconnect (peers : Peers) (n : NetcId) : Option Peers := do
  let netc ← peers.netcs n
  let session ← peers.sessions netc.extPtr
  if peers.ftable.find session.macDst ≠ some netc.extPtr then peers.free netc.extPtr
  else sessionItemrel { peers with ftable := peers.ftable.erase session.macDst } netc.extPtr

/-- `p2p_find_session`, for the address at the front of the frame. -/
def p2pFindSession (peers : Peers) (macDst : Mac) : Option SessionId := peers.ftable.find macDst

/-- An entry that `ftable_delete` comes to. -/
def releaseEntry (peers : Peers) (key : Mac) : Option Peers := do
  let s ← peers.ftable.find key
  sessionItemrel peers s

/-- `p2p_fini`: the entries are released in the order in which the table is walked. -/
def p2pFini (peers : Peers) (order : List Mac) : Option Peers := do
  let peers ← order.foldlM releaseEntry peers
  return { peers with ftable := .empty }

/-! ## netbus.c -/

/-- `net_connection_free` -/
def netConnectionFree (peers : Peers) (n : NetcId) : Peers :=
  { peers with netcs := Function.update peers.netcs n none }

/-- `net_on_disconnect`, which leaves out a callback that is NULL. -/
def netOnDisconnect (peers : Peers) (n : NetcId) : Option Peers := do
  let netc ← peers.netcs n
  let peers ← if netc.onDisconnect then p2pOnDisconnect peers n else some peers
  return netConnectionFree peers n

/-- `net_on_input` of a connection that is given up: its handshake failed, or what it received
is no message. The callback must not be NULL. -/
def netOnInputFailed (peers : Peers) (n : NetcId) : Option Peers := do
  let netc ← peers.netcs n
  let peers ← if netc.onDisconnect then p2pOnDisconnect peers n else none
  return netConnectionFree peers n

inductive Event where
  | opP2pRequest (macDst : Mac)
  | p2pOnConnect (netc : Option NetcId)
  | p2pOnSecure (netc : Option NetcId)
  | netOnDisconnect (n : NetcId)
  | netOnInputFailed (n : NetcId)
deriving DecidableEq

def step (peers : Peers) : Event → Option Peers
  | .opP2pRequest macDst => some (opP2pRequest peers macDst)
  | .p2pOnConnect netc => p2pOnConnect peers netc
  | .p2pOnSecure netc => p2pOnSecure peers netc
  | .netOnDisconnect n => netOnDisconnect peers n
  | .netOnInputFailed n => netOnInputFailed peers n

/-! ## The connections' lives

A connection is made by a request, is established at most once, may be secured again and again
while it is, and ends once, established or not.
-/

inductive Stage where
  | unopened
  | opened
  | connected
  | closed
deriving DecidableEq

structure Lives where
  made : Nat
  stage : NetcId → Stage

def Lives.initial : Lives := { made := 0, stage := fun _ => .unopened }

def Lives.move (lives : Lives) (n : NetcId) (stage : Stage) : Lives :=
  { lives with stage := Function.update lives.stage n stage }

def advance (lives : Lives) : Event → Lives
  | .opP2pRequest _ => { lives.move lives.made .opened with made := lives.made + 1 }
  | .p2pOnConnect (some n) => lives.move n .connected
  | .p2pOnConnect none => lives
  | .p2pOnSecure _ => lives
  | .netOnDisconnect n => lives.move n .closed
  | .netOnInputFailed n => lives.move n .closed

def permitted (lives : Lives) : Event → Prop
  | .opP2pRequest _ => True
  | .p2pOnConnect (some n) => lives.stage n = .opened
  | .p2pOnConnect none => True
  | .p2pOnSecure (some n) => lives.stage n = .connected
  | .p2pOnSecure none => True
  | .netOnDisconnect n => lives.stage n = .opened ∨ lives.stage n = .connected
  | .netOnInputFailed n => lives.stage n = .opened ∨ lives.stage n = .connected

def livesOf (events : List Event) : Lives := events.foldl advance .initial

/-! ## The invariant -/

/-- What there is of a session and its connection at a stage of its life. -/
def Placed (peers : Peers) (s : SessionId) : Stage → Prop
  | .unopened => peers.sessions s = none ∧ peers.netcs s = none ∧ s ∉ peers.freed
  | .opened => (∃ session, peers.sessions s = some session ∧ session.netc = none) ∧
      peers.netcs s = some { onDisconnect := true, extPtr := s } ∧ s ∉ peers.freed
  | .connected => (∃ session, peers.sessions s = some session ∧ session.netc = some s) ∧
      peers.netcs s = some { onDisconnect := true, extPtr := s } ∧ s ∉ peers.freed
  | .closed => peers.sessions s = none ∧ peers.netcs s = none ∧ s ∈ peers.freed

/-- An entry of the table refers to an authenticated session of this address. -/
def Entered (peers : Peers) (key : Mac) (s : SessionId) : Prop :=
  ∃ session, peers.sessions s = some session ∧ session.state = .authed ∧ session.macDst = key

structure Kept (peers : Peers) (lives : Lives) : Prop where
  made : peers.made = lives.made
  unopened : ∀ s, lives.made ≤ s → lives.stage s = .unopened
  placed : ∀ s, Placed peers s (lives.stage s)
  entries : ∀ key s, peers.ftable.find key = some s →
    lives.stage s = .connected ∧ Entered peers key s
  once : peers.freed.Nodup

theorem kept_init : Kept p2pInit .initial where
  made := rfl
  unopened _ _ := rfl
  placed _ := ⟨rfl, rfl, List.not_mem_nil⟩
  entries key s found := by cases found
  once := List.nodup_nil

/-- A step that changes one session and its connection only. -/
structure Others (peers after : Peers) (s : SessionId) : Prop where
  sessions : ∀ t, t ≠ s → after.sessions t = peers.sessions t
  netcs : ∀ t, t ≠ s → after.netcs t = peers.netcs t
  freed : ∀ t, t ≠ s → (t ∈ after.freed ↔ t ∈ peers.freed)

theorem Others.placed {peers after : Peers} {s t : SessionId} (others : Others peers after s)
    (apart : t ≠ s) (stage : Stage) (placed : Placed peers t stage) : Placed after t stage := by
  have sessions := others.sessions t apart
  have netcs := others.netcs t apart
  have freed := others.freed t apart
  cases stage with
  | unopened => exact ⟨sessions.trans placed.1, netcs.trans placed.2.1, mt freed.mp placed.2.2⟩
  | opened => exact ⟨sessions ▸ placed.1, netcs.trans placed.2.1, mt freed.mp placed.2.2⟩
  | connected => exact ⟨sessions ▸ placed.1, netcs.trans placed.2.1, mt freed.mp placed.2.2⟩
  | closed => exact ⟨sessions.trans placed.1, netcs.trans placed.2.1, freed.mpr placed.2.2⟩

/-- The invariant after a step that moves one session on, if its entries are right. -/
theorem Kept.move {peers after : Peers} {lives : Lives} {s : SessionId} {stage : Stage}
    (kept : Kept peers lives) (made : after.made = peers.made) (before : s < lives.made)
    (others : Others peers after s) (placed : Placed after s stage)
    (entries : ∀ key t, after.ftable.find key = some t →
      t = s ∧ stage = .connected ∧ Entered after key s ∨
      t ≠ s ∧ peers.ftable.find key = some t)
    (once : after.freed.Nodup) : Kept after (lives.move s stage) where
  made := made.trans kept.made
  unopened t late := by
    have apart : t ≠ s := fun same => Nat.not_lt.mpr late (same ▸ before)
    simp only [Lives.move, Function.update_of_ne apart]
    exact kept.unopened t late
  placed t := by
    by_cases own : t = s
    · simpa [own, Lives.move] using placed
    · simp only [Lives.move, Function.update_of_ne own]
      exact others.placed own _ (kept.placed t)
  entries key t found := by
    rcases entries key t found with ⟨rfl, connected, entered⟩ | ⟨own, there⟩
    · exact ⟨by simp [Lives.move, connected], entered⟩
    · obtain ⟨connected, session, present, authed, mac⟩ := kept.entries key t there
      refine ⟨by simp [Lives.move, own, connected], session, ?_, authed, mac⟩
      rw [others.sessions t own, present]
  once := once

section Kept
variable {peers : Peers} {lives : Lives} (kept : Kept peers lives)
include kept

/-- A connection that was opened is one of those made. -/
theorem Kept.before (s : SessionId) (opened : lives.stage s ≠ .unopened) : s < lives.made := by
  by_contra late
  exact opened (kept.unopened s (Nat.not_lt.mp late))

theorem opP2pRequest_kept (macDst : Mac) :
    Kept (opP2pRequest peers macDst) (advance lives (.opP2pRequest macDst)) := by
  have fresh := kept.unopened lives.made (Nat.le_refl _)
  obtain ⟨_, _, unfreed⟩ : Placed peers lives.made .unopened := fresh ▸ kept.placed lives.made
  have others : Others peers (opP2pRequest peers macDst) lives.made := by
    constructor
    · exact fun t apart => Function.update_of_ne (kept.made ▸ apart) _ _
    · exact fun t apart => Function.update_of_ne (kept.made ▸ apart) _ _
    · exact fun _ _ => Iff.rfl
  constructor
  case made => exact congrArg (· + 1) kept.made
  case unopened =>
    intro s late
    have apart : s ≠ lives.made := Nat.ne_of_gt late
    simp only [advance, Lives.move, Function.update_of_ne apart]
    exact kept.unopened s (Nat.le_of_succ_le late)
  case placed =>
    intro s
    by_cases own : s = lives.made
    · subst own
      simp only [advance, Lives.move, Function.update_self]
      refine ⟨⟨{ macDst := macDst, state := .zero, netc := none }, ?_, rfl⟩, ?_, unfreed⟩
      · rw [← kept.made]
        exact Function.update_self _ _ _
      · rw [← kept.made]
        exact Function.update_self _ _ _
    · simp only [advance, Lives.move, Function.update_of_ne own]
      exact others.placed own _ (kept.placed s)
  case entries =>
    intro key s found
    obtain ⟨connected, session, present, authed, mac⟩ := kept.entries key s found
    have apart : s ≠ lives.made := by
      rintro rfl
      rw [fresh] at connected
      cases connected
    refine ⟨by simp [advance, Lives.move, apart, connected], session, ?_, authed, mac⟩
    rw [others.sessions s apart, present]
  case once => exact kept.once

theorem p2pOnConnect_kept (n : NetcId) (opened : lives.stage n = .opened) :
    ∃ after, p2pOnConnect peers (some n) = some after ∧ Kept after (lives.move n .connected) := by
  obtain ⟨⟨session, present, _⟩, netc, unfreed⟩ : Placed peers n .opened :=
    opened ▸ kept.placed n
  refine ⟨{ peers with
    sessions := Function.update peers.sessions n (some { session with netc := some n }) }, ?_, ?_⟩
  · simp [p2pOnConnect, netc, present]
  · apply kept.move
    case made => rfl
    case before => exact kept.before n (by simp [opened])
    case others =>
      exact ⟨fun t apart => Function.update_of_ne apart _ _, fun _ _ => rfl, fun _ _ => Iff.rfl⟩
    case placed =>
      exact ⟨⟨{ session with netc := some n }, by simp, rfl⟩, netc, unfreed⟩
    case entries =>
      intro key t found
      refine Or.inr ⟨?_, found⟩
      rintro rfl
      have connected := (kept.entries key t found).1
      rw [opened] at connected
      cases connected
    case once => exact kept.once

theorem p2pOnSecure_kept (n : NetcId) (connected : lives.stage n = .connected) :
    ∃ after, p2pOnSecure peers (some n) = some after ∧ Kept after (lives.move n .connected) := by
  obtain ⟨⟨session, present, own⟩, netc, unfreed⟩ : Placed peers n .connected :=
    connected ▸ kept.placed n
  refine ⟨{ peers with
    sessions := Function.update peers.sessions n (some { session with state := .authed })
    ftable := peers.ftable.insert session.macDst n }, ?_, ?_⟩
  · have same : Function.update peers.netcs n
        (some { onDisconnect := true, extPtr := n }) = peers.netcs := by
      rw [← netc, Function.update_eq_self]
    simp [p2pOnSecure, netc, present, own, same]
  · apply kept.move
    case made => rfl
    case before => exact kept.before n (by simp [connected])
    case others =>
      exact ⟨fun t apart => Function.update_of_ne apart _ _, fun _ _ => rfl, fun _ _ => Iff.rfl⟩
    case placed =>
      exact ⟨⟨{ session with state := .authed }, by simp, own⟩, netc, unfreed⟩
    case entries =>
      intro key t found
      have entered : session.macDst = key → Entered { peers with
          sessions := Function.update peers.sessions n (some { session with state := .authed })
          ftable := peers.ftable.insert session.macDst n } key n :=
        fun mac => ⟨{ session with state := .authed }, by simp, rfl, mac⟩
      have before : peers.ftable.find key = some t → t = n ∧ session.macDst = key ∨
          t ≠ n ∧ peers.ftable.find key = some t := by
        intro there
        by_cases same : t = n
        · subst same
          obtain ⟨_, again, found, _, mac⟩ := kept.entries key t there
          obtain rfl := Option.some.inj (present.symm.trans found)
          exact Or.inl ⟨rfl, mac⟩
        · exact Or.inr ⟨same, there⟩
      have entry : t = n ∧ session.macDst = key ∨ t ≠ n ∧ peers.ftable.find key = some t := by
        rw [Table.find_insert] at found
        by_cases same : key = session.macDst
        · rw [if_pos same, Option.some.injEq, ← same] at found
          cases there : peers.ftable.find key with
          | none =>
            rw [there, Option.getD_none] at found
            exact Or.inl ⟨found.symm, same.symm⟩
          | some other =>
            rw [there, Option.getD_some] at found
            subst found
            exact there ▸ before there
        · rw [if_neg same] at found
          exact before found
      rcases entry with ⟨same, mac⟩ | other
      · exact Or.inl ⟨same, rfl, entered mac⟩
      · exact Or.inr other
    case once => exact kept.once

/-- A connection that has not ended, with its session. -/
theorem Kept.alive (n : NetcId)
    (alive : lives.stage n = .opened ∨ lives.stage n = .connected) :
    (∃ session, peers.sessions n = some session) ∧
      peers.netcs n = some { onDisconnect := true, extPtr := n } ∧ n ∉ peers.freed := by
  have placed := kept.placed n
  rcases alive with opened | connected
  · rw [opened] at placed
    obtain ⟨⟨session, present, _⟩, netc, unfreed⟩ := placed
    exact ⟨⟨session, present⟩, netc, unfreed⟩
  · rw [connected] at placed
    obtain ⟨⟨session, present, _⟩, netc, unfreed⟩ := placed
    exact ⟨⟨session, present⟩, netc, unfreed⟩

/-- The callback frees the session, itself or through the table. -/
theorem p2pOnDisconnect_cases (n : NetcId)
    (alive : lives.stage n = .opened ∨ lives.stage n = .connected) :
    ∃ after, p2pOnDisconnect peers n = some after ∧
      after.sessions = Function.update peers.sessions n none ∧
      (∀ t, t ≠ n → after.netcs t = peers.netcs t) ∧ after.made = peers.made ∧
      after.freed = peers.freed ++ [n] ∧
      (∀ session, peers.sessions n = some session → after.ftable =
        if peers.ftable.find session.macDst = some n then peers.ftable.erase session.macDst
        else peers.ftable) ∧
      ∀ key t, after.ftable.find key = some t → t ≠ n ∧ peers.ftable.find key = some t := by
  obtain ⟨⟨session, present⟩, netc, _⟩ := kept.alive n alive
  have address : ∀ key, peers.ftable.find key = some n → session.macDst = key := by
    intro key found
    obtain ⟨_, again, there, _, mac⟩ := kept.entries key n found
    obtain rfl := Option.some.inj (present.symm.trans there)
    exact mac
  by_cases held : peers.ftable.find session.macDst = some n
  · -- The entry is the session's own, so that it is connected.
    have connected := (kept.entries session.macDst n held).1
    obtain ⟨⟨_, there, own⟩, _⟩ : Placed peers n .connected := connected ▸ kept.placed n
    obtain rfl := Option.some.inj (present.symm.trans there)
    refine ⟨{ peers with
      sessions := Function.update peers.sessions n none
      netcs := Function.update peers.netcs n (some { onDisconnect := false, extPtr := n })
      ftable := peers.ftable.erase session.macDst
      freed := peers.freed ++ [n] }, ?_, rfl, ?_, rfl, rfl, ?_, ?_⟩
    · simp [p2pOnDisconnect, netc, present, held, sessionItemrel, own, Peers.free]
    · exact fun t apart => Function.update_of_ne apart _ _
    · intro again there
      obtain rfl := Option.some.inj (present.symm.trans there)
      exact (if_pos held).symm
    · intro key t found
      obtain ⟨other, before⟩ := Table.find_of_erase _ _ _ _ found
      refine ⟨?_, before⟩
      rintro rfl
      exact other (address key before).symm
  · refine ⟨{ peers with
      sessions := Function.update peers.sessions n none
      freed := peers.freed ++ [n] }, ?_, rfl, fun _ _ => rfl, rfl, rfl, ?_, ?_⟩
    · simp [p2pOnDisconnect, netc, present, held, Peers.free]
    · intro again there
      obtain rfl := Option.some.inj (present.symm.trans there)
      exact (if_neg held).symm
    · intro key t found
      refine ⟨?_, found⟩
      rintro rfl
      exact held (address key found ▸ found)

theorem p2pOnDisconnect_kept (n : NetcId)
    (alive : lives.stage n = .opened ∨ lives.stage n = .connected) :
    ∃ after, p2pOnDisconnect peers n = some after ∧
      Kept (netConnectionFree after n) (lives.move n .closed) := by
  obtain ⟨_, _, unfreed⟩ := kept.alive n alive
  obtain ⟨after, taken, sessions, netcs, made, freed, _, entries⟩ :=
    p2pOnDisconnect_cases kept n alive
  refine ⟨after, taken, ?_⟩
  apply kept.move
  case made => exact made
  case before =>
    apply kept.before n
    rcases alive with opened | connected
    · simp [opened]
    · simp [connected]
  case others =>
    constructor
    · intro t apart
      exact (congrFun sessions t).trans (Function.update_of_ne apart _ _)
    · intro t apart
      exact (Function.update_of_ne apart _ _).trans (netcs t apart)
    · intro t apart
      simp [netConnectionFree, freed, apart]
  case placed =>
    refine ⟨?_, ?_, ?_⟩
    · exact (congrFun sessions n).trans (Function.update_self _ _ _)
    · exact Function.update_self _ _ _
    · simp [netConnectionFree, freed]
  case entries => exact fun key t found => Or.inr (entries key t found)
  case once =>
    simp only [netConnectionFree, freed]
    rw [← List.concat_eq_append, List.nodup_concat]
    exact ⟨unfreed, kept.once⟩

/-- A permitted event has a result, and keeps the invariant. -/
theorem step_kept (event : Event) (allowed : permitted lives event) :
    ∃ after, step peers event = some after ∧ Kept after (advance lives event) := by
  cases event with
  | opP2pRequest macDst => exact ⟨_, rfl, opP2pRequest_kept kept macDst⟩
  | p2pOnConnect netc =>
    cases netc with
    | none => exact ⟨peers, rfl, kept⟩
    | some n => exact p2pOnConnect_kept kept n allowed
  | p2pOnSecure netc =>
    cases netc with
    | none => exact ⟨peers, rfl, kept⟩
    | some n =>
      obtain ⟨after, taken, secured⟩ := p2pOnSecure_kept kept n allowed
      have same : lives.move n .connected = lives := by
        simp only [Lives.move]
        rw [← (allowed : lives.stage n = .connected), Function.update_eq_self]
      exact ⟨after, taken, same ▸ secured⟩
  | netOnDisconnect n =>
    obtain ⟨after, taken, closed⟩ := p2pOnDisconnect_kept kept n allowed
    obtain ⟨_, armed, _⟩ := kept.alive n allowed
    exact ⟨_, by simp [step, netOnDisconnect, armed, taken], closed⟩
  | netOnInputFailed n =>
    obtain ⟨after, taken, closed⟩ := p2pOnDisconnect_kept kept n allowed
    obtain ⟨_, armed, _⟩ := kept.alive n allowed
    exact ⟨_, by simp [step, netOnInputFailed, armed, taken], closed⟩

end Kept

/-! ## Runs -/

/-- The connection of the session ended. -/
def Disconnected (events : List Event) (s : SessionId) : Prop :=
  .netOnDisconnect s ∈ events ∨ .netOnInputFailed s ∈ events

theorem disconnected_snoc (past : List Event) (event : Event) (s : SessionId) :
    Disconnected (past ++ [event]) s ↔
      Disconnected past s ∨ event = .netOnDisconnect s ∨ event = .netOnInputFailed s := by
  simp only [Disconnected, List.mem_append, List.mem_singleton]
  constructor
  · rintro ((before | now) | (before | now))
    · exact Or.inl (Or.inl before)
    · exact Or.inr (Or.inl now.symm)
    · exact Or.inl (Or.inr before)
    · exact Or.inr (Or.inr now.symm)
  · rintro ((before | before) | (now | now))
    · exact Or.inl (Or.inl before)
    · exact Or.inr (Or.inl before)
    · exact Or.inl (Or.inr now.symm)
    · exact Or.inr (Or.inr now.symm)

/-- A permitted event closes the connection that it ends, and no other. -/
theorem advance_closed (lives : Lives) (event : Event) (s : SessionId)
    (fresh : lives.stage lives.made = .unopened) (allowed : permitted lives event) :
    (advance lives event).stage s = .closed ↔
      lives.stage s = .closed ∨ event = .netOnDisconnect s ∨ event = .netOnInputFailed s := by
  have moved : ∀ n stage, (lives.move n stage).stage s =
      if s = n then stage else lives.stage s := by
    intro n stage
    exact Function.update_apply _ _ _ _
  cases event with
  | opP2pRequest macDst =>
    simp only [advance, moved]
    by_cases own : s = lives.made
    · simp [own, fresh]
    · simp [own]
  | p2pOnConnect netc =>
    cases netc with
    | none => simp [advance]
    | some n =>
      have opened : lives.stage n = .opened := allowed
      simp only [advance, moved]
      by_cases own : s = n
      · simp [own, opened]
      · simp [own]
  | p2pOnSecure netc => simp [advance]
  | netOnDisconnect n =>
    simp only [advance, moved]
    by_cases own : s = n
    · simp [own]
    · simp [own, Ne.symm own]
  | netOnInputFailed n =>
    simp only [advance, moved]
    by_cases own : s = n
    · simp [own]
    · simp [own, Ne.symm own]

/-- Every run of permitted events has a result and keeps the invariant. -/
theorem events_kept (events : List Event)
    (lifelike : Guarded advance .initial permitted events) :
    ∃ peers, run step p2pInit events = some peers ∧ Kept peers (livesOf events) ∧
      ∀ s, (livesOf events).stage s = .closed ↔ Disconnected events s := by
  induction events using List.reverseRecOn with
  | nil => exact ⟨p2pInit, rfl, kept_init, by simp [livesOf, Lives.initial, Disconnected]⟩
  | append_singleton past event inductionHypothesis =>
    obtain ⟨lifelike, allowed⟩ := (guarded_snoc _ _ _ past event).mp lifelike
    obtain ⟨before, reached, kept, closed⟩ := inductionHypothesis lifelike
    obtain ⟨after, taken, kept'⟩ := step_kept kept event allowed
    have lives : livesOf (past ++ [event]) = advance (livesOf past) event := by simp [livesOf]
    rw [lives]
    refine ⟨after, run_extend _ _ _ _ _ _ reached taken, kept', fun s => ?_⟩
    rw [advance_closed _ _ _ (kept.unopened _ (Nat.le_refl _)) allowed, disconnected_snoc, closed]

/-! ## The agent's view

The agent's functions on its peers take a session for what it says: its address, its state and
whether the table refers to it. They do with it what the functions above do with the memory.
-/

/-- The agent has the sessions and the table of p2p.c. -/
structure Seen (peers : Peers) (agent : Nvagent.Agent) : Prop where
  made : agent.peersMade = peers.made
  sessions : ∀ s, (agent.peers s).map (fun peer => (peer.macDst, peer.state)) =
    (peers.sessions s).map fun session => (session.macDst.toList, session.state)
  ftable : ∀ key : Mac, agent.ftable.find key.toList = peers.ftable.find key

/-- What the agent is told of an event. It is not told that a connection is made. -/
def agentEvents (host : Nvagent.Host) : Event → List Nvagent.Event
  | .opP2pRequest macDst => [.input (.p2pRequest macDst.toList) host]
  | .p2pOnConnect _ => []
  | .p2pOnSecure none => []
  | .p2pOnSecure (some n) => [.p2pSecure n]
  | .netOnDisconnect n => [.p2pDisconnected n]
  | .netOnInputFailed n => [.p2pDisconnected n]

section Seen
variable {peers : Peers} {agent : Nvagent.Agent} (seen : Seen peers agent)
include seen

theorem Seen.peer (s : SessionId) (session : Session)
    (present : peers.sessions s = some session) :
    ∃ peer, agent.peers s = some peer ∧ peer.macDst = session.macDst.toList ∧
      peer.state = session.state := by
  have same := seen.sessions s
  rw [present] at same
  obtain ⟨peer, there, fields⟩ := Option.map_eq_some_iff.mp same
  exact ⟨peer, there, congrArg Prod.fst fields, congrArg Prod.snd fields⟩

/-- A frame is given to the session of its first six bytes. -/
theorem p2pFindSession_seen (macDst : Mac) (rest : List UInt8) :
    Nvagent.p2pFindSession agent (macDst.toList ++ rest) = p2pFindSession peers macDst := by
  have front : (macDst.toList ++ rest).take 6 = macDst.toList := List.take_left' (by simp)
  rw [Nvagent.p2pFindSession, front]
  exact seen.ftable macDst

theorem opP2pRequest_seen (macDst : Mac) :
    Seen (opP2pRequest peers macDst) (Nvagent.opP2pRequest agent macDst.toList) where
  made := congrArg (· + 1) seen.made
  sessions s := by
    simp only [opP2pRequest, Nvagent.opP2pRequest, seen.made]
    by_cases own : s = peers.made
    · simp [own]
    · simpa [own] using seen.sessions s
  ftable := seen.ftable

/-- A connection that is made changes neither an address nor a state. -/
theorem p2pOnConnect_seen (after : Peers) (netc : Option NetcId)
    (taken : p2pOnConnect peers netc = some after) : Seen after agent := by
  cases netc with
  | none =>
    obtain rfl := Option.some.inj taken
    exact seen
  | some n =>
    simp only [p2pOnConnect, Option.bind_eq_bind, Option.bind_eq_some_iff] at taken
    obtain ⟨netc, _, session, present, made⟩ := taken
    obtain rfl := Option.some.inj made
    refine ⟨seen.made, fun s => ?_, seen.ftable⟩
    by_cases own : s = netc.extPtr
    · subst own
      simpa [present] using seen.sessions netc.extPtr
    · simpa [own] using seen.sessions s

variable {lives : Lives} (kept : Kept peers lives)
include kept

theorem p2pOnSecure_seen (n : NetcId) (connected : lives.stage n = .connected) :
    ∃ after peer, p2pOnSecure peers (some n) = some after ∧ agent.peers n = some peer ∧
      Seen after (Nvagent.p2pOnSecure agent n peer) := by
  obtain ⟨⟨session, present, own⟩, netc, _⟩ : Placed peers n .connected :=
    connected ▸ kept.placed n
  obtain ⟨peer, there, mac, _⟩ := seen.peer n session present
  refine ⟨{ peers with
    sessions := Function.update peers.sessions n (some { session with state := .authed })
    netcs := Function.update peers.netcs n (some { onDisconnect := true, extPtr := n })
    ftable := peers.ftable.insert session.macDst n }, peer, ?_, there, seen.made, ?_, ?_⟩
  · simp [p2pOnSecure, netc, present, own]
  · intro s
    by_cases same : s = n
    · simp [Nvagent.p2pOnSecure, same, mac]
    · simpa [Nvagent.p2pOnSecure, same] using seen.sessions s
  · intro key
    simp only [Nvagent.p2pOnSecure, Table.find_insert, mac, Vector.toList_inj, seen.ftable]

theorem p2pOnDisconnect_seen (n : NetcId)
    (alive : lives.stage n = .opened ∨ lives.stage n = .connected) :
    ∃ after peer, p2pOnDisconnect peers n = some after ∧ agent.peers n = some peer ∧
      Seen (netConnectionFree after n) (Nvagent.p2pOnDisconnect agent n peer) := by
  obtain ⟨⟨session, present⟩, _⟩ := kept.alive n alive
  obtain ⟨after, taken, sessions, _, made, _, ftable, _⟩ := p2pOnDisconnect_cases kept n alive
  obtain ⟨peer, there, mac, _⟩ := seen.peer n session present
  refine ⟨after, peer, taken, there, seen.made.trans made.symm, ?_, ?_⟩
  · intro s
    simp only [Nvagent.p2pOnDisconnect, netConnectionFree, sessions]
    by_cases same : s = n
    · simp [same]
    · simpa [same] using seen.sessions s
  · intro key
    simp only [Nvagent.p2pOnDisconnect, netConnectionFree, ftable session present, mac,
      seen.ftable]
    by_cases held : peers.ftable.find session.macDst = some n
    · simp only [held, if_true, Table.find_erase, Vector.toList_inj, seen.ftable]
    · simp only [held, if_false, seen.ftable]

/-- A permitted event is a step of the agent too, or none. -/
theorem step_seen (cfg : Nvagent.AgentCfg) (host : Nvagent.Host) (event : Event)
    (allowed : permitted lives event) (connected : agent.session.connected = true) :
    ∃ after next, step peers event = some after ∧
      run (Nvagent.step cfg) agent (agentEvents host event) = some next ∧ Seen after next ∧
      next.session = agent.session := by
  obtain ⟨after, taken, _⟩ := step_kept kept event allowed
  cases event with
  | opP2pRequest macDst =>
    refine ⟨_, _, rfl, ?_, opP2pRequest_seen seen macDst, rfl⟩
    simp [agentEvents, run, Nvagent.step, connected, Nvagent.onInput]
  | p2pOnConnect netc =>
    exact ⟨after, agent, taken, rfl, p2pOnConnect_seen seen after netc taken, rfl⟩
  | p2pOnSecure netc =>
    cases netc with
    | none => exact ⟨peers, agent, rfl, rfl, seen, rfl⟩
    | some n =>
      obtain ⟨after, peer, taken, there, secured⟩ := p2pOnSecure_seen seen kept n allowed
      exact ⟨after, _, taken, by simp [agentEvents, run, Nvagent.step, there], secured, rfl⟩
  | netOnDisconnect n =>
    obtain ⟨after, peer, taken, there, ended⟩ := p2pOnDisconnect_seen seen kept n allowed
    obtain ⟨_, armed, _⟩ := kept.alive n allowed
    exact ⟨_, _, by simp [step, netOnDisconnect, armed, taken],
      by simp [agentEvents, run, Nvagent.step, there], ended, rfl⟩
  | netOnInputFailed n =>
    obtain ⟨after, peer, taken, there, ended⟩ := p2pOnDisconnect_seen seen kept n allowed
    obtain ⟨_, armed, _⟩ := kept.alive n allowed
    exact ⟨_, _, by simp [step, netOnInputFailed, armed, taken],
      by simp [agentEvents, run, Nvagent.step, there], ended, rfl⟩

end Seen

/-- Every run of permitted events is a run of an agent that is connected to its switch, and
the agent has the sessions and the table that the run leaves.

Proof: by induction on the events. The invariant of the memory gives each event its session and
connection, so that the event and what the agent is told of it both have a result. -/
theorem events_seen (cfg : Nvagent.AgentCfg) (host : Nvagent.Host) (agent : Nvagent.Agent)
    (seen : Seen p2pInit agent) (connected : agent.session.connected = true)
    (events : List Event) (lifelike : Guarded advance .initial permitted events) :
    ∃ peers final, run step p2pInit events = some peers ∧
      run (Nvagent.step cfg) agent (events.flatMap (agentEvents host)) = some final ∧
      Seen peers final ∧ final.session = agent.session := by
  induction events using List.reverseRecOn with
  | nil => exact ⟨p2pInit, agent, rfl, rfl, seen, rfl⟩
  | append_singleton past event inductionHypothesis =>
    obtain ⟨lifelike, allowed⟩ := (guarded_snoc _ _ _ past event).mp lifelike
    obtain ⟨before, middle, reached, told, seen, same⟩ := inductionHypothesis lifelike
    obtain ⟨_, reached', kept, _⟩ := events_kept past lifelike
    obtain rfl := Option.some.inj (reached.symm.trans reached')
    obtain ⟨after, next, taken, told', seen', same'⟩ :=
      step_seen seen kept cfg host event allowed (by rw [same, connected])
    refine ⟨after, next, run_extend _ _ _ _ _ _ reached taken, ?_, seen', same'.trans same⟩
    rw [List.flatMap_append, run_append, told]
    simpa using told'

/-- An agent that was started and has reached its switch has no peers. -/
theorem connected_seen (cfg : Nvagent.AgentCfg) (loaded : Option Nvagent.Passport)
    (agent : Nvagent.Agent) (started : Nvagent.agentInit cfg loaded = some agent) :
    Seen p2pInit (Nvagent.tryToReconnect agent) ∧
      (Nvagent.tryToReconnect agent).session.connected = true := by
  obtain ⟨_, made⟩ := Option.ite_none_left_eq_some.mp started
  obtain rfl := Option.some.inj made
  exact ⟨⟨rfl, fun _ => rfl, fun _ => rfl⟩, rfl⟩

/-- A frame for a peer is given to a session that is authenticated under its address and whose
connection has not ended. -/
theorem frames_find_peers (cfg : Nvagent.AgentCfg) (host : Nvagent.Host)
    (loaded : Option Nvagent.Passport) (agent : Nvagent.Agent)
    (started : Nvagent.agentInit cfg loaded = some agent) (events : List Event)
    (lifelike : Guarded advance .initial permitted events) :
    ∃ final, run (Nvagent.step cfg) (Nvagent.tryToReconnect agent)
        (events.flatMap (agentEvents host)) = some final ∧
      ∀ (macDst : Mac) (rest : List UInt8) (s : SessionId),
        Nvagent.p2pFindSession final (macDst.toList ++ rest) = some s →
        ¬ Disconnected events s ∧ ∃ peer, final.peers s = some peer ∧
          peer.macDst = macDst.toList ∧ peer.state = .authed := by
  obtain ⟨fresh, connected⟩ := connected_seen cfg loaded agent started
  obtain ⟨peers, final, reached, told, seen, _⟩ :=
    events_seen cfg host _ fresh connected events lifelike
  obtain ⟨_, reached', kept, closed⟩ := events_kept events lifelike
  obtain rfl := Option.some.inj (reached.symm.trans reached')
  refine ⟨final, told, fun macDst rest s found => ?_⟩
  rw [p2pFindSession_seen seen] at found
  obtain ⟨stage, session, present, authed, mac⟩ := kept.entries macDst s found
  obtain ⟨peer, there, macDst', state⟩ := seen.peer s session present
  refine ⟨?_, peer, there, mac ▸ macDst', state.trans authed⟩
  rw [← closed, stage]
  simp

/-! ## The end of the table -/

/-- The order in which a table is walked names each of its keys once. -/
structure Walk (table : Table Mac SessionId) (order : List Mac) : Prop where
  once : order.Nodup
  keys : ∀ key, key ∈ order ↔ (table.find key).isSome

theorem Kept.walk {peers : Peers} {lives : Lives} (kept : Kept peers lives) :
    ∃ order, Walk peers.ftable order := by
  refine ⟨(((List.range peers.made).filterMap fun s =>
    (peers.sessions s).map Session.macDst).dedup).filter fun key => (peers.ftable.find key).isSome,
    (List.nodup_dedup _).filter _, fun key => ?_⟩
  rw [List.mem_filter, List.mem_dedup, and_iff_right_iff_imp]
  intro there
  obtain ⟨s, found⟩ := Option.isSome_iff_exists.mp there
  obtain ⟨connected, session, present, _, mac⟩ := kept.entries key s found
  have before := kept.before s (by simp [connected])
  rw [← kept.made] at before
  exact List.mem_filterMap.mpr ⟨s, List.mem_range.mpr before, by simp [present, mac]⟩

/-- Each entry of the table can be released, and is released once. -/
theorem release_entries (peers : Peers) (order : List Mac) (once : order.Nodup)
    (entries : ∀ key ∈ order, ∃ s session netc, peers.ftable.find key = some s ∧
      peers.sessions s = some session ∧ session.macDst = key ∧ session.netc = some s ∧
      peers.netcs s = some netc) :
    ∃ after, order.foldlM releaseEntry peers = some after ∧
      after.freed = peers.freed ++ order.filterMap peers.ftable.find := by
  induction order generalizing peers with
  | nil => exact ⟨peers, rfl, by simp⟩
  | cons key rest inductionHypothesis =>
    obtain ⟨absent, distinct⟩ := List.nodup_cons.mp once
    obtain ⟨s, session, netc, found, present, mac, own, connection⟩ :=
      entries key List.mem_cons_self
    have released : sessionItemrel peers s = some { peers with
        sessions := Function.update peers.sessions s none
        netcs := Function.update peers.netcs s (some { netc with onDisconnect := false })
        freed := peers.freed ++ [s] } := by
      simp [sessionItemrel, present, own, connection, Peers.free]
    obtain ⟨after, taken, freed⟩ := inductionHypothesis { peers with
        sessions := Function.update peers.sessions s none
        netcs := Function.update peers.netcs s (some { netc with onDisconnect := false })
        freed := peers.freed ++ [s] } distinct (by
      intro other inside
      obtain ⟨t, session', netc', found', present', mac', own', connection'⟩ :=
        entries other (List.mem_cons_of_mem key inside)
      -- The entries of two keys are two sessions.
      have apart : t ≠ s := by
        rintro rfl
        obtain rfl := Option.some.inj (present.symm.trans present')
        exact absent (mac ▸ mac' ▸ inside)
      refine ⟨t, session', netc', found', ?_, mac', own', ?_⟩
      · simpa [apart] using present'
      · simpa [apart] using connection')
    refine ⟨after, ?_, ?_⟩
    · have first : releaseEntry peers key = _ :=
        (congrArg (·.bind (sessionItemrel peers)) found).trans released
      rw [List.foldlM_cons, first]
      exact taken
    · rw [freed, List.filterMap_cons, found, List.append_assoc]
      rfl

theorem p2pFini_kept {peers : Peers} {lives : Lives} (kept : Kept peers lives)
    (order : List Mac) (walk : Walk peers.ftable order) :
    ∃ after, p2pFini peers order = some after ∧ after.freed.Nodup ∧
      ∀ s, s ∈ after.freed ↔ s ∈ peers.freed ∨ ∃ key, peers.ftable.find key = some s := by
  have entry : ∀ key s, peers.ftable.find key = some s → s ∉ peers.freed ∧
      ∃ session, peers.sessions s = some session ∧ session.macDst = key ∧
        session.netc = some s ∧ peers.netcs s = some { onDisconnect := true, extPtr := s } := by
    intro key s found
    obtain ⟨connected, session, present, _, mac⟩ := kept.entries key s found
    obtain ⟨⟨_, there, own⟩, netc, unfreed⟩ : Placed peers s .connected :=
      connected ▸ kept.placed s
    obtain rfl := Option.some.inj (present.symm.trans there)
    exact ⟨unfreed, session, present, mac, own, netc⟩
  obtain ⟨after, released, freed⟩ := release_entries peers order walk.once (by
    intro key inside
    obtain ⟨s, found⟩ := Option.isSome_iff_exists.mp ((walk.keys key).mp inside)
    obtain ⟨_, session, present, mac, own, netc⟩ := entry key s found
    exact ⟨s, session, _, found, present, mac, own, netc⟩)
  have listed : ∀ s, s ∈ order.filterMap peers.ftable.find ↔
      ∃ key, peers.ftable.find key = some s := by
    intro s
    rw [List.mem_filterMap]
    constructor
    · rintro ⟨key, _, found⟩
      exact ⟨key, found⟩
    · rintro ⟨key, found⟩
      exact ⟨key, (walk.keys key).mpr (by simp [found]), found⟩
  refine ⟨{ after with ftable := .empty }, by rw [p2pFini, released]; rfl, ?_, fun s => ?_⟩
  · simp only [freed]
    rw [List.nodup_append]
    refine ⟨kept.once, ?_, ?_⟩
    · refine walk.once.filterMap fun key other s found found' => ?_
      obtain ⟨_, session, present, mac, _⟩ := entry key s found
      obtain ⟨_, again, present', mac', _⟩ := entry other s found'
      obtain rfl := Option.some.inj (present.symm.trans present')
      exact mac.symm.trans mac'
    · rintro s before t inside rfl
      obtain ⟨key, found⟩ := (listed s).mp inside
      exact (entry key s found).1 before
  · simp only [freed, List.mem_append, listed]

/-- Whatever the order of the events, the table refers to authenticated sessions under their
addresses, every session is freed at most once, and it is freed if its connection ended or it is
in the table when the table is deleted.

Proof: every event that can happen keeps the entries of the table sessions in use under their
addresses, and frees a session in the event that ends it. Deleting the table frees its
entries, which are different sessions. -/
theorem p2p_sessions_kept (events : List Event)
    (lifelike : Guarded advance .initial permitted events) :
    ∃ peers, run step p2pInit events = some peers ∧
      (∀ key s, peers.ftable.find key = some s → s ∉ peers.freed ∧ Entered peers key s) ∧
      peers.freed.Nodup ∧ (∀ s, s ∈ peers.freed ↔ Disconnected events s) ∧
      (∀ macDst s, p2pFindSession peers macDst = some s → ¬ Disconnected events s) ∧
      (∃ order, Walk peers.ftable order) ∧
      ∀ order, Walk peers.ftable order → ∃ after, p2pFini peers order = some after ∧
        after.freed.Nodup ∧ ∀ s, s ∈ after.freed ↔
          Disconnected events s ∨ ∃ key, peers.ftable.find key = some s := by
  obtain ⟨peers, reached, kept, closed⟩ := events_kept events lifelike
  have freed : ∀ s, s ∈ peers.freed ↔ Disconnected events s := by
    intro s
    rw [← closed]
    have placed := kept.placed s
    cases stage : (livesOf events).stage s with
    | unopened => simpa using (stage ▸ placed).2.2
    | opened => simpa using (stage ▸ placed).2.2
    | connected => simpa using (stage ▸ placed).2.2
    | closed => simpa using (stage ▸ placed).2.2
  have entries : ∀ key s, peers.ftable.find key = some s →
      s ∉ peers.freed ∧ Entered peers key s := by
    intro key s found
    obtain ⟨connected, entered⟩ := kept.entries key s found
    refine ⟨?_, entered⟩
    rw [freed, ← closed, connected]
    simp
  refine ⟨peers, reached, entries, kept.once, freed, ?_, kept.walk, ?_⟩
  · intro macDst s found
    rw [← freed]
    exact (entries macDst s found).1
  · intro order walk
    obtain ⟨after, taken, once, all⟩ := p2pFini_kept kept order walk
    refine ⟨after, taken, once, fun s => ?_⟩
    rw [all, freed]

def someMac : Mac := #v[2, 0, 0, 0, 0, 1]

/-- Two sessions of one address: the second one is refused until the first one has ended. -/
def sampleEvents : List Event :=
  [.opP2pRequest someMac, .opP2pRequest someMac, .p2pOnConnect (some 1), .p2pOnConnect (some 0),
    .p2pOnSecure (some 0), .p2pOnSecure (some 1), .netOnInputFailed 0, .p2pOnSecure (some 1)]

theorem p2p_sessions_sample :
    ∃ peers, run step p2pInit sampleEvents = some peers ∧
      p2pFindSession peers someMac = some 1 ∧
      (∀ key s, peers.ftable.find key = some s → s ∉ peers.freed ∧ Entered peers key s) ∧
      peers.freed.Nodup ∧ (∀ s, s ∈ peers.freed ↔ Disconnected sampleEvents s) ∧
      (∀ macDst s, p2pFindSession peers macDst = some s → ¬ Disconnected sampleEvents s) ∧
      (∃ order, Walk peers.ftable order) ∧
      ∀ order, Walk peers.ftable order → ∃ after, p2pFini peers order = some after ∧
        after.freed.Nodup ∧ ∀ s, s ∈ after.freed ↔
          Disconnected sampleEvents s ∨ ∃ key, peers.ftable.find key = some s := by
  have lifelike : Guarded advance .initial permitted sampleEvents := by
    simp [sampleEvents, guarded_cons, guarded_nil, permitted, advance, Lives.move, Lives.initial]
  have second : (run step p2pInit sampleEvents).bind (p2pFindSession · someMac) = some 1 := by
    decide
  obtain ⟨peers, reached, kept⟩ := p2p_sessions_kept sampleEvents lifelike
  rw [reached] at second
  exact ⟨peers, reached, second, kept⟩

end NetVirt.PeerSessions
