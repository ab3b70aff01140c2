import NetVirt.Cert
import NetVirt.CtrlerChannel
import NetVirt.Runs
import Mathlib.Logic.Function.Basic

/-!
# The controller's pointer to its switch

`switch_sinfo` is one global: a switch session that connects overwrites it, and any switch
session that ends clears it. Sessions overlap when the switch connects again before the end
of its old connection is noticed.
-/

namespace NetVirt.Nvctrler.SwitchLink

open Cert Runs

abbrev SessionId := Nat

/-- `struct session_info`. Sessions are numbered as they are accepted; a session that was
freed is no longer there. -/
structure SessionInfo where
  certName : List UInt8
  type : Option PeerType
deriving DecidableEq

/-- The sessions of the controller, and how often the states of the nodes were reset. -/
structure Ctrler where
  sessions : SessionId → Option SessionInfo
  accepted : List SessionId
  switchSinfo : Option SessionId
  resets : Nat

def Ctrler.initial : Ctrler :=
  { sessions := fun _ => none, accepted := [], switchSinfo := none, resets := 0 }

/-- `sinfo_new` -/
def sinfoNew : SessionInfo := { certName := [], type := none }

/-- `sinfo_free` -/
def sinfoFree (ctrler : Ctrler) (s : SessionId) : Ctrler :=
  { ctrler with sessions := Function.update ctrler.sessions s none }

/-- The text that `X509_NAME_get_text_by_NID` stores in the 256 characters of `cert_name`. -/
def certNameOf (cert : X509) : List UInt8 :=
  (cert.commonName.map fun name => cstring (name.take 255)).getD []

/-- The comparison with "netvirt-switch". -/
def isSwitch (certName : List UInt8) : Bool :=
  certName.take 14 = ascii "netvirt-switch".toList

/-- `on_connect_cb` -/
def onConnectCb (ctrler : Ctrler) (s : SessionId) : Option X509 → Ctrler
  | none => ctrler
  | some cert =>
    let certName := certNameOf cert
    if isSwitch certName then
      { ctrler with
        sessions := Function.update ctrler.sessions s
          (some { certName := certName, type := some .nvswitch })
        switchSinfo := some s }
    else
      { ctrler with
        sessions := Function.update ctrler.sessions s
          (some { certName := certName, type := some .nvapi }) }

/-- `on_event_cb` for the end of a connection, which may also be an error or a timeout. -/
def onEndCb (ctrler : Ctrler) (s : SessionId) (sinfo : SessionInfo) : Ctrler :=
  if sinfo.type = some .nvswitch then
    sinfoFree { ctrler with
      switchSinfo := none
      resets := ctrler.resets + 1 } s
  else sinfoFree ctrler s

@[simp]
theorem onConnectCb_accepted (ctrler : Ctrler) (s : SessionId) (cert : Option X509) :
    (onConnectCb ctrler s cert).accepted = ctrler.accepted := by
  unfold onConnectCb
  split
  · rfl
  · simp only
    split <;> rfl

@[simp]
theorem onEndCb_accepted (ctrler : Ctrler) (s : SessionId) (sinfo : SessionInfo) :
    (onEndCb ctrler s sinfo).accepted = ctrler.accepted := by
  unfold onEndCb
  split <;> rfl

@[simp]
theorem onEndCb_sessions (ctrler : Ctrler) (s : SessionId) (sinfo : SessionInfo) :
    (onEndCb ctrler s sinfo).sessions = Function.update ctrler.sessions s none := by
  unfold onEndCb
  split <;> rfl

inductive Event where
  | accept (s : SessionId)
  /-- The handshake is done; there may be no certificate. -/
  | connected (s : SessionId) (cert : Option X509)
  /-- A line arrives. A session without a type is freed. -/
  | line (s : SessionId)
  | ended (s : SessionId)
deriving DecidableEq

/-- A connection is accepted once, its handshake is done at most once, and nothing happens on
a session that is not there. -/
def step (ctrler : Ctrler) : Event → Option Ctrler
  | .accept s =>
    if s ∈ ctrler.accepted then none
    else some { ctrler with
      sessions := Function.update ctrler.sessions s (some sinfoNew)
      accepted := s :: ctrler.accepted }
  | .connected s cert =>
    match ctrler.sessions s with
    | some { type := none, .. } => some (onConnectCb ctrler s cert)
    | _ => none
  | .line s =>
    match ctrler.sessions s with
    | none => none
    | some { type := none, .. } => some (sinfoFree ctrler s)
    | some _ => some ctrler
  | .ended s => (ctrler.sessions s).map (onEndCb ctrler s)

/-! ## The property -/

/-- The switch sessions that are connected, the latest first. -/
def track (connected : List SessionId) : Event → List SessionId
  | .connected s (some cert) =>
    if isSwitch (certNameOf cert) then s :: connected else connected
  | .ended s => connected.filter (· ≠ s)
  | _ => connected

def switches (events : List Event) : List SessionId := events.foldl track []

/-- After the step the pointer leads to the latest of the connected switch sessions, and the
nodes are not reset while there is one. -/
def KeepsSwitch (both : Ctrler × List SessionId) (event : Event) : Prop :=
  ∀ next, step both.1 event = some next →
    next.switchSinfo = (track both.2 event).head? ∧
      (next.resets ≠ both.1.resets → track both.2 event = [])

/-- A switch session that ends is the only one that is connected. -/
def EndsAlone (ctrler : Ctrler) : Event → Prop
  | .ended s => (ctrler.sessions s).bind SessionInfo.type = some .nvswitch →
      ∀ t ∈ ctrler.accepted, (ctrler.sessions t).bind SessionInfo.type = some .nvswitch → t = s
  | _ => True

/-- The pointer is right, and the record has the switch sessions that are connected. -/
structure Right (both : Ctrler × List SessionId) : Prop where
  latest : both.1.switchSinfo = both.2.head?
  connected : ∀ s, s ∈ both.2 ↔
    (both.1.sessions s).bind SessionInfo.type = some .nvswitch
  accepted : ∀ s sinfo, both.1.sessions s = some sinfo → s ∈ both.1.accepted

theorem initial_right : Right (Ctrler.initial, []) where
  latest := rfl
  connected s := by simp [Ctrler.initial]
  accepted s sinfo found := by cases found

/-- Without the session that ends, no switch session is left exactly when it ends alone. -/
theorem Right.left_none {both : Ctrler × List SessionId} (right : Right both) (s : SessionId) :
    both.2.filter (· ≠ s) = [] ↔ ∀ t ∈ both.1.accepted,
      (both.1.sessions t).bind SessionInfo.type = some .nvswitch → t = s := by
  simp only [List.filter_eq_nil_iff, decide_eq_true_eq, not_not, right.connected]
  constructor
  · exact fun alone t _ typed => alone t typed
  · intro alone t typed
    obtain ⟨sinfo, found, _⟩ := Option.bind_eq_some_iff.mp typed
    exact alone t (right.accepted t sinfo found) typed

/-- A session that is no switch's is not in the record. -/
theorem Right.filter_other {both : Ctrler × List SessionId} (right : Right both) (s : SessionId)
    (other : (both.1.sessions s).bind SessionInfo.type ≠ some .nvswitch) :
    both.2.filter (· ≠ s) = both.2 := by
  apply List.filter_eq_self.mpr
  intro t inside
  rw [decide_eq_true_eq]
  rintro rfl
  exact other ((right.connected t).mp inside)

/-- What a step does: a session is accepted, or is told apart by its certificate, or goes. -/
theorem step_cases (ctrler next : Ctrler) (event : Event) (taken : step ctrler event = some next) :
    (∃ s, event = .accept s ∧ s ∉ ctrler.accepted ∧ next = { ctrler with
      sessions := Function.update ctrler.sessions s (some sinfoNew)
      accepted := s :: ctrler.accepted }) ∨
    (∃ s cert sinfo, event = .connected s cert ∧ ctrler.sessions s = some sinfo ∧
      sinfo.type = none ∧ next = onConnectCb ctrler s cert) ∨
    (∃ s sinfo, event = .line s ∧ ctrler.sessions s = some sinfo ∧
      next = if sinfo.type = none then sinfoFree ctrler s else ctrler) ∨
    ∃ s sinfo, event = .ended s ∧ ctrler.sessions s = some sinfo ∧
      next = onEndCb ctrler s sinfo := by
  cases event with
  | accept s =>
    simp only [step] at taken
    split at taken
    · cases taken
    · next fresh => exact Or.inl ⟨s, rfl, fresh, (Option.some.inj taken).symm⟩
  | connected s cert =>
    simp only [step] at taken
    split at taken
    · next certName found =>
      exact Or.inr (Or.inl ⟨s, cert, _, rfl, found, rfl, (Option.some.inj taken).symm⟩)
    · cases taken
  | line s =>
    right; right; left
    simp only [step] at taken
    split at taken
    · cases taken
    · next certName found => exact ⟨s, _, rfl, found, by simpa using taken.symm⟩
    · next sinfo other found =>
      refine ⟨s, sinfo, rfl, found, ?_⟩
      have typed : sinfo.type ≠ none := fun untyped => other sinfo.certName (by rw [← untyped])
      rw [if_neg typed]
      exact (Option.some.inj taken).symm
  | ended s =>
    obtain ⟨sinfo, found, rfl⟩ := Option.map_eq_some_iff.mp taken
    exact Or.inr (Or.inr (Or.inr ⟨s, sinfo, rfl, found, rfl⟩))

section Steps
variable {both : Ctrler × List SessionId} (right : Right both)
include right

/-- A session without a type is in no record. -/
theorem Right.untyped (s : SessionId) (sinfo : SessionInfo)
    (found : both.1.sessions s = some sinfo) (type : sinfo.type = none) : s ∉ both.2 := by
  rw [right.connected, found, Option.bind_some, type]
  simp

/-- A session that is accepted, or gets another type, or goes without one. -/
theorem Right.update (s : SessionId) (sinfo : Option SessionInfo) (accepted : List SessionId)
    (outside : s ∉ both.2) (other : sinfo.bind SessionInfo.type ≠ some .nvswitch)
    (grown : ∀ t ∈ both.1.accepted, t ∈ accepted) (own : sinfo ≠ none → s ∈ accepted) :
    Right ({ both.1 with
      sessions := Function.update both.1.sessions s sinfo
      accepted := accepted }, both.2) where
  latest := right.latest
  connected t := by
    by_cases same : t = s
    · subst same
      simp [outside, other]
    · simpa [same] using right.connected t
  accepted t info found := by
    by_cases same : t = s
    · subst same
      apply own
      simp only [Function.update_self] at found
      simp [found]
    · refine grown t (right.accepted t info ?_)
      simpa [same] using found

theorem Right.keeps_iff (event : Event) : KeepsSwitch both event ↔ EndsAlone both.1 event := by
  cases event with
  | accept s =>
    refine iff_of_true (fun next taken => ?_) trivial
    simp only [step] at taken
    split at taken
    · cases taken
    · obtain rfl := Option.some.inj taken
      exact ⟨right.latest, fun changed => absurd rfl changed⟩
  | connected s cert =>
    refine iff_of_true (fun next taken => ?_) trivial
    rcases step_cases both.1 next _ taken with ⟨_, same, _⟩ | ⟨_, _, _, same, _, _, rfl⟩ |
      ⟨_, _, same, _⟩ | ⟨_, _, same, _⟩ <;> cases same
    cases cert with
    | none => exact ⟨right.latest, fun changed => absurd rfl changed⟩
    | some cert =>
      by_cases switch : isSwitch (certNameOf cert) = true
      · simp [onConnectCb, track, switch]
      · simp [onConnectCb, track, switch, right.latest]
  | line s =>
    refine iff_of_true (fun next taken => ?_) trivial
    rcases step_cases both.1 next _ taken with ⟨_, same, _⟩ | ⟨_, _, _, same, _⟩ |
      ⟨_, _, same, _, rfl⟩ | ⟨_, _, same, _⟩ <;> cases same
    split <;> exact ⟨right.latest, fun changed => absurd rfl changed⟩
  | ended s =>
    cases found : both.1.sessions s with
    | none => simp [KeepsSwitch, EndsAlone, step, found]
    | some sinfo =>
      by_cases typed : sinfo.type = some .nvswitch
      · have left := right.left_none s
        simp only [EndsAlone, found, Option.bind_some, typed, true_imp_iff, ← left]
        constructor
        · intro kept
          have after := (kept (onEndCb both.1 s sinfo) (by simp [step, found])).1
          rw [onEndCb, if_pos typed] at after
          exact List.head?_eq_none_iff.mp after.symm
        · intro none next taken
          simp only [step, found, Option.map_some, Option.some.injEq] at taken
          subst taken
          rw [track, none, onEndCb, if_pos typed]
          exact ⟨rfl, fun _ => rfl⟩
      · have other : (both.1.sessions s).bind SessionInfo.type ≠ some .nvswitch := by
          simpa [found] using typed
        refine iff_of_true (fun next taken => ?_) (fun typed => absurd typed other)
        simp only [step, found, Option.map_some, Option.some.injEq] at taken
        subst taken
        rw [track, right.filter_other s other, onEndCb, if_neg typed]
        exact ⟨right.latest, fun changed => absurd rfl changed⟩

theorem Right.step (event : Event) (next : Ctrler × List SessionId)
    (alone : EndsAlone both.1 event) (taken : beside step track both event = some next) :
    Right next := by
  obtain ⟨after, stepped, rfl⟩ := Option.map_eq_some_iff.mp taken
  have latest := ((right.keeps_iff event).mpr alone after stepped).1
  rcases step_cases both.1 after event stepped with
    ⟨s, rfl, fresh, rfl⟩ | ⟨s, cert, sinfo, rfl, found, untyped, rfl⟩ |
    ⟨s, sinfo, rfl, found, rfl⟩ | ⟨s, sinfo, rfl, found, rfl⟩
  · have outside : s ∉ both.2 := by
      rw [right.connected]
      intro typed
      obtain ⟨info, there, _⟩ := Option.bind_eq_some_iff.mp typed
      exact fresh (right.accepted s info there)
    exact right.update s (some sinfoNew) (s :: both.1.accepted) outside (by simp [sinfoNew])
      (fun t old => List.mem_cons_of_mem s old) (fun _ => List.mem_cons_self)
  · have outside := right.untyped s sinfo found untyped
    have own := right.accepted s sinfo found
    cases cert with
    | none => exact right
    | some cert =>
      by_cases switch : isSwitch (certNameOf cert) = true
      · refine ⟨latest, fun t => ?_, fun t info there => ?_⟩
        · by_cases same : t = s
          · simp [onConnectCb, track, switch, same]
          · simpa [onConnectCb, track, switch, same] using right.connected t
        · rw [onConnectCb_accepted]
          by_cases same : t = s
          · exact same ▸ own
          · refine right.accepted t info ?_
            simpa [onConnectCb, switch, same] using there
      · have changed := right.update s (some { certName := certNameOf cert, type := some .nvapi })
          both.1.accepted outside (by simp) (fun _ old => old) fun _ => own
        simpa [onConnectCb, track, switch] using changed
  · by_cases untyped : sinfo.type = none
    · rw [if_pos untyped]
      exact right.update s none both.1.accepted (right.untyped s sinfo found untyped) (by simp)
        (fun _ old => old) (by simp)
    · rw [if_neg untyped]
      exact right
  · refine ⟨latest, fun t => ?_, fun t info there => ?_⟩
    · rw [onEndCb_sessions]
      by_cases same : t = s
      · simp [track, same]
      · simpa [track, same] using right.connected t
    · rw [onEndCb_sessions] at there
      rw [onEndCb_accepted]
      by_cases same : t = s
      · simp [same] at there
      · exact right.accepted t info (by simpa [same] using there)

end Steps

/-! ## Runs -/

/-- In every run, `switch_sinfo` leads to the latest switch session that is still connected, and
the nodes are reset only when no switch session remains, exactly when no switch session ends
while another one is connected.

Proof: the run is taken beside a record of the connected switch sessions. While `switch_sinfo`
is the head of the record, an event keeps it so exactly when it meets the condition; the
record of a prefix is read off its events. -/
theorem switch_kept_iff (events : List Event) :
    ((∀ past, past <+: events → ∀ ctrler, run step Ctrler.initial past = some ctrler →
        ctrler.switchSinfo = (switches past).head?) ∧
      ∀ past event, past ++ [event] <+: events → ∀ ctrler next,
        run step Ctrler.initial past = some ctrler → step ctrler event = some next →
          next.resets ≠ ctrler.resets → switches (past ++ [event]) = []) ↔
      Meets step EndsAlone Ctrler.initial events := by
  have met : Meets (beside step track) KeepsSwitch (Ctrler.initial, []) events ↔
      Meets step EndsAlone Ctrler.initial events := by
    rw [← meets_beside step track EndsAlone Ctrler.initial [] events]
    exact meets_iff_under (beside step track) Right KeepsSwitch (fun both => EndsAlone both.1)
      (fun both event right => right.keeps_iff event)
      (fun both event next right alone taken => right.step event next alone taken)
      (Ctrler.initial, []) events initial_right
  rw [← met, meets_iff_forall]
  constructor
  · rintro ⟨latest, reset⟩ past event within ⟨ctrler, connected⟩ reached next taken
    rw [run_beside] at reached
    obtain ⟨_, there, same⟩ := Option.map_eq_some_iff.mp reached
    obtain ⟨rfl, rfl⟩ := Prod.mk.inj same
    have record : switches (past ++ [event]) = track (switches past) event := by
      simp [switches, List.foldl_append]
    constructor
    · have after := latest (past ++ [event]) within next
        (run_extend step Ctrler.initial _ next past event there taken)
      rwa [record] at after
    · intro changed
      have none := reset past event within _ next there taken changed
      rwa [record] at none
  · intro kept
    have each : ∀ past event, past ++ [event] <+: events → ∀ ctrler next,
        run step Ctrler.initial past = some ctrler → step ctrler event = some next →
          next.switchSinfo = (switches (past ++ [event])).head? ∧
            (next.resets ≠ ctrler.resets → switches (past ++ [event]) = []) := by
      intro past event within ctrler next there taken
      have record : switches (past ++ [event]) = track (switches past) event := by
        simp [switches, List.foldl_append]
      have both := kept past event within (ctrler, switches past)
        (by rw [run_beside, there]; rfl) next taken
      rwa [← record] at both
    constructor
    · intro past within ctrler reached
      induction past using List.reverseRecOn with
      | nil =>
        obtain rfl := Option.some.inj reached
        rfl
      | append_singleton past event =>
        obtain ⟨before, early, taken⟩ := run_snoc step Ctrler.initial ctrler past event reached
        exact (each past event within before ctrler early taken).1
    · intro past event within ctrler next there taken
      exact (each past event within ctrler next there taken).2

/-- Two connections of the switch that overlap; the end of the first one is noticed last. -/
def overlapRun : List Event :=
  let cert : X509 := { altname := none, commonName := some (ascii "netvirt-switch-1".toList) }
  [.accept 1, .connected 1 (some cert), .accept 2, .connected 2 (some cert), .ended 1]

/-- The pointer is cleared and the nodes are reset, with the second one connected. -/
theorem overlapRun_loses_switch : ∃ ctrler, run step Ctrler.initial overlapRun = some ctrler ∧
    switches overlapRun = [2] ∧ ctrler.switchSinfo = none ∧ ctrler.resets = 1 := by
  refine ⟨(run step Ctrler.initial overlapRun).get (by decide), (Option.some_get _).symm, ?_⟩
  decide

end NetVirt.Nvctrler.SwitchLink
