import NetVirt.SwitchRuns

/-!
# The two indexes of the virtual networks

Networks are found by uuid and by id. Each tree refuses a key that it has, whatever the
other one does, and a network is taken out of the tree of ids by its id, which may lead to
another network. The indexes agree over a run of calls exactly when a known uuid never comes
with a new id, and no network is taken out whose id leads elsewhere.
-/

namespace NetVirt.Nvswitch

open Tables Runs

/-- The calls that change the indexes. -/
inductive IndexCall where
  | create (id uuid : List UInt8)
  | disable (uuid : List UInt8)
deriving DecidableEq

def indexStep (switch : Switch) : IndexCall → Option Switch
  | .create id uuid => some (vnetworkCreate switch id uuid)
  | .disable uuid => (vnetworkDisable switch uuid).map Prod.fst

/-- A network that is found by its id is found by its uuid, too. -/
def IndexesAgree (switch : Switch) : Prop :=
  ∀ id v, switch.vnetworksId.find id = some v → ∃ vnet, switch.vnets v = some vnet ∧
    switch.vnetworks.find vnet.uuid = some v

/-- A known uuid adds nothing to either index. -/
def AddsNothing (switch : Switch) (uuid : List UInt8) (after : Switch) : Prop :=
  (switch.vnetworks.find uuid).isSome →
    after.vnetworks = switch.vnetworks ∧ after.vnetworksId = switch.vnetworksId

/-- A network of the uuid is in neither index; every other one is found as before. -/
structure TakesOut (switch : Switch) (uuid : List UInt8) (after : Switch) : Prop where
  gone : ∀ key v vnet,
    (after.vnetworks.find key = some v ∨ after.vnetworksId.find key = some v) →
      after.vnets v = some vnet → vnet.uuid ≠ uuid
  others : ∀ v vnet, switch.vnets v = some vnet → vnet.uuid ≠ uuid → ∀ key,
    (after.vnetworks.find key = some v ↔ switch.vnetworks.find key = some v) ∧
    (after.vnetworksId.find key = some v ↔ switch.vnetworksId.find key = some v)

/-- What a call is to do to the indexes. -/
def Agreeing (switch : Switch) (call : IndexCall) : Prop :=
  ∃ after, indexStep switch call = some after ∧ IndexesAgree after ∧
    match call with
    | .create _ uuid => AddsNothing switch uuid after
    | .disable uuid => TakesOut switch uuid after

/-- A known uuid comes with a known id; a network's id leads to it or nowhere. -/
def Matching (switch : Switch) : IndexCall → Prop
  | .create id uuid =>
    (switch.vnetworks.find uuid).isSome → (switch.vnetworksId.find id).isSome
  | .disable uuid => ∀ v vnet, switch.vnetworks.find uuid = some v →
      switch.vnets v = some vnet → ∀ w, switch.vnetworksId.find vnet.id = some w → w = v

/-- The entries of both indexes lead to networks of the name they are under. -/
structure Filed (switch : Switch) : Prop where
  below : ∀ v vnet, switch.vnets v = some vnet → v < switch.vnetCount
  byUuid : ∀ uuid v, switch.vnetworks.find uuid = some v →
    ∃ vnet, switch.vnets v = some vnet ∧ vnet.uuid = uuid
  byId : ∀ id v, switch.vnetworksId.find id = some v →
    ∃ vnet, switch.vnets v = some vnet ∧ vnet.id = id

theorem initial_filed : Filed Switch.initial where
  below v vnet home := by cases home
  byUuid uuid v found := by cases found
  byId id v found := by cases found

section Calls
variable {switch : Switch} (filed : Filed switch)
include filed

theorem Filed.fresh : switch.vnets switch.vnetCount = none := by
  apply Option.eq_none_iff_forall_not_mem.mpr
  exact fun vnet home => Nat.lt_irrefl _ (filed.below _ vnet home)

/-- A network that exists is not the new one. -/
theorem Filed.old (v : VnetId) (vnet : VNetwork) (home : switch.vnets v = some vnet)
    (id uuid : List UInt8) : (vnetworkCreate switch id uuid).vnets v = some vnet := by
  have apart : v ≠ switch.vnetCount := Nat.ne_of_lt (filed.below v vnet home)
  rw [← home]
  exact Function.update_of_ne apart _ _

theorem create_filed (id uuid : List UInt8) : Filed (vnetworkCreate switch id uuid) where
  below v vnet home := by
    by_cases own : v = switch.vnetCount
    · exact own ▸ Nat.lt_succ_self _
    · simp only [vnetworkCreate, Function.update_of_ne own] at home
      exact Nat.lt_succ_of_lt (filed.below v vnet home)
  byUuid := index_insert switch.vnets switch.vnetworks VNetwork.uuid switch.vnetCount
    (vnetworkNew id uuid) filed.fresh filed.byUuid
  byId := index_insert switch.vnets switch.vnetworksId VNetwork.id switch.vnetCount
    (vnetworkNew id uuid) filed.fresh filed.byId

/-- vnetwork_disable has a result: an unknown uuid changes nothing, a known one is erased
with the id of its network. -/
theorem disable_eq (uuid : List UInt8) :
    (switch.vnetworks.find uuid = none ∧ indexStep switch (.disable uuid) = some switch) ∨
    ∃ v vnet, switch.vnetworks.find uuid = some v ∧ switch.vnets v = some vnet ∧
      vnet.uuid = uuid ∧ indexStep switch (.disable uuid) = some { switch with
        vnetworks := switch.vnetworks.erase uuid
        vnetworksId := switch.vnetworksId.erase vnet.id } := by
  cases known : switch.vnetworks.find uuid with
  | none => exact Or.inl ⟨rfl, by simp [indexStep, vnetworkDisable, known]⟩
  | some v =>
    obtain ⟨vnet, home, named⟩ := filed.byUuid uuid v known
    exact Or.inr ⟨v, vnet, rfl, home, named, by simp [indexStep, vnetworkDisable, known, home]⟩

theorem step_filed (call : IndexCall) (after : Switch)
    (taken : indexStep switch call = some after) : Filed after := by
  cases call with
  | create id uuid =>
    obtain rfl := Option.some.inj taken
    exact create_filed filed id uuid
  | disable uuid =>
    rcases disable_eq filed uuid with ⟨_, same⟩ | ⟨v, vnet, _, _, _, same⟩
    · obtain rfl := Option.some.inj (same.symm.trans taken)
      exact filed
    · obtain rfl := Option.some.inj (same.symm.trans taken)
      constructor
      case below => exact filed.below
      case byUuid =>
        exact fun key w found => filed.byUuid key w (Table.find_of_erase _ _ _ _ found).2
      case byId => exact fun key w found => filed.byId key w (Table.find_of_erase _ _ _ _ found).2

variable (agree : IndexesAgree switch)
include agree

/-- Creating a network agrees exactly when its uuid is new or its id is not. -/
theorem create_agreeing_iff (id uuid : List UInt8) :
    Agreeing switch (.create id uuid) ↔ Matching switch (.create id uuid) := by
  constructor
  · rintro ⟨after, taken, _, nothing⟩ known
    obtain rfl := Option.some.inj taken
    have same := congrArg (fun table => Table.find table id) (nothing known).2
    rw [← same]
    simp [vnetworkCreate, Table.find_insert]
  · intro matching
    refine ⟨_, rfl, ?_, ?_⟩
    · intro key v found
      have given : (switch.vnetworksId.insert id switch.vnetCount).find key = some v := found
      rw [Table.find_insert] at given
      cases here : switch.vnetworksId.find key with
      | some old =>
        have same : old = v := by
          by_cases own : key = id
          · simpa [← own, here] using given
          · simpa [own, here] using given
        obtain ⟨vnet, home, listed⟩ := agree key old here
        refine ⟨vnet, same ▸ filed.old old vnet home id uuid, ?_⟩
        rw [← same]
        by_cases own : vnet.uuid = uuid
        · subst own
          simp [vnetworkCreate, Table.find_insert, listed]
        · simp [vnetworkCreate, Table.find_insert, own, listed]
      | none =>
        -- The entry is the new one, so that the uuid is new as well.
        by_cases own : key = id
        · have unknown : switch.vnetworks.find uuid = none := by
            rw [← Option.not_isSome_iff_eq_none]
            intro known
            have present := matching known
            rw [← own, here] at present
            cases present
          have same : switch.vnetCount = v := by simpa [← own, here] using given
          refine ⟨vnetworkNew id uuid, by simp [vnetworkCreate, same], ?_⟩
          simp [vnetworkCreate, vnetworkNew, Table.find_insert, unknown, same]
        · simp [own, here] at given
    · intro known
      exact ⟨Table.insert_present _ _ _ known, Table.insert_present _ _ _ (matching known)⟩

/-- Disabling a network agrees exactly when its id leads to no other one. -/
theorem disable_agreeing_iff (uuid : List UInt8) :
    Agreeing switch (.disable uuid) ↔ Matching switch (.disable uuid) := by
  rcases disable_eq filed uuid with ⟨unknown, same⟩ | ⟨v, vnet, known, home, named, same⟩
  · have trivially : Matching switch (.disable uuid) := by
      intro v vnet found
      rw [unknown] at found
      cases found
    refine iff_of_true ⟨switch, same, agree, ⟨?_, fun _ _ _ _ _ => ⟨Iff.rfl, Iff.rfl⟩⟩⟩ trivially
    rintro key v vnet (found | found) home rfl
    · obtain ⟨other, there, rfl⟩ := filed.byUuid key v found
      obtain rfl := Option.some.inj (home.symm.trans there)
      rw [found] at unknown
      cases unknown
    · obtain ⟨other, there, listed⟩ := agree key v found
      obtain rfl := Option.some.inj (home.symm.trans there)
      rw [listed] at unknown
      cases unknown
  · constructor
    · rintro ⟨after, taken, _, _, others⟩ w other there present x found
      obtain rfl := Option.some.inj (same.symm.trans taken)
      obtain rfl := Option.some.inj (known.symm.trans there)
      obtain rfl := Option.some.inj (home.symm.trans present)
      obtain ⟨kept, placed, listed⟩ := agree vnet.id x found
      by_cases own : kept.uuid = uuid
      · rw [own, known] at listed
        exact (Option.some.inj listed).symm
      · have still := ((others x kept placed own vnet.id).2).mpr found
        simp [Table.find_erase] at still
    · intro matching
      have alone : ∀ w, switch.vnetworksId.find vnet.id = some w → w = v :=
        matching v vnet known home
      refine ⟨_, same, ?_, ?_, ?_⟩
      · intro key w found
        obtain ⟨apart, found⟩ := Table.find_of_erase _ _ _ _ found
        obtain ⟨kept, placed, listed⟩ := agree key w found
        refine ⟨kept, placed, ?_⟩
        have other : kept.uuid ≠ uuid := by
          intro own
          rw [own, known] at listed
          obtain rfl := Option.some.inj listed
          obtain ⟨again, there, called⟩ := filed.byId key v found
          obtain rfl := Option.some.inj (home.symm.trans there)
          exact apart called.symm
        rwa [Table.find_erase, if_neg other]
      · rintro key w kept (found | found) placed own
        · obtain ⟨apart, found⟩ := Table.find_of_erase _ _ _ _ found
          obtain ⟨again, there, called⟩ := filed.byUuid key w found
          obtain rfl := Option.some.inj (placed.symm.trans there)
          exact apart (called.symm.trans own)
        · obtain ⟨apart, found⟩ := Table.find_of_erase _ _ _ _ found
          obtain ⟨again, there, listed⟩ := agree key w found
          obtain rfl := Option.some.inj (placed.symm.trans there)
          rw [own, known] at listed
          obtain rfl := Option.some.inj listed
          obtain ⟨again, there, called⟩ := filed.byId key v found
          obtain rfl := Option.some.inj (home.symm.trans there)
          exact apart called.symm
      · intro w kept placed other key
        refine ⟨⟨fun found => (Table.find_of_erase _ _ _ _ found).2, fun found => ?_⟩,
          fun found => (Table.find_of_erase _ _ _ _ found).2, fun found => ?_⟩
        · obtain ⟨again, there, called⟩ := filed.byUuid key w found
          obtain rfl := Option.some.inj (placed.symm.trans there)
          rwa [Table.find_erase, if_neg fun own => other (called.trans own)]
        · rw [Table.find_erase, if_neg, found]
          rintro rfl
          obtain rfl := alone w found
          obtain rfl := Option.some.inj (home.symm.trans placed)
          exact other named

end Calls

/-- Over a run of calls the indexes agree after each, a known uuid adds nothing, and a
disabled network and no other goes, exactly when each call finds matching indexes.

Proof: from a state whose indexes agree, a call meets the property exactly when it meets the
condition, and then the next state's indexes agree again; the rule for conditions along a run
does the induction. -/
theorem indexes_agree_iff (calls : List IndexCall) :
    Meets indexStep Agreeing Switch.initial calls ↔
      Meets indexStep Matching Switch.initial calls := by
  refine meets_iff_under indexStep (fun switch => Filed switch ∧ IndexesAgree switch) Agreeing
    Matching ?_ ?_ Switch.initial calls ⟨initial_filed, fun id v found => by cases found⟩
  · rintro switch call ⟨filed, agree⟩
    cases call with
    | create id uuid => exact create_agreeing_iff filed agree id uuid
    | disable uuid => exact disable_agreeing_iff filed agree uuid
  · rintro switch call after ⟨filed, agree⟩ matching taken
    refine ⟨step_filed filed call after taken, ?_⟩
    have agreeing : Agreeing switch call := by
      cases call with
      | create id uuid => exact (create_agreeing_iff filed agree id uuid).mpr matching
      | disable uuid => exact (disable_agreeing_iff filed agree uuid).mpr matching
    obtain ⟨reached, same, agreed, _⟩ := agreeing
    obtain rfl := Option.some.inj (same.symm.trans taken)
    exact agreed

/-- A network that was added at runtime, without an id, and listed with its id when the
switch connected again. -/
def relistedCalls : List IndexCall :=
  [.create [] (sampleUuid 0x4e), .create [0x35] (sampleUuid 0x4e)]

theorem relistedCalls_disagree : ¬ Meets indexStep Agreeing Switch.initial relistedCalls := by
  rintro ⟨_, second⟩
  obtain ⟨⟨after, taken, agree, _⟩, _⟩ := second _ rfl
  obtain rfl := Option.some.inj taken
  obtain ⟨vnet, home, listed⟩ := agree [0x35] 1 (by decide)
  obtain rfl := Option.some.inj home
  exact absurd listed (by decide)

end NetVirt.Nvswitch
