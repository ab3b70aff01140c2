import NetVirt.Runs
import NetVirt.SwitchState

/-!
# The networks of a listall-network message

`listall_network` of control.c reads the id of every element into one variable, which json_unpack
leaves as it was when the element has no id. An element without an id therefore gets the latest
id of the message, and before the first one what the variable holds without being set.
-/

namespace NetVirt.Nvswitch

open Runs

/-! ## Messages -/

/-- An element of the array. A member that is missing, or is no string, is none. -/
structure NetworkElement where
  id : Option (List UInt8)
  uuid : Option (List UInt8)
  network : Option (List UInt8)
  netmask : Option (List UInt8)
  cert : Option (List UInt8)
  pkey : Option (List UInt8)
  tcert : Option (List UInt8)
deriving DecidableEq

/-- The members of the message that are read. What is no array has no elements. -/
structure NetworkListing where
  response : Option (List UInt8)
  networks : Option (List NetworkElement)

/-- The uuid of an element that has all members but the id, which are unpacked in this order. -/
def NetworkElement.unpack (element : NetworkElement) : Option (List UInt8) := do
  let networkUuid ← element.uuid
  let _ ← element.network
  let _ ← element.netmask
  let _ ← element.cert
  let _ ← element.pkey
  let _ ← element.tcert
  return networkUuid

/-- A `char *`: NULL, a text, or an address that must not be read. -/
inductive CharPointer where
  | null
  | text (bytes : List UInt8)
  | wild
deriving DecidableEq

/-- `network_id ? network_id : ""`, as vnetwork_create copies it. -/
def CharPointer.orEmpty : CharPointer → Option (List UInt8)
  | .null => some []
  | .text bytes => some bytes
  | .wild => none

/-- `json_unpack(elm, "{s:s}", "id", &network_id)` -/
def NetworkElement.unpackId (networkId : CharPointer) (element : NetworkElement) : CharPointer :=
  match element.id with
  | some bytes => .text bytes
  | none => networkId

/-! ## control.c -/

/-- The loop over the elements, and whether it ends behind the last one. -/
def createNetworks : CharPointer → Switch → List NetworkElement → Option (Switch × Bool)
  | _, switch, [] => some (switch, true)
  | networkId, switch, element :: rest =>
    match element.unpack with
    | none => some (switch, false)
    | some networkUuid => do
      let id ← (element.unpackId networkId).orEmpty
      createNetworks (element.unpackId networkId) (vnetworkCreate switch id networkUuid) rest

def success : List UInt8 := "success".toList.map fun c => c.toNat.toUInt8

/-- `listall_network`, with what network_id holds when it is called. -/
def listallNetwork (networkId : CharPointer) (switch : Switch) (jmsg : NetworkListing) :
    Option (Switch × Int) :=
  match jmsg.response with
  | none => some (switch, -1)
  | some response =>
    match jmsg.networks with
    | none => some (switch, -1)
    | some [] => some (switch, -1)
    | some (first :: rest) => do
      let (switch, whole) ← createNetworks networkId switch (first :: rest)
      return (switch, if whole then if response = success then 0 else 1 else -1)

/-! ## The networks created -/

/-- The elements before the first one that lacks a member other than the id. -/
def listedElements (elements : List NetworkElement) : List NetworkElement :=
  elements.takeWhile fun element => element.unpack.isSome

def NetworkListing.listed (jmsg : NetworkListing) : List NetworkElement :=
  if jmsg.response.isSome then listedElements (jmsg.networks.getD []) else []

/-- A network was created for each of the elements, with the element's own id. -/
def Created (switch after : Switch) (elements : List NetworkElement) : Prop :=
  after.vnetCount = switch.vnetCount + elements.length ∧
    ∀ index element, elements[index]? = some element → ∃ vnet,
      after.vnets (switch.vnetCount + index) = some vnet ∧ vnet.id = element.id.getD [] ∧
      element.unpack = some vnet.uuid

/-- The networks of a message have the ids of their elements. -/
def Independent (networkId : CharPointer) (switch : Switch) (jmsg : NetworkListing) : Prop :=
  ∃ after code, listallNetwork networkId switch jmsg = some (after, code) ∧
    Created switch after jmsg.listed

/-- The last id among elements. -/
def latestId (elements : List NetworkElement) : Option (List UInt8) :=
  (elements.filterMap NetworkElement.id).getLast?

/-- The loop creates networks behind those there were. -/
theorem createNetworks_older (networkId : CharPointer) (switch after : Switch) (whole : Bool)
    (elements : List NetworkElement) (v : VnetId) (older : v < switch.vnetCount)
    (taken : createNetworks networkId switch elements = some (after, whole)) :
    after.vnets v = switch.vnets v := by
  induction elements generalizing networkId switch with
  | nil =>
    obtain ⟨rfl, _⟩ := Prod.mk.inj (Option.some.inj taken)
    rfl
  | cons element rest inductionHypothesis =>
    unfold createNetworks at taken
    split at taken
    · obtain ⟨rfl, _⟩ := Prod.mk.inj (Option.some.inj taken)
      rfl
    · obtain ⟨id, _, taken⟩ := Option.bind_eq_some_iff.mp taken
      rw [inductionHypothesis _ _ (Nat.lt_succ_of_lt older) taken]
      exact Function.update_of_ne (Nat.ne_of_lt older) _ _

/-- A network was created for the first element and for each of the others. -/
theorem created_cons (switch after : Switch) (id uuid : List UInt8) (element : NetworkElement)
    (rest : List NetworkElement) (unpacked : element.unpack = some uuid)
    (first : after.vnets switch.vnetCount = some (vnetworkNew id uuid)) :
    Created switch after (element :: rest) ↔ id = element.id.getD [] ∧
      Created (vnetworkCreate switch id uuid) after rest := by
  have next : (vnetworkCreate switch id uuid).vnetCount = switch.vnetCount + 1 := rfl
  have shifted : ∀ index, switch.vnetCount + 1 + index = switch.vnetCount + (index + 1) := by omega
  simp only [Created, next, shifted]
  constructor
  · rintro ⟨count, networks⟩
    obtain ⟨vnet, found, own, _⟩ := networks 0 element rfl
    obtain rfl := Option.some.inj (first.symm.trans found)
    refine ⟨own, count, fun index other listed => ?_⟩
    exact networks (index + 1) other listed
  · rintro ⟨own, count, networks⟩
    refine ⟨count, ?_⟩
    intro index other listed
    cases index with
    | zero =>
      obtain rfl := Option.some.inj listed
      exact ⟨_, first, own, unpacked⟩
    | succ index => exact networks index other listed

/-- The network of the first element, at the end of the loop. -/
theorem createNetworks_first (networkId : CharPointer) (switch after : Switch)
    (id uuid : List UInt8) (whole : Bool) (rest : List NetworkElement)
    (taken : createNetworks networkId (vnetworkCreate switch id uuid) rest = some (after, whole)) :
    after.vnets switch.vnetCount = some (vnetworkNew id uuid) := by
  rw [createNetworks_older networkId _ after whole rest _ (Nat.lt_succ_self _) taken]
  exact Function.update_self _ _ _

/-- The variable holds the id of an element, or is empty at one without. -/
theorem orEmpty_unpackId (networkId : CharPointer) (element : NetworkElement) :
    (element.unpackId networkId).orEmpty = some (element.id.getD []) ↔
      (element.id = none → networkId.orEmpty = some []) := by
  cases named : element.id with
  | none => simp [NetworkElement.unpackId, named]
  | some bytes => simp [NetworkElement.unpackId, named, CharPointer.orEmpty]

/-- The loop creates networks with their own ids exactly when the variable is empty at every
element without one. -/
theorem createNetworks_iff (networkId : CharPointer) (switch : Switch)
    (elements : List NetworkElement) :
    (∃ after whole, createNetworks networkId switch elements = some (after, whole) ∧
      Created switch after (listedElements elements)) ↔
    Guarded NetworkElement.unpackId networkId
      (fun networkId element => element.id = none → networkId.orEmpty = some [])
      (listedElements elements) := by
  induction elements generalizing networkId switch with
  | nil =>
    refine iff_of_true ⟨switch, true, rfl, rfl, ?_⟩ (guarded_nil _ _ _)
    simp [listedElements]
  | cons element rest inductionHypothesis =>
    cases unpacked : element.unpack with
    | none =>
      have nothing : listedElements (element :: rest) = [] := by simp [listedElements, unpacked]
      rw [nothing]
      refine iff_of_true ⟨switch, false, by simp [createNetworks, unpacked], rfl, ?_⟩
        (guarded_nil _ _ _)
      simp
    | some uuid =>
      have listed : listedElements (element :: rest) = element :: listedElements rest := by
        simp [listedElements, unpacked]
      rw [listed, guarded_cons, ← orEmpty_unpackId]
      cases read : (element.unpackId networkId).orEmpty with
      | none =>
        refine iff_of_false ?_ (by simp)
        simp [createNetworks, unpacked, read]
      | some id =>
        have step : createNetworks networkId switch (element :: rest) =
            createNetworks (element.unpackId networkId) (vnetworkCreate switch id uuid) rest := by
          simp [createNetworks, unpacked, read]
        rw [step, Option.some.injEq, ← inductionHypothesis _ (vnetworkCreate switch id uuid)]
        constructor
        · rintro ⟨after, whole, taken, created⟩
          have first := createNetworks_first _ switch after id uuid whole rest taken
          obtain ⟨own, others⟩ :=
            (created_cons switch after id uuid element _ unpacked first).mp created
          exact ⟨own, after, whole, taken, others⟩
        · rintro ⟨own, after, whole, taken, others⟩
          have first := createNetworks_first _ switch after id uuid whole rest taken
          exact ⟨after, whole, taken,
            (created_cons switch after id uuid element _ unpacked first).mpr ⟨own, others⟩⟩

/-- A message that is read creates what the loop does. -/
theorem independent_iff (networkId : CharPointer) (switch : Switch) (jmsg : NetworkListing) :
    Independent networkId switch jmsg ↔
      Guarded NetworkElement.unpackId networkId
        (fun networkId element => element.id = none → networkId.orEmpty = some [])
        jmsg.listed := by
  obtain ⟨response, networks⟩ := jmsg
  cases response with
  | none =>
    refine iff_of_true ⟨switch, -1, rfl, rfl, ?_⟩ (guarded_nil _ _ _)
    simp [NetworkListing.listed]
  | some response =>
    cases networks with
    | none =>
      refine iff_of_true ⟨switch, -1, rfl, rfl, ?_⟩ (guarded_nil _ _ _)
      simp [NetworkListing.listed, listedElements]
    | some networks =>
      refine Iff.trans ?_ (createNetworks_iff networkId switch networks)
      cases networks with
      | nil =>
        refine iff_of_true ⟨switch, -1, rfl, rfl, ?_⟩ ⟨switch, true, rfl, rfl, ?_⟩
        · simp [NetworkListing.listed, listedElements]
        · simp [listedElements]
      | cons first rest =>
        constructor
        · rintro ⟨after, code, taken, created⟩
          obtain ⟨⟨final, whole⟩, looped, returned⟩ := Option.bind_eq_some_iff.mp taken
          obtain ⟨rfl, _⟩ := Prod.mk.inj (Option.some.inj returned)
          exact ⟨final, whole, looped, created⟩
        · rintro ⟨after, whole, looped, created⟩
          refine ⟨after, if whole then if response = success then 0 else 1 else -1, ?_, created⟩
          simp only [listallNetwork, looped, Option.bind_eq_bind, Option.bind_some]
          rfl

/-- What the variable holds behind elements. -/
theorem foldl_unpackId (networkId : CharPointer) (elements : List NetworkElement) :
    elements.foldl NetworkElement.unpackId networkId =
      ((latestId elements).map CharPointer.text).getD networkId := by
  induction elements using List.reverseRecOn with
  | nil => rfl
  | append_singleton before element inductionHypothesis =>
    rw [List.foldl_append, inductionHypothesis]
    cases named : element.id with
    | none => simp [latestId, NetworkElement.unpackId, named]
    | some bytes => simp [latestId, NetworkElement.unpackId, named]

/-- The networks of a message have the ids of their elements, whatever the variable holds before,
exactly when every element without an id comes behind one with an id, the last of which is
empty.

Proof: the variable holds what the last id before an element wrote, or its first value. An
element without an id reads it, so only an empty one in front makes the read the same for
every first value. -/
theorem listing_independent_iff (switch : Switch) (jmsg : NetworkListing) :
    (∀ networkId, Independent networkId switch jmsg) ↔
      ∀ before element after, jmsg.listed = before ++ element :: after → element.id = none →
        latestId before = some [] := by
  simp only [independent_iff, Guarded, foldl_unpackId]
  constructor
  · intro independent before element after split unset
    have read := independent .wild before element after split unset
    cases latest : latestId before with
    | none => simp [latest, CharPointer.orEmpty] at read
    | some bytes => simpa [latest, CharPointer.orEmpty] using read
  · intro empty networkId before element after split unset
    rw [empty before element after split unset]
    rfl

/-- An element with the members that are required. -/
def namedElement (id : Option (List UInt8)) (uuid : List UInt8) : NetworkElement :=
  { id := id, uuid := some uuid, network := some [], netmask := some [], cert := some [],
    pkey := some [], tcert := some [] }

/-- A network without an id gets the id of the one before it, whatever the variable held. -/
theorem listing_inherits_id : ¬ ∃ networkId, Independent networkId Switch.initial
    { response := some success
      networks := some [namedElement (some [0x37]) [0x61], namedElement none [0x62]] } := by
  rintro ⟨networkId, independent⟩
  have guarded := (independent_iff networkId _ _).mp independent
  have read := guarded [namedElement (some [0x37]) [0x61]] (namedElement none [0x62]) [] rfl rfl
  simp [namedElement, NetworkElement.unpackId, CharPointer.orEmpty] at read

end NetVirt.Nvswitch
