import NetVirt.SwitchRuns
import NetVirt.TreeRuns

/-!
# The two trees of the virtual networks

The switch finds its networks in two trees of tree.h, compared by strcmp of the uuids and of the
ids. The switch of the other modules has a table in place of each tree. Here the trees are
kept beside it: over any run, both lookups return what the tables have, and no element of a tree
is a network that was freed.
-/

namespace NetVirt.Nvswitch

open Cert Tables Runs RbTrees

/-! ## Texts -/

/-- A text of C: no byte of it is the zero that ends it. -/
structure CText where
  bytes : List UInt8
  ended : 0 ∉ bytes
deriving DecidableEq

/-- What C reads of some bytes. -/
def cText (bytes : List UInt8) : CText where
  bytes := bytes.takeWhile (· != 0)
  ended inside := by
    have kept := List.mem_takeWhile_imp inside
    simp at kept

theorem cText_bytes (bytes : List UInt8) (ended : 0 ∉ bytes) : (cText bytes).bytes = bytes := by
  refine List.takeWhile_eq_self_iff.mpr fun byte inside => ?_
  have apart : byte ≠ 0 := fun zero => ended (zero ▸ inside)
  simpa using apart

theorem CText.cText_eq (text : CText) : cText text.bytes = text := by
  have same := cText_bytes text.bytes text.ended
  cases text
  simp only [cText] at same ⊢
  simp only [same]

/-- `strcmp`: the difference of the first bytes that differ, the end read as a zero. -/
def strcmpBytes : List UInt8 → List UInt8 → Int
  | [], [] => 0
  | [], byte :: _ => -byte.toNat
  | byte :: _, [] => byte.toNat
  | byte :: rest, other :: others =>
    if byte = other then strcmpBytes rest others else (byte.toNat : Int) - other.toNat

def strcmp (text other : CText) : Int := strcmpBytes text.bytes other.bytes

theorem strcmpBytes_swap (text other : List UInt8) :
    strcmpBytes other text = -strcmpBytes text other := by
  induction text generalizing other with
  | nil => cases other <;> simp [strcmpBytes]
  | cons byte rest inductionHypothesis =>
    cases other with
    | nil => rfl
    | cons first others =>
      by_cases same : byte = first
      · subst same
        simp only [strcmpBytes, if_true]
        exact inductionHypothesis others
      · simp only [strcmpBytes, if_neg same, if_neg (Ne.symm same)]
        omega

theorem toNat_pos {byte : UInt8} {rest : List UInt8} (ended : 0 ∉ byte :: rest) :
    0 < byte.toNat := by
  refine Nat.pos_of_ne_zero fun zero => ended ?_
  have null : byte = 0 := UInt8.toNat_inj.mp zero
  exact null ▸ List.mem_cons_self

theorem strcmpBytes_zero_iff (text other : List UInt8) (ended : 0 ∉ text) (ended' : 0 ∉ other) :
    strcmpBytes text other = 0 ↔ text = other := by
  induction text generalizing other with
  | nil =>
    cases other with
    | nil => simp [strcmpBytes]
    | cons first others =>
      have positive := toNat_pos ended'
      simp only [strcmpBytes, reduceCtorEq, iff_false]
      omega
  | cons byte rest inductionHypothesis =>
    have positive := toNat_pos ended
    cases other with
    | nil =>
      simp only [strcmpBytes, reduceCtorEq, iff_false]
      omega
    | cons first others =>
      by_cases same : byte = first
      · subst same
        simp only [strcmpBytes, if_true, List.cons.injEq, true_and]
        exact inductionHypothesis others (fun inside => ended (List.mem_cons_of_mem _ inside))
          (fun inside => ended' (List.mem_cons_of_mem _ inside))
      · have apart : byte.toNat ≠ first.toNat := fun equal => same (UInt8.toNat_inj.mp equal)
        rw [strcmpBytes, if_neg same, List.cons.injEq]
        refine iff_of_false ?_ fun equal => same equal.1
        omega

theorem strcmpBytes_nil_nonneg (text : List UInt8) : 0 ≤ strcmpBytes text [] := by
  cases text with
  | nil => exact Int.le_refl 0
  | cons byte rest => exact Int.natCast_nonneg byte.toNat

theorem strcmpBytes_trans (text middle other : List UInt8) (ended : 0 ∉ other)
    (less : strcmpBytes text middle < 0) (below : strcmpBytes middle other < 0) :
    strcmpBytes text other < 0 := by
  induction text generalizing middle other with
  | nil =>
    cases other with
    | nil => exact absurd below (Int.not_lt.mpr (strcmpBytes_nil_nonneg middle))
    | cons last others =>
      have positive := toNat_pos ended
      simp only [strcmpBytes]
      omega
  | cons byte rest inductionHypothesis =>
    cases middle with
    | nil => exact absurd less (Int.not_lt.mpr (strcmpBytes_nil_nonneg _))
    | cons first middles =>
      cases other with
      | nil => exact absurd below (Int.not_lt.mpr (strcmpBytes_nil_nonneg _))
      | cons last others =>
        have ended' : 0 ∉ others := fun inside => ended (List.mem_cons_of_mem _ inside)
        by_cases same : byte = first
        · subst same
          by_cases next : byte = last
          · subst next
            simp only [strcmpBytes, if_true] at less below ⊢
            exact inductionHypothesis middles others ended' less below
          · simp only [strcmpBytes, if_neg next] at below ⊢
            exact below
        · by_cases next : first = last
          · subst next
            simp only [strcmpBytes, if_neg same] at less ⊢
            exact less
          · simp only [strcmpBytes, if_neg same, if_neg next] at less below
            have apart : byte ≠ last := by
              rintro rfl
              omega
            simp only [strcmpBytes, if_neg apart]
            omega

theorem compares_strcmp : Comparison strcmp where
  zero_iff text other := by
    rw [strcmp, strcmpBytes_zero_iff _ _ text.ended other.ended, CText.mk.injEq]
  flip text other := by
    rw [strcmp, strcmp, strcmpBytes_swap text.bytes other.bytes]
    omega
  trans text middle other less below :=
    strcmpBytes_trans _ _ _ other.ended less below

/-! ## vnetwork.c -/

/-- The trees, and the names of every network that was allocated. A tree's entries are the
`entry` or the `entry_id` fields of the networks. -/
structure NetworkTrees where
  count : Nat
  id : VnetId → CText
  uuid : VnetId → CText
  vnetworks : Head VnetId
  vnetworksId : Head VnetId

/-- What calloc leaves in an entry. -/
def entryZero : Entry VnetId := ⟨none, none, none, .black⟩

namespace NetworkTrees

/-- Both trees have no root. -/
def initial : NetworkTrees :=
  { count := 0, id := fun _ => cText [], uuid := fun _ => cText [],
    vnetworks := ⟨none, fun _ => entryZero⟩, vnetworksId := ⟨none, fun _ => entryZero⟩ }

/-- How many rounds the loops of the trees are given. -/
def rounds (trees : NetworkTrees) : Nat := roundsFor trees.count

/-- `vnetwork_lookup` -/
def vnetworkLookup (trees : NetworkTrees) (uuid : CText) : Option (Option VnetId) :=
  rbFind trees.rounds trees.vnetworks fun v => strcmp uuid (trees.uuid v)

/-- `vnetwork_lookup_id` -/
def vnetworkLookupId (trees : NetworkTrees) (id : CText) : Option (Option VnetId) :=
  rbFind trees.rounds trees.vnetworksId fun v => strcmp id (trees.id v)

/-- `vnetwork_create`. Whether a tree refuses the network is not looked at. -/
def vnetworkCreate (trees : NetworkTrees) (id uuid : CText) : Option NetworkTrees := do
  let vnet := trees.count
  let uuids := Function.update trees.uuid vnet uuid
  let ids := Function.update trees.id vnet id
  let (vnetworks, _) ← rbInsert trees.rounds trees.vnetworks
    (fun v => strcmp (uuids vnet) (uuids v)) vnet
  let (vnetworksId, _) ← rbInsert trees.rounds trees.vnetworksId
    (fun v => strcmp (ids vnet) (ids v)) vnet
  return { count := vnet + 1, id := ids, uuid := uuids, vnetworks := vnetworks,
           vnetworksId := vnetworksId }

/-- `vnetwork_disable` on the tree of ids: the network of an id is taken out. -/
def disableId (trees : NetworkTrees) (id : CText) : Option NetworkTrees := do
  match ← trees.vnetworkLookupId id with
  | none => return trees
  | some vnetId =>
    let (vnetworksId, _) ← rbRemove trees.rounds trees.vnetworksId vnetId
    return { trees with vnetworksId := vnetworksId }

/-- `vnetwork_disable` -/
def vnetworkDisable (trees : NetworkTrees) (uuid : CText) :
    Option (NetworkTrees × Option VnetId) := do
  match ← trees.vnetworkLookup uuid with
  | none => return (trees, none)
  | some vnet =>
    let (vnetworks, _) ← rbRemove trees.rounds trees.vnetworks vnet
    let trees ← { trees with vnetworks := vnetworks }.disableId (trees.id vnet)
    return (trees, some vnet)

/-- What an event of the switch does to the trees. -/
def step (trees : NetworkTrees) : Event → Option NetworkTrees
  | .createNetwork id uuid => trees.vnetworkCreate (cText id) (cText uuid)
  | .delNetwork (some uuid) => (trees.vnetworkDisable (cText uuid)).map Prod.fst
  | _ => some trees

end NetworkTrees

/-! ## The tables of texts -/

/-- The entries of a table that are under texts. -/
def texts (table : Table (List UInt8) VnetId) : Table CText VnetId :=
  fun text => table.find text.bytes

theorem texts_insert (table : Table (List UInt8) VnetId) (key : CText) (v : VnetId) :
    texts (table.insert key.bytes v) = (texts table).insert key v := by
  ext1 text
  change (table.insert key.bytes v).find text.bytes = _
  rw [Table.find_insert, Table.find_insert]
  cases text
  cases key
  simp only [CText.mk.injEq]
  rfl

theorem texts_erase (table : Table (List UInt8) VnetId) (key : CText) :
    texts (table.erase key.bytes) = (texts table).erase key := by
  ext1 text
  change (table.erase key.bytes).find text.bytes = _
  rw [Table.find_erase, Table.find_erase]
  cases text
  cases key
  simp only [CText.mk.injEq]
  rfl

/-- The names of a tree's elements are all that counts. -/
theorem stores_renamed {key key' : VnetId → CText} {head : Head VnetId}
    {table : Table CText VnetId} {count : Nat} (stores : Stores key strcmp head table count)
    (same : ∀ sought v, table.find sought = some v → key' v = key v) :
    Stores key' strcmp head table count := by
  obtain ⟨tree, formed, few, exact⟩ := stores
  have kept : ∀ v ∈ tree.elems, key' v = key v :=
    fun v inside => same (key v) v ((exact _ _).mpr ⟨inside, rfl⟩)
  refine ⟨tree, ⟨formed.place, formed.valid, ?_⟩, few, fun sought v => ?_⟩
  · refine List.Pairwise.imp_of_mem ?_ formed.sorted
    intro v other inside inside' less
    rwa [kept v inside, kept other inside']
  · rw [exact]
    constructor
    · rintro ⟨inside, rfl⟩
      exact ⟨inside, kept v inside⟩
    · rintro ⟨inside, rfl⟩
      exact ⟨inside, (kept v inside).symm⟩

/-! ## The trees beside the switch -/

/-- The trees store the tables of the switch, and know the names of its networks. -/
structure NetworkTrees.Beside (trees : NetworkTrees) (switch : Switch) : Prop where
  count : trees.count = switch.vnetCount
  uuids : ∀ v vnet, switch.vnets v = some vnet → (trees.uuid v).bytes = vnet.uuid
  ids : ∀ v vnet, switch.vnets v = some vnet → (trees.id v).bytes = vnet.id
  vnetworks : Stores trees.uuid strcmp trees.vnetworks (texts switch.vnetworks) switch.vnetCount
  vnetworksId : Stores trees.id strcmp trees.vnetworksId (texts switch.vnetworksId)
    switch.vnetCount

theorem initial_beside : NetworkTrees.initial.Beside Switch.initial where
  count := rfl
  uuids v vnet home := by cases home
  ids v vnet home := by cases home
  vnetworks := stores_empty fun _ => entryZero
  vnetworksId := stores_empty fun _ => entryZero

theorem names_update {vnets : VnetId → Option VNetwork} (name : VNetwork → List UInt8)
    (names : VnetId → CText)
    (known : ∀ v vnet, vnets v = some vnet → (names v).bytes = name vnet)
    (new : VnetId) (created : VNetwork) (text : CText) (same : text.bytes = name created)
    (v : VnetId) (vnet : VNetwork)
    (home : Function.update vnets new (some created) v = some vnet) :
    (Function.update names new text v).bytes = name vnet := by
  by_cases own : v = new
  · subst own
    rw [Function.update_self] at home ⊢
    cases home
    exact same
  · rw [Function.update_of_ne own] at home ⊢
    exact known v vnet home

section Calls
variable {switch : Switch} {trees : NetworkTrees} (beside : trees.Beside switch)
include beside

theorem NetworkTrees.Beside.enough : roundsFor switch.vnetCount ≤ trees.rounds := by
  rw [NetworkTrees.rounds, beside.count]

theorem NetworkTrees.Beside.lookup (uuid : CText) :
    trees.vnetworkLookup uuid = some (switch.vnetworks.find uuid.bytes) :=
  beside.vnetworks.find compares_strcmp uuid _ beside.enough

theorem NetworkTrees.Beside.lookupId (id : CText) :
    trees.vnetworkLookupId id = some (switch.vnetworksId.find id.bytes) :=
  beside.vnetworksId.find compares_strcmp id _ beside.enough

/-- The network of an id is in the tree of ids, or there is none. -/
theorem NetworkTrees.Beside.disableId
    (indexed : ∀ id v, switch.vnetworksId.find id = some v →
      ∃ vnet, switch.vnets v = some vnet ∧ vnet.id = id) (id : CText) :
    ∃ after, trees.disableId id = some after ∧
      after.Beside { switch with vnetworksId := switch.vnetworksId.erase id.bytes } := by
  cases known : switch.vnetworksId.find id.bytes with
  | none =>
    have same : switch.vnetworksId.erase id.bytes = switch.vnetworksId := by
      ext1 other
      rw [Table.find_erase]
      by_cases own : other = id.bytes
      · rw [if_pos own, own, known]
      · exact if_neg own
    rw [same]
    exact ⟨trees, by rw [NetworkTrees.disableId, beside.lookupId, known]; rfl, beside⟩
  | some w =>
    obtain ⟨vnet, home, named⟩ := indexed _ _ known
    have own : trees.id w = id := by
      rw [← (trees.id w).cText_eq, beside.ids w vnet home, named, id.cText_eq]
    have there : (texts switch.vnetworksId).find (trees.id w) = some w := own ▸ known
    obtain ⟨vnetworksId, removed, stored⟩ :=
      beside.vnetworksId.remove compares_strcmp w there _ beside.enough
    rw [own, ← texts_erase] at stored
    refine ⟨{ trees with vnetworksId := vnetworksId }, ?_,
      { beside with vnetworksId := stored }⟩
    rw [NetworkTrees.disableId, beside.lookupId, known]
    simp only [removed, Option.bind_eq_bind, Option.bind_some]
    rfl

variable (inv : Inv switch)
include inv

/-- A new network has no name that counts for an element of the trees. -/
theorem NetworkTrees.Beside.create (id uuid : CText) :
    ∃ after, trees.vnetworkCreate id uuid = some after ∧
      after.Beside (Nvswitch.vnetworkCreate switch id.bytes uuid.bytes) := by
  have old : ∀ v vnet, switch.vnets v = some vnet → v ≠ trees.count := by
    intro v vnet home
    rw [beside.count]
    exact Nat.ne_of_lt (inv.vnets v vnet home).known
  have uuids : Stores (Function.update trees.uuid trees.count uuid) strcmp trees.vnetworks
      (texts switch.vnetworks) switch.vnetCount := by
    refine stores_renamed beside.vnetworks fun sought v found => ?_
    obtain ⟨vnet, home, _⟩ := inv.indexed _ _ found
    exact Function.update_of_ne (old v vnet home) _ _
  have ids : Stores (Function.update trees.id trees.count id) strcmp trees.vnetworksId
      (texts switch.vnetworksId) switch.vnetCount := by
    refine stores_renamed beside.vnetworksId fun sought v found => ?_
    obtain ⟨vnet, home, _⟩ := inv.indexedId _ _ found
    exact Function.update_of_ne (old v vnet home) _ _
  obtain ⟨vnetworks, inserted, stored⟩ := uuids.insert compares_strcmp trees.count _ beside.enough
  obtain ⟨vnetworksId, inserted', stored'⟩ := ids.insert compares_strcmp trees.count _ beside.enough
  rw [Function.update_self, ← texts_insert] at stored stored'
  refine ⟨⟨trees.count + 1, Function.update trees.id trees.count id,
    Function.update trees.uuid trees.count uuid, vnetworks, vnetworksId⟩, ?_, ?_⟩
  · simp only [NetworkTrees.vnetworkCreate, inserted, inserted', Option.bind_eq_bind,
      Option.bind_some]
    rfl
  · rw [beside.count] at stored stored' ⊢
    constructor
    case count => rfl
    case vnetworks => exact stored
    case vnetworksId => exact stored'
    case uuids => exact names_update VNetwork.uuid _ beside.uuids _ _ _ rfl
    case ids => exact names_update VNetwork.id _ beside.ids _ _ _ rfl

/-- The network of a known uuid leaves the tree of uuids, and the one of its id the other tree. -/
theorem NetworkTrees.Beside.disable (uuid : CText) :
    (switch.vnetworks.find uuid.bytes = none ∧
      trees.vnetworkDisable uuid = some (trees, none)) ∨
    ∃ v vnet after, switch.vnetworks.find uuid.bytes = some v ∧ switch.vnets v = some vnet ∧
      trees.vnetworkDisable uuid = some (after, some v) ∧ after.Beside { switch with
        vnetworks := switch.vnetworks.erase uuid.bytes
        vnetworksId := switch.vnetworksId.erase vnet.id } := by
  cases known : switch.vnetworks.find uuid.bytes with
  | none =>
    refine Or.inl ⟨rfl, ?_⟩
    rw [NetworkTrees.vnetworkDisable, beside.lookup, known]
    rfl
  | some v =>
    obtain ⟨vnet, home, named⟩ := inv.indexed _ _ known
    have own : trees.uuid v = uuid := by
      rw [← (trees.uuid v).cText_eq, beside.uuids v vnet home, named, uuid.cText_eq]
    have there : (texts switch.vnetworks).find (trees.uuid v) = some v := own ▸ known
    obtain ⟨vnetworks, removed, stored⟩ :=
      beside.vnetworks.remove compares_strcmp v there _ beside.enough
    rw [own, ← texts_erase] at stored
    have halfway : ({ trees with vnetworks := vnetworks } : NetworkTrees).Beside
        { switch with vnetworks := switch.vnetworks.erase uuid.bytes } :=
      { beside with vnetworks := stored }
    obtain ⟨after, erased, beside'⟩ := halfway.disableId inv.indexedId (trees.id v)
    rw [beside.ids v vnet home] at beside'
    refine Or.inr ⟨v, vnet, after, rfl, home, ?_, beside'⟩
    rw [NetworkTrees.vnetworkDisable, beside.lookup, known]
    simp only [removed, erased, Option.bind_eq_bind, Option.bind_some]
    rfl

end Calls

/-! ## Events that leave the trees alone -/

/-- What the trees are beside. -/
structure Indexes where
  vnetCount : Nat
  names : VnetId → Option (List UInt8 × List UInt8)
  vnetworks : Table (List UInt8) VnetId
  vnetworksId : Table (List UInt8) VnetId

def Switch.indexes (switch : Switch) : Indexes :=
  { vnetCount := switch.vnetCount
    names := fun v => (switch.vnets v).map fun vnet => (vnet.uuid, vnet.id)
    vnetworks := switch.vnetworks
    vnetworksId := switch.vnetworksId }

theorem NetworkTrees.Beside.congr {switch after : Switch} {trees : NetworkTrees}
    (beside : trees.Beside switch) (same : after.indexes = switch.indexes) :
    trees.Beside after := by
  have count : after.vnetCount = switch.vnetCount := congrArg Indexes.vnetCount same
  have vnetworks : after.vnetworks = switch.vnetworks := congrArg Indexes.vnetworks same
  have vnetworksId : after.vnetworksId = switch.vnetworksId := congrArg Indexes.vnetworksId same
  have names : ∀ v vnet, after.vnets v = some vnet → ∃ old, switch.vnets v = some old ∧
      old.uuid = vnet.uuid ∧ old.id = vnet.id := by
    intro v vnet home
    have name := congrFun (congrArg Indexes.names same) v
    simp only [Switch.indexes, home, Option.map_some] at name
    obtain ⟨old, there, both⟩ := Option.map_eq_some_iff.mp name.symm
    exact ⟨old, there, (Prod.mk.inj both).1, (Prod.mk.inj both).2⟩
  constructor
  case count => exact beside.count.trans count.symm
  case vnetworks => exact vnetworks ▸ count ▸ beside.vnetworks
  case vnetworksId => exact vnetworksId ▸ count ▸ beside.vnetworksId
  case uuids =>
    intro v vnet home
    obtain ⟨old, there, same, _⟩ := names v vnet home
    exact same ▸ beside.uuids v old there
  case ids =>
    intro v vnet home
    obtain ⟨old, there, _, same⟩ := names v vnet home
    exact same ▸ beside.ids v old there

theorem indexes_setVnet (switch : Switch) (v : VnetId) (vnet changed : VNetwork)
    (home : switch.vnets v = some vnet) (uuid : changed.uuid = vnet.uuid)
    (id : changed.id = vnet.id) : (switch.setVnet v changed).indexes = switch.indexes := by
  have names : ∀ w, ((switch.setVnet v changed).vnets w).map (fun vnet => (vnet.uuid, vnet.id)) =
      (switch.vnets w).map fun vnet => (vnet.uuid, vnet.id) := by
    intro w
    by_cases own : w = v
    · subst own
      simp [home, uuid, id]
    · simp [own]
  exact congrArg (fun names => Indexes.mk switch.vnetCount names switch.vnetworks
    switch.vnetworksId) (funext names)

theorem Quiet.indexes {switch after : Switch} (quiet : Quiet switch after) :
    after.indexes = switch.indexes := by
  have names : ∀ v, (after.vnets v).map (fun vnet => (vnet.uuid, vnet.id)) =
      (switch.vnets v).map fun vnet => (vnet.uuid, vnet.id) := by
    intro v
    have core := congrArg (Option.map fun core : VNetworkCore => (core.uuid, core.id))
      (quiet.vnets v)
    rw [Option.map_map, Option.map_map] at core
    exact core
  simp only [Switch.indexes, names, quiet.vnetCount, quiet.vnetworks, quiet.vnetworksId]

theorem indexes_netSendMsg (switch : Switch) (s : SessionId) (message : Outgoing) :
    (switch.netSendMsg s message).indexes = switch.indexes := rfl

theorem indexes_sendEach (switch : Switch) (recipients : List SessionId) (message : Outgoing) :
    (sendEach switch recipients message).indexes = switch.indexes := by
  induction recipients generalizing switch with
  | nil => rfl
  | cons s rest inductionHypothesis => exact inductionHypothesis (switch.netSendMsg s message)

theorem indexes_introduce (switch after : Switch) (source target : SessionId) (now rand : Nat)
    (taken : introduce switch source target now rand = some after) :
    after.indexes = switch.indexes := by
  obtain ⟨_, _, v, vnet, _, _, _, home, rfl | asked⟩ := introduce_cases _ _ _ _ _ _ taken
  · rfl
  · obtain ⟨_, _, _, _, _, _, _, _, _, _, _, _, _, rfl⟩ := asked
    exact indexes_setVnet _ v vnet _ home rfl rfl

theorem indexes_forwardEthernet (switch after : Switch) (s : SessionId) (frame : List UInt8)
    (now rand : Nat) (taken : forwardEthernet switch s frame now rand = some after) :
    after.indexes = switch.indexes := by
  obtain ⟨session, found, ⟨_, rfl⟩ | sent⟩ := forwardEthernet_cases _ _ _ _ _ _ taken
  · rfl
  · obtain ⟨v, vnet, learned, source, _, _, _, learning, home, cases⟩ := sent
    have first : learned.indexes = switch.indexes := by
      obtain ⟨own, w, vnet', _, _, present, ⟨_, rfl⟩ | ⟨_, _, rfl⟩⟩ :=
        learn_cases _ _ _ _ _ learning
      · rfl
      · exact indexes_setVnet switch w vnet' _ present rfl rfl
    refine Eq.trans ?_ first
    rcases cases with ⟨_, rfl⟩ | ⟨target, _, _, _, introduced⟩ | ⟨recipients, _, _, _, rfl⟩
    · rfl
    · exact (indexes_introduce _ after source target now rand introduced).trans
        (indexes_netSendMsg learned target _)
    · exact indexes_sendEach learned recipients _

theorem indexes_authRequest (switch after : Switch) (s : SessionId) (certName : List UInt8)
    (code : Int) (taken : authRequest switch s certName = some (after, code)) :
    after.indexes = switch.indexes := by
  obtain ⟨session, _, cases⟩ := authRequest_cases switch after s certName code taken
  rcases cases with ⟨_, rfl⟩ | ⟨_, rfl⟩ | ⟨_, _, _, _, rfl⟩ | ⟨_, v, vnet, _, _, _, home, rfl⟩
  · rfl
  · rfl
  · rfl
  · exact indexes_setVnet switch v vnet _ home rfl rfl

section Ending
variable {switch : Switch} (inv : Inv switch)
include inv

theorem indexes_onSecure (after : Switch) (s : SessionId) (cert : X509)
    (taken : onSecure switch s cert = some after) : after.indexes = switch.indexes := by
  obtain ⟨session, found, cases⟩ := onSecure_cases switch after s cert taken
  rcases cases with ⟨_, rfl⟩ | ⟨_, _, rfl⟩ | ⟨_, _, _, _, _, _, _, _, rfl⟩ |
    ⟨info, v, vnet, joined, waiting, _, _, home, _, added, rfl⟩
  · rfl
  · rfl
  · rfl
  · obtain rfl := admitted_joined switch joined inv s session v vnet info found waiting home added
    obtain ⟨statuses, reported⟩ := updateNodeStatus_eq
      ((switch.setSession s (session.admitted vnet info)).joined v s
        (session.admitted vnet info) vnet) .online session.ip
      (withNetworkUuid info vnet).uuid (withNetworkUuid info vnet).networkUuid
    rw [reported]
    exact indexes_setVnet switch v vnet _ home rfl rfl

omit inv in
theorem indexes_onDisconnect (gone : Switch) (s : SessionId)
    (taken : onDisconnect switch s = some gone) : gone.indexes = switch.indexes := by
  obtain ⟨session, found, _⟩ := onDisconnect_cases _ _ _ taken
  by_cases fresh : session.state = .notAuthed
  · exact (onDisconnect_freed switch gone s session found (Or.inl fresh) taken).indexes
  · cases member : session.vnetwork with
    | none => exact (onDisconnect_freed switch gone s session found (Or.inr member) taken).indexes
    | some v =>
      obtain ⟨vnet, home, left⟩ :=
        onDisconnect_left switch gone s session v found fresh member taken
      exact left.indexes.trans (indexes_setVnet switch v vnet _ home rfl rfl)

end Ending

/-! ## Runs of the switch -/

/-- The names that come with an event are texts. -/
def Textual : Event → Prop
  | .createNetwork id uuid => 0 ∉ id ∧ 0 ∉ uuid
  | .delNetwork (some uuid) => 0 ∉ uuid
  | _ => True

/-- The event names no network to create or to delete. -/
def Aside : Event → Prop
  | .createNetwork _ _ => False
  | .delNetwork (some _) => False
  | _ => True

/-- Only vnetwork_create and vnetwork_disable change what the trees are beside. -/
theorem step_indexes (switch after : Switch) (inv : Inv switch) (event : Event)
    (aside : Aside event) (taken : Nvswitch.step switch event = some after) :
    after.indexes = switch.indexes := by
  cases event with
  | createNetwork id uuid => exact aside.elim
  | delNetwork networkUuid =>
    cases networkUuid with
    | none =>
      obtain rfl := Option.some.inj taken
      rfl
    | some uuid => exact aside.elim
  | connect s peerHost =>
    simp only [Nvswitch.step, Option.ite_none_left_eq_some] at taken
    obtain rfl := Option.some.inj taken.2
    rfl
  | input s env message =>
    obtain ⟨session, _, ⟨_, ended⟩ | ⟨_, dispatched⟩⟩ := input_cases _ _ _ _ _ taken
    · exact indexes_onDisconnect after s ended
    · cases message with
      | provRequest provCode =>
        obtain ⟨_, _, rfl⟩ := Option.map_eq_some_iff.mp dispatched
        rfl
      | authRequest certName =>
        obtain ⟨⟨_, code⟩, answered, rfl⟩ := Option.map_eq_some_iff.mp dispatched
        exact indexes_authRequest switch _ s certName code answered
      | netinfoRequest ipLocal macAddr =>
        obtain ⟨own, _, stored⟩ := Option.bind_eq_some_iff.mp dispatched
        obtain rfl := Option.some.inj stored
        rfl
      | other =>
        obtain ⟨gone, ended, released⟩ := Option.bind_eq_some_iff.mp dispatched
        obtain rfl := Option.some.inj released
        exact indexes_onDisconnect gone s ended
      | ethernet frame => exact indexes_forwardEthernet switch after s frame _ _ dispatched
      | invalid =>
        obtain ⟨_, _, rfl⟩ := Option.map_eq_some_iff.mp dispatched
        rfl
  | secure s cert => exact indexes_onSecure inv after s cert taken
  | disconnect s => exact indexes_onDisconnect after s taken
  | listNode uuid networkUuid =>
    rcases listNode_cases _ _ _ _ taken with ⟨_, rfl⟩ | ⟨v, vnet, _, _, home, _, rfl⟩
    · rfl
    · exact indexes_setVnet switch v vnet _ home rfl rfl
  | delNode node =>
    obtain ⟨⟨_, code⟩, deleted, rfl⟩ := Option.map_eq_some_iff.mp taken
    rcases delNode_cases _ _ _ _ deleted with
      ⟨_, rfl⟩ | ⟨_, _, v, vnet, _, _, _, _, home, _, marked⟩
    · rfl
    · rcases marked with ⟨_, rfl⟩ | ⟨s, session, _, _, rfl⟩
      · exact indexes_setVnet switch v vnet _ home rfl rfl
      · exact indexes_setVnet switch v vnet _ home rfl rfl

/-- A network that is freed is in neither tree, so that nothing has to change there. -/
theorem NetworkTrees.Beside.free {switch : Switch} {trees : NetworkTrees}
    (beside : trees.Beside switch) (sessions : SessionId → Option Session) (v : VnetId) :
    trees.Beside { switch with
      sessions := sessions
      vnets := Function.update switch.vnets v none } := by
  have older : ∀ w vnet, Function.update switch.vnets v none w = some vnet →
      switch.vnets w = some vnet := by
    intro w vnet home
    by_cases own : w = v
    · subst own
      rw [Function.update_self] at home
      cases home
    · rwa [Function.update_of_ne own] at home
  exact { beside with
    uuids := fun w vnet home => beside.uuids w vnet (older w vnet home)
    ids := fun w vnet home => beside.ids w vnet (older w vnet home) }

/-- Every step of the switch is a step of the trees. -/
theorem NetworkTrees.Beside.step {switch after : Switch} {trees : NetworkTrees}
    (beside : trees.Beside switch) (inv : Inv switch) (event : Event) (textual : Textual event)
    (taken : Nvswitch.step switch event = some after) :
    ∃ next, trees.step event = some next ∧ next.Beside after := by
  cases event with
  | createNetwork id uuid =>
    obtain rfl := Option.some.inj taken
    have created := beside.create inv (cText id) (cText uuid)
    rwa [cText_bytes id textual.1, cText_bytes uuid textual.2] at created
  | delNetwork networkUuid =>
    cases networkUuid with
    | none =>
      obtain rfl := Option.some.inj taken
      exact ⟨trees, rfl, beside⟩
    | some uuid =>
      obtain ⟨⟨_, code⟩, deleted, rfl⟩ := Option.map_eq_some_iff.mp taken
      have disabled := beside.disable inv (cText uuid)
      rw [cText_bytes uuid textual] at disabled
      rcases disabled with ⟨unknown, nothing⟩ | ⟨v, vnet, next, known, home, removed, beside'⟩
      · simp only [delNetwork, Nvswitch.vnetworkDisable, unknown, Option.bind_eq_bind,
          Option.bind_some] at deleted
        cases deleted
        exact ⟨trees, by rw [NetworkTrees.step, nothing]; rfl, beside⟩
      · refine ⟨next, by rw [NetworkTrees.step, removed]; rfl, ?_⟩
        rcases delNetwork_cases _ _ _ _ deleted with
          ⟨failed, _⟩ | ⟨_, w, vnet', members, _, same, found, present, _, rfl⟩
        · simp only [delNetwork, Nvswitch.vnetworkDisable, known, home, Option.bind_eq_bind,
            Option.pure_def, Option.bind_some] at deleted
          obtain ⟨members, _, walked⟩ := Option.bind_eq_some_iff.mp deleted
          obtain ⟨detached, _, freed⟩ := Option.bind_eq_some_iff.mp walked
          cases freed
          cases failed
        · cases same
          obtain rfl := Option.some.inj (known.symm.trans found)
          obtain rfl := Option.some.inj (home.symm.trans present)
          exact beside'.free _ v
  | _ =>
    refine ⟨trees, rfl, beside.congr (step_indexes switch after inv _ ?_ taken)⟩
    trivial

/-- The tree is one of networks that exist: no pointer in it leads to one that was freed. -/
def Living (head : Head VnetId) (switch : Switch) : Prop :=
  ∃ tree, At head [] tree ∧ ∀ v ∈ tree.elems, (switch.vnets v).isSome

theorem stores_living {switch : Switch} {head : Head VnetId} {names : VnetId → CText}
    {table : Table (List UInt8) VnetId} {count : Nat}
    (stores : Stores names strcmp head (texts table) count)
    (indexed : ∀ name v, table.find name = some v → (switch.vnets v).isSome) :
    Living head switch := by
  obtain ⟨tree, formed, _, exact⟩ := stores
  exact ⟨tree, formed.place, fun v inside =>
    indexed (names v).bytes v ((exact _ v).mpr ⟨inside, rfl⟩)⟩

/-- The trees beside the switch, over a run: both lookups return what its tables have, and
no pointer of a tree leads to a network that was freed.

Proof: induction over the events: the trees stay beside the switch, each event making the same
changes to them as to the two tables. What a tree stores is in its table, and a network in a
table is alive. -/
theorem network_trees (switch : Switch) (events : List Event)
    (textual : ∀ event ∈ events, Textual event)
    (reached : run Nvswitch.step Switch.initial events = some switch) :
    ∃ trees, run NetworkTrees.step .initial events = some trees ∧ trees.Beside switch ∧
      (∀ uuid, trees.vnetworkLookup uuid = some (switch.vnetworks.find uuid.bytes)) ∧
      (∀ id, trees.vnetworkLookupId id = some (switch.vnetworksId.find id.bytes)) ∧
      Living trees.vnetworks switch ∧ Living trees.vnetworksId switch := by
  have onward : ∃ trees, run NetworkTrees.step .initial events = some trees ∧
      trees.Beside switch := by
    induction events using List.reverseRecOn generalizing switch with
    | nil =>
      cases reached
      exact ⟨.initial, rfl, initial_beside⟩
    | append_singleton events event inductionHypothesis =>
      obtain ⟨before, early, taken⟩ := run_snoc _ _ _ _ _ reached
      obtain ⟨trees, ran, beside⟩ := inductionHypothesis before
        (fun other inside => textual other (List.mem_append_left _ inside)) early
      obtain ⟨next, stepped, beside'⟩ := beside.step (reachable_inv before events early) event
        (textual event (by simp)) taken
      exact ⟨next, run_extend _ _ _ _ _ _ ran stepped, beside'⟩
  obtain ⟨trees, ran, beside⟩ := onward
  have inv := reachable_inv switch events reached
  refine ⟨trees, ran, beside, beside.lookup, beside.lookupId,
    stores_living beside.vnetworks fun uuid v found => ?_,
    stores_living beside.vnetworksId fun id v found => ?_⟩
  · obtain ⟨vnet, home, _⟩ := inv.indexed uuid v found
    exact Option.isSome_of_eq_some home
  · obtain ⟨vnet, home, _⟩ := inv.indexedId id v found
    exact Option.isSome_of_eq_some home

/-- The third network shares an id with the second one, and is found by its uuid only. -/
def sharedRun : List Event :=
  [.createNetwork (ascii ['1']) (ascii ['a']), .createNetwork (ascii ['2']) (ascii ['b']),
    .createNetwork (ascii ['2']) (ascii ['c']), .delNetwork (some (ascii ['a']))]

def sharedSwitch : Switch := (run Nvswitch.step Switch.initial sharedRun).get (by decide)

theorem shared_trees :
    ∃ trees, run NetworkTrees.step .initial sharedRun = some trees ∧
      trees.Beside sharedSwitch ∧
      (∀ uuid, trees.vnetworkLookup uuid = some (sharedSwitch.vnetworks.find uuid.bytes)) ∧
      (∀ id, trees.vnetworkLookupId id = some (sharedSwitch.vnetworksId.find id.bytes)) ∧
      Living trees.vnetworks sharedSwitch ∧ Living trees.vnetworksId sharedSwitch :=
  network_trees sharedSwitch sharedRun (by simp [sharedRun, Textual, ascii])
    (Option.some_get _).symm

end NetVirt.Nvswitch
