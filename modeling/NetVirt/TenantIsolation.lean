import NetVirt.RequestEffects

/-!
# Tenant isolation in the controller

A request under the key of one client should neither read nor write what belongs to another.
Only the deletion of the context row asks whose network it is. Isolation is therefore
equivalent to a condition on the request: it names no network of another client, or what it
would do there does not happen.
-/

namespace NetVirt.Nvctrler

open Inet RowTables Decimal IpPool

/-- The network is another client's. -/
def Foreign (db : Db) (clientId : Int) (uuid : Text) : Prop :=
  ∃ context ∈ db.context.rows, context.uuid = uuid ∧ context.clientId ≠ clientId

/-- No row that another client owns is added, changed, deleted or listed, and no command about
another client's network is forwarded. -/
structure Isolated (clientId : Int) (db : Db) (handled : Handled) : Prop where
  contexts : ∀ context : Context, context.clientId ≠ clientId →
    (context ∈ handled.db.context.rows ↔ context ∈ db.context.rows)
  nodes : ∀ node : Node, Foreign db clientId node.networkUuid →
    (node ∈ handled.db.node.rows ↔ node ∈ db.node.rows)
  contextsListed : ∀ context ∈ db.context.rows, context.clientId ≠ clientId →
    ∀ reply networks, handled.answer.reply = some reply → reply.networks = some networks →
      context.listing ∉ networks
  nodesListed : ∀ node ∈ db.node.rows, Foreign db clientId node.networkUuid →
    ∀ reply nodes, handled.answer.reply = some reply → reply.nodes = some nodes →
      node.listing ∉ nodes
  forwarded : ∀ command ∈ handled.answer.forwarded, ∀ uuid, command.network = some uuid →
    ¬ Foreign db clientId uuid

section Isolation
variable (env : Env) (db : Db) (request : Request) (clientId : Int)

theorem Idle.isolated {handled : Handled} (idle : Idle db handled) :
    Isolated clientId db handled := by
  constructor
  case contexts => simp [idle.db]
  case nodes => simp [idle.db]
  case contextsListed =>
    intro context _ _ reply networks replied listed
    cases (idle.bare reply replied).1.symm.trans listed
  case nodesListed =>
    intro node _ _ reply nodes replied listed
    cases (idle.bare reply replied).2.symm.trans listed
  case forwarded => simp [idle.forwarded]

/-- A request about a network that is not foreign keeps to the client. -/
theorem Concerns.isolated {uuid : Text} {handled : Handled}
    (concerns : Concerns uuid db handled) (own : ¬ Foreign db clientId uuid) :
    Isolated clientId db handled := by
  constructor
  case contexts =>
    intro context other
    by_cases named : context.uuid = uuid
    · constructor
      · intro inside
        obtain ⟨old, oldIn, oldNamed, same⟩ := concerns.confined.owner context inside named
        exact absurd ⟨old, oldIn, oldNamed, same ▸ other⟩ own
      · intro inside
        exact absurd ⟨context, inside, named, other⟩ own
    · exact concerns.confined.contexts context named
  case nodes =>
    intro node foreign
    apply concerns.confined.nodes
    rintro rfl
    exact own foreign
  case contextsListed =>
    intro context _ _ reply networks replied listed
    cases (concerns.bare reply replied).1.symm.trans listed
  case nodesListed =>
    intro node _ _ reply nodes replied listed
    cases (concerns.bare reply replied).2.symm.trans listed
  case forwarded =>
    intro command sent other about foreign
    obtain rfl := Option.some.inj ((concerns.forwarded command sent).symm.trans about)
    exact own foreign

/-- Disturbing a foreign network breaks isolation. -/
theorem Disturbs.not_isolated {uuid : Text} {handled : Handled}
    (disturbs : Disturbs uuid db handled) (foreign : Foreign db clientId uuid) :
    ¬ Isolated clientId db handled := by
  intro isolated
  rcases disturbs with ⟨node, inside, named, gone⟩ | ⟨context, inside, named, gone⟩ |
    ⟨command, sent, about⟩
  · subst named
    exact gone ((isolated.nodes node foreign).mpr inside)
  · obtain ⟨owned, ownedIn, ownedNamed, other⟩ := foreign
    obtain rfl := db.context.row_unique ownedIn inside (ownedNamed.trans named.symm)
    exact gone ((isolated.contexts owned other).mpr inside)
  · exact isolated.forwarded command sent uuid about foreign

/-- The request reaches into a network of another client. -/
def Oversteps : Action → Prop
  | .addNetwork => False
  | .listNetwork => False
  | .delNetwork => ∃ network uuid own, DelNetworkWrites env db request network uuid own ∧
      Foreign db clientId uuid ∧ DelNetworkTouches env db uuid
  | .addNode => ∃ object description context,
      AddNodeWrites env db request object description context ∧ context.clientId ≠ clientId
  | .delNode => ∃ object node, DelNodeWrites env db request object node ∧
      Foreign db clientId node.networkUuid ∧ DelNodeTouches env db node
  | .listNode => ∃ network uuid own, ListNodeReads env db request network uuid own ∧
      Foreign db clientId uuid ∧ ∃ node ∈ db.node.rows, node.networkUuid = uuid

section Handlers
variable (key : Text) (carried : request.apikey = some key)
  (active : db.activeClient key = some clientId)
include carried active

/-- A lookup that finds a client finds the one that the key is of. -/
theorem lookedUp_active (found : Int) (looked : lookedUp env db request.apikey = some found) :
    found = clientId := by
  unfold lookedUp at looked
  split at looked
  · rw [carried, Option.bind_some, active] at looked
    exact (Option.some.inj looked).symm
  · cases looked

theorem delNetwork_isolated : Isolated clientId db (handle env db .delNetwork request) ↔
    ¬ Oversteps env db request clientId .delNetwork := by
  constructor
  · rintro isolated ⟨network, uuid, own, writes, foreign, touches⟩
    exact (delNetwork_disturbs env db request network uuid own writes touches).not_isolated db
      clientId foreign isolated
  · intro inside
    by_cases reaches : ∃ network uuid own, DelNetworkWrites env db request network uuid own
    · obtain ⟨network, uuid, own, writes⟩ := reaches
      obtain rfl := lookedUp_active env db request clientId key carried active own writes.client
      by_cases foreign : Foreign db own uuid
      · obtain ⟨context, contextIn, named, other⟩ := foreign
        apply Idle.isolated
        apply delNetwork_quiet env db request network uuid own writes
        · intro row rowIn rowNamed
          obtain rfl := db.context.row_unique rowIn contextIn (rowNamed.trans named.symm)
          exact other
        · intro touches
          exact inside ⟨network, uuid, own, writes, ⟨context, contextIn, named, other⟩, touches⟩
      · exact (delNetwork_concerns env db request network uuid own writes).isolated db own foreign
    · have result := delNetwork_result env db request
      generalize handle env db .delNetwork request = handled at result ⊢
      cases result with
      | turnedDown idle never => exact idle.isolated db clientId
      | stopped writes failed => exact absurd ⟨_, _, _, writes⟩ reaches
      | carriedOut writes done => exact absurd ⟨_, _, _, writes⟩ reaches

omit carried active in
theorem addNode_isolated : Isolated clientId db (handle env db .addNode request) ↔
    ¬ Oversteps env db request clientId .addNode := by
  constructor
  · rintro isolated ⟨object, description, context, writes, other⟩
    exact (addNode_disturbs env db request object description context writes).not_isolated db
      clientId ⟨context, writes.row, rfl, other⟩ isolated
  · intro inside
    by_cases reaches : ∃ object description context,
        AddNodeWrites env db request object description context
    · obtain ⟨object, description, context, writes⟩ := reaches
      apply (addNode_concerns env db request object description context writes).isolated
      rintro ⟨row, rowIn, named, other⟩
      obtain rfl := db.context.row_unique rowIn writes.row named
      exact inside ⟨object, description, row, writes, other⟩
    · have result := addNode_result env db request
      generalize handle env db .addNode request = handled at result ⊢
      cases result with
      | turnedDown idle never => exact idle.isolated db clientId
      | notAdded writes failed => exact absurd ⟨_, _, _, writes⟩ reaches
      | notStored writes new executed inserted failed => exact absurd ⟨_, _, _, writes⟩ reaches
      | carriedOut writes new executed inserted done => exact absurd ⟨_, _, _, writes⟩ reaches

omit carried active in
theorem delNode_isolated : Isolated clientId db (handle env db .delNode request) ↔
    ¬ Oversteps env db request clientId .delNode := by
  constructor
  · rintro isolated ⟨object, node, writes, foreign, touches⟩
    exact (delNode_disturbs env db request object node writes touches).not_isolated db clientId
      foreign isolated
  · intro inside
    by_cases reaches : ∃ object node, DelNodeWrites env db request object node
    · obtain ⟨object, node, writes⟩ := reaches
      by_cases foreign : Foreign db clientId node.networkUuid
      · apply Idle.isolated
        apply delNode_quiet env db request object node writes
        intro touches
        exact inside ⟨object, node, writes, foreign, touches⟩
      · exact (delNode_concerns env db request object node writes).isolated db clientId foreign
    · have result := delNode_result env db request
      generalize handle env db .delNode request = handled at result ⊢
      cases result with
      | turnedDown idle never => exact idle.isolated db clientId
      | noIppool writes missing => exact absurd ⟨_, _, writes⟩ reaches
      | notStored writes fetched found failed => exact absurd ⟨_, _, writes⟩ reaches
      | carriedOut writes fetched found done => exact absurd ⟨_, _, writes⟩ reaches

/-- The networks listed are the client's own. -/
theorem listNetwork_isolated : Isolated clientId db (handle env db .listNetwork request) := by
  have result := listNetwork_result env db request
  generalize handle env db .listNetwork request = handled at result ⊢
  cases result with
  | turnedDown idle => exact idle.isolated db clientId
  | listed client =>
    obtain rfl := lookedUp_active env db request clientId key carried active _ client
    refine ⟨fun _ _ => Iff.rfl, fun _ _ => Iff.rfl, ?_, ?_, by simp⟩
    · intro context inside other reply networks replied listed
      cases replied
      cases listed
      intro disclosed
      obtain ⟨own, ownIn, same⟩ := List.mem_map.mp disclosed
      obtain ⟨ownRow, mine⟩ := (RowTable.mem_select _ _ _).mp ownIn
      obtain rfl := db.context.row_unique ownRow inside (congrArg Prod.snd same)
      exact other (of_decide_eq_true mine)
    · intro node _ _ reply nodes replied listed
      cases replied
      cases listed

omit carried active in
theorem listNode_isolated : Isolated clientId db (handle env db .listNode request) ↔
    ¬ Oversteps env db request clientId .listNode := by
  have result := listNode_result env db request
  generalize handle env db .listNode request = handled at result ⊢
  cases result with
  | turnedDown idle never =>
    refine iff_of_true (idle.isolated db clientId) ?_
    rintro ⟨network, uuid, own, reads, _⟩
    exact never network uuid own reads
  | listed reads =>
    constructor
    · rintro isolated ⟨network, uuid, own, again, foreign, node, inside, named⟩
      obtain rfl := Option.some.inj (reads.asked.symm.trans again.asked)
      obtain rfl := Option.some.inj (reads.named.symm.trans again.named)
      subst named
      apply isolated.nodesListed node inside foreign _ _ rfl rfl
      apply List.mem_map_of_mem
      simpa using inside
    · intro inside
      refine ⟨fun _ _ => Iff.rfl, fun _ _ => Iff.rfl, ?_, ?_, by simp⟩
      · intro context _ _ reply networks replied listed
        cases replied
        cases listed
      · intro node nodeIn foreign reply nodes replied listed
        cases replied
        cases listed
        intro disclosed
        obtain ⟨row, rowIn, same⟩ := List.mem_map.mp disclosed
        obtain ⟨rowRow, named⟩ := (RowTable.mem_select _ _ _).mp rowIn
        obtain rfl := db.node.row_unique rowRow nodeIn (congrArg NodeListing.uuid same)
        have named := of_decide_eq_true named
        exact inside ⟨_, _, _, reads, named ▸ foreign, row, nodeIn, named⟩

/-- A request under the key of an active client keeps to that client's networks exactly when it
does not reach into a network of another.

Proof: one request after the other. What a handler writes or lists belongs to one network, and
it is a network of another client exactly when the request oversteps. -/
theorem tenant_isolation (action : Action) (about : action ≠ .addNetwork) :
    Isolated clientId db (handle env db action request) ↔
      ¬ Oversteps env db request clientId action := by
  cases action with
  | addNetwork => exact absurd rfl about
  | delNetwork => exact delNetwork_isolated env db request clientId key carried active
  | listNetwork =>
    exact iff_of_true (listNetwork_isolated env db request clientId key carried active) id
  | addNode => exact addNode_isolated env db request clientId
  | delNode => exact delNode_isolated env db request clientId
  | listNode => exact listNode_isolated env db request clientId

end Handlers

end Isolation

/-! ## A request for a network of another client -/

def sampleCertificate : Certificate :=
  { commonName := "embassy".toList, altName := none, issuer := "embassy".toList, serial := 0,
    authority := true }

def sampleContext : Context :=
  { uuid := "net-1".toList, clientId := 1, description := "home".toList,
    network := "44.128.0.0/16".toList, embassyCertificate := sampleCertificate,
    embassyPrivatekey := 0, embassySerial := 3, passportCertificate := sampleCertificate,
    passportPrivatekey := 1, ippool := ⟨List.replicate 8192 0, List.length_replicate⟩ }

def sampleNode : Node :=
  { networkUuid := "net-1".toList, uuid := "node-1".toList, certificate := sampleCertificate,
    privatekey := 2, status := 0, provcode := "code-1".toList, description := "laptop".toList,
    ipaddress := "44.128.0.1".toList }

/-- Two clients; the first one has a network with a node. -/
def sampleDb : Db :=
  { client := [{ id := 1, apikey := "key-1".toList, status := 1 },
      { id := 2, apikey := "key-2".toList, status := 1 }]
    context := { rows := [sampleContext], unique := List.nodup_singleton _ }
    node := { rows := [sampleNode], unique := List.nodup_singleton _ } }

def sampleEnv : Env :=
  { endian := .little, outcome := fun _ => .done, contextUuid := "net-2".toList,
    uuid := "node-2".toList, provcode := "code-2".toList, keyring := 3, secondKeyring := 4,
    switchConnected := true }

/-- `del-network` for "net-1" under the key of the second client. -/
def sampleIntruder : Request :=
  { apikey := some "key-2".toList
    network := some { uuid := some "net-1".toList, name := none }
    node := none }

/-- The deletion finds a node in the network of the first client. -/
theorem intruder_oversteps : Oversteps sampleEnv sampleDb sampleIntruder 2 .delNetwork := by
  have writes : DelNetworkWrites sampleEnv sampleDb sampleIntruder
      { uuid := some "net-1".toList, name := none } "net-1".toList 2 :=
    ⟨rfl, rfl, by decide, by decide⟩
  have touches : DelNetworkTouches sampleEnv sampleDb "net-1".toList :=
    Or.inl ⟨rfl, sampleNode, List.mem_singleton_self _, rfl⟩
  have foreign : Foreign sampleDb 2 "net-1".toList :=
    ⟨sampleContext, List.mem_singleton_self _, rfl, by decide⟩
  exact ⟨_, _, _, writes, foreign, touches⟩

/-- The nodes of the first client's network are deleted under the second client's key. -/
theorem intruder_not_isolated : sampleDb.activeClient "key-2".toList = some 2 ∧
    ¬ Isolated 2 sampleDb (handle sampleEnv sampleDb .delNetwork sampleIntruder) := by
  refine ⟨by decide, fun isolated => ?_⟩
  exact (delNetwork_isolated _ _ _ 2 "key-2".toList rfl (by decide)).mp isolated intruder_oversteps

/-- `list-node` for "net-1" under the key of its owner. -/
def sampleListing : Request :=
  { apikey := some "key-1".toList
    network := some { uuid := some "net-1".toList, name := none }
    node := none }

/-- The owner may list the nodes of the network, and the other client may not delete them. -/
theorem tenant_isolation_intruder :
    Isolated 1 sampleDb (handle sampleEnv sampleDb .listNode sampleListing) ∧
      Oversteps sampleEnv sampleDb sampleIntruder 2 .delNetwork ∧
      ¬ Isolated 2 sampleDb (handle sampleEnv sampleDb .delNetwork sampleIntruder) := by
  refine ⟨?_, intruder_oversteps, fun isolated => ?_⟩
  · refine (tenant_isolation sampleEnv sampleDb sampleListing 1 "key-1".toList rfl (by decide)
      .listNode (by decide)).mpr ?_
    rintro ⟨network, uuid, own, reads, ⟨context, inside, named, other⟩, _⟩
    obtain rfl := List.mem_singleton.mp inside
    exact other rfl
  · exact (tenant_isolation sampleEnv sampleDb sampleIntruder 2 "key-2".toList rfl (by decide)
      .delNetwork (by decide)).mp isolated intruder_oversteps

end NetVirt.Nvctrler
