import NetVirt.CtrlerRequests

/-!
# What each request can do

One statement for each handler: either the request is turned down, and then nothing is
written, forwarded or listed, or it reaches its first write, and then what it leaves is
decided by which of the later calls fail. Everything that is proved about the handlers is
proved from these statements.
-/

namespace NetVirt.Nvctrler

open Inet RowTables Decimal IpPool

/-- The reply lists nothing. -/
def Answer.Bare (answer : Answer) : Prop :=
  ∀ reply, answer.reply = some reply → reply.networks = none ∧ reply.nodes = none

/-- Nothing was written, forwarded or listed. -/
structure Idle (db : Db) (handled : Handled) : Prop where
  db : handled.db = db
  forwarded : handled.answer.forwarded = []
  bare : handled.answer.Bare

@[simp]
theorem silent_bare : Answer.silent.Bare := by
  intro reply replied
  cases replied

@[simp]
theorem responds_bare (response : Text) : (Answer.responds response).Bare := by
  intro reply replied
  cases replied
  exact ⟨rfl, rfl⟩

theorem carried_bare (response : Option Text) (forwarded : List Command) :
    Answer.Bare { reply := some { response := response }, forwarded := forwarded } := by
  intro reply replied
  cases replied
  exact ⟨rfl, rfl⟩

@[simp]
theorem silent_forwarded : Answer.silent.forwarded = [] := rfl

@[simp]
theorem responds_forwarded (response : Text) : (Answer.responds response).forwarded = [] := rfl

@[simp]
theorem handled_bind {Value : Type} (first : Dao Value) (rest : Value → Dao Answer)
    (access : Access) :
    (first >>= rest).handled access = (rest (first access).1).handled (first access).2 := rfl

@[simp]
theorem handled_pure (answer : Answer) (access : Access) : Dao.handled (pure answer) access =
    { db := access.db, codes := access.codes, answer := answer } := rfl

/-! The tests of a return code. -/

theorem no_error : ((0 : Int) = -1) = False := by decide

theorem no_failure : ((0 : Int) < 0) = False := by decide

/-! ## Calls

What follows a call is looked at once for each way the call can go.
-/

section Rules
variable {Value : Type} (P : Handled → Prop) (env : Env) (statement : Statement) (access : Access)

theorem lookup_rule (apikey : Option Text) (rest : Int × Option Int → Dao Answer)
    (admitted : Admitted env apikey →
      P ((rest (0, lookedUp env access.db apikey)).handled (access.log 0)))
    (refused : ¬ Admitted env apikey → lookedUp env access.db apikey = none →
      P ((rest (-1, none)).handled (access.log (-1)))) :
    P ((daoFetchClientIdByApikey env apikey >>= rest).handled access) := by
  rcases lookup_cases env apikey access with ⟨yes, looked⟩ | ⟨no, nobody, looked⟩
  · rw [handled_bind, looked]
    exact admitted yes
  · rw [handled_bind, looked]
    exact refused no nobody

theorem fetchFirst_rule (read : Db → Option Value) (rest : Int × Option Value → Dao Answer)
    (found : ∀ value, env.outcome statement = .done → read access.db = some value →
      P ((rest (0, some value)).handled (access.log 0)))
    (missing : (env.outcome statement = .done → read access.db = none) →
      P ((rest (-1, none)).handled (access.log (-1)))) :
    P ((fetchFirst env statement read >>= rest).handled access) := by
  rw [handled_bind]
  by_cases nothing : env.outcome statement = .done → read access.db = none
  · rw [fetchFirst_missing env statement access read nothing]
    exact missing nothing
  · obtain ⟨done, some⟩ := Classical.not_imp.mp nothing
    obtain ⟨value, row⟩ := Option.ne_none_iff_exists'.mp some
    rw [fetchFirst_found env statement access read value done row]
    exact found value done row

theorem fetchAll_rule (read : Db → List Value) (rest : Int × List Value → Dao Answer)
    (done : env.outcome statement = .done →
      P ((rest (0, read access.db)).handled (access.log 0)))
    (failed : env.outcome statement ≠ .done →
      P ((rest (-1, [])).handled (access.log (-1)))) :
    P ((fetchAll env statement read >>= rest).handled access) := by
  rw [handled_bind]
  by_cases executed : env.outcome statement = .done
  · rw [fetchAll_done env statement access read executed]
    exact done executed
  · rw [fetchAll_failed env statement access read executed]
    exact failed executed

theorem writeChecked_rule (write : Db → Option Db) (rest : Int → Dao Answer)
    (done : ∀ db, env.outcome statement = .done → write access.db = some db →
      P ((rest 0).handled ((access.write db).log 0)))
    (failed : (env.outcome statement = .done → write access.db = none) →
      P ((rest (-1)).handled (access.log (-1)))) :
    P ((writeChecked env statement write >>= rest).handled access) := by
  rw [handled_bind]
  by_cases nothing : env.outcome statement = .done → write access.db = none
  · rw [writeChecked_failed env statement access write nothing]
    exact failed nothing
  · obtain ⟨executed, some⟩ := Classical.not_imp.mp nothing
    obtain ⟨db, written⟩ := Option.ne_none_iff_exists'.mp some
    rw [writeChecked_done env statement access write db executed written]
    exact done db executed written

theorem writeUnchecked_rule (write : Db → Db) (rest : Int → Dao Answer)
    (result : env.outcome statement ≠ .noResult →
      P ((rest 0).handled ((access.write
        ((env.outcome statement).leaves access.db (write access.db))).log 0)))
    (failed : env.outcome statement = .noResult →
      P ((rest (-1)).handled (access.log (-1)))) :
    P ((writeUnchecked env statement write >>= rest).handled access) := by
  rw [handled_bind]
  by_cases nothing : env.outcome statement = .noResult
  · rw [writeUnchecked_noResult env statement access write nothing]
    exact failed nothing
  · rw [writeUnchecked_result env statement access write nothing]
    exact result nothing

end Rules

section Handlers
variable (env : Env) (db : Db) (request : Request)

/-! ## Deleting a network -/

/-- The request deletes the node rows of a network. -/
structure DelNetworkWrites (network : NetworkObject) (uuid : Text) (clientId : Int) : Prop where
  asked : request.network = some network
  named : network.uuid = some uuid
  client : lookedUp env db request.apikey = some clientId
  nodes : env.outcome .delNodeByContextId ≠ .noResult

/-- The database without the node rows of a network. -/
def Env.emptied (env : Env) (db : Db) (uuid : Text) : Db :=
  (env.outcome .delNodeByContextId).leaves db (db.deleteNodes uuid)

/-- What `del_network` leaves. -/
inductive DelNetworkResult : Handled → Prop where
  | turnedDown {handled : Handled} (idle : Idle db handled)
      (never : ∀ network uuid clientId, ¬ DelNetworkWrites env db request network uuid clientId) :
      DelNetworkResult handled
  | stopped {network : NetworkObject} {uuid : Text} {clientId : Int}
      (writes : DelNetworkWrites env db request network uuid clientId)
      (failed : env.outcome .delContext = .noResult) :
      DelNetworkResult { db := env.emptied db uuid, codes := [0, 0, -1], answer := .silent }
  | carriedOut {network : NetworkObject} {uuid : Text} {clientId : Int}
      (writes : DelNetworkWrites env db request network uuid clientId)
      (done : env.outcome .delContext ≠ .noResult) :
      DelNetworkResult
        { db := (env.outcome .delContext).leaves (env.emptied db uuid)
            ((env.emptied db uuid).deleteContext clientId uuid)
          codes := [0, 0, 0]
          answer := { reply := some {}, forwarded := env.forward (.delNetwork (some uuid)) } }

theorem delNetwork_result :
    DelNetworkResult env db request (handle env db .delNetwork request) := by
  unfold handle handler delNetwork
  cases asked : request.network with
  | none =>
    refine .turnedDown ⟨rfl, rfl, silent_bare⟩ ?_
    intro network uuid clientId writes
    cases asked.symm.trans writes.asked
  | some network =>
    apply lookup_rule
    case refused =>
      intro _ nobody
      refine .turnedDown ⟨rfl, rfl, responds_bare _⟩ ?_
      intro network uuid clientId writes
      cases nobody.symm.trans writes.client
    case admitted =>
      intro _
      cases client : lookedUp env db request.apikey with
      | none =>
        refine .turnedDown ⟨rfl, rfl, responds_bare _⟩ ?_
        intro network uuid clientId writes
        cases client.symm.trans writes.client
      | some clientId =>
        cases named : network.uuid with
        | none =>
          refine .turnedDown ⟨rfl, rfl, silent_bare⟩ ?_
          intro same uuid clientId writes
          obtain rfl := Option.some.inj (asked.symm.trans writes.asked)
          cases named.symm.trans writes.named
        | some uuid =>
          simp only [daoDelNodeByContextId, daoDelContext, no_error, if_false]
          apply writeUnchecked_rule
          case failed =>
            intro failed
            refine .turnedDown ⟨rfl, rfl, silent_bare⟩ ?_
            intro network uuid clientId writes
            exact writes.nodes failed
          case result =>
            intro result
            have writes : DelNetworkWrites env db request network uuid clientId :=
              ⟨asked, named, client, result⟩
            simp only [no_failure, if_false]
            apply writeUnchecked_rule
            case result => exact .carriedOut writes
            case failed => exact .stopped writes

/-! ## Deleting a node -/

/-- The request deletes a node row. -/
structure DelNodeWrites (object : NodeObject) (node : Node) : Prop where
  asked : request.node = some object
  admitted : Admitted env request.apikey
  fetched : env.outcome .fetchNodeIp = .done
  row : node ∈ db.node.rows
  network : object.networkuuid = some node.networkUuid
  uuid : object.uuid = some node.uuid
  result : env.outcome .delNode ≠ .noResult

/-- The database without a node row. -/
def Env.revoked (env : Env) (db : Db) (node : Node) : Db :=
  (env.outcome .delNode).leaves db (db.deleteNode node.networkUuid node.uuid)

/-- What `del_node` leaves. -/
inductive DelNodeResult : Handled → Prop where
  | turnedDown {handled : Handled} (idle : Idle db handled)
      (never : ∀ object node, ¬ DelNodeWrites env db request object node) : DelNodeResult handled
  | noIppool {object : NodeObject} {node : Node} (writes : DelNodeWrites env db request object node)
      (missing : env.outcome .fetchContextIppool = .done → db.context? node.networkUuid = none) :
      DelNodeResult
        { db := env.revoked db node, codes := [0, 0, 0, -1], answer := .responds "error".toList }
  | notStored {object : NodeObject} {node : Node} {context : Context}
      (writes : DelNodeWrites env db request object node)
      (fetched : env.outcome .fetchContextIppool = .done)
      (found : db.context? node.networkUuid = some context)
      (failed : env.outcome .updateContextIppool ≠ .done) :
      DelNodeResult
        { db := env.revoked db node, codes := [0, 0, 0, 0, -1]
          answer := { reply := some {}, forwarded := env.forward (.delNode object) } }
  | carriedOut {object : NodeObject} {node : Node} {context : Context}
      (writes : DelNodeWrites env db request object node)
      (fetched : env.outcome .fetchContextIppool = .done)
      (found : db.context? node.networkUuid = some context)
      (done : env.outcome .updateContextIppool = .done) :
      DelNodeResult
        { db := (env.revoked db node).storeIppool node.networkUuid
            (releaseIp env.endian context.ippool node.ipaddress)
          codes := [0, 0, 0, 0, 0]
          answer := { reply := some {}, forwarded := env.forward (.delNode object) } }

theorem Env.revoked_context (node : Node) : (env.revoked db node).context = db.context := by
  unfold Env.revoked Outcome.leaves
  split <;> rfl

theorem Env.revoked_context? (node : Node) (uuid : Text) :
    (env.revoked db node).context? uuid = db.context? uuid := by
  unfold Db.context?
  rw [Env.revoked_context]

theorem delNode_result : DelNodeResult env db request (handle env db .delNode request) := by
  unfold handle handler delNode
  cases asked : request.node with
  | none =>
    refine .turnedDown ⟨rfl, rfl, silent_bare⟩ ?_
    intro object node writes
    cases asked.symm.trans writes.asked
  | some object =>
    apply lookup_rule
    case refused =>
      intro refused _
      refine .turnedDown ⟨rfl, rfl, responds_bare _⟩ ?_
      intro object node writes
      exact refused writes.admitted
    case admitted =>
      intro admitted
      cases network : object.networkuuid with
      | none =>
        refine .turnedDown ⟨rfl, rfl, responds_bare _⟩ ?_
        intro same node writes
        obtain rfl := Option.some.inj (asked.symm.trans writes.asked)
        cases network.symm.trans writes.network
      | some networkUuid =>
        cases uuid : object.uuid with
        | none =>
          refine .turnedDown ⟨rfl, rfl, responds_bare _⟩ ?_
          intro same node writes
          obtain rfl := Option.some.inj (asked.symm.trans writes.asked)
          cases uuid.symm.trans writes.uuid
        | some uuid =>
          simp only [daoFetchNodeIp, daoDelNode, daoFetchContextIppool, daoUpdateContextIppool,
            ne_eq, not_true_eq_false, if_false]
          apply fetchFirst_rule
          case missing =>
            intro missing
            refine .turnedDown ⟨rfl, rfl, responds_bare _⟩ ?_
            intro same node writes
            obtain rfl := Option.some.inj (asked.symm.trans writes.asked)
            obtain rfl := Option.some.inj (network.symm.trans writes.network)
            obtain rfl := Option.some.inj (uuid.symm.trans writes.uuid)
            have found := (db.node?_eq_some _ _ node).mpr ⟨writes.row, rfl, rfl⟩
            have nothing := missing writes.fetched
            simp [found] at nothing
          case found =>
            intro ipaddr fetched found
            obtain ⟨node, row, rfl⟩ := Option.map_eq_some_iff.mp found
            obtain ⟨inside, rfl, rfl⟩ := (db.node?_eq_some _ _ _).mp row
            simp only [not_true_eq_false, if_false]
            apply writeUnchecked_rule
            case failed =>
              intro failed
              refine .turnedDown ⟨rfl, rfl, responds_bare _⟩ ?_
              intro same other writes
              exact writes.result failed
            case result =>
              intro result
              have writes : DelNodeWrites env db request object node :=
                ⟨asked, admitted, fetched, inside, network, uuid, result⟩
              simp only [not_true_eq_false, if_false]
              apply fetchFirst_rule
              case missing =>
                intro missing
                refine .noIppool writes fun done => ?_
                rw [← env.revoked_context? db node]
                exact Option.map_eq_none_iff.mp (missing done)
              case found =>
                intro ippool fetchedIppool found
                obtain ⟨context, known, rfl⟩ := Option.map_eq_some_iff.mp found
                have row := (env.revoked_context? db node node.networkUuid).symm.trans known
                simp only [no_error, if_false]
                apply writeChecked_rule
                case failed =>
                  intro failed
                  refine .notStored writes fetchedIppool row fun done => ?_
                  cases failed done
                case done =>
                  intro after done stored
                  cases stored
                  exact .carriedOut writes fetchedIppool row done

/-! ## Adding a node -/

/-- The request updates the serial of a network's embassy. -/
structure AddNodeWrites (object : NodeObject) (description : Text) (context : Context) : Prop where
  asked : request.node = some object
  named : object.networkuuid = some context.uuid
  described : object.description = some description
  admitted : Admitted env request.apikey
  fetched : env.outcome .fetchContextEmbassy = .done
  row : context ∈ db.context.rows
  serial : env.outcome .updateEmbassySerial = .done

/-- The serial that is stored after a certificate was delivered under the given one. -/
def nextSerial (serial : BitVec 32) : BitVec 32 := serialOf ((formatInt (serial + 1).toInt).take 9)

/-- The serial text of the embassy that delivered the certificate of a node. -/
theorem delivered_serialText (certificate : Certificate) (keyring : Keyring) (serial : BitVec 32)
    (commonName : Text) (altName : Option Text) :
    (pkiEmbassyDeliverPassport (pkiEmbassyLoadFromMemory certificate keyring
      (atoi (formatInt serial.toInt))) commonName altName).2.serialText =
      (formatInt (serial + 1).toInt).take 9 := by
  simp only [pkiEmbassyDeliverPassport, pkiEmbassyLoadFromMemory, Embassy.serialText,
    atoi_formatInt, BitVec.ofInt_toInt]

/-- The database after the serial of a network's embassy was stored. -/
def Db.serialized (db : Db) (context : Context) : Db :=
  db.storeSerial context.uuid (nextSerial context.embassySerial)

/-- A node row that `add_node` adds to a network. -/
structure NewNode (env : Env) (context : Context) (description : Text) (row : Node) : Prop where
  network : row.networkUuid = context.uuid
  uuid : row.uuid = env.uuid
  status : row.status = 0
  provcode : row.provcode = env.provcode
  described : row.description = description
  address : (takeIp env.endian context.ippool).2 = some row.ipaddress

/-- What `add_node` leaves. -/
inductive AddNodeResult : Handled → Prop where
  | turnedDown {handled : Handled} (idle : Idle db handled)
      (never : ∀ object description context,
        ¬ AddNodeWrites env db request object description context) : AddNodeResult handled
  | notAdded {object : NodeObject} {description : Text} {context : Context}
      (writes : AddNodeWrites env db request object description context)
      (failed : env.outcome .addNode = .done → (takeIp env.endian context.ippool).2 = none ∨
        ∃ node ∈ db.node.rows, node.uuid = env.uuid) :
      AddNodeResult
        { db := db.serialized context, codes := [0, 0, 0, -1], answer := .responds "error".toList }
  | notStored {object : NodeObject} {description : Text} {context : Context} {row : Node}
      {added : Db} (writes : AddNodeWrites env db request object description context)
      (new : NewNode env context description row)
      (executed : env.outcome .addNode = .done)
      (inserted : (db.serialized context).insertNode row = some added)
      (failed : env.outcome .updateContextIppool ≠ .done) :
      AddNodeResult { db := added, codes := [0, 0, 0, 0, -1], answer := .responds "error".toList }
  | carriedOut {object : NodeObject} {description : Text} {context : Context} {row : Node}
      {added : Db} (writes : AddNodeWrites env db request object description context)
      (new : NewNode env context description row)
      (executed : env.outcome .addNode = .done)
      (inserted : (db.serialized context).insertNode row = some added)
      (done : env.outcome .updateContextIppool = .done) :
      AddNodeResult
        { db := added.storeIppool context.uuid (takeIp env.endian context.ippool).1
          codes := [0, 0, 0, 0, 0]
          answer :=
            { reply := some { response := some "success".toList }
              forwarded := env.forward (.listallNode
                { networkuuid := context.uuid, uuid := env.uuid } .moreData) } }

theorem addNode_result : AddNodeResult env db request (handle env db .addNode request) := by
  unfold handle handler addNode
  cases asked : request.node with
  | none =>
    refine .turnedDown ⟨rfl, rfl, silent_bare⟩ ?_
    intro object description context writes
    cases asked.symm.trans writes.asked
  | some object =>
    dsimp only
    cases given : request.apikey with
    | none =>
      refine .turnedDown ⟨rfl, rfl, responds_bare _⟩ ?_
      intro object description context writes
      exact writes.admitted.given given
    | some apikey =>
      cases named : object.networkuuid with
      | none =>
        refine .turnedDown ⟨rfl, rfl, responds_bare _⟩ ?_
        intro same description context writes
        obtain rfl := Option.some.inj (asked.symm.trans writes.asked)
        cases named.symm.trans writes.named
      | some networkUuid =>
        cases described : object.description with
        | none =>
          refine .turnedDown ⟨rfl, rfl, responds_bare _⟩ ?_
          intro same description context writes
          obtain rfl := Option.some.inj (asked.symm.trans writes.asked)
          cases described.symm.trans writes.described
        | some description =>
          apply lookup_rule
          case refused =>
            intro refused _
            refine .turnedDown ⟨rfl, rfl, responds_bare _⟩ ?_
            intro object description context writes
            exact refused (given ▸ writes.admitted)
          case admitted =>
            intro admitted
            simp only [ne_eq, not_true_eq_false, if_false]
            apply fetchFirst_rule
            case missing =>
              intro missing
              refine .turnedDown ⟨rfl, rfl, responds_bare _⟩ ?_
              intro same description context writes
              obtain rfl := Option.some.inj (asked.symm.trans writes.asked)
              obtain rfl := Option.some.inj (named.symm.trans writes.named)
              have found := (db.context?_eq_some _ context).mpr ⟨writes.row, rfl⟩
              have nothing := missing writes.fetched
              simp [found] at nothing
            case found =>
              intro embassy fetched found
              obtain ⟨context, known, rfl⟩ := Option.map_eq_some_iff.mp found
              obtain ⟨inside, rfl⟩ := (db.context?_eq_some _ _).mp known
              simp only [not_true_eq_false, if_false, Context.embassy, delivered_serialText,
                daoUpdateEmbassySerial]
              apply writeChecked_rule
              case failed =>
                intro failed
                refine .turnedDown ⟨rfl, rfl, responds_bare _⟩ ?_
                intro object description context writes
                cases failed writes.serial
              case done =>
                intro serialized done stored
                cases stored
                have writes : AddNodeWrites env db request object description context :=
                  ⟨asked, named, described, given ▸ admitted, fetched, inside, done⟩
                simp only [no_error, if_false]
                cases taken : (takeIp env.endian context.ippool).2 with
                | none => exact .notAdded writes fun _ => Or.inl taken
                | some ip =>
                  simp only [daoAddNode, daoUpdateContextIppool]
                  apply writeChecked_rule
                  case failed =>
                    intro failed
                    refine .notAdded writes fun done => Or.inr ?_
                    exact (RowTable.insert_eq_none _ _).mp (Option.map_eq_none_iff.mp (failed done))
                  case done =>
                    intro added executed inserted
                    simp only [no_error, if_false]
                    apply writeChecked_rule
                    case failed =>
                      intro failed
                      refine .notStored writes ⟨rfl, rfl, rfl, rfl, rfl, taken⟩ executed inserted ?_
                      intro done
                      cases failed done
                    case done =>
                      intro stored done same
                      cases same
                      exact .carriedOut writes ⟨rfl, rfl, rfl, rfl, rfl, taken⟩ executed
                        inserted done

/-! ## Adding a network -/

/-- A context row that `add_network` adds. -/
structure NewContext (env : Env) (clientId : Int) (name : Text) (row : Context) : Prop where
  uuid : row.uuid = env.contextUuid
  clientId : row.clientId = clientId
  description : row.description = name
  ippool : row.ippool = newBitmap env.endian

/-- What `add_network` leaves. It makes one write. -/
inductive AddNetworkResult : Handled → Prop where
  | turnedDown {handled : Handled} (idle : Idle db handled) : AddNetworkResult handled
  | carriedOut {clientId : Int} {name : Text} {row : Context} {added : Db}
      {element : NetworkElement}
      (client : lookedUp env db request.apikey = some clientId)
      (new : NewContext env clientId name row) (same : element.uuid = row.uuid)
      (inserted : db.insertContext row = some added) :
      AddNetworkResult
        { db := added, codes := [0, 0]
          answer :=
            { reply := some { response := some "success".toList }
              forwarded := env.forward (.listallNetwork element .moreData) } }

theorem addNetwork_result :
    AddNetworkResult env db request (handle env db .addNetwork request) := by
  unfold handle handler addNetwork
  cases asked : request.network with
  | none => exact .turnedDown ⟨rfl, rfl, silent_bare⟩
  | some network =>
    dsimp only
    cases given : request.apikey with
    | none => exact .turnedDown ⟨rfl, rfl, responds_bare _⟩
    | some apikey =>
      cases named : network.name with
      | none => exact .turnedDown ⟨rfl, rfl, responds_bare _⟩
      | some name =>
        apply lookup_rule
        case refused => exact fun _ _ => .turnedDown ⟨rfl, rfl, responds_bare _⟩
        case admitted =>
          intro _
          cases client : lookedUp env db (some apikey) with
          | none =>
            simp only [no_error, if_false]
            exact .turnedDown ⟨rfl, rfl, responds_bare _⟩
          | some clientId =>
            simp only [no_error, if_false]
            rw [handled_bind]
            rcases daoAddVnetwork_cases env _ (Access.log ⟨db, []⟩ 0)
              with ⟨added, inserted, result⟩ | result | result
            · rw [result]
              exact .carriedOut (given ▸ client) ⟨rfl, rfl, rfl, rfl⟩ rfl inserted
            · rw [result]
              exact .turnedDown ⟨rfl, rfl, responds_bare _⟩
            · rw [result]
              exact .turnedDown ⟨rfl, rfl, responds_bare _⟩

/-! ## Listings -/

/-- What `list_network` leaves. -/
inductive ListNetworkResult : Handled → Prop where
  | turnedDown {handled : Handled} (idle : Idle db handled) : ListNetworkResult handled
  | listed {clientId : Int} (client : lookedUp env db request.apikey = some clientId) :
      ListNetworkResult
        { db := db, codes := [0, 0]
          answer :=
            { reply := some
                { response := some "success".toList
                  networks := some ((db.context.select fun context =>
                    context.clientId = clientId).map Context.listing) }
              forwarded := [] } }

theorem listNetwork_result :
    ListNetworkResult env db request (handle env db .listNetwork request) := by
  unfold handle handler listNetwork
  apply lookup_rule
  case refused => exact fun _ _ => .turnedDown ⟨rfl, rfl, responds_bare _⟩
  case admitted =>
    intro _
    cases client : lookedUp env db request.apikey with
    | none =>
      exact .turnedDown ⟨rfl, rfl, responds_bare _⟩
    | some clientId =>
      simp only [no_error, if_false]
      apply fetchAll_rule
      case failed => exact fun _ => .turnedDown ⟨rfl, rfl, responds_bare _⟩
      case done => exact fun _ => .listed client

/-- The request reads the node rows of a network. -/
structure ListNodeReads (network : NetworkObject) (uuid : Text) (clientId : Int) : Prop where
  asked : request.network = some network
  named : network.uuid = some uuid
  client : lookedUp env db request.apikey = some clientId
  fetched : env.outcome .fetchNodeFromContextId = .done

/-- What `list_node` leaves. -/
inductive ListNodeResult : Handled → Prop where
  | turnedDown {handled : Handled} (idle : Idle db handled)
      (never : ∀ network uuid clientId, ¬ ListNodeReads env db request network uuid clientId) :
      ListNodeResult handled
  | listed {network : NetworkObject} {uuid : Text} {clientId : Int}
      (reads : ListNodeReads env db request network uuid clientId) :
      ListNodeResult
        { db := db, codes := [0, 0]
          answer :=
            { reply := some
                { response := some "success".toList
                  nodes := some ((db.node.select fun node =>
                    node.networkUuid = uuid).map Node.listing) }
              forwarded := [] } }

theorem listNode_result : ListNodeResult env db request (handle env db .listNode request) := by
  unfold handle handler listNode
  cases asked : request.network with
  | none =>
    refine .turnedDown ⟨rfl, rfl, silent_bare⟩ ?_
    intro network uuid clientId reads
    cases asked.symm.trans reads.asked
  | some network =>
    dsimp only
    apply lookup_rule
    case refused =>
      intro _ nobody
      refine .turnedDown ⟨rfl, rfl, responds_bare _⟩ ?_
      intro network uuid clientId reads
      cases nobody.symm.trans reads.client
    case admitted =>
      intro _
      cases client : lookedUp env db request.apikey with
      | none =>
        refine .turnedDown ⟨rfl, rfl, responds_bare _⟩ ?_
        intro network uuid clientId reads
        cases client.symm.trans reads.client
      | some clientId =>
        cases named : network.uuid with
        | none =>
          refine .turnedDown ⟨rfl, rfl, responds_bare _⟩ ?_
          intro same uuid clientId reads
          obtain rfl := Option.some.inj (asked.symm.trans reads.asked)
          cases named.symm.trans reads.named
        | some uuid =>
          simp only [daoFetchNodeFromContextId]
          apply fetchAll_rule
          case failed =>
            intro failed
            refine .turnedDown ⟨rfl, rfl, responds_bare _⟩ ?_
            intro network uuid clientId reads
            exact failed reads.fetched
          case done =>
            intro done
            exact .listed ⟨asked, named, client, done⟩

end Handlers

end NetVirt.Nvctrler
