import NetVirt.Decimal
import NetVirt.IpPool
import NetVirt.RowTables

/-!
# The data access functions of the controller

The database of dao.c and its statements. What a statement does when the database executes
it is fixed here; whether the database does so is up to the environment. A function checks
the status of the result or only that there is one, and the code it returns says no more
than that.
-/

namespace NetVirt.Nvctrler

open Inet RowTables Decimal

/-! ## The database -/

/-- What a certificate says; the controller signs it. -/
structure Certificate where
  commonName : Text
  altName : Option Text
  issuer : Text
  serial : BitVec 32
  authority : Bool
deriving DecidableEq

/-- A key pair, named by the number that was drawn for it. -/
abbrev Keyring := Nat

/-- A stored bitmap. -/
abbrev Bitmap := { pool : List (BitVec 8) // pool.length = 8192 }

structure Client where
  id : Int
  apikey : Text
  status : Int
deriving DecidableEq

/-- A row of table context: a network. -/
structure Context where
  uuid : Text
  clientId : Int
  description : Text
  network : Text
  embassyCertificate : Certificate
  embassyPrivatekey : Keyring
  embassySerial : BitVec 32
  passportCertificate : Certificate
  passportPrivatekey : Keyring
  ippool : Bitmap
deriving DecidableEq

structure Node where
  networkUuid : Text
  uuid : Text
  certificate : Certificate
  privatekey : Keyring
  status : Int
  provcode : Text
  description : Text
  ipaddress : Text
deriving DecidableEq

structure Db where
  client : List Client
  context : RowTable Context.uuid
  node : RowTable Node.uuid

/-! ## Calls -/

/-- The prepared statements of the handlers. -/
inductive Statement where
  | fetchClientIdByApikey
  | addVnetwork
  | delContext
  | fetchContextIppool
  | fetchContextEmbassy
  | updateContextIppool
  | updateEmbassySerial
  | fetchNetworksByClientId
  | addNode
  | delNode
  | delNodeByContextId
  | fetchNodeIp
  | fetchNodeFromContextId
deriving DecidableEq

/-- What comes back for a statement: no result, a result that reports an error, or the
result of executing it. -/
inductive Outcome where
  | noResult
  | failed
  | done
deriving DecidableEq

/-- What a request finds around it: the answers of the database, the identifiers and keys
drawn for it, and whether the switch is connected. -/
structure Env where
  endian : Endian
  outcome : Statement → Outcome
  /-- The default of column uuid of a new context. -/
  contextUuid : Text
  /-- The first and the second `uuid_v4`. -/
  uuid : Text
  provcode : Text
  /-- The first and the second `pki_generate_keyring`. -/
  keyring : Keyring
  secondKeyring : Keyring
  switchConnected : Bool

/-- The database, and the codes that the calls so far returned. -/
structure Access where
  db : Db
  codes : List Int

def Access.log (access : Access) (code : Int) : Access :=
  { access with codes := access.codes ++ [code] }

def Access.write (access : Access) (db : Db) : Access := { access with db := db }

abbrev Dao := StateM Access

/-- Return a code and a value. -/
def returning {Value : Type} (code : Int) (value : Value) : Dao (Int × Value) := fun access =>
  ((code, value), access.log code)

/-- A query that is an error unless it finds a row. -/
def fetchFirst {Value : Type} (env : Env) (statement : Statement) (read : Db → Option Value) :
    Dao (Int × Option Value) := fun access =>
  match env.outcome statement, read access.db with
  | .done, some value => returning 0 (some value) access
  | _, _ => returning (-1) none access

/-- A query for all the rows it finds. -/
def fetchAll {Value : Type} (env : Env) (statement : Statement) (read : Db → List Value) :
    Dao (Int × List Value) := fun access =>
  match env.outcome statement with
  | .done => returning 0 (read access.db) access
  | _ => returning (-1) [] access

/-- A write whose status is checked. The database can refuse it, which is an error status. -/
def writeChecked (env : Env) (statement : Statement) (write : Db → Option Db) :
    Dao Int := fun access =>
  match env.outcome statement, write access.db with
  | .done, some db => (0, (access.write db).log 0)
  | _, _ => (-1, access.log (-1))

/-- A write whose status is not checked: it fails only without a result. -/
def writeUnchecked (env : Env) (statement : Statement) (write : Db → Db) : Dao Int := fun access =>
  match env.outcome statement with
  | .done => (0, (access.write (write access.db)).log 0)
  | .failed => (0, access.log 0)
  | .noResult => (-1, access.log (-1))

/-- A parameter that is NULL. -/
def invalidParameter : Dao Int := fun access => (-1, access.log (-1))

section Calls
variable {Value Next : Type} (env : Env) (statement : Statement) (access : Access)

@[simp]
theorem bind_apply (first : Dao Value) (rest : Value → Dao Next) :
    (first >>= rest) access = rest (first access).1 (first access).2 := rfl

@[simp]
theorem pure_apply (value : Value) : (pure value : Dao Value) access = (value, access) := rfl

@[simp]
theorem returning_apply (code : Int) (value : Value) :
    returning code value access = ((code, value), access.log code) := rfl

@[simp]
theorem invalidParameter_apply : invalidParameter access = (-1, access.log (-1)) := rfl

@[simp]
theorem log_db (code : Int) : (access.log code).db = access.db := rfl

@[simp]
theorem log_codes (code : Int) : (access.log code).codes = access.codes ++ [code] := rfl

@[simp]
theorem write_db (db : Db) : (access.write db).db = db := rfl

@[simp]
theorem write_codes (db : Db) : (access.write db).codes = access.codes := rfl

/-- A query that finds a row. -/
theorem fetchFirst_found (read : Db → Option Value) (value : Value)
    (done : env.outcome statement = .done) (found : read access.db = some value) :
    fetchFirst env statement read access = ((0, some value), access.log 0) := by
  simp [fetchFirst, done, found]

theorem fetchFirst_missing (read : Db → Option Value)
    (missing : env.outcome statement = .done → read access.db = none) :
    fetchFirst env statement read access = ((-1, none), access.log (-1)) := by
  unfold fetchFirst
  cases outcome : env.outcome statement with
  | done => simp [missing outcome]
  | _ => simp

theorem fetchAll_done (read : Db → List Value) (done : env.outcome statement = .done) :
    fetchAll env statement read access = ((0, read access.db), access.log 0) := by
  simp [fetchAll, done]

theorem fetchAll_failed (read : Db → List Value) (failed : env.outcome statement ≠ .done) :
    fetchAll env statement read access = ((-1, []), access.log (-1)) := by
  unfold fetchAll
  cases outcome : env.outcome statement with
  | done => exact absurd outcome failed
  | _ => simp

theorem writeChecked_done (write : Db → Option Db) (db : Db)
    (done : env.outcome statement = .done) (written : write access.db = some db) :
    writeChecked env statement write access = (0, (access.write db).log 0) := by
  simp [writeChecked, done, written]

theorem writeChecked_failed (write : Db → Option Db)
    (refused : env.outcome statement = .done → write access.db = none) :
    writeChecked env statement write access = (-1, access.log (-1)) := by
  unfold writeChecked
  cases outcome : env.outcome statement with
  | done => simp [refused outcome]
  | _ => simp

/-- What a write without a look at its status leaves. -/
def Outcome.leaves (outcome : Outcome) (before after : Db) : Db :=
  match outcome with
  | .done => after
  | _ => before

theorem writeUnchecked_result (write : Db → Db) (result : env.outcome statement ≠ .noResult) :
    writeUnchecked env statement write access =
      (0, (access.write ((env.outcome statement).leaves access.db (write access.db))).log 0) := by
  unfold writeUnchecked Outcome.leaves
  cases outcome : env.outcome statement with
  | noResult => exact absurd outcome result
  | _ => rfl

theorem writeUnchecked_noResult (write : Db → Db) (none : env.outcome statement = .noResult) :
    writeUnchecked env statement write access = (-1, access.log (-1)) := by
  simp [writeUnchecked, none]

end Calls

/-! ## Clients -/

/-- The active client of an API key. -/
def Db.activeClient (db : Db) (apikey : Text) : Option Int :=
  (db.client.find? fun client => client.apikey = apikey ∧ client.status = 1).map Client.id

/-- `dao_fetch_client_id_by_apikey`. An error status has no rows, and is not an error. -/
def daoFetchClientIdByApikey (env : Env) : Option Text → Dao (Int × Option Int)
  | none => returning (-1) none
  | some apikey => fun access =>
    match env.outcome .fetchClientIdByApikey with
    | .noResult => returning (-1) none access
    | .failed => returning 0 none access
    | .done => returning 0 (access.db.activeClient apikey) access

/-- The lookup of a key returns no error: there is a key and a result. -/
structure Admitted (env : Env) (apikey : Option Text) : Prop where
  given : apikey ≠ none
  result : env.outcome .fetchClientIdByApikey ≠ .noResult

/-- The client that the lookup finds. -/
def lookedUp (env : Env) (db : Db) (apikey : Option Text) : Option Int :=
  match env.outcome .fetchClientIdByApikey with
  | .done => apikey.bind db.activeClient
  | _ => none

theorem lookup_cases (env : Env) (apikey : Option Text) (access : Access) :
    (Admitted env apikey ∧ daoFetchClientIdByApikey env apikey access =
      ((0, lookedUp env access.db apikey), access.log 0)) ∨
    (¬ Admitted env apikey ∧ lookedUp env access.db apikey = none ∧
      daoFetchClientIdByApikey env apikey access = ((-1, none), access.log (-1))) := by
  unfold daoFetchClientIdByApikey lookedUp
  cases apikey with
  | none =>
    refine Or.inr ⟨fun admitted => admitted.given rfl, ?_, rfl⟩
    cases env.outcome .fetchClientIdByApikey <;> rfl
  | some apikey =>
    cases outcome : env.outcome .fetchClientIdByApikey with
    | noResult => exact Or.inr ⟨fun admitted => admitted.result outcome, rfl, rfl⟩
    | failed => exact Or.inl ⟨⟨by simp, by simp [outcome]⟩, rfl⟩
    | done => exact Or.inl ⟨⟨by simp, by simp [outcome]⟩, rfl⟩

/-! ## Networks -/

def Db.context? (db : Db) (uuid : Text) : Option Context :=
  db.context.first fun context => context.uuid = uuid

theorem Db.context?_eq_some (db : Db) (uuid : Text) (context : Context) :
    db.context? uuid = some context ↔ context ∈ db.context.rows ∧ context.uuid = uuid := by
  have only : ∀ one other : Context, decide (one.uuid = uuid) = true →
      decide (other.uuid = uuid) = true → one.uuid = other.uuid := by
    intro one other first second
    exact (of_decide_eq_true first).trans (of_decide_eq_true second).symm
  unfold Db.context?
  rw [db.context.first_eq_some _ only context, decide_eq_true_eq]

/-- `INSERT INTO context`. The description of a network is unique among its client's. -/
def Db.insertContext (db : Db) (row : Context) : Option Db := do
  if db.context.rows.any fun old => old.description = row.description ∧ old.clientId = row.clientId
  then none
  let context ← db.context.insert row
  some { db with context := context }

/-- `UPDATE context SET ... WHERE uuid = $1` -/
def Db.updateContext (db : Db) (uuid : Text) (change : Context → Context)
    (keeps : ∀ context, (change context).uuid = context.uuid) : Db :=
  { db with context := db.context.update (fun context => context.uuid = uuid) change keeps }

/-- `UPDATE context SET embassy_serial = $2 WHERE uuid = $1` -/
def Db.storeSerial (db : Db) (uuid : Text) (serial : BitVec 32) : Db :=
  db.updateContext uuid (fun context => { context with embassySerial := serial }) fun _ => rfl

/-- `UPDATE context SET ippool = $2 WHERE uuid = $1` -/
def Db.storeIppool (db : Db) (uuid : Text) (ippool : Bitmap) : Db :=
  db.updateContext uuid (fun context => { context with ippool := ippool }) fun _ => rfl

theorem Db.mem_updateContext (db : Db) (uuid : Text) (change : Context → Context)
    (keeps : ∀ context, (change context).uuid = context.uuid) (context : Context) :
    context ∈ (db.updateContext uuid change keeps).context.rows ↔
      ∃ old ∈ db.context.rows, (if old.uuid = uuid then change old else old) = context := by
  simp [Db.updateContext, RowTable.mem_update]

theorem Db.mem_storeSerial (db : Db) (uuid : Text) (serial : BitVec 32) (context : Context) :
    context ∈ (db.storeSerial uuid serial).context.rows ↔ ∃ old ∈ db.context.rows,
      (if old.uuid = uuid then { old with embassySerial := serial } else old) = context :=
  db.mem_updateContext uuid _ _ context

theorem Db.mem_storeIppool (db : Db) (uuid : Text) (ippool : Bitmap) (context : Context) :
    context ∈ (db.storeIppool uuid ippool).context.rows ↔ ∃ old ∈ db.context.rows,
      (if old.uuid = uuid then { old with ippool := ippool } else old) = context :=
  db.mem_updateContext uuid _ _ context

/-- `DELETE FROM context WHERE client_id = $1 AND uuid = $2` -/
def Db.deleteContext (db : Db) (clientId : Int) (uuid : Text) : Db :=
  { db with
    context := db.context.delete fun context =>
      context.clientId = clientId ∧ context.uuid = uuid }

/-- The `embassy_serial` that a text is read as. -/
def serialOf (text : Text) : BitVec 32 := BitVec.ofInt 32 (atoi text)

/-- `dao_add_vnetwork`. The parameters, which are the columns of the row, are never NULL where
it is called; the uuid of the row is the column's default. -/
def daoAddVnetwork (env : Env) (row : Context) : Dao (Int × Option Text) := fun access =>
  match env.outcome .addVnetwork, access.db.insertContext { row with uuid := env.contextUuid } with
  | .noResult, _ => returning (-1) none access
  | .done, some db => returning 0 (some env.contextUuid) (access.write db)
  | _, _ => returning (-2) none access

theorem daoAddVnetwork_cases (env : Env) (row : Context) (access : Access) :
    (∃ db, access.db.insertContext { row with uuid := env.contextUuid } = some db ∧
      daoAddVnetwork env row access = ((0, some env.contextUuid), (access.write db).log 0)) ∨
    daoAddVnetwork env row access = ((-1, none), access.log (-1)) ∨
    daoAddVnetwork env row access = ((-2, none), access.log (-2)) := by
  unfold daoAddVnetwork
  split
  · exact Or.inr (Or.inl rfl)
  · next db _ inserted => exact Or.inl ⟨db, inserted, rfl⟩
  · exact Or.inr (Or.inr rfl)

/-- `dao_del_context` -/
def daoDelContext (env : Env) (clientId : Int) : Option Text → Dao Int
  | none => invalidParameter
  | some uuid => writeUnchecked env .delContext fun db => db.deleteContext clientId uuid

/-- `dao_fetch_context_ippool` -/
def daoFetchContextIppool (env : Env) : Option Text → Dao (Int × Option Bitmap)
  | none => returning (-1) none
  | some uuid => fetchFirst env .fetchContextIppool fun db => (db.context? uuid).map Context.ippool

/-- What `dao_fetch_context_embassy` reads. -/
structure ContextEmbassy where
  certificate : Certificate
  privatekey : Keyring
  serial : Text
  ippool : Bitmap

def Context.embassy (context : Context) : ContextEmbassy :=
  { certificate := context.embassyCertificate, privatekey := context.embassyPrivatekey,
    serial := formatInt context.embassySerial.toInt, ippool := context.ippool }

/-- `dao_fetch_context_embassy` -/
def daoFetchContextEmbassy (env : Env) (uuid : Text) : Dao (Int × Option ContextEmbassy) :=
  fetchFirst env .fetchContextEmbassy fun db => (db.context? uuid).map Context.embassy

/-- `dao_update_context_ippool` -/
def daoUpdateContextIppool (env : Env) (ippool : Bitmap) : Option Text → Dao Int
  | none => invalidParameter
  | some uuid => writeChecked env .updateContextIppool fun db => some (db.storeIppool uuid ippool)

/-- `dao_update_embassy_serial` -/
def daoUpdateEmbassySerial (env : Env) (uuid serial : Text) : Dao Int :=
  writeChecked env .updateEmbassySerial fun db => some (db.storeSerial uuid (serialOf serial))

/-- What `dao_fetch_networks_by_client_id` reads of a network: its description and uuid. -/
def Context.listing (context : Context) : Text × Text := (context.description, context.uuid)

/-- `dao_fetch_networks_by_client_id` -/
def daoFetchNetworksByClientId (env : Env) (clientId : Int) : Dao (Int × List (Text × Text)) :=
  fetchAll env .fetchNetworksByClientId fun db =>
    (db.context.select fun context => context.clientId = clientId).map Context.listing

/-! ## Nodes -/

def Db.node? (db : Db) (networkUuid uuid : Text) : Option Node :=
  db.node.first fun node => node.networkUuid = networkUuid ∧ node.uuid = uuid

theorem Db.node?_eq_some (db : Db) (networkUuid uuid : Text) (node : Node) :
    db.node? networkUuid uuid = some node ↔
      node ∈ db.node.rows ∧ node.networkUuid = networkUuid ∧ node.uuid = uuid := by
  have only : ∀ one other : Node,
      decide (one.networkUuid = networkUuid ∧ one.uuid = uuid) = true →
      decide (other.networkUuid = networkUuid ∧ other.uuid = uuid) = true →
      one.uuid = other.uuid := by
    intro one other first second
    exact (of_decide_eq_true first).2.trans (of_decide_eq_true second).2.symm
  unfold Db.node?
  rw [db.node.first_eq_some _ only node, decide_eq_true_eq]

/-- `INSERT INTO node` -/
def Db.insertNode (db : Db) (row : Node) : Option Db :=
  (db.node.insert row).map fun node => { db with node := node }

/-- `DELETE FROM node WHERE network_uuid = $1 AND uuid = $2` -/
def Db.deleteNode (db : Db) (networkUuid uuid : Text) : Db :=
  { db with node := db.node.delete fun node => node.networkUuid = networkUuid ∧ node.uuid = uuid }

/-- `DELETE FROM node WHERE network_uuid = $1` -/
def Db.deleteNodes (db : Db) (networkUuid : Text) : Db :=
  { db with node := db.node.delete fun node => node.networkUuid = networkUuid }

/-- `dao_add_node`. Only the address can be NULL where it is called. -/
def daoAddNode (env : Env) (networkUuid uuid : Text) (certificate : Certificate)
    (privatekey : Keyring) (provcode description : Text) : Option Text → Dao Int
  | none => invalidParameter
  | some ipaddress => writeChecked env .addNode fun db => db.insertNode
    { networkUuid, uuid, certificate, privatekey, status := 0, provcode, description, ipaddress }

/-- `dao_del_node` -/
def daoDelNode (env : Env) : Option Text → Option Text → Dao Int
  | some networkUuid, some uuid => writeUnchecked env .delNode fun db =>
    db.deleteNode networkUuid uuid
  | _, _ => invalidParameter

/-- `dao_del_node_by_context_id` -/
def daoDelNodeByContextId (env : Env) : Option Text → Dao Int
  | none => invalidParameter
  | some networkUuid => writeUnchecked env .delNodeByContextId fun db => db.deleteNodes networkUuid

/-- `dao_fetch_node_ip` -/
def daoFetchNodeIp (env : Env) : Option Text → Option Text → Dao (Int × Option Text)
  | some networkUuid, some uuid => fetchFirst env .fetchNodeIp fun db =>
    (db.node? networkUuid uuid).map Node.ipaddress
  | _, _ => returning (-1) none

/-- What `dao_fetch_node_from_context_id` reads of a node. -/
structure NodeListing where
  uuid : Text
  description : Text
  provcode : Text
  ipaddress : Text
  status : Text
deriving DecidableEq

def Node.listing (node : Node) : NodeListing :=
  { uuid := node.uuid, description := node.description, provcode := node.provcode,
    ipaddress := node.ipaddress, status := formatInt node.status }

/-- `dao_fetch_node_from_context_id` -/
def daoFetchNodeFromContextId (env : Env) : Option Text → Dao (Int × List NodeListing)
  | none => returning (-1) []
  | some networkUuid => fetchAll env .fetchNodeFromContextId fun db =>
    (db.node.select fun node => node.networkUuid = networkUuid).map Node.listing

end NetVirt.Nvctrler
