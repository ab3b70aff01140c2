import NetVirt.Mirrors
import NetVirt.NetworkIndexes
import NetVirt.TenantIsolation

/-!
# The access tables and the node rows

The controller with its database, the switch, and the connection between them. The
controller forwards a node to the switch when it adds or deletes it, and lists all networks
and nodes when the switch asks, which it does on each new connection. Lines arrive in order
while the connection lasts, and what is under way is lost with it. The two ends see the end
of a connection on their own: the controller may see it after the next one is made.

The access tables agree with the rows whenever nothing is under way and the listing is
complete, as long as no deletion misses the switch.
-/

namespace NetVirt.AccessTables

open Inet Runs Mirrors Nvctrler

/-! ## Messages -/

/-- The bytes of a text in a message, as both ends read it. -/
def bytes (text : Text) : List UInt8 := text.flatMap String.utf8EncodeChar

/-- The queries of the switch that are answered with a listing. -/
inductive Query where
  | listallNetwork
  | listallNode
deriving DecidableEq

/-- A message for the switch. The answer to a query that failed only says so. -/
inductive Message where
  | command (command : Command)
  | error
deriving DecidableEq

/-- What the query for the networks reads that no request does: the column id, and the host
and netmask of a network. -/
structure Columns where
  id : Context → Text
  host : Text → Text
  netmask : Text → Text

/-- The `response` of a row's message. -/
def responseOf (remaining : Nat) : Listing := if remaining > 0 then .moreData else .success

/-- `CB_listall_network` -/
def cbListallNetwork (columns : Columns) (context : Context) (remaining : Nat) : Command :=
  .listallNetwork
    { id := some (columns.id context)
      uuid := context.uuid
      network := columns.host context.network
      netmask := columns.netmask context.network
      cert := context.passportCertificate
      pkey := context.passportPrivatekey
      tcert := context.embassyCertificate } (responseOf remaining)

/-- `CB_listall_node` -/
def cbListallNode (node : Node) (remaining : Nat) : Command :=
  .listallNode { networkuuid := node.networkUuid, uuid := node.uuid } (responseOf remaining)

/-- One message for each row, with the number of rows behind it. No row, no message. -/
def listing {Row : Type} (message : Row → Nat → Command) : List Row → List Message
  | [] => []
  | row :: rest => .command (message row rest.length) :: listing message rest

/-! ## The system -/

/-- Connections are numbered. The switch has at most one, the controller writes to the one of
`switch_sinfo`; there may be ends of connections that it has not seen yet. -/
structure System where
  db : Db
  switch : Nvswitch.Switch
  ctrlInitialized : Bool
  connection : Option Nat
  made : Nat
  switchSinfo : Option Nat
  unseen : Nat
  toSwitch : List Message
  toCtrler : List Query

/-- Both programs have started, and are not connected. -/
def System.initial (db : Db) : System :=
  { db := db, switch := Nvswitch.Switch.initial, ctrlInitialized := false, connection := none,
    made := 0, switchSinfo := none, unseen := 0, toSwitch := [], toCtrler := [] }

/-- The writes to `switch_sinfo`. They are lost on a connection that has ended. -/
def System.write (system : System) (commands : List Command) : System :=
  if system.connection.isSome ∧ system.switchSinfo = system.connection then
    { system with toSwitch := system.toSwitch ++ commands.map .command }
  else system

/-- A request of the API. -/
def System.request (system : System) (env : Env) (action : Action) (request : Request) : Handled :=
  handle { env with switchConnected := system.switchSinfo.isSome } system.db action request

/-- `listall_network` and `listall_node` of request.c. -/
def System.answer (columns : Columns) (system : System) (executed : Bool) : Query → List Message
  | .listallNetwork =>
    if executed then listing (cbListallNetwork columns) system.db.context.rows else [.error]
  | .listallNode => if executed then listing cbListallNode system.db.node.rows else [.error]

/-- `UPDATE node SET status = 0 WHERE node.status = 1` -/
def daoResetNodeState (db : Db) : Db :=
  { db with
    node := db.node.update (fun node => node.status = 1) (fun node => { node with status := 0 })
      fun _ => rfl }

/-- `dispatch_op` of the switch. -/
def dispatchOp (system : System) : Message → Option System
  | .error => some system
  | .command (.listallNetwork element response) =>
    let created := { system with
      switch := Nvswitch.vnetworkCreate system.switch (bytes (element.id.getD []))
        (bytes element.uuid) }
    if response = .success ∧ system.ctrlInitialized = false then
      some { created with toCtrler := created.toCtrler ++ [.listallNode] }
    else some created
  | .command (.listallNode element response) => do
    let switch ← Nvswitch.listNode system.switch (bytes element.uuid) (bytes element.networkuuid)
    let listed := { system with switch := switch }
    if response = .success ∧ system.ctrlInitialized = false then
      return { listed with ctrlInitialized := true }
    else return listed
  | .command (.delNode node) => do
    let (switch, _) ← Nvswitch.delNode system.switch
      (some { uuid := node.uuid.map bytes, networkuuid := node.networkuuid.map bytes })
    return { system with switch := switch }
  | .command (.delNetwork networkuuid) => do
    let (switch, _) ← Nvswitch.delNetwork system.switch (networkuuid.map bytes)
    return { system with switch := switch }

inductive Event where
  | addNode (env : Env) (request : Request)
  | delNode (env : Env) (request : Request)
  /-- A connection is made. -/
  | connect
  /-- The connection ends, with all that is under way on it. -/
  | lose
  /-- The controller sees the end of a connection. -/
  | notice
  /-- The next message arrives at the switch. -/
  | toSwitch
  /-- The next query arrives at the controller. -/
  | toCtrler (executed : Bool)

/-- Steps of the system. The requests are those that succeed: the reply says so, the database
deletes the row it is told to, and a new uuid has the 36 characters of uuid_v4. -/
def step (columns : Columns) (system : System) : Event → Option System
  | .addNode env request =>
    let handled := system.request env .addNode request
    if handled.answer.reply = some { response := some "success".toList } ∧
        (bytes env.uuid).length = Nvswitch.uuidStrLen then
      some ({ system with db := handled.db }.write handled.answer.forwarded)
    else none
  | .delNode env request =>
    let handled := system.request env .delNode request
    if handled.answer.reply = some {} ∧ env.outcome .delNode = .done then
      some ({ system with db := handled.db }.write handled.answer.forwarded)
    else none
  | .connect =>
    if system.connection = none then
      some { system with
        ctrlInitialized := false
        connection := some system.made
        made := system.made + 1
        switchSinfo := some system.made
        toCtrler := [.listallNetwork] }
    else none
  | .lose =>
    if system.connection.isSome then
      some { system with
        connection := none
        unseen := system.unseen + 1
        toSwitch := []
        toCtrler := [] }
    else none
  | .notice =>
    if system.unseen > 0 then
      some { system with
        db := daoResetNodeState system.db
        switchSinfo := none
        unseen := system.unseen - 1 }
    else none
  | .toSwitch =>
    match system.toSwitch with
    | [] => none
    | message :: rest => dispatchOp { system with toSwitch := rest } message
  | .toCtrler executed =>
    match system.toCtrler with
    | [] => none
    | query :: rest => some { system with
        toCtrler := rest
        toSwitch := system.toSwitch ++ system.answer columns executed query }

/-! ## The property -/

/-- The networks and uuids of the node rows. -/
def pairs (db : Db) : Set (List UInt8 × List UInt8) :=
  {pair | ∃ node ∈ db.node.rows, (bytes node.networkUuid, bytes node.uuid) = pair}

/-- The switch is connected, has completed its listing, and nothing is under way. -/
structure Quiet (system : System) : Prop where
  connected : system.connection.isSome
  initialized : system.ctrlInitialized = true
  toSwitch : system.toSwitch = []
  toCtrler : system.toCtrler = []

/-- The access table of each known network has the uuids of its rows. -/
def Agrees (system : System) : Prop :=
  ∀ network v vnet, system.switch.vnetworks.find network = some v →
    system.switch.vnets v = some vnet →
      ∀ uuid, vnet.atable.find uuid = some () ↔ (network, uuid) ∈ pairs system.db

/-- The networks that the switch knows, and the entries of their access tables. -/
def access (switch : Nvswitch.Switch) : Mirror (List UInt8) (List UInt8) where
  groups := {network | (switch.vnetworks.find network).isSome}
  members := {pair | ∃ v vnet, switch.vnetworks.find pair.1 = some v ∧
    switch.vnets v = some vnet ∧ vnet.atable.find pair.2 = some ()}

/-- No deletion misses the switch: what is forwarded goes to its connection while it has one, a
node that is deleted without one is in no access table, and when the connection ends all that
is in an access table has a row. -/
def Reaches (system : System) : Event → Prop
  | .addNode _ _ => system.connection.isSome → system.switchSinfo = system.connection
  | .delNode _ request =>
    (system.connection.isSome → system.switchSinfo = system.connection) ∧
      (system.connection = none → ∀ node networkUuid uuid, request.node = some node →
        node.networkuuid = some networkUuid → node.uuid = some uuid →
          (bytes networkUuid, bytes uuid) ∉ (access system.switch).members)
  | .lose => (access system.switch).members ⊆ pairs system.db
  | _ => True

/-! ## The rows -/

theorem bytes_injective : Function.Injective bytes := by
  intro one other same
  apply String.ofList_injective
  apply String.toByteArray_inj.mp
  simp only [String.toByteArray_ofList, List.utf8Encode]
  exact congrArg List.toByteArray same

/-- The uuids of nodes have the length of the switch's keys. -/
def Drawn (db : Db) : Prop :=
  ∀ node ∈ db.node.rows, (bytes node.uuid).length = Nvswitch.uuidStrLen

/-- Only the status of nodes is reset. -/
theorem mem_reset (db : Db) (node : Node) : node ∈ (daoResetNodeState db).node.rows ↔
    ∃ old ∈ db.node.rows, (if old.status = 1 then { old with status := 0 } else old) = node := by
  simp [daoResetNodeState, RowTables.RowTable.mem_update]

theorem reset_names (node : Node) :
    (if node.status = 1 then { node with status := 0 } else node).networkUuid = node.networkUuid ∧
      (if node.status = 1 then { node with status := 0 } else node).uuid = node.uuid := by
  split <;> simp

theorem pairs_reset (db : Db) : pairs (daoResetNodeState db) = pairs db := by
  ext pair
  constructor
  · rintro ⟨node, inside, rfl⟩
    obtain ⟨old, oldIn, rfl⟩ := (mem_reset db node).mp inside
    exact ⟨old, oldIn, by rw [(reset_names old).1, (reset_names old).2]⟩
  · rintro ⟨node, inside, rfl⟩
    refine ⟨_, (mem_reset db _).mpr ⟨node, inside, rfl⟩, ?_⟩
    rw [(reset_names node).1, (reset_names node).2]

theorem Drawn.reset {db : Db} (drawn : Drawn db) : Drawn (daoResetNodeState db) := by
  intro node inside
  obtain ⟨old, oldIn, rfl⟩ := (mem_reset db node).mp inside
  rw [(reset_names old).2]
  exact drawn old oldIn

/-- No two rows have the same bytes, so a deletion takes one pair. -/
theorem pairs_delete (db : Db) (networkUuid uuid : Text) :
    pairs (db.deleteNode networkUuid uuid) = pairs db \ {(bytes networkUuid, bytes uuid)} := by
  ext pair
  constructor
  · rintro ⟨node, inside, rfl⟩
    obtain ⟨old, kept⟩ := (RowTables.RowTable.mem_delete _ _ _).mp inside
    refine ⟨⟨node, old, rfl⟩, fun same => ?_⟩
    obtain ⟨network, named⟩ := Prod.mk.inj (Set.mem_singleton_iff.mp same)
    simp [bytes_injective network, bytes_injective named] at kept
  · rintro ⟨⟨node, inside, rfl⟩, other⟩
    refine ⟨node, (RowTables.RowTable.mem_delete _ _ _).mpr ⟨inside, ?_⟩, rfl⟩
    apply decide_eq_false
    rintro ⟨rfl, rfl⟩
    exact other rfl

theorem pairs_insert (db added : Db) (row : Node) (inserted : db.insertNode row = some added) :
    pairs added = insert (bytes row.networkUuid, bytes row.uuid) (pairs db) := by
  obtain ⟨_, _, rows, _⟩ := insertNode_rows db row added inserted
  ext pair
  constructor
  · rintro ⟨node, inside, rfl⟩
    rw [rows, List.mem_append, List.mem_singleton] at inside
    obtain old | rfl := inside
    · exact .inr ⟨node, old, rfl⟩
    · exact .inl rfl
  · rintro (rfl | ⟨node, inside, rfl⟩)
    · exact ⟨row, by simp [rows], rfl⟩
    · exact ⟨node, by simp [rows, inside], rfl⟩

/-! ## The requests -/

/-- What an addition did to the rows, and what it forwards for that. -/
inductive Added (env : Env) (db : Db) (handled : Handled) : Prop where
  | nothing (same : handled.db = db) (silent : handled.answer.forwarded = [])
  | row (networkUuid : Text)
      (rows : pairs handled.db = insert (bytes networkUuid, bytes env.uuid) (pairs db))
      (drawn : Drawn db → (bytes env.uuid).length = Nvswitch.uuidStrLen → Drawn handled.db)
      (forwarded : handled.answer.forwarded =
        env.forward (.listallNode { networkuuid := networkUuid, uuid := env.uuid } .moreData))

/-- What a deletion did to the rows, and what it forwards for that. -/
inductive Deleted (env : Env) (db : Db) (request : Request) (handled : Handled) : Prop where
  | nothing (same : handled.db = db) (silent : handled.answer.forwarded = [])
  | row (node : NodeObject) (networkUuid uuid : Text) (asked : request.node = some node)
      (network : node.networkuuid = some networkUuid) (named : node.uuid = some uuid)
      (rows : pairs handled.db = pairs db \ {(bytes networkUuid, bytes uuid)})
      (drawn : Drawn db → Drawn handled.db ∧ (bytes uuid).length = Nvswitch.uuidStrLen)
      (forwarded : handled.answer.forwarded = env.forward (.delNode node))

theorem addNode_added (env : Env) (db : Db) (request : Request)
    (replied : (handle env db .addNode request).answer.reply =
      some { response := some "success".toList }) :
    Added env db (handle env db .addNode request) := by
  have result := addNode_result env db request
  generalize handle env db .addNode request = handled at replied result
  cases result with
  | turnedDown idle never => exact .nothing idle.db idle.forwarded
  | notAdded writes failed => simp [Answer.responds] at replied
  | notStored writes new executed inserted failed => simp [Answer.responds] at replied
  | @carriedOut object description context row added writes new executed inserted done =>
    have names := pairs_insert _ _ _ inserted
    rw [new.network, new.uuid] at names
    refine .row context.uuid names ?_ rfl
    intro drawn length node inside
    obtain ⟨_, _, rows, _⟩ := insertNode_rows _ _ _ inserted
    have inside : node ∈ added.node.rows := inside
    rw [rows, List.mem_append, List.mem_singleton] at inside
    obtain old | rfl := inside
    · exact drawn node old
    · exact new.uuid ▸ length

/-- What is deleted is the row that the request names. -/
theorem revoked_deleted (env : Env) (db : Db) (request : Request) (object : NodeObject)
    (node : Node) (writes : DelNodeWrites env db request object node)
    (executed : env.outcome .delNode = .done) (handled : Handled)
    (nodes : handled.db.node = (env.revoked db node).node)
    (forwarded : handled.answer.forwarded = env.forward (.delNode object)) :
    Deleted env db request handled := by
  have rows : handled.db.node = (db.deleteNode node.networkUuid node.uuid).node := by
    rw [nodes, Env.revoked, executed, Outcome.leaves]
  refine .row object node.networkUuid node.uuid writes.asked writes.network writes.uuid ?_ ?_
    forwarded
  · rw [← pairs_delete, pairs, pairs, rows]
  · intro drawn
    refine ⟨fun row inside => ?_, drawn node writes.row⟩
    rw [rows] at inside
    exact drawn row ((RowTables.RowTable.mem_delete _ _ _).mp inside).1

theorem delNode_deleted (env : Env) (db : Db) (request : Request)
    (replied : (handle env db .delNode request).answer.reply = some {})
    (executed : env.outcome .delNode = .done) :
    Deleted env db request (handle env db .delNode request) := by
  have result := delNode_result env db request
  generalize handle env db .delNode request = handled at replied result
  cases result with
  | turnedDown idle never => exact .nothing idle.db idle.forwarded
  | noIppool writes missing => simp [Answer.responds] at replied
  | notStored writes fetched found failed =>
    exact revoked_deleted env db request _ _ writes executed _ rfl rfl
  | carriedOut writes fetched found done =>
    exact revoked_deleted env db request _ _ writes executed _ rfl rfl

/-! ## The switch -/

section Switch
open Nvswitch
variable {switch : Switch}

/-- A new network brings no entries, and a known one is created in vain. -/
theorem create_access (filed : Filed switch) (id uuid : List UInt8) :
    access (vnetworkCreate switch id uuid) = (access switch).apply (.group uuid) := by
  ext pair
  · simp only [access, vnetworkCreate, Mirror.apply, Set.mem_ofPred_eq, Set.mem_insert_iff,
      Tables.Table.find_insert]
    by_cases same : pair = uuid
    · simp [same]
    · simp [same]
  · constructor
    · rintro ⟨v, vnet, found, home, entry⟩
      have old : v ≠ switch.vnetCount := by
        rintro rfl
        simp only [vnetworkCreate, Function.update_self, Option.some.injEq] at home
        subst home
        cases entry
      simp only [vnetworkCreate, Function.update_of_ne old] at home
      refine ⟨v, vnet, ?_, home, entry⟩
      simp only [vnetworkCreate, Tables.Table.find_insert] at found
      by_cases same : pair.1 = uuid
      · rw [if_pos same] at found
        cases known : switch.vnetworks.find uuid with
        | none => simp [known, old.symm] at found
        | some w => rw [same, known, ← found, known, Option.getD_some]
      · rwa [if_neg same] at found
    · rintro ⟨v, vnet, found, home, entry⟩
      refine ⟨v, vnet, ?_, filed.old v vnet home id uuid, entry⟩
      simp only [vnetworkCreate, Tables.Table.find_insert]
      by_cases same : pair.1 = uuid
      · rw [if_pos same, ← same, found, Option.getD_some]
      · rwa [if_neg same]

section Entries
variable (filed : Filed switch) (network : List UInt8) (v : VnetId) (vnet : VNetwork)
  (found : switch.vnetworks.find network = some v) (home : switch.vnets v = some vnet)
  (atable : Tables.Table (List UInt8) Unit)
include filed home

theorem setVnet_filed : Filed (switch.setVnet v { vnet with atable := atable }) where
  below w other inside := by
    by_cases own : w = v
    · exact own ▸ filed.below v vnet home
    · simp only [Switch.setVnet_vnets, Function.update_of_ne own] at inside
      exact filed.below w other inside
  byUuid := index_update switch.vnets _ switch.vnetworks VNetwork.uuid v vnet
    { vnet with atable := atable } home rfl (Function.update_apply _ _ _) filed.byUuid
  byId := index_update switch.vnets _ switch.vnetworksId VNetwork.id v vnet
    { vnet with atable := atable } home rfl (Function.update_apply _ _ _) filed.byId

include found

/-- Only the entries of the one network change: no other name leads to it. -/
theorem setVnet_access (pair : List UInt8 × List UInt8) :
    pair ∈ (access (switch.setVnet v { vnet with atable := atable })).members ↔
      if pair.1 = network then atable.find pair.2 = some ()
      else pair ∈ (access switch).members := by
  have others : ∀ name, switch.vnetworks.find name = some v → name = network := by
    intro name named
    obtain ⟨one, oneHome, oneName⟩ := filed.byUuid name v named
    obtain ⟨two, twoHome, twoName⟩ := filed.byUuid network v found
    obtain rfl := Option.some.inj (oneHome.symm.trans twoHome)
    exact oneName.symm.trans twoName
  by_cases same : pair.1 = network
  · rw [if_pos same]
    constructor
    · rintro ⟨w, other, named, stored, entry⟩
      obtain rfl := Option.some.inj (found.symm.trans (same ▸ named))
      simp only [Switch.setVnet_vnets, Function.update_self, Option.some.injEq] at stored
      subst stored
      exact entry
    · intro entry
      exact ⟨v, _, same ▸ found, Function.update_self .., entry⟩
  · rw [if_neg same]
    have apart : ∀ w, switch.vnetworks.find pair.1 = some w → w ≠ v := by
      rintro w named rfl
      exact same (others pair.1 named)
    constructor
    · rintro ⟨w, other, named, stored, entry⟩
      simp only [Switch.setVnet_vnets, Function.update_of_ne (apart w named)] at stored
      exact ⟨w, other, named, stored, entry⟩
    · rintro ⟨w, other, named, stored, entry⟩
      exact ⟨w, other, named, (Function.update_of_ne (apart w named) ..).trans stored, entry⟩

end Entries

theorem entry_iff (network uuid : List UInt8) (v : VnetId) (vnet : VNetwork)
    (found : switch.vnetworks.find network = some v) (home : switch.vnets v = some vnet) :
    (network, uuid) ∈ (access switch).members ↔ vnet.atable.find uuid = some () := by
  constructor
  · rintro ⟨w, other, named, stored, entry⟩
    obtain rfl := Option.some.inj (found.symm.trans named)
    obtain rfl := Option.some.inj (home.symm.trans stored)
    exact entry
  · exact fun entry => ⟨v, vnet, found, home, entry⟩

theorem ctableKey_take (read : Nat) (uuid key : List UInt8)
    (taken : ctableKey read uuid = some key) : key = uuid.take uuidStrLen := by
  unfold ctableKey at taken
  split at taken
  · cases taken
  · exact (Option.some.inj taken).symm

/-- The part of listall_node for one node. -/
theorem listNode_access (filed : Filed switch) (uuid network : List UInt8) (next : Switch)
    (listed : Nvswitch.listNode switch uuid network = some next) :
    access next = (access switch).apply (.add network (uuid.take uuidStrLen)) ∧ Filed next := by
  rcases listNode_cases switch next uuid network listed with
    ⟨unknown, rfl⟩ | ⟨v, vnet, key, found, home, read, rfl⟩
  · refine ⟨?_, filed⟩
    ext pair
    · rfl
    · simp [Mirror.apply, access, unknown]
  · obtain rfl := ctableKey_take _ _ _ read
    have known : network ∈ (access switch).groups := by simp [access, found]
    refine ⟨Mirror.ext rfl ?_, setVnet_filed filed v vnet home _⟩
    ext ⟨name, entry⟩
    rw [setVnet_access filed network v vnet found home]
    by_cases same : name = network
    · subst same
      simp only [Mirror.apply, if_true, Tables.Table.find_insert, known, Set.mem_ofPred_eq,
        entry_iff name entry v vnet found home, Prod.mk.injEq]
      by_cases added : entry = uuid.take uuidStrLen
      · simp [added]
      · simp [added]
    · simp [Mirror.apply, same]

/-- `del_node`: an unknown network has no entry to erase. -/
theorem delNode_access (filed : Filed switch) (uuid network : List UInt8) (next : Switch)
    (code : Int) (deleted : Nvswitch.delNode switch
      (some { uuid := some uuid, networkuuid := some network }) = some (next, code)) :
    access next = (access switch).apply (.remove network (uuid.take uuidStrLen)) ∧ Filed next := by
  unfold Nvswitch.delNode at deleted
  simp only [Option.bind_some] at deleted
  cases known : switch.vnetworks.find network with
  | none =>
    simp only [known, Option.some.injEq, Prod.mk.injEq] at deleted
    obtain ⟨rfl, rfl⟩ := deleted
    have outside : (network, uuid.take uuidStrLen) ∉ (access switch).members := by
      rintro ⟨v, vnet, found, _⟩
      cases known.symm.trans found
    exact ⟨Mirror.ext rfl (Set.sdiff_singleton_eq_self outside).symm, filed⟩
  | some v =>
    simp only [known] at deleted
    obtain ⟨vnet, home, deleted⟩ := Option.bind_eq_some_iff.mp deleted
    obtain ⟨key, read, deleted⟩ := Option.bind_eq_some_iff.mp deleted
    obtain rfl := ctableKey_take _ _ _ read
    have erased : access (switch.setVnet v
        { vnet with atable := vnet.atable.erase (uuid.take uuidStrLen) }) =
          (access switch).apply (.remove network (uuid.take uuidStrLen)) := by
      refine Mirror.ext rfl ?_
      ext ⟨name, entry⟩
      rw [setVnet_access filed network v vnet known home]
      by_cases same : name = network
      · subst same
        simp [Mirror.apply, Tables.Table.find_erase, entry_iff name entry v vnet known home,
          and_comm]
      · simp [Mirror.apply, same]
    have kept := setVnet_filed filed v vnet home (vnet.atable.erase (uuid.take uuidStrLen))
    cases joined : vnet.ctable.find (uuid.take uuidStrLen) with
    | none =>
      simp only [joined] at deleted
      obtain ⟨rfl, rfl⟩ := Prod.mk.inj (Option.some.inj deleted)
      exact ⟨erased, kept⟩
    | some s =>
      simp only [joined] at deleted
      obtain ⟨session, _, deleted⟩ := Option.bind_eq_some_iff.mp deleted
      obtain ⟨rfl, rfl⟩ := Prod.mk.inj (Option.some.inj deleted)
      exact ⟨erased, ⟨kept.below, kept.byUuid, kept.byId⟩⟩

end Switch

end NetVirt.AccessTables
