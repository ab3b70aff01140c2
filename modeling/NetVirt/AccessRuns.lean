import NetVirt.AccessListings

/-!
# The access tables over runs

What is under way is part of what the access tables will be. The invariant is about the
tables after all messages have arrived: they never have an entry too many, and once the
answer to the query for the nodes is under way they have every row of the known networks.
-/

namespace NetVirt.AccessTables

open Inet Runs Mirrors Nvctrler

/-! ## The invariant -/

/-- The tables will have no entry without a row, and from the answer with the nodes on every
row of the known networks. -/
structure Follows (columns : Columns) (system : System) : Prop where
  filed : Nvswitch.Filed system.switch
  drawn : Drawn system.db
  sound : Sound (pairs system.db) system.pending
  offline : system.connection = none → system.toSwitch = [] ∧ system.toCtrler = []
  online : system.connection.isSome → ∃ listed,
    Phase columns listed system.toCtrler system.toSwitch system.ctrlInitialized ∧
      (listed = true → Complete (pairs system.db) system.pending)

section Steps
variable {columns : Columns} {system : System}

/-- Nothing under way leaves the access tables as they are. -/
theorem pending_idle (idle : system.toSwitch = []) : system.pending = access system.switch := by
  rw [System.pending, idle]
  rfl

theorem pending_push (messages : List Message) :
    System.pending { system with toSwitch := system.toSwitch ++ messages } =
      system.pending.replay (messages.filterMap Message.update) := by
  simp [System.pending]

theorem initial_follows (db : Db) (drawn : Drawn db) : Follows columns (.initial db) where
  filed := Nvswitch.initial_filed
  drawn := drawn
  sound := by
    rintro pair ⟨v, vnet, found, _⟩
    cases found
  offline _ := ⟨rfl, rfl⟩
  online up := by cases up

theorem connect_follows (follows : Follows columns system) (down : system.connection = none) :
    Follows columns { system with
      ctrlInitialized := false
      connection := some system.made
      made := system.made + 1
      switchSinfo := some system.made
      toCtrler := [.listallNetwork] } where
  filed := follows.filed
  drawn := follows.drawn
  sound := follows.sound
  offline up := by cases up
  online _ := by
    refine ⟨false, ?_, by simp⟩
    rw [(follows.offline down).1]
    exact .asked .listallNetwork [] (by simp [Updates])

theorem lose_follows (follows : Follows columns system)
    (rows : (access system.switch).members ⊆ pairs system.db) :
    Follows columns { system with
      connection := none
      unseen := system.unseen + 1
      toSwitch := []
      toCtrler := [] } where
  filed := follows.filed
  drawn := follows.drawn
  sound := rows
  offline _ := ⟨rfl, rfl⟩
  online up := by cases up

theorem notice_follows (follows : Follows columns system) :
    Follows columns { system with
      db := daoResetNodeState system.db
      switchSinfo := none
      unseen := system.unseen - 1 } where
  filed := follows.filed
  drawn := follows.drawn.reset
  sound := by
    have sound := follows.sound
    rwa [← pairs_reset] at sound
  offline := follows.offline
  online up := by
    have online := follows.online up
    rwa [← pairs_reset] at online

/-- A message that arrives is no longer under way, and changes nothing else about what the
tables will be. -/
theorem toSwitch_follows (follows : Follows columns system) (message : Message)
    (rest : List Message) (under : system.toSwitch = message :: rest) (next : System)
    (taken : dispatchOp { system with toSwitch := rest } message = some next) :
    Follows columns next := by
  have up : system.connection.isSome := by
    apply Option.isSome_iff_ne_none.mpr
    intro down
    cases under.symm.trans (follows.offline down).1
  obtain ⟨listed, phase, complete⟩ := follows.online up
  rw [under] at phase
  obtain ⟨other, phase⟩ := phase.pop
  have dispatched : Dispatched { system with toSwitch := rest } message next :=
    dispatchOp_dispatched _ message next follows.filed other taken
  have db : next.db = system.db := by rw [dispatched.rest]
  have left : next.toSwitch = rest := by rw [dispatched.rest]
  have connection : next.connection = system.connection := by rw [dispatched.rest]
  have pending : next.pending = system.pending := by
    rw [System.pending, System.pending, left, dispatched.access, under, ← Mirror.replay_append]
    cases update : message.update <;> simp [update]
  constructor
  case filed => exact dispatched.filed
  case drawn => exact db ▸ follows.drawn
  case sound => exact db ▸ pending ▸ follows.sound
  case offline =>
    intro down
    rw [← connection, down] at up
    cases up
  case online =>
    intro _
    refine ⟨listed, ?_, fun done => db ▸ pending ▸ complete done⟩
    rw [left, congrArg System.toCtrler dispatched.rest,
      congrArg System.ctrlInitialized dispatched.rest]
    exact phase

/-- The network and the key that a node's message gives. -/
def nodePair (node : Node) : List UInt8 × List UInt8 :=
  (bytes node.networkUuid, (bytes node.uuid).take Nvswitch.uuidStrLen)

theorem mem_nodePair {db : Db} (drawn : Drawn db) (pair : List UInt8 × List UInt8) :
    pair ∈ db.node.rows.map nodePair ↔ pair ∈ pairs db := by
  rw [List.mem_map]
  apply exists_congr
  intro node
  apply and_congr_right
  intro inside
  rw [nodePair, List.take_of_length_le (drawn node inside).le]

theorem listing_networks (columns : Columns) (rows : List Context) :
    (listing (cbListallNetwork columns) rows).filterMap Message.update =
      (rows.map fun context => bytes context.uuid).map .group := by
  induction rows with
  | nil => rfl
  | cons context rest inductionHypothesis =>
    simp [listing, cbListallNetwork, Message.update, ← inductionHypothesis]

theorem listing_nodes (rows : List Node) :
    (listing cbListallNode rows).filterMap Message.update =
      (rows.map nodePair).map fun pair => .add pair.1 pair.2 := by
  induction rows with
  | nil => rfl
  | cons node rest inductionHypothesis =>
    simp [listing, cbListallNode, Message.update, nodePair, ← inductionHypothesis]

/-- No answer brings an entry without a row. -/
theorem answer_sound (follows : Follows columns system) (executed : Bool) (query : Query) :
    Sound (pairs system.db) (system.pending.replay
      ((system.answer columns executed query).filterMap Message.update)) := by
  have refused : Sound (pairs system.db)
      (system.pending.replay (([Message.error]).filterMap Message.update)) := follows.sound
  cases query with
  | listallNetwork =>
    cases executed with
    | false => exact refused
    | true =>
      have same := system.pending.replay_groups
        (system.db.context.rows.map fun context => bytes context.uuid)
      rw [← listing_networks columns] at same
      intro pair inside
      exact follows.sound (same ▸ inside)
  | listallNode =>
    cases executed with
    | false => exact refused
    | true =>
      have sound := follows.sound.listing (system.db.node.rows.map nodePair)
        fun pair listed => (mem_nodePair follows.drawn pair).mp listed
      rwa [← listing_nodes] at sound

theorem toCtrler_follows (follows : Follows columns system) (query : Query) (rest : List Query)
    (under : system.toCtrler = query :: rest) (executed : Bool) :
    Follows columns { system with
      toCtrler := rest
      toSwitch := system.toSwitch ++ system.answer columns executed query } where
  filed := follows.filed
  drawn := follows.drawn
  sound := by
    have sound := answer_sound follows executed query
    rwa [← pending_push] at sound
  offline down := by cases under.symm.trans (follows.offline down).2
  online up := by
    obtain ⟨listed, phase, _⟩ := follows.online up
    rw [under] at phase
    refine ⟨_, phase.answer system executed, fun done => ?_⟩
    obtain ⟨rfl, rfl, _⟩ := of_decide_eq_true done
    have complete := complete_listing system.pending (system.db.node.rows.map nodePair)
      fun pair row => (mem_nodePair follows.drawn pair).mpr row
    rw [← listing_nodes] at complete
    exact (pending_push (system.answer columns true .listallNode)).symm ▸ complete

/-- A command that is forwarded is under way behind everything else; what the tables will be
changes by it alone. -/
theorem forward_follows (follows : Follows columns system) (db : Db) (command : Command)
    (env : Env) (linked : env.switchConnected = system.switchSinfo.isSome)
    (reaches : system.connection.isSome → system.switchSinfo = system.connection)
    (incremental : Message.Incremental (.command command)) (drawn : Drawn db)
    (update : Update (List UInt8) (List UInt8))
    (forwards : Message.update (.command command) = some update)
    (sound : Sound (pairs db) (system.pending.apply update))
    (missed : system.connection = none → Sound (pairs db) system.pending)
    (complete : Complete (pairs system.db) system.pending →
      Complete (pairs db) (system.pending.apply update)) :
    Follows columns (System.write { system with db := db } (env.forward command)) := by
  rcases Option.eq_none_or_eq_some system.connection with up | ⟨connection, up⟩
  · have written : System.write { system with db := db } (env.forward command) =
        { system with db := db } := by
      simp [System.write, up]
    rw [written]
    exact ⟨follows.filed, drawn, missed up, follows.offline, fun on => by simp [up] at on⟩
  · have known : system.switchSinfo = system.connection := reaches (by simp [up])
    have written : System.write { system with db := db } (env.forward command) =
        { system with
          db := db
          toSwitch := system.toSwitch ++ [.command command] } := by
      simp [System.write, Env.forward, linked, known, up]
    have pending : System.pending { system with
        db := db
        toSwitch := system.toSwitch ++ [.command command] } = system.pending.apply update := by
      simp [System.pending, forwards]
    rw [written]
    constructor
    case filed => exact follows.filed
    case drawn => exact drawn
    case sound => exact pending ▸ sound
    case offline => exact fun down => by simp [up] at down
    case online =>
      intro on
      obtain ⟨listed, phase, all⟩ := follows.online on
      exact ⟨listed, phase.push _ incremental, fun done => pending ▸ complete (all done)⟩

theorem write_nothing (system : System) : system.write [] = system := by
  unfold System.write
  split <;> simp

theorem added_follows (follows : Follows columns system) (env : Env) (handled : Handled)
    (added : Added { env with switchConnected := system.switchSinfo.isSome } system.db handled)
    (length : (bytes env.uuid).length = Nvswitch.uuidStrLen)
    (reaches : system.connection.isSome → system.switchSinfo = system.connection) :
    Follows columns (System.write { system with db := handled.db } handled.answer.forwarded) := by
  cases added with
  | nothing same silent =>
    rw [same, silent, write_nothing]
    exact follows
  | row networkUuid rows drawn forwarded =>
    have key : (bytes env.uuid).take Nvswitch.uuidStrLen = bytes env.uuid :=
      List.take_of_length_le length.le
    rw [forwarded]
    apply forward_follows follows
    case linked => rfl
    case reaches => exact reaches
    case incremental => trivial
    case drawn => exact drawn follows.drawn length
    case update => exact .add (bytes networkUuid) (bytes env.uuid)
    case forwards => simp [Message.update, key]
    case sound => exact rows ▸ follows.sound.add _ _
    case missed => exact fun _ => rows ▸ follows.sound.grow (Set.subset_insert _ _)
    case complete => exact fun complete => rows ▸ complete.add _ _

theorem deleted_follows (follows : Follows columns system) (env : Env) (request : Request)
    (handled : Handled)
    (deleted : Deleted { env with switchConnected := system.switchSinfo.isSome } system.db request
      handled)
    (reaches : Reaches system (.delNode env request)) :
    Follows columns (System.write { system with db := handled.db } handled.answer.forwarded) := by
  cases deleted with
  | nothing same silent =>
    rw [same, silent, write_nothing]
    exact follows
  | row node networkUuid uuid asked network named rows drawn forwarded =>
    obtain ⟨still, length⟩ := drawn follows.drawn
    have key : (bytes uuid).take Nvswitch.uuidStrLen = bytes uuid :=
      List.take_of_length_le length.le
    rw [forwarded]
    apply forward_follows follows
    case linked => rfl
    case reaches => exact reaches.1
    case incremental => trivial
    case drawn => exact still
    case update => exact .remove (bytes networkUuid) (bytes uuid)
    case forwards => simp [Message.update, network, named, key]
    case sound => exact rows ▸ follows.sound.remove _ _
    case missed =>
      intro down
      have outside := reaches.2 down node networkUuid uuid asked network named
      rw [← pending_idle (follows.offline down).1] at outside
      exact rows ▸ follows.sound.shrink _ outside
    case complete => exact fun complete => rows ▸ complete.remove _ _

theorem step_follows (event : Event) (next : System) (follows : Follows columns system)
    (reaches : Reaches system event) (taken : step columns system event = some next) :
    Follows columns next := by
  cases event with
  | addNode env request =>
    simp only [step] at taken
    split at taken
    · next succeeded =>
      obtain rfl := Option.some.inj taken
      exact added_follows follows env _ (addNode_added _ _ _ succeeded.1) succeeded.2 reaches
    · cases taken
  | delNode env request =>
    simp only [step] at taken
    split at taken
    · next succeeded =>
      obtain rfl := Option.some.inj taken
      exact deleted_follows follows env request _
        (delNode_deleted _ _ _ succeeded.1 succeeded.2) reaches
    · cases taken
  | connect =>
    simp only [step] at taken
    split at taken
    · next down =>
      obtain rfl := Option.some.inj taken
      exact connect_follows follows down
    · cases taken
  | lose =>
    simp only [step] at taken
    split at taken
    · obtain rfl := Option.some.inj taken
      exact lose_follows follows reaches
    · cases taken
  | notice =>
    simp only [step] at taken
    split at taken
    · obtain rfl := Option.some.inj taken
      exact notice_follows follows
    · cases taken
  | toSwitch =>
    simp only [step] at taken
    split at taken
    · cases taken
    · next message rest under => exact toSwitch_follows follows message rest under next taken
  | toCtrler executed =>
    simp only [step] at taken
    split at taken
    · cases taken
    · next query rest under =>
      obtain rfl := Option.some.inj taken
      exact toCtrler_follows follows query rest under executed

/-- When nothing is under way and the listing is complete, the tables are what they will be. -/
theorem Follows.agrees (follows : Follows columns system) (quiet : Quiet system) :
    Agrees system := by
  obtain ⟨listed, phase, complete⟩ := follows.online quiet.connected
  have sound := follows.sound
  rw [pending_idle quiet.toSwitch] at sound complete
  rw [quiet.initialized] at phase
  have done := phase.completed
  intro network v vnet found home uuid
  rw [← entry_iff network uuid v vnet found home]
  constructor
  · exact fun entry => sound entry
  · exact fun row => complete done (network, uuid) row (by simp [access, found])

end Steps

/-- In every run in which no deletion misses the switch, the access table of each network that
the switch knows has exactly the uuids of the network's node rows, whenever the switch is
connected, has completed its listing, and nothing is under way.

Proof: the tables follow the node rows up to the messages under way. Every event that meets
the condition keeps this, and with nothing under way it is agreement. -/
theorem access_tables_follow (columns : Columns) (db : Db) (drawn : Drawn db)
    (events : List Event) (final : System)
    (reached : run (step columns) (.initial db) events = some final)
    (met : Meets (step columns) Reaches (.initial db) events) (quiet : Quiet final) :
    Agrees final := by
  have follows := invariant_under (step columns) Reaches (Follows columns)
    (fun system event next follows reaches taken => step_follows event next follows reaches taken)
    (.initial db) final events (initial_follows db drawn) met reached
  exact follows.agrees quiet

/-! ## A deletion during an outage -/

def sampleUuid (letter : Char) : Text := List.replicate 36 letter

/-- A network with the nodes "a" and "b". -/
def sampleNodes : Db :=
  { sampleDb with
    node :=
      { rows := [{ sampleNode with uuid := sampleUuid 'a' },
          { sampleNode with uuid := sampleUuid 'b' }]
        unique := by decide } }

def sampleColumns : Columns :=
  { id := fun _ => "1".toList
    host := fun _ => "44.128.0.0".toList
    netmask := fun _ => "255.255.0.0".toList }

/-- The switch connects and asks for the network and its two nodes. -/
def listingRun : List Event :=
  [.connect, .toCtrler true, .toSwitch, .toCtrler true, .toSwitch, .toSwitch]

/-- `del-node` for the node "a". -/
def sampleDeletion : Event :=
  .delNode sampleEnv
    { apikey := some "key-1".toList
      network := none
      node := some { networkuuid := some "net-1".toList, uuid := some (sampleUuid 'a'),
                     description := none } }

/-- The deletion between two connections, and the listing on the second one. -/
def outageRun : List Event :=
  listingRun ++ [.lose, .notice, sampleDeletion, .connect, .toCtrler true, .toSwitch,
    .toCtrler true, .toSwitch]

def outageEnd : System :=
  (run (step sampleColumns) (.initial sampleNodes) outageRun).get (by decide +kernel)

theorem sampleNodes_drawn : Drawn sampleNodes := by
  intro node inside
  simp only [sampleNodes, List.mem_cons, List.not_mem_nil, or_false] at inside
  rcases inside with rfl | rfl <;> decide

/-- The switch has completed its second listing, and still admits the node "a". -/
theorem outageRun_disagrees : Drawn sampleNodes ∧
    run (step sampleColumns) (.initial sampleNodes) outageRun = some outageEnd ∧
    Quiet outageEnd ∧ ¬ Agrees outageEnd := by
  refine ⟨sampleNodes_drawn, (Option.some_get _).symm, ?_, fun agrees => ?_⟩
  · constructor <;> decide +kernel
  · have home : outageEnd.switch.vnets 0 =
        some ((outageEnd.switch.vnets 0).get (by decide +kernel)) := (Option.some_get _).symm
    have row := (agrees (bytes "net-1".toList) 0 _ (by decide +kernel) home
      (bytes (sampleUuid 'a'))).mp (by decide +kernel)
    obtain ⟨node, inside, same⟩ := row
    have other : ∀ node ∈ outageEnd.db.node.rows, bytes node.uuid ≠ bytes (sampleUuid 'a') := by
      decide +kernel
    exact other node inside (Prod.mk.inj same).2

/-- What the controller forwards is sent on the switch's connection, and that does not end. -/
def Linked (system : System) : Event → Prop
  | .lose => False
  | .addNode _ _ => system.connection.isSome ∧ system.switchSinfo = system.connection
  | .delNode _ _ => system.connection.isSome ∧ system.switchSinfo = system.connection
  | _ => True

instance (system : System) (event : Event) : Decidable (Linked system event) := by
  cases event <;> unfold Linked <;> infer_instance

theorem Linked.reaches (system : System) (event : Event) (linked : Linked system event) :
    Reaches system event := by
  cases event with
  | addNode env request => exact fun _ => linked.2
  | delNode env request => exact ⟨fun _ => linked.2, fun down => absurd linked.1 (by simp [down])⟩
  | lose => exact linked.elim
  | _ => trivial

/-- The same deletion on the first connection. -/
def deletionRun : List Event := listingRun ++ [sampleDeletion, .toSwitch]

theorem deletionRun_agrees : Agrees
    ((run (step sampleColumns) (.initial sampleNodes) deletionRun).get (by decide +kernel)) :=
  access_tables_follow sampleColumns sampleNodes sampleNodes_drawn deletionRun _
    (Option.some_get _).symm
    (meets_mono _ Linked Reaches Linked.reaches _ _ (by decide +kernel))
    ⟨by decide +kernel, by decide +kernel, by decide +kernel, by decide +kernel⟩

end NetVirt.AccessTables
