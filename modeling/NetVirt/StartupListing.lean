import NetVirt.AccessRuns
import NetVirt.AddressBook

/-!
# The listing at start-up

The answers of the controller to the two queries, as dao.c and request.c produce them: one
message for each row, sent from a callback that is told how many rows are behind. The row
with none behind it ends the listing, so that without any row nothing is sent, and nothing
ends it.
-/

namespace NetVirt.AccessTables

open Inet Runs Mirrors Nvctrler

/-! ## The answers -/

section Answers
variable {Row : Type}

/-- The loop over the rows of a result, from the one at `i` on. A callback that returns -1
ends it. -/
def eachRow (callback : Row → Nat → List Message × Int) (tuples : Nat) :
    Nat → List Row → List Message × Int
  | _, [] => ([], 0)
  | i, row :: rest =>
    let (sent, ret) := callback row (tuples - i - 1)
    if ret = -1 then (sent, -1)
    else
      let (others, ret) := eachRow callback tuples (i + 1) rest
      (sent ++ others, ret)

/-- `dao_fetch_context` -/
def daoFetchContext (outcome : Outcome) (rows : List Row)
    (callback : Row → Nat → List Message × Int) : List Message × Int :=
  match outcome with
  | .done => if rows.length = 0 then ([], 0) else eachRow callback rows.length 0 rows
  | _ => ([], -1)

/-- `dao_fetch_node_uuid_networkuuid` -/
def daoFetchNodeUuidNetworkuuid (outcome : Outcome) (rows : List Row)
    (callback : Row → Nat → List Message × Int) : List Message × Int :=
  match outcome with
  | .done => eachRow callback rows.length 0 rows
  | _ => ([], -1)

/-- The end of the callbacks: the message is sent unless the session has no connection. -/
def callbackSend (connected : Bool) (command : Command) : List Message × Int :=
  if connected then ([.command command], 0) else ([], -1)

/-- The answer to a query that was not carried out. -/
def errorSend (connected : Bool) : List Message := if connected then [.error] else []

/-- `listall_network` -/
def listallNetwork (columns : Columns) (outcome : Outcome) (connected : Bool)
    (rows : List Context) : List Message :=
  let (sent, ret) := daoFetchContext outcome rows fun context remaining =>
    callbackSend connected (cbListallNetwork columns context remaining)
  if ret = -1 then sent ++ errorSend connected else sent

/-- `listall_node` -/
def listallNode (outcome : Outcome) (connected : Bool) (rows : List Node) : List Message :=
  let (sent, ret) := daoFetchNodeUuidNetworkuuid outcome rows fun node remaining =>
    callbackSend connected (cbListallNode node remaining)
  if ret = 0 then sent else sent ++ errorSend connected

/-- On a connection every callback sends, and the rows behind are those not yet sent. -/
theorem eachRow_sends (message : Row → Nat → Command) (tuples i : Nat) (rows : List Row)
    (behind : i + rows.length = tuples) :
    eachRow (fun row remaining => callbackSend true (message row remaining)) tuples i rows =
      (listing message rows, 0) := by
  induction rows generalizing i with
  | nil => rfl
  | cons row rest inductionHypothesis =>
    have remaining : tuples - i - 1 = rest.length := by
      simp only [List.length_cons] at behind
      omega
    have later := inductionHypothesis (i + 1) (by
      simp only [List.length_cons] at behind
      omega)
    simp only [callbackSend, if_true] at later
    simp [eachRow, callbackSend, later, listing, remaining]

theorem listallNetwork_answer (columns : Columns) (system : System) :
    listallNetwork columns .done true system.db.context.rows =
      system.answer columns true .listallNetwork := by
  have sends := eachRow_sends (cbListallNetwork columns) system.db.context.rows.length 0
    system.db.context.rows (Nat.zero_add _)
  unfold listallNetwork daoFetchContext System.answer
  by_cases none : system.db.context.rows.length = 0
  · rw [List.length_eq_zero_iff.mp none]
    rfl
  · simp [none, sends]

theorem listallNode_answer (columns : Columns) (system : System) :
    listallNode .done true system.db.node.rows = system.answer columns true .listallNode := by
  have sends := eachRow_sends cbListallNode system.db.node.rows.length 0 system.db.node.rows
    (Nat.zero_add _)
  simp [listallNode, daoFetchNodeUuidNetworkuuid, System.answer, sends]

/-- The controller answers a query as the functions of request.c do. -/
theorem answer_outcome (columns : Columns) (system : System) (outcome : Outcome) :
    listallNetwork columns outcome true system.db.context.rows =
        system.answer columns (decide (outcome = .done)) .listallNetwork ∧
      listallNode outcome true system.db.node.rows =
        system.answer columns (decide (outcome = .done)) .listallNode := by
  cases outcome with
  | done => exact ⟨listallNetwork_answer columns system, listallNode_answer columns system⟩
  | _ => exact ⟨rfl, rfl⟩

/-- Each row has one message, in order; the last one ends the listing and no other does. -/
def Listed (message : Row → Listing → Command) (rows : List Row) (messages : List Message) :
    Prop :=
  ∃ early last, rows = early ++ [last] ∧
    messages = early.map (fun row => .command (message row .moreData)) ++
      [.command (message last .success)]

/-- A listing does so exactly when there is a row. -/
theorem listing_listed_iff (message : Row → Listing → Command) (rows : List Row) :
    Listed message rows (listing (fun row remaining => message row (responseOf remaining)) rows) ↔
      rows ≠ [] := by
  constructor
  · rintro ⟨early, last, rfl, _⟩
    simp
  · intro some
    induction rows with
    | nil => exact absurd rfl some
    | cons row rest inductionHypothesis =>
      cases rest with
      | nil => exact ⟨[], row, rfl, rfl⟩
      | cons next rest =>
        obtain ⟨early, last, split, listed⟩ := inductionHypothesis (by simp)
        refine ⟨row :: early, last, by rw [split]; rfl, ?_⟩
        rw [listing, listed]
        rfl

end Answers

/-- The message of a row of table context, with its `response`. -/
def networkMessage (columns : Columns) (context : Context) (response : Listing) : Command :=
  .listallNetwork
    { id := some (columns.id context)
      uuid := context.uuid
      network := columns.host context.network
      netmask := columns.netmask context.network
      cert := context.passportCertificate
      pkey := context.passportPrivatekey
      tcert := context.embassyCertificate } response

/-- The message of a row of table node. -/
def nodeMessage (node : Node) (response : Listing) : Command :=
  .listallNode { networkuuid := node.networkUuid, uuid := node.uuid } response

/-- The table of a query has a row. -/
def Query.HasRows (db : Db) : Query → Prop
  | .listallNetwork => db.context.rows ≠ []
  | .listallNode => db.node.rows ≠ []

instance (db : Db) : (query : Query) → Decidable (query.HasRows db)
  | .listallNetwork => inferInstanceAs (Decidable (db.context.rows ≠ []))
  | .listallNode => inferInstanceAs (Decidable (db.node.rows ≠ []))

/-- The messages list the table of a query. -/
def Query.ListedBy (columns : Columns) (db : Db) (messages : List Message) : Query → Prop
  | .listallNetwork => Listed (networkMessage columns) db.context.rows messages
  | .listallNode => Listed nodeMessage db.node.rows messages

theorem Query.listed_iff (columns : Columns) (system : System) (query : Query) :
    query.ListedBy columns system.db (system.answer columns true query) ↔
      query.HasRows system.db := by
  cases query with
  | listallNetwork => exact listing_listed_iff (networkMessage columns) system.db.context.rows
  | listallNode => exact listing_listed_iff nodeMessage system.db.node.rows

/-! ## The events of one connection -/

/-- Events while the connection lasts, with queries that are carried out. -/
def Lasting : Event → Prop
  | .connect => False
  | .lose => False
  | .toCtrler executed => executed = true
  | _ => True

/-- A query that the controller answers is answered with a listing of its table. -/
def AnswersListed (columns : Columns) (system : System) : Event → Prop
  | .toCtrler true => ∀ query ∈ system.toCtrler.head?, ∀ next,
      step columns system (.toCtrler true) = some next →
        ∃ messages, next.toSwitch = system.toSwitch ++ messages ∧
          query.ListedBy columns system.db messages
  | _ => True

/-- The table of a query that the controller answers has a row. -/
def AnswersSomething (system : System) : Event → Prop
  | .toCtrler true => ∀ query ∈ system.toCtrler.head?, query.HasRows system.db
  | _ => True

instance (system : System) : (event : Event) → Decidable (AnswersSomething system event)
  | .toCtrler true =>
    inferInstanceAs (Decidable (∀ query ∈ system.toCtrler.head?, query.HasRows system.db))
  | .toCtrler false | .addNode _ _ | .delNode _ _ | .connect | .lose | .notice | .toSwitch =>
    isTrue trivial

/-- How often a step sends the query for the nodes. -/
def nodeQueries (columns : Columns) (system : System) (event : Event) : Nat :=
  ((step columns system event).map fun next =>
    (next.toCtrler.drop system.toCtrler.length).count .listallNode).getD 0

/-- How often a step sets `ctrl_initialized` to 1. -/
def initialisations (columns : Columns) (system : System) (event : Event) : Nat :=
  ((step columns system event).map fun next =>
    if system.ctrlInitialized = false ∧ next.ctrlInitialized = true then 1 else 0).getD 0

theorem answersListed_iff (columns : Columns) (system : System) (event : Event) :
    AnswersListed columns system event ↔ AnswersSomething system event := by
  cases event with
  | toCtrler executed =>
    cases executed with
    | false => exact Iff.rfl
    | true =>
      cases under : system.toCtrler with
      | nil => simp [AnswersListed, AnswersSomething, under]
      | cons query rest => simp [AnswersListed, AnswersSomething, under, step, Query.listed_iff]
  | _ => exact Iff.rfl

/-! ## Steps -/

/-- A request forwards commands for single nodes, and nothing when there is no connection. -/
theorem write_cases (system : System) (commands : List Command)
    (incremental : Updates (commands.map .command)) :
    ∃ messages, Updates messages ∧ (system.connection = none → messages = []) ∧
      system.write commands = { system with toSwitch := system.toSwitch ++ messages } := by
  unfold System.write
  split
  · next linked => exact ⟨_, incremental, fun down => by simp [down] at linked, rfl⟩
  · exact ⟨[], by simp [Updates], fun _ => rfl, by simp⟩

theorem forward_updates (env : Env) (command : Command)
    (incremental : Message.Incremental (.command command)) :
    Updates ((env.forward command).map .command) := by
  intro message inside
  unfold Env.forward at inside
  split at inside
  · rw [List.map_singleton, List.mem_singleton] at inside
    exact inside ▸ incremental
  · cases inside

/-- What an event does besides the switch taking a message and the controller a query. -/
theorem request_cases (columns : Columns) (system next : System) (event : Event)
    (request : (∃ env request, event = .addNode env request) ∨
      ∃ env request, event = .delNode env request)
    (taken : step columns system event = some next) :
    ∃ db messages, Updates messages ∧ (system.connection = none → messages = []) ∧
      next = { system with
        db := db
        toSwitch := system.toSwitch ++ messages } := by
  have nothing : Updates (([] : List Command).map .command) := by simp [Updates]
  rcases request with ⟨env, request, rfl⟩ | ⟨env, request, rfl⟩
  · simp only [step] at taken
    split at taken
    · next succeeded =>
      obtain rfl := Option.some.inj taken
      have updates : Updates ((system.request env .addNode request).answer.forwarded.map
          .command) := by
        cases addNode_added _ _ _ succeeded.1 with
        | nothing same silent => exact silent ▸ nothing
        | row networkUuid rows drawn forwarded => exact forwarded ▸ forward_updates _ _ trivial
      obtain ⟨messages, kind, none, written⟩ :=
        write_cases { system with db := (system.request env .addNode request).db } _ updates
      exact ⟨_, messages, kind, none, written⟩
    · cases taken
  · simp only [step] at taken
    split at taken
    · next succeeded =>
      obtain rfl := Option.some.inj taken
      have updates : Updates ((system.request env .delNode request).answer.forwarded.map
          .command) := by
        cases delNode_deleted _ _ _ succeeded.1 succeeded.2 with
        | nothing same silent => exact silent ▸ nothing
        | row node networkUuid uuid asked network named rows drawn forwarded =>
          exact forwarded ▸ forward_updates _ _ trivial
      obtain ⟨messages, kind, none, written⟩ :=
        write_cases { system with db := (system.request env .delNode request).db } _ updates
      exact ⟨_, messages, kind, none, written⟩
    · cases taken

/-- What holds whether the switch is connected or not. -/
structure Calm (system : System) : Prop where
  filed : Nvswitch.Filed system.switch
  plain : ∀ message ∈ system.toSwitch, ∀ uuid, message ≠ .command (.delNetwork uuid)
  offline : system.connection = none → system.toSwitch = [] ∧ system.toCtrler = []

theorem Calm.push {system : System} (calm : Calm system) (db : Db) (messages : List Message)
    (updates : Updates messages) (none : system.connection = none → messages = []) :
    Calm { system with
      db := db
      toSwitch := system.toSwitch ++ messages } where
  filed := calm.filed
  plain message inside uuid := by
    rcases List.mem_append.mp inside with old | new
    · exact calm.plain message old uuid
    · exact (updates message new).plain.other uuid
  offline down := by
    obtain ⟨idle, silent⟩ := calm.offline down
    exact ⟨by simp [idle, none down], silent⟩

theorem listing_plain {Row : Type} (message : Row → Nat → Command) (rows : List Row)
    (other : ∀ row remaining uuid, message row remaining ≠ .delNetwork uuid) :
    ∀ sent ∈ listing message rows, ∀ uuid, sent ≠ .command (.delNetwork uuid) := by
  induction rows with
  | nil => simp [listing]
  | cons row rest inductionHypothesis =>
    intro sent inside uuid
    rcases List.mem_cons.mp inside with rfl | later
    · intro same
      exact other row rest.length uuid (Message.command.inj same)
    · exact inductionHypothesis sent later uuid

theorem answer_plain (columns : Columns) (system : System) (executed : Bool) (query : Query) :
    ∀ sent ∈ system.answer columns executed query, ∀ uuid, sent ≠ .command (.delNetwork uuid) := by
  cases executed with
  | false => cases query <;> simp [System.answer]
  | true =>
    cases query with
    | listallNetwork => exact listing_plain _ _ (by simp [cbListallNetwork])
    | listallNode => exact listing_plain _ _ (by simp [cbListallNode])

theorem step_calm (columns : Columns) (system : System) (event : Event) (next : System)
    (calm : Calm system) (taken : step columns system event = some next) : Calm next := by
  cases event with
  | addNode env request =>
    obtain ⟨db, messages, updates, none, rfl⟩ :=
      request_cases columns system next _ (Or.inl ⟨env, request, rfl⟩) taken
    exact calm.push db messages updates none
  | delNode env request =>
    obtain ⟨db, messages, updates, none, rfl⟩ :=
      request_cases columns system next _ (Or.inr ⟨env, request, rfl⟩) taken
    exact calm.push db messages updates none
  | connect =>
    simp only [step] at taken
    split at taken
    · obtain rfl := Option.some.inj taken
      exact ⟨calm.filed, calm.plain, fun down => by cases down⟩
    · cases taken
  | lose =>
    simp only [step] at taken
    split at taken
    · obtain rfl := Option.some.inj taken
      exact ⟨calm.filed, by simp, fun _ => ⟨rfl, rfl⟩⟩
    · cases taken
  | notice =>
    simp only [step] at taken
    split at taken
    · obtain rfl := Option.some.inj taken
      exact ⟨calm.filed, calm.plain, calm.offline⟩
    · cases taken
  | toSwitch =>
    simp only [step] at taken
    split at taken
    · cases taken
    · next message rest under =>
      have first : message ∈ system.toSwitch := under ▸ List.mem_cons_self
      have dispatched : Dispatched { system with toSwitch := rest } message next :=
        dispatchOp_dispatched _ message next calm.filed (calm.plain message first) taken
      have left : next.toSwitch = rest := by rw [dispatched.rest]
      have connection : next.connection = system.connection := by rw [dispatched.rest]
      refine ⟨dispatched.filed, fun other inside => ?_, fun down => ?_⟩
      · exact calm.plain other (under ▸ List.mem_cons_of_mem message (left ▸ inside))
      · rw [connection] at down
        cases under.symm.trans (calm.offline down).1
  | toCtrler executed =>
    simp only [step] at taken
    split at taken
    · cases taken
    · next query rest under =>
      obtain rfl := Option.some.inj taken
      refine ⟨calm.filed, fun message inside => ?_, fun down => ?_⟩
      · rcases List.mem_append.mp inside with old | new
        · exact calm.plain message old
        · exact answer_plain columns system executed query message new
      · cases under.symm.trans (calm.offline down).2

/-! ## How far the listing is -/

/-- Whether each table asked for had a row, how often the query for the nodes was sent and the
listing was completed on this connection, and what is under way on it. -/
inductive Stage (columns : Columns) :
    Bool → Nat → Nat → List Query → List Message → Bool → Prop where
  | opened (messages : List Message) (updates : Updates messages) :
      Stage columns true 0 0 [.listallNetwork] messages false
  | networks (before after : List Message) (context : Context) (rest : List Context)
      (early : Updates before) (late : Updates after) :
      Stage columns true 0 0 []
        (before ++ listing (cbListallNetwork columns) (context :: rest) ++ after) false
  | asked (messages : List Message) (updates : Updates messages) :
      Stage columns true 1 0 [.listallNode] messages false
  | nodes (before after : List Message) (node : Node) (rest : List Node)
      (early : Updates before) (late : Updates after) :
      Stage columns true 1 0 [] (before ++ listing cbListallNode (node :: rest) ++ after) false
  | complete (messages : List Message) (updates : Updates messages) :
      Stage columns true 1 1 [] messages true
  | waiting (asked : Nat) (messages : List Message) (updates : Updates messages) :
      Stage columns false asked 0 [] messages false

section Stages
variable {columns : Columns} {served initialized : Bool} {asked set : Nat} {queries : List Query}

theorem Updates.append {early late : List Message} (first : Updates early)
    (second : Updates late) : Updates (early ++ late) := by
  intro message inside
  rcases List.mem_append.mp inside with old | new
  · exact first message old
  · exact second message new

theorem Stage.push {messages : List Message}
    (stage : Stage columns served asked set queries messages initialized)
    (others : List Message) (updates : Updates others) :
    Stage columns served asked set queries (messages ++ others) initialized := by
  cases stage with
  | opened _ old => exact .opened _ (old.append updates)
  | asked _ old => exact .asked _ (old.append updates)
  | complete _ old => exact .complete _ (old.append updates)
  | waiting _ _ old => exact .waiting _ _ (old.append updates)
  | networks before after context rest early late =>
    rw [List.append_assoc]
    exact .networks before _ context rest early (late.append updates)
  | nodes before after node rest early late =>
    rw [List.append_assoc]
    exact .nodes before _ node rest early (late.append updates)

/-- The switch takes the next message: the last network has it ask for the nodes, the last node
completes the listing. -/
theorem Stage.pop {message : Message} {rest : List Message}
    (stage : Stage columns served asked set queries (message :: rest) initialized) :
    Stage columns served (asked + (message.asks initialized).count .listallNode)
      (set + if initialized = false ∧ message.completes = true then 1 else 0)
      (queries ++ message.asks initialized) rest (initialized || message.completes) := by
  generalize under : message :: rest = messages at stage
  cases stage with
  | opened _ updates =>
    subst under
    obtain ⟨plain, updates⟩ := updates.pop
    simpa [plain.asks, plain.completes] using Stage.opened rest updates
  | asked _ updates =>
    subst under
    obtain ⟨plain, updates⟩ := updates.pop
    simpa [plain.asks, plain.completes] using Stage.asked rest updates
  | complete _ updates =>
    subst under
    obtain ⟨plain, updates⟩ := updates.pop
    simpa [plain.asks, plain.completes] using Stage.complete rest updates
  | waiting _ _ updates =>
    subst under
    obtain ⟨plain, updates⟩ := updates.pop
    simpa [plain.asks, plain.completes] using Stage.waiting asked rest updates
  | networks before after context others early late =>
    cases before with
    | cons first before =>
      obtain ⟨rfl, rfl⟩ := List.cons.inj under
      obtain ⟨plain, early⟩ := early.pop
      simpa [plain.asks, plain.completes] using
        Stage.networks before after context others early late
    | nil =>
      obtain ⟨rfl, rfl⟩ := List.cons.inj under
      cases others with
      | nil => exact .asked after late
      | cons next others => exact .networks [] after next others (by simp [Updates]) late
  | nodes before after node others early late =>
    cases before with
    | cons first before =>
      obtain ⟨rfl, rfl⟩ := List.cons.inj under
      obtain ⟨plain, early⟩ := early.pop
      simpa [plain.asks, plain.completes] using Stage.nodes before after node others early late
    | nil =>
      obtain ⟨rfl, rfl⟩ := List.cons.inj under
      cases others with
      | nil => exact .complete after late
      | cons next others => exact .nodes [] after next others (by simp [Updates]) late

/-- The controller answers the query. Without a row, nothing will come that the switch goes on
for. -/
theorem Stage.answer {messages : List Message} {query : Query} {rest : List Query}
    (stage : Stage columns served asked set (query :: rest) messages initialized)
    (system : System) : ∃ still, (still = true ↔ served = true ∧ query.HasRows system.db) ∧
      Stage columns still asked set rest (messages ++ system.answer columns true query)
        initialized := by
  cases stage with
  | opened _ updates =>
    cases rows : system.db.context.rows with
    | nil =>
      refine ⟨false, by simp [Query.HasRows, rows], ?_⟩
      simpa [System.answer, rows, listing] using Stage.waiting 0 messages updates
    | cons context others =>
      refine ⟨true, by simp [Query.HasRows, rows], ?_⟩
      simpa [System.answer, rows] using
        Stage.networks messages [] context others updates (by simp [Updates])
  | asked _ updates =>
    cases rows : system.db.node.rows with
    | nil =>
      refine ⟨false, by simp [Query.HasRows, rows], ?_⟩
      simpa [System.answer, rows, listing] using Stage.waiting 1 messages updates
    | cons node others =>
      refine ⟨true, by simp [Query.HasRows, rows], ?_⟩
      simpa [System.answer, rows] using
        Stage.nodes messages [] node others updates (by simp [Updates])

/-- When nothing is under way, the listing was completed once or the switch waits for good. -/
theorem Stage.idle (stage : Stage columns served asked set [] [] initialized) :
    asked = 1 ∧ set = 1 ↔ served = true := by
  generalize under : ([] : List Message) = messages at stage
  cases stage with
  | networks before after context rest => simp [listing] at under
  | nodes before after node rest => simp [listing] at under
  | complete => simp
  | waiting => simp

end Stages

/-! ## Runs -/

/-- What the events on a connection so far have led to. -/
structure Stands (columns : Columns) (start : System) (past : List Event)
    (system : System) : Prop where
  calm : Calm system
  stage : ∃ served, (served = true ↔ Meets (step columns) AnswersSomething start past) ∧
    Stage columns served (tally (step columns) (nodeQueries columns) start past)
      (tally (step columns) (initialisations columns) start past) system.toCtrler system.toSwitch
      system.ctrlInitialized

theorem nodeQueries_none (columns : Columns) (system next : System) (event : Event)
    (taken : step columns system event = some next)
    (short : next.toCtrler.length ≤ system.toCtrler.length) :
    nodeQueries columns system event = 0 := by
  simp [nodeQueries, taken, List.drop_eq_nil_of_le short]

theorem initialisations_none (columns : Columns) (system next : System) (event : Event)
    (taken : step columns system event = some next)
    (same : next.ctrlInitialized = system.ctrlInitialized) :
    initialisations columns system event = 0 := by
  simp only [initialisations, taken, Option.map_some, Option.getD_some, same]
  cases system.ctrlInitialized <;> simp

section Stands
variable {columns : Columns} {start system next : System} {past : List Event} {event : Event}
  (reached : run (step columns) start past = some system)
  (stands : Stands columns start past system)
include reached stands

/-- A step leads to where the stage after it stands. -/
theorem Stands.snoc (taken : step columns system event = some next)
    (stage : ∃ served, (served = true ↔ Meets (step columns) AnswersSomething start past ∧
        AnswersSomething system event) ∧
      Stage columns served
        (tally (step columns) (nodeQueries columns) start past + nodeQueries columns system event)
        (tally (step columns) (initialisations columns) start past +
          initialisations columns system event)
        next.toCtrler next.toSwitch next.ctrlInitialized) :
    Stands columns start (past ++ [event]) next := by
  refine ⟨step_calm columns system event next stands.calm taken, ?_⟩
  rw [meets_snoc _ _ _ _ _ _ reached, tally_snoc _ _ _ _ _ _ reached,
    tally_snoc _ _ _ _ _ _ reached]
  exact stage

/-- A step that leaves the queries and the switch alone only adds updates. -/
theorem Stands.push (taken : step columns system event = some next)
    (answers : AnswersSomething system event) {messages : List Message}
    (updates : Updates messages) (toCtrler : next.toCtrler = system.toCtrler)
    (toSwitch : next.toSwitch = system.toSwitch ++ messages)
    (initialized : next.ctrlInitialized = system.ctrlInitialized) :
    Stands columns start (past ++ [event]) next := by
  obtain ⟨served, fed, stage⟩ := stands.stage
  refine stands.snoc reached taken ⟨served, fed.trans (and_iff_left answers).symm, ?_⟩
  rw [nodeQueries_none columns system next event taken (le_of_eq (congrArg _ toCtrler)),
    initialisations_none columns system next event taken initialized, toCtrler, toSwitch,
    initialized]
  exact stage.push messages updates

/-- The switch takes the first message for it. -/
theorem Stands.pop (taken : step columns system .toSwitch = some next) {message : Message}
    {rest : List Message} (under : system.toSwitch = message :: rest)
    (dispatched : Dispatched { system with toSwitch := rest } message next) :
    Stands columns start (past ++ [.toSwitch]) next := by
  obtain ⟨served, fed, stage⟩ := stands.stage
  have toSwitch : next.toSwitch = rest := by rw [dispatched.rest]
  have toCtrler : next.toCtrler =
      system.toCtrler ++ message.asks system.ctrlInitialized := by rw [dispatched.rest]
  have initialized : next.ctrlInitialized =
      (system.ctrlInitialized || message.completes) := by rw [dispatched.rest]
  have queries : nodeQueries columns system .toSwitch =
      (message.asks system.ctrlInitialized).count .listallNode := by
    simp [nodeQueries, taken, toCtrler]
  have sets : initialisations columns system .toSwitch =
      if system.ctrlInitialized = false ∧ message.completes = true then 1 else 0 := by
    simp only [initialisations, taken, Option.map_some, Option.getD_some, initialized]
    cases system.ctrlInitialized <;> simp
  refine stands.snoc reached taken ⟨served, fed.trans (and_iff_left trivial).symm, ?_⟩
  rw [queries, sets, toCtrler, toSwitch, initialized]
  rw [under] at stage
  exact stage.pop

end Stands

theorem step_stands (columns : Columns) (start : System) (past : List Event) (system : System)
    (event : Event) (next : System) (reached : run (step columns) start past = some system)
    (stands : Stands columns start past system) (lasting : Lasting event)
    (taken : step columns system event = some next) :
    Stands columns start (past ++ [event]) next := by
  have calm := stands.calm
  cases event with
  | connect => exact lasting.elim
  | lose => exact lasting.elim
  | addNode env request =>
    obtain ⟨db, messages, updates, _, rfl⟩ :=
      request_cases columns system next _ (Or.inl ⟨env, request, rfl⟩) taken
    exact stands.push reached taken trivial updates rfl rfl rfl
  | delNode env request =>
    obtain ⟨db, messages, updates, _, rfl⟩ :=
      request_cases columns system next _ (Or.inr ⟨env, request, rfl⟩) taken
    exact stands.push reached taken trivial updates rfl rfl rfl
  | notice =>
    have noticed := taken
    simp only [step] at noticed
    split at noticed
    · obtain rfl := Option.some.inj noticed
      have nothing : Updates [] := by simp [Updates]
      exact stands.push reached taken trivial nothing rfl (by simp) rfl
    · cases noticed
  | toSwitch =>
    have arrived := taken
    simp only [step] at arrived
    split at arrived
    · cases arrived
    · next message rest under =>
      have first : message ∈ system.toSwitch := under ▸ List.mem_cons_self
      exact stands.pop reached taken under
        (dispatchOp_dispatched _ message next calm.filed (calm.plain message first) arrived)
  | toCtrler executed =>
    have answered := taken
    obtain rfl : executed = true := lasting
    simp only [step] at answered
    split at answered
    · cases answered
    · next query rest under =>
      obtain rfl := Option.some.inj answered
      have queries := nodeQueries_none columns system _ _ taken (by simp [under])
      have sets := initialisations_none columns system _ _ taken rfl
      obtain ⟨served, fed, stage⟩ := stands.stage
      rw [under] at stage
      obtain ⟨still, rows, later⟩ := stage.answer system
      refine stands.snoc reached taken ⟨still, ?_, ?_⟩
      · rw [rows, fed]
        simp [AnswersSomething, under]
      · rw [queries, sets]
        exact later

/-! ## Deliveries alone -/

/-- A message of a listing that the switch can take. -/
def Message.Takable : Message → Prop
  | .command (.listallNetwork _ _) => True
  | .command (.listallNode element _) => (bytes element.uuid).length = Nvswitch.uuidStrLen
  | _ => False

/-- An event that delivers what is under way. -/
def Delivery (event : Event) : Prop := event = .toSwitch ∨ event = .toCtrler true

theorem Message.Takable.other {message : Message} (takable : message.Takable) (uuid : Option Text) :
    message ≠ .command (.delNetwork uuid) := by
  rintro rfl
  exact takable

theorem Message.Takable.taken {message : Message} (takable : message.Takable) (system : System)
    (filed : Nvswitch.Filed system.switch) : ∃ next, dispatchOp system message = some next := by
  cases message with
  | error => exact takable.elim
  | command command =>
    cases command with
    | delNetwork uuid => exact takable.elim
    | delNode node => exact takable.elim
    | listallNetwork element response =>
      simp only [dispatchOp]
      split
      · exact ⟨_, rfl⟩
      · exact ⟨_, rfl⟩
    | listallNode element response =>
      have length : (bytes element.uuid).length = Nvswitch.uuidStrLen := takable
      have listed : ∃ switch, Nvswitch.listNode system.switch (bytes element.uuid)
          (bytes element.networkuuid) = some switch := by
        unfold Nvswitch.listNode
        cases found : system.switch.vnetworks.find (bytes element.networkuuid) with
        | none => exact ⟨_, rfl⟩
        | some v =>
          obtain ⟨vnet, home, _⟩ := filed.byUuid _ v found
          simp [home, Nvswitch.ctableKey, length]
      obtain ⟨switch, listed⟩ := listed
      simp only [dispatchOp, listed, Option.bind_eq_bind, Option.bind_some]
      split
      · exact ⟨_, rfl⟩
      · exact ⟨_, rfl⟩

/-- The queries that a message has the switch send are for the nodes. -/
theorem Message.asks_nodes (message : Message) (initialized : Bool) :
    ∀ query ∈ message.asks initialized, query = .listallNode := by
  intro query inside
  unfold Message.asks at inside
  split at inside
  · split at inside
    · cases inside
    · exact List.mem_singleton.mp inside
  · cases inside

/-- The switch takes all the messages under way. -/
theorem drain_switch (columns : Columns) (messages : List Message)
    (takable : ∀ message ∈ messages, message.Takable) (system : System)
    (filed : Nvswitch.Filed system.switch) (under : system.toSwitch = messages) :
    ∃ next asked, run (step columns) system (List.replicate messages.length .toSwitch) = some next ∧
      next.toSwitch = [] ∧ next.toCtrler = system.toCtrler ++ asked ∧ next.db = system.db ∧
      Nvswitch.Filed next.switch ∧ (∀ query ∈ asked, query = .listallNode) ∧
      ((∀ message ∈ messages, ∀ initialized, message.asks initialized = []) → asked = []) := by
  induction messages generalizing system with
  | nil => exact ⟨system, [], rfl, under, by simp, rfl, filed, by simp, fun _ => rfl⟩
  | cons message rest inductionHypothesis =>
    have first := takable message List.mem_cons_self
    obtain ⟨middle, taken⟩ := first.taken { system with toSwitch := rest } filed
    have dispatched : Dispatched { system with toSwitch := rest } message middle :=
      dispatchOp_dispatched _ message middle filed first.other taken
    have left : middle.toSwitch = rest := by rw [dispatched.rest]
    have toCtrler : middle.toCtrler =
        system.toCtrler ++ message.asks system.ctrlInitialized := by rw [dispatched.rest]
    have db : middle.db = system.db := by rw [dispatched.rest]
    obtain ⟨next, asked, reached, idle, queries, rows, still, nodes, silent⟩ :=
      inductionHypothesis (fun other inside => takable other (List.mem_cons_of_mem message inside))
        middle dispatched.filed left
    refine ⟨next, message.asks system.ctrlInitialized ++ asked, ?_, idle, ?_, rows.trans db, still,
      ?_, ?_⟩
    · have delivered : step columns system .toSwitch = some middle := by simpa [step, under]
      rw [List.length_cons, List.replicate_succ, run, delivered]
      exact reached
    · rw [queries, toCtrler, List.append_assoc]
    · intro query inside
      rcases List.mem_append.mp inside with now | later
      · exact message.asks_nodes system.ctrlInitialized query now
      · exact nodes query later
    · intro none
      rw [none message List.mem_cons_self, List.nil_append]
      exact silent fun other inside => none other (List.mem_cons_of_mem message inside)

theorem nodes_takable {db : Db} (drawn : Drawn db) (rows : List Node)
    (inside : ∀ node ∈ rows, node ∈ db.node.rows) :
    ∀ message ∈ listing cbListallNode rows, message.Takable ∧
      ∀ initialized, message.asks initialized = [] := by
  induction rows with
  | nil => simp [listing]
  | cons node rest inductionHypothesis =>
    intro message sent
    rcases List.mem_cons.mp sent with rfl | later
    · exact ⟨drawn node (inside node List.mem_cons_self), fun _ => rfl⟩
    · exact inductionHypothesis
        (fun other within => inside other (List.mem_cons_of_mem node within)) message later

theorem networks_takable (columns : Columns) (rows : List Context) :
    ∀ message ∈ listing (cbListallNetwork columns) rows, message.Takable := by
  induction rows with
  | nil => simp [listing]
  | cons context rest inductionHypothesis =>
    intro message sent
    rcases List.mem_cons.mp sent with rfl | later
    · trivial
    · exact inductionHypothesis message later

/-- The controller answers a query, and the switch takes the answer. -/
theorem drain_answer (columns : Columns) (query : Query) (rest : List Query) (system : System)
    (filed : Nvswitch.Filed system.switch) (idle : system.toSwitch = [])
    (under : system.toCtrler = query :: rest)
    (takable : ∀ message ∈ system.answer columns true query, message.Takable) :
    ∃ events next asked, (∀ event ∈ events, Delivery event) ∧
      run (step columns) system events = some next ∧ next.toSwitch = [] ∧
      next.toCtrler = rest ++ asked ∧ next.db = system.db ∧ Nvswitch.Filed next.switch ∧
      (∀ query ∈ asked, query = .listallNode) ∧
      ((∀ message ∈ system.answer columns true query, ∀ initialized,
        message.asks initialized = []) → asked = []) := by
  have answered : step columns system (.toCtrler true) = some { system with
      toCtrler := rest
      toSwitch := system.answer columns true query } := by simp [step, under, idle]
  obtain ⟨next, asked, reached, others⟩ := drain_switch columns (system.answer columns true query)
    takable { system with
      toCtrler := rest
      toSwitch := system.answer columns true query } filed rfl
  refine ⟨.toCtrler true :: List.replicate (system.answer columns true query).length .toSwitch,
    next, asked, ?_, ?_, others⟩
  · intro event inside
    rcases List.mem_cons.mp inside with rfl | later
    · exact Or.inr rfl
    · exact Or.inl (List.eq_of_mem_replicate later)
  · rw [run, answered]
    exact reached

/-- The controller answers queries for the nodes, and the switch takes the answers. -/
theorem drain_nodes (columns : Columns) (queries : List Query)
    (nodes : ∀ query ∈ queries, query = .listallNode) (system : System) (drawn : Drawn system.db)
    (filed : Nvswitch.Filed system.switch) (idle : system.toSwitch = [])
    (under : system.toCtrler = queries) :
    ∃ events final, (∀ event ∈ events, Delivery event) ∧
      run (step columns) system events = some final ∧ final.toSwitch = [] ∧
      final.toCtrler = [] := by
  induction queries generalizing system with
  | nil => exact ⟨[], system, by simp, rfl, idle, under⟩
  | cons query rest inductionHypothesis =>
    obtain rfl := nodes query List.mem_cons_self
    have takable := nodes_takable drawn system.db.node.rows fun _ inside => inside
    obtain ⟨early, next, asked, first, reached, empty, toCtrler, db, still, _, silent⟩ :=
      drain_answer columns .listallNode rest system filed idle under
        fun message inside => (takable message inside).1
    have none := silent fun message inside => (takable message inside).2
    obtain ⟨late, final, second, ended, past⟩ := inductionHypothesis
      (fun other inside => nodes other (List.mem_cons_of_mem _ inside)) next (db ▸ drawn) still
      empty (by rw [toCtrler, none, List.append_nil])
    refine ⟨early ++ late, final, ?_, ?_, past⟩
    · intro event inside
      rcases List.mem_append.mp inside with now | later
      · exact first event now
      · exact second event later
    · rw [run_append, reached]
      exact ended

/-- Deliveries alone bring the listing on a new connection to its end. -/
theorem drain_start (columns : Columns) (system : System) (drawn : Drawn system.db)
    (filed : Nvswitch.Filed system.switch) (idle : system.toSwitch = [])
    (opened : system.toCtrler = [.listallNetwork]) :
    ∃ events final, (∀ event ∈ events, Delivery event) ∧
      run (step columns) system events = some final ∧ final.toSwitch = [] ∧
      final.toCtrler = [] := by
  obtain ⟨early, next, asked, first, reached, empty, toCtrler, db, still, nodes, _⟩ :=
    drain_answer columns .listallNetwork [] system filed idle opened
      (networks_takable columns system.db.context.rows)
  obtain ⟨late, final, second, ended, past⟩ :=
    drain_nodes columns asked nodes next (db ▸ drawn) still empty toCtrler
  refine ⟨early ++ late, final, ?_, ?_, past⟩
  · intro event inside
    rcases List.mem_append.mp inside with now | later
    · exact first event now
    · exact second event later
  · rw [run_append, reached]
    exact ended

/-! ## The listing of a connection -/

/-- A connection that is made finds nothing under way, and the switch asks for the networks. -/
theorem connect_opened (columns : Columns) (system start : System) (calm : Calm system)
    (opened : step columns system .connect = some start) :
    Calm start ∧ start.toSwitch = [] ∧ start.toCtrler = [.listallNetwork] ∧
      start.ctrlInitialized = false := by
  have still := step_calm columns system .connect start calm opened
  simp only [step] at opened
  split at opened
  · next down =>
    obtain rfl := Option.some.inj opened
    exact ⟨still, (calm.offline down).1, rfl, rfl⟩
  · cases opened

/-- On every connection, whatever went before, deliveries alone bring the listing to its end;
and with nothing under way, each query has been answered with a listing of its table exactly
when each table asked for had a row, and this is also when the query for the nodes was sent
exactly once and `ctrl_initialized` set exactly once.

Proof: deliveries end because each one consumes a message. After the opening, every event
leads from one stage of the listing to the next, and at each answer the rows decide whether it
goes on or waits for good. With nothing under way these are the only two stages left. -/
theorem startup_completes_iff (columns : Columns) (db : Db) (history : List Event)
    (before start : System) (reached : run (step columns) (.initial db) history = some before)
    (opened : step columns before .connect = some start) :
    (Drawn start.db → ∃ events final, (∀ event ∈ events, Delivery event) ∧
      run (step columns) start events = some final ∧ final.toSwitch = [] ∧ final.toCtrler = []) ∧
    ∀ events final, (∀ event ∈ events, Lasting event) →
      run (step columns) start events = some final → final.toSwitch = [] → final.toCtrler = [] →
      (Meets (step columns) (AnswersListed columns) start events ↔
        Meets (step columns) AnswersSomething start events) ∧
      (tally (step columns) (nodeQueries columns) start events = 1 ∧
          tally (step columns) (initialisations columns) start events = 1 ↔
        Meets (step columns) AnswersSomething start events) := by
  have calm : Calm before := by
    refine invariant (step columns) Calm (step_calm columns) (.initial db) before history ?_ reached
    exact ⟨Nvswitch.initial_filed, by simp [System.initial], fun _ => ⟨rfl, rfl⟩⟩
  obtain ⟨calm, idle, toCtrler, fresh⟩ := connect_opened columns before start calm opened
  refine ⟨fun drawn => drain_start columns start drawn calm.filed idle toCtrler, ?_⟩
  intro events final lasting ran empty answered
  constructor
  · exact meets_congr (step columns) (fun _ => True) _ _ (fun _ _ _ _ _ => trivial)
      (fun system event _ => answersListed_iff columns system event) start events trivial
  · have opening : Stands columns start [] start := by
      refine ⟨calm, true, by simp [Meets], ?_⟩
      rw [idle, toCtrler, fresh]
      exact .opened [] (by simp [Updates])
    obtain ⟨_, served, fed, stage⟩ := history_under (step columns) (fun _ event => Lasting event)
      (Stands columns start) start
      (fun past system event next there stands now taken =>
        step_stands columns start past system event next there stands now taken)
      final events opening (meets_of_allowed (step columns) Lasting start events lasting) ran
    rw [empty, answered] at stage
    exact stage.idle.trans fed

/-! ## Tables without rows -/

/-- The first connection of a switch to a controller with the given database. -/
def firstConnection (db : Db) : System :=
  (step sampleColumns (.initial db) .connect).get rfl

/-- Both listings, the second one of two nodes. -/
def startupRun : List Event :=
  [.toCtrler true, .toSwitch, .toCtrler true, .toSwitch, .toSwitch]

theorem startupRun_completes :
    tally (step sampleColumns) (nodeQueries sampleColumns) (firstConnection sampleNodes)
        startupRun = 1 ∧
      tally (step sampleColumns) (initialisations sampleColumns) (firstConnection sampleNodes)
        startupRun = 1 := by
  refine (((startup_completes_iff sampleColumns sampleNodes [] _ (firstConnection sampleNodes) rfl
    rfl).2 startupRun
      ((run (step sampleColumns) (firstConnection sampleNodes) startupRun).get (by decide +kernel))
      ?_ (Option.some_get _).symm (by decide +kernel) (by decide +kernel)).2).mpr ?_
  · simp [startupRun, Lasting]
  · decide +kernel

/-- A controller without networks sends nothing, and the switch never asks for the nodes. -/
theorem emptyTables_never_complete : ∃ final,
    run (step sampleColumns) (firstConnection (newDb [])) [.toCtrler true] = some final ∧
      final.toSwitch = [] ∧ final.toCtrler = [] ∧
      ¬ Meets (step sampleColumns) (AnswersListed sampleColumns) (firstConnection (newDb []))
        [.toCtrler true] ∧
      tally (step sampleColumns) (nodeQueries sampleColumns) (firstConnection (newDb []))
        [.toCtrler true] = 0 ∧
      tally (step sampleColumns) (initialisations sampleColumns) (firstConnection (newDb []))
        [.toCtrler true] = 0 := by
  refine ⟨_, rfl, rfl, rfl, ?_, rfl, rfl⟩
  rintro ⟨listed, _⟩
  exact (answersListed_iff _ _ _).mp listed .listallNetwork rfl rfl

end NetVirt.AccessTables
