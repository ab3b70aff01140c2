import NetVirt.AccessTables

/-!
# Messages for the access tables

What a message does to the access tables, and how a listing proceeds. On one connection the
switch asks for the networks, and for the nodes when it has the last network; the commands
for single nodes are somewhere in between.
-/

namespace NetVirt.AccessTables

open Inet Runs Mirrors Nvctrler

/-! ## Messages -/

/-- What a message does to the access tables. -/
def Message.update : Message → Option (Update (List UInt8) (List UInt8))
  | .command (.listallNetwork element _) => some (.group (bytes element.uuid))
  | .command (.listallNode element _) =>
    some (.add (bytes element.networkuuid) ((bytes element.uuid).take Nvswitch.uuidStrLen))
  | .command (.delNode node) =>
    match node.networkuuid, node.uuid with
    | some networkUuid, some uuid =>
      some (.remove (bytes networkUuid) ((bytes uuid).take Nvswitch.uuidStrLen))
    | _, _ => none
  | .command (.delNetwork _) => none
  | .error => none

/-- The query that a message has the switch send. -/
def Message.asks (initialized : Bool) : Message → List Query
  | .command (.listallNetwork _ .success) => if initialized then [] else [.listallNode]
  | _ => []

/-- The message ends the listing of the nodes. -/
def Message.completes : Message → Bool
  | .command (.listallNode _ .success) => true
  | _ => false

/-- A message that belongs to no listing, or to one that failed. -/
def Message.Incremental : Message → Prop
  | .command (.listallNode _ .moreData) => True
  | .command (.delNode _) => True
  | .error => True
  | _ => False

/-- The access tables after the messages that are under way. -/
def System.pending (system : System) : Mirror (List UInt8) (List UInt8) :=
  (access system.switch).replay (system.toSwitch.filterMap Message.update)

/-- What one message does to the system. -/
structure Dispatched (system : System) (message : Message) (next : System) : Prop where
  access : access next.switch = (access system.switch).replay message.update.toList
  filed : Nvswitch.Filed next.switch
  rest : next = { system with
    switch := next.switch
    toCtrler := system.toCtrler ++ message.asks system.ctrlInitialized
    ctrlInitialized := system.ctrlInitialized || message.completes }

theorem dispatchOp_dispatched (system : System) (message : Message) (next : System)
    (filed : Nvswitch.Filed system.switch) (other : ∀ uuid, message ≠ .command (.delNetwork uuid))
    (taken : dispatchOp system message = some next) : Dispatched system message next := by
  cases message with
  | error =>
    obtain rfl := Option.some.inj taken
    exact ⟨rfl, filed, by simp [Message.asks, Message.completes]⟩
  | command command =>
    cases command with
    | delNetwork uuid => exact absurd rfl (other uuid)
    | listallNetwork element response =>
      have created := create_access filed (bytes (element.id.getD [])) (bytes element.uuid)
      have still := Nvswitch.create_filed filed (bytes (element.id.getD [])) (bytes element.uuid)
      simp only [dispatchOp] at taken
      split at taken
      · next last =>
        obtain rfl := Option.some.inj taken
        refine ⟨created, still, ?_⟩
        simp [Message.asks, Message.completes, last.1, last.2]
      · next more =>
        obtain rfl := Option.some.inj taken
        refine ⟨created, still, ?_⟩
        cases response <;> simp_all [Message.asks, Message.completes]
    | listallNode element response =>
      obtain ⟨switch, listed, taken⟩ := Option.bind_eq_some_iff.mp taken
      obtain ⟨added, still⟩ := listNode_access filed _ _ switch listed
      simp only at taken
      split at taken
      · next last =>
        obtain rfl := Option.some.inj taken
        refine ⟨added, still, ?_⟩
        simp [Message.asks, Message.completes, last.1]
      · next more =>
        obtain rfl := Option.some.inj taken
        refine ⟨added, still, ?_⟩
        cases response <;> simp_all [Message.asks, Message.completes]
    | delNode node =>
      obtain ⟨⟨switch, code⟩, deleted, taken⟩ := Option.bind_eq_some_iff.mp taken
      obtain rfl := Option.some.inj taken
      obtain ⟨network, uuid, description⟩ := node
      cases network with
      | none =>
        have unread : (system.switch, -1) = (switch, code) := by
          cases uuid <;> exact Option.some.inj deleted
        obtain ⟨rfl, rfl⟩ := Prod.mk.inj unread
        exact ⟨rfl, filed, by simp [Message.asks, Message.completes]⟩
      | some network =>
        cases uuid with
        | none =>
          obtain ⟨rfl, rfl⟩ := Prod.mk.inj (Option.some.inj deleted)
          exact ⟨rfl, filed, by simp [Message.asks, Message.completes]⟩
        | some uuid =>
          obtain ⟨removed, still⟩ := delNode_access filed _ _ switch code deleted
          exact ⟨removed, still, by simp [Message.asks, Message.completes]⟩

/-! ## Listings -/

/-- All messages are incremental. -/
def Updates (messages : List Message) : Prop := ∀ message ∈ messages, message.Incremental

/-- How far the listing on a connection is: whether the answer with the nodes has been sent,
the query and the messages under way, and whether the switch has completed it. An answer that
fails, or that has no rows, leaves the switch waiting for good. -/
inductive Phase (columns : Columns) : Bool → List Query → List Message → Bool → Prop where
  | asked (query : Query) (messages : List Message) (updates : Updates messages) :
      Phase columns false [query] messages false
  | networks (before after : List Message) (context : Context) (rest : List Context)
      (early : Updates before) (late : Updates after) :
      Phase columns false []
        (before ++ listing (cbListallNetwork columns) (context :: rest) ++ after) false
  | nodes (before after : List Message) (node : Node) (rest : List Node)
      (early : Updates before) (late : Updates after) :
      Phase columns true [] (before ++ listing cbListallNode (node :: rest) ++ after) false
  | answered (done : Bool) (messages : List Message) (updates : Updates messages) :
      Phase columns done [] messages done

/-- An incremental message neither asks nor completes anything. -/
structure Message.Plain (message : Message) : Prop where
  asks : ∀ initialized, message.asks initialized = []
  completes : message.completes = false
  other : ∀ uuid, message ≠ .command (.delNetwork uuid)

theorem Message.Incremental.plain {message : Message} (incremental : message.Incremental) :
    message.Plain := by
  cases message with
  | error => constructor <;> simp [asks, completes]
  | command command =>
    cases command with
    | delNode node => constructor <;> simp [asks, completes]
    | listallNode element response =>
      cases response with
      | success => cases incremental
      | moreData => constructor <;> simp [asks, completes]
    | _ => cases incremental

theorem Updates.push {messages : List Message} (updates : Updates messages) {message : Message}
    (incremental : message.Incremental) : Updates (messages ++ [message]) := by
  intro one inside
  rw [List.mem_append, List.mem_singleton] at inside
  obtain old | rfl := inside
  · exact updates one old
  · exact incremental

theorem Updates.pop {message : Message} {rest : List Message}
    (updates : Updates (message :: rest)) : message.Plain ∧ Updates rest :=
  ⟨(updates message List.mem_cons_self).plain, fun one inside => updates one (.tail _ inside)⟩

section Phases
variable {columns : Columns} {listed initialized : Bool} {queries : List Query}

/-- A forwarded command goes behind everything that is under way. -/
theorem Phase.push {messages : List Message}
    (phase : Phase columns listed queries messages initialized) (message : Message)
    (incremental : message.Incremental) :
    Phase columns listed queries (messages ++ [message]) initialized := by
  cases phase with
  | asked query _ updates => exact .asked query _ (updates.push incremental)
  | answered done _ updates => exact .answered _ _ (updates.push incremental)
  | networks before after context rest early late =>
    rw [List.append_assoc]
    exact .networks before _ context rest early (late.push incremental)
  | nodes before after node rest early late =>
    rw [List.append_assoc]
    exact .nodes before _ node rest early (late.push incremental)

/-- The switch takes the next message. -/
theorem Phase.pop {message : Message} {rest : List Message}
    (phase : Phase columns listed queries (message :: rest) initialized) :
    (∀ uuid, message ≠ .command (.delNetwork uuid)) ∧
    Phase columns listed (queries ++ message.asks initialized) rest
      (initialized || message.completes) := by
  generalize under : message :: rest = messages at phase
  cases phase with
  | asked query _ updates =>
    subst under
    obtain ⟨plain, updates⟩ := updates.pop
    refine ⟨plain.other, ?_⟩
    rw [plain.asks, plain.completes]
    exact .asked query rest updates
  | answered done _ updates =>
    subst under
    obtain ⟨plain, updates⟩ := updates.pop
    refine ⟨plain.other, ?_⟩
    rw [plain.asks, plain.completes, Bool.or_false]
    exact .answered _ rest updates
  | networks before after context others early late =>
    cases before with
    | cons first before =>
      obtain ⟨rfl, rfl⟩ := List.cons.inj under
      obtain ⟨plain, early⟩ := early.pop
      refine ⟨plain.other, ?_⟩
      rw [plain.asks, plain.completes]
      exact .networks before after context others early late
    | nil =>
      obtain ⟨rfl, rfl⟩ := List.cons.inj under
      refine ⟨by simp [cbListallNetwork], ?_⟩
      cases others with
      | nil => exact .asked .listallNode after late
      | cons next others => exact .networks [] after next others (by simp [Updates]) late
  | nodes before after node others early late =>
    cases before with
    | cons first before =>
      obtain ⟨rfl, rfl⟩ := List.cons.inj under
      obtain ⟨plain, early⟩ := early.pop
      refine ⟨plain.other, ?_⟩
      rw [plain.asks, plain.completes]
      exact .nodes before after node others early late
    | nil =>
      obtain ⟨rfl, rfl⟩ := List.cons.inj under
      refine ⟨by simp [cbListallNode], ?_⟩
      cases others with
      | nil => exact .answered true after late
      | cons next others => exact .nodes [] after next others (by simp [Updates]) late

theorem Phase.completed {messages : List Message}
    (phase : Phase columns listed queries messages true) : listed = true := by
  cases phase with
  | answered _ _ updates => rfl

/-- The controller takes the query. Only the rows of all nodes make the listing complete. -/
theorem Phase.answer {messages : List Message} {query : Query} {rest : List Query}
    (phase : Phase columns listed (query :: rest) messages initialized) (system : System)
    (executed : Bool) :
    Phase columns (query = .listallNode ∧ executed = true ∧ system.db.node.rows ≠ []) rest
      (messages ++ system.answer columns executed query) initialized := by
  cases phase with
  | asked _ _ updates =>
    have refused : Phase columns false [] (messages ++ [.error]) false :=
      .answered false _ (updates.push trivial)
    have none : Phase columns false [] (messages ++ []) false :=
      .answered false _ (by rwa [List.append_nil])
    cases executed with
    | false => cases query <;> simpa [System.answer] using refused
    | true =>
      cases query with
      | listallNetwork =>
        cases rows : system.db.context.rows with
        | nil => simpa [System.answer, rows, listing] using none
        | cons context others =>
          have phase : Phase columns _ _ _ _ :=
            .networks messages [] context others updates (by simp [Updates])
          simpa [System.answer, rows] using phase
      | listallNode =>
        cases rows : system.db.node.rows with
        | nil => simpa [System.answer, rows, listing] using none
        | cons node others =>
          have phase : Phase columns _ _ _ _ :=
            .nodes messages [] node others updates (by simp [Updates])
          simpa [System.answer, rows] using phase

end Phases

end NetVirt.AccessTables
