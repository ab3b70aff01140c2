import NetVirt.RequestSpecs

/-!
# The rows a request concerns

A request that names a network writes rows of that network only and forwards commands about
that network only. Whether it has any effect at all is decided by the request, the rows it
names and the answers of the database.
-/

namespace NetVirt.Nvctrler

open Inet RowTables Decimal IpPool

/-! ## Serials -/

/-- The serial that is stored next is another one, also where its text is cut short. -/
theorem nextSerial_ne (serial : BitVec 32) : nextSerial serial ≠ serial := by
  intro same
  unfold nextSerial serialOf at same
  by_cases short : (formatInt (serial + 1).toInt).length ≤ 9
  · rw [List.take_of_length_le short, atoi_formatInt, BitVec.ofInt_toInt] at same
    have unequal : serial + 1 ≠ serial := by
      simp
    exact unequal same
  · have upper : (serial + 1).toInt < 2 ^ 31 := BitVec.toInt_lt
    have lower : -2 ^ 31 ≤ (serial + 1).toInt := BitVec.le_toInt _
    have cut := atoi_take (serial + 1).toInt 8 (by omega)
    generalize atoi ((formatInt (serial + 1).toInt).take 9) = read at same cut
    have next : (serial + 1).toInt = read + 1 := by
      rw [← same, BitVec.toInt_add, BitVec.toInt_ofInt]
      simp [Int.bmod]
      omega
    have one : (serial + 1).toInt = 1 := by
      omega
    rw [one] at short
    exact short (by decide)

/-- The row of the network has the next serial. -/
theorem serialized_serial (db : Db) (context row : Context)
    (inside : row ∈ (db.serialized context).context.rows) (named : row.uuid = context.uuid) :
    row.embassySerial = nextSerial context.embassySerial := by
  obtain ⟨old, oldIn, rfl⟩ := (db.mem_storeSerial _ _ _).mp inside
  by_cases concerned : old.uuid = context.uuid
  · rw [if_pos concerned]
  · rw [if_neg concerned] at named
    exact absurd named concerned

/-! ## Frames -/

/-- Only rows of one network differ, and the network stays with its client. -/
structure Confined (uuid : Text) (before after : Db) : Prop where
  contexts : ∀ context : Context, context.uuid ≠ uuid →
    (context ∈ after.context.rows ↔ context ∈ before.context.rows)
  owner : ∀ context ∈ after.context.rows, context.uuid = uuid →
    ∃ old ∈ before.context.rows, old.uuid = uuid ∧ old.clientId = context.clientId
  nodes : ∀ node : Node, node.networkUuid ≠ uuid →
    (node ∈ after.node.rows ↔ node ∈ before.node.rows)

theorem Confined.refl (uuid : Text) (db : Db) : Confined uuid db db :=
  ⟨fun _ _ => Iff.rfl, fun context inside named => ⟨context, inside, named, rfl⟩,
    fun _ _ => Iff.rfl⟩

theorem Confined.trans {uuid : Text} {before middle after : Db}
    (early : Confined uuid before middle) (late : Confined uuid middle after) :
    Confined uuid before after := by
  constructor
  case contexts =>
    intro context other
    exact (late.contexts context other).trans (early.contexts context other)
  case owner =>
    intro context inside named
    obtain ⟨between, betweenIn, betweenNamed, same⟩ := late.owner context inside named
    obtain ⟨old, oldIn, oldNamed, first⟩ := early.owner between betweenIn betweenNamed
    exact ⟨old, oldIn, oldNamed, first.trans same⟩
  case nodes =>
    intro node other
    exact (late.nodes node other).trans (early.nodes node other)

section Frames
variable (db : Db) (uuid : Text)

/-- An update of the network's row that keeps its client. -/
theorem updateContext_confined (change : Context → Context)
    (keeps : ∀ context, (change context).uuid = context.uuid)
    (client : ∀ context, (change context).clientId = context.clientId) :
    Confined uuid db (db.updateContext uuid change keeps) := by
  constructor
  case contexts =>
    intro context other
    rw [Db.mem_updateContext]
    constructor
    · rintro ⟨old, oldIn, rfl⟩
      by_cases concerned : old.uuid = uuid
      · rw [if_pos concerned, keeps] at other
        exact absurd concerned other
      · rwa [if_neg concerned]
    · intro inside
      exact ⟨context, inside, if_neg other⟩
  case owner =>
    intro context inside named
    obtain ⟨old, oldIn, rfl⟩ := (Db.mem_updateContext _ _ _ _ _).mp inside
    by_cases concerned : old.uuid = uuid
    · rw [if_pos concerned]
      exact ⟨old, oldIn, concerned, (client old).symm⟩
    · rw [if_neg concerned] at named ⊢
      exact ⟨old, oldIn, named, rfl⟩
  case nodes => exact fun _ _ => Iff.rfl

theorem storeSerial_confined (serial : BitVec 32) :
    Confined uuid db (db.storeSerial uuid serial) :=
  updateContext_confined db uuid _ _ fun _ => rfl

theorem storeIppool_confined (ippool : Bitmap) :
    Confined uuid db (db.storeIppool uuid ippool) :=
  updateContext_confined db uuid _ _ fun _ => rfl

theorem deleteContext_confined (clientId : Int) :
    Confined uuid db (db.deleteContext clientId uuid) := by
  constructor
  case contexts =>
    intro context other
    simp [Db.deleteContext, other]
  case owner =>
    intro context inside named
    exact ⟨context, ((RowTable.mem_delete _ _ _).mp inside).1, named, rfl⟩
  case nodes => exact fun _ _ => Iff.rfl

theorem deleteNode_confined (node : Text) : Confined uuid db (db.deleteNode uuid node) := by
  refine ⟨fun _ _ => Iff.rfl, (Confined.refl uuid db).owner, ?_⟩
  intro node other
  simp [Db.deleteNode, other]

theorem deleteNodes_confined : Confined uuid db (db.deleteNodes uuid) := by
  refine ⟨fun _ _ => Iff.rfl, (Confined.refl uuid db).owner, ?_⟩
  intro node other
  simp [Db.deleteNodes, other]

theorem insertNode_rows (row : Node) (added : Db) (inserted : db.insertNode row = some added) :
    added.client = db.client ∧ added.context = db.context ∧
      added.node.rows = db.node.rows ++ [row] ∧ ∀ node ∈ db.node.rows, node.uuid ≠ row.uuid := by
  obtain ⟨table, accepted, rfl⟩ := Option.map_eq_some_iff.mp inserted
  obtain ⟨free, rows⟩ := RowTable.insert_eq_some _ _ _ accepted
  exact ⟨rfl, rfl, rows, free⟩

theorem insertNode_confined (row : Node) (added : Db) (network : row.networkUuid = uuid)
    (inserted : db.insertNode row = some added) : Confined uuid db added := by
  obtain ⟨_, context, rows, _⟩ := insertNode_rows db row added inserted
  refine ⟨by simp [context], ?_, ?_⟩
  · rw [context]
    exact (Confined.refl uuid db).owner
  · intro node other
    rw [rows, List.mem_append, List.mem_singleton]
    constructor
    · rintro (inside | rfl)
      · exact inside
      · exact absurd network other
    · exact Or.inl

theorem leaves_confined (outcome : Outcome) (after : Db) (confined : Confined uuid db after) :
    Confined uuid db (outcome.leaves db after) := by
  cases outcome with
  | done => exact confined
  | _ => exact Confined.refl uuid db

end Frames

/-- What a request about one network may do: it lists nothing. -/
structure Concerns (uuid : Text) (db : Db) (handled : Handled) : Prop where
  confined : Confined uuid db handled.db
  bare : handled.answer.Bare
  forwarded : ∀ command ∈ handled.answer.forwarded, command.network = some uuid

theorem forward_network (env : Env) (sent command : Command) (uuid : Text)
    (about : sent.network = some uuid) (inside : command ∈ env.forward sent) :
    command.network = some uuid := by
  unfold Env.forward at inside
  split at inside
  · rwa [List.mem_singleton.mp inside]
  · cases inside

/-- A row of the network is gone or changed, or a command about it was forwarded. -/
def Disturbs (uuid : Text) (db : Db) (handled : Handled) : Prop :=
  (∃ node ∈ db.node.rows, node.networkUuid = uuid ∧ node ∉ handled.db.node.rows) ∨
  (∃ context ∈ db.context.rows, context.uuid = uuid ∧ context ∉ handled.db.context.rows) ∨
  ∃ command ∈ handled.answer.forwarded, command.network = some uuid

theorem Disturbs.not_idle {uuid : Text} {db : Db} {handled : Handled}
    (disturbs : Disturbs uuid db handled) : ¬ Idle db handled := by
  intro idle
  rcases disturbs with ⟨node, inside, _, gone⟩ | ⟨context, inside, _, gone⟩ | ⟨command, sent, _⟩
  · rw [idle.db] at gone
    exact gone inside
  · rw [idle.db] at gone
    exact gone inside
  · rw [idle.forwarded] at sent
    cases sent

section Effects
variable (env : Env) (db : Db) (request : Request)

/-! ## Deleting a network -/

/-- The deletion of a network does something to node rows or at the switch. -/
def DelNetworkTouches (uuid : Text) : Prop :=
  (env.outcome .delNodeByContextId = .done ∧ ∃ node ∈ db.node.rows, node.networkUuid = uuid) ∨
  (env.outcome .delContext ≠ .noResult ∧ env.switchConnected = true)

theorem Env.emptied_confined (uuid : Text) : Confined uuid db (env.emptied db uuid) :=
  leaves_confined _ _ _ _ (deleteNodes_confined db uuid)

theorem emptied_of_quiet (uuid : Text)
    (quiet : ¬ (env.outcome .delNodeByContextId = .done ∧
      ∃ node ∈ db.node.rows, node.networkUuid = uuid)) : env.emptied db uuid = db := by
  unfold Env.emptied Outcome.leaves
  split
  · next done =>
    have nothing : db.node.delete (fun node => node.networkUuid = uuid) = db.node := by
      apply RowTable.delete_nothing
      intro node inside
      exact decide_eq_false fun named => quiet ⟨done, node, inside, named⟩
    rw [Db.deleteNodes, nothing]
  · rfl

theorem delNetwork_concerns (network : NetworkObject) (uuid : Text) (clientId : Int)
    (writes : DelNetworkWrites env db request network uuid clientId) :
    Concerns uuid db (handle env db .delNetwork request) := by
  have result := delNetwork_result env db request
  have emptied := env.emptied_confined db uuid
  generalize handle env db .delNetwork request = handled at result ⊢
  cases result with
  | turnedDown idle never => exact absurd writes (never network uuid clientId)
  | stopped other failed =>
    obtain rfl := Option.some.inj (writes.asked.symm.trans other.asked)
    obtain rfl := Option.some.inj (writes.named.symm.trans other.named)
    exact ⟨emptied, silent_bare, by simp⟩
  | carriedOut other done =>
    obtain rfl := Option.some.inj (writes.asked.symm.trans other.asked)
    obtain rfl := Option.some.inj (writes.named.symm.trans other.named)
    refine ⟨?_, ?_, fun command => forward_network env _ command uuid rfl⟩
    · exact emptied.trans (leaves_confined _ _ _ _ (deleteContext_confined _ _ _))
    · exact carried_bare _ _

/-- A network of another client that the deletion does not touch stays as it is. -/
theorem delNetwork_quiet (network : NetworkObject) (uuid : Text) (clientId : Int)
    (writes : DelNetworkWrites env db request network uuid clientId)
    (foreign : ∀ context ∈ db.context.rows, context.uuid = uuid → context.clientId ≠ clientId)
    (quiet : ¬ DelNetworkTouches env db uuid) :
    Idle db (handle env db .delNetwork request) := by
  have result := delNetwork_result env db request
  obtain ⟨nodes, switch⟩ := not_or.mp quiet
  have emptied := emptied_of_quiet env db uuid nodes
  generalize handle env db .delNetwork request = handled at result ⊢
  cases result with
  | turnedDown idle never => exact idle
  | stopped other failed =>
    obtain rfl := Option.some.inj (writes.asked.symm.trans other.asked)
    obtain rfl := Option.some.inj (writes.named.symm.trans other.named)
    exact ⟨emptied, rfl, silent_bare⟩
  | carriedOut other done =>
    obtain rfl := Option.some.inj (writes.asked.symm.trans other.asked)
    obtain rfl := Option.some.inj (writes.named.symm.trans other.named)
    obtain rfl := Option.some.inj (writes.client.symm.trans other.client)
    have kept : db.context.delete (fun context => context.clientId = clientId ∧
        context.uuid = uuid) = db.context := by
      apply RowTable.delete_nothing
      intro context inside
      exact decide_eq_false fun ⟨own, named⟩ => foreign context inside named own
    have same : db.deleteContext clientId uuid = db := by
      rw [Db.deleteContext, kept]
    refine ⟨?_, ?_, ?_⟩
    · rw [emptied, same]
      unfold Outcome.leaves
      split <;> rfl
    · exact if_neg fun connected => switch ⟨done, connected⟩
    · exact carried_bare _ _

/-- The node rows of the network are gone. -/
theorem delNetwork_gone (network : NetworkObject) (uuid : Text) (clientId : Int)
    (writes : DelNetworkWrites env db request network uuid clientId)
    (done : env.outcome .delNodeByContextId = .done) (node : Node)
    (named : node.networkUuid = uuid) :
    node ∉ (handle env db .delNetwork request).db.node.rows := by
  have result := delNetwork_result env db request
  have gone : node ∉ (env.emptied db uuid).node.rows := by
    intro inside
    rw [Env.emptied, done] at inside
    simp [Outcome.leaves, Db.deleteNodes, named] at inside
  generalize handle env db .delNetwork request = handled at result ⊢
  cases result with
  | turnedDown idle never => exact absurd writes (never network uuid clientId)
  | stopped other failed =>
    obtain rfl := Option.some.inj (writes.asked.symm.trans other.asked)
    obtain rfl := Option.some.inj (writes.named.symm.trans other.named)
    exact gone
  | carriedOut other _ =>
    obtain rfl := Option.some.inj (writes.asked.symm.trans other.asked)
    obtain rfl := Option.some.inj (writes.named.symm.trans other.named)
    cases env.outcome .delContext <;> exact gone

/-- A deletion that touches the network disturbs it. -/
theorem delNetwork_disturbs (network : NetworkObject) (uuid : Text) (clientId : Int)
    (writes : DelNetworkWrites env db request network uuid clientId)
    (touches : DelNetworkTouches env db uuid) :
    Disturbs uuid db (handle env db .delNetwork request) := by
  rcases touches with ⟨done, node, inside, named⟩ | ⟨result, connected⟩
  · exact Or.inl ⟨node, inside, named,
      delNetwork_gone env db request network uuid clientId writes done node named⟩
  · have results := delNetwork_result env db request
    generalize handle env db .delNetwork request = handled at results ⊢
    cases results with
    | turnedDown idle never => exact absurd writes (never network uuid clientId)
    | stopped other failed => exact absurd failed result
    | carriedOut other _ =>
      obtain rfl := Option.some.inj (writes.asked.symm.trans other.asked)
      obtain rfl := Option.some.inj (writes.named.symm.trans other.named)
      refine Or.inr (Or.inr ⟨.delNetwork (some uuid), ?_, rfl⟩)
      simp [Env.forward, connected]

/-! ## Adding a node -/

theorem AddNodeWrites.same {object other : NodeObject} {description otherDescription : Text}
    {context otherContext : Context}
    (writes : AddNodeWrites env db request object description context)
    (writesToo : AddNodeWrites env db request other otherDescription otherContext) :
    context = otherContext := by
  obtain rfl := Option.some.inj (writes.asked.symm.trans writesToo.asked)
  have named := Option.some.inj (writes.named.symm.trans writesToo.named)
  exact db.context.row_unique writes.row writesToo.row named

theorem addNode_concerns (object : NodeObject) (description : Text) (context : Context)
    (writes : AddNodeWrites env db request object description context) :
    Concerns context.uuid db (handle env db .addNode request) := by
  have result := addNode_result env db request
  have serialized := storeSerial_confined db context.uuid (nextSerial context.embassySerial)
  generalize handle env db .addNode request = handled at result ⊢
  cases result with
  | turnedDown idle never => exact absurd writes (never _ _ _)
  | notAdded other failed =>
    obtain rfl := writes.same env db request other
    exact ⟨serialized, responds_bare _, by simp⟩
  | notStored other new executed inserted failed =>
    obtain rfl := writes.same env db request other
    exact ⟨serialized.trans (insertNode_confined _ _ _ _ new.network inserted), responds_bare _,
      by simp⟩
  | carriedOut other new executed inserted done =>
    obtain rfl := writes.same env db request other
    have added := serialized.trans (insertNode_confined _ _ _ _ new.network inserted)
    refine ⟨added.trans (storeIppool_confined _ _ _), ?_,
      fun command => forward_network env _ command _ rfl⟩
    exact carried_bare _ _

/-- A request that gets to its first write changes the row of the network. -/
theorem addNode_changes (object : NodeObject) (description : Text) (context : Context)
    (writes : AddNodeWrites env db request object description context) :
    context ∉ (handle env db .addNode request).db.context.rows := by
  have result := addNode_result env db request
  have changed : context ∉ (db.serialized context).context.rows := by
    intro inside
    exact nextSerial_ne _ (serialized_serial db context context inside rfl).symm
  generalize handle env db .addNode request = handled at result ⊢
  cases result with
  | turnedDown idle never => exact absurd writes (never _ _ _)
  | notAdded other failed =>
    obtain rfl := writes.same env db request other
    exact changed
  | notStored other new executed inserted failed =>
    obtain rfl := writes.same env db request other
    rwa [(insertNode_rows _ _ _ inserted).2.1]
  | carriedOut other new executed inserted done =>
    obtain rfl := writes.same env db request other
    intro inside
    obtain ⟨old, oldIn, same⟩ := (Db.mem_storeIppool _ _ _ _).mp inside
    rw [(insertNode_rows _ _ _ inserted).2.1] at oldIn
    split at same
    · next named =>
      have next := serialized_serial db _ old oldIn named
      have kept := congrArg Context.embassySerial same
      exact nextSerial_ne _ (next.symm.trans kept)
    · exact changed (same ▸ oldIn)

theorem addNode_disturbs (object : NodeObject) (description : Text) (context : Context)
    (writes : AddNodeWrites env db request object description context) :
    Disturbs context.uuid db (handle env db .addNode request) :=
  Or.inr (Or.inl ⟨context, writes.row, rfl,
    addNode_changes env db request object description context writes⟩)

/-! ## Deleting a node -/

/-- The deletion of a node does something to rows or at the switch. -/
def DelNodeTouches (node : Node) : Prop :=
  env.outcome .delNode = .done ∨
  (env.outcome .fetchContextIppool = .done ∧
    ∃ context ∈ db.context.rows, context.uuid = node.networkUuid ∧
      (env.switchConnected = true ∨
        (env.outcome .updateContextIppool = .done ∧
          releaseIp env.endian context.ippool node.ipaddress ≠ context.ippool)))

theorem DelNodeWrites.same {object otherObject : NodeObject} {node other : Node}
    (writes : DelNodeWrites env db request object node)
    (writesToo : DelNodeWrites env db request otherObject other) :
    object = otherObject ∧ node = other := by
  obtain rfl := Option.some.inj (writes.asked.symm.trans writesToo.asked)
  have named := Option.some.inj (writes.uuid.symm.trans writesToo.uuid)
  exact ⟨rfl, db.node.row_unique writes.row writesToo.row named⟩

theorem delNode_concerns (object : NodeObject) (node : Node)
    (writes : DelNodeWrites env db request object node) :
    Concerns node.networkUuid db (handle env db .delNode request) := by
  have result := delNode_result env db request
  have revoked : Confined node.networkUuid db (env.revoked db node) :=
    leaves_confined _ _ _ _ (deleteNode_confined _ _ _)
  generalize handle env db .delNode request = handled at result ⊢
  cases result with
  | turnedDown idle never => exact absurd writes (never _ _)
  | noIppool other missing =>
    obtain ⟨rfl, rfl⟩ := writes.same env db request other
    exact ⟨revoked, responds_bare _, by simp⟩
  | notStored other fetched found failed =>
    obtain ⟨rfl, rfl⟩ := writes.same env db request other
    exact ⟨revoked, carried_bare _ _,
      fun command => forward_network env _ command _ writes.network⟩
  | carriedOut other fetched found done =>
    obtain ⟨rfl, rfl⟩ := writes.same env db request other
    exact ⟨revoked.trans (storeIppool_confined _ _ _), carried_bare _ _,
      fun command => forward_network env _ command _ writes.network⟩

/-- The row of the network has the bitmap that was stored. -/
theorem storeIppool_ippool (uuid : Text) (ippool : Bitmap) (row : Context)
    (inside : row ∈ (db.storeIppool uuid ippool).context.rows) (named : row.uuid = uuid) :
    row.ippool = ippool := by
  obtain ⟨old, oldIn, rfl⟩ := (db.mem_storeIppool _ _ _).mp inside
  by_cases concerned : old.uuid = uuid
  · rw [if_pos concerned]
  · rw [if_neg concerned] at named
    exact absurd named concerned

/-- Storing the bitmap that is stored changes nothing. -/
theorem storeIppool_same (context : Context) (inside : context ∈ db.context.rows) :
    db.storeIppool context.uuid context.ippool = db := by
  have kept : (db.storeIppool context.uuid context.ippool).context = db.context := by
    refine RowTable.update_nothing db.context _
      (fun row => { row with ippool := context.ippool }) (fun _ => rfl) ?_
    intro row rowIn named
    obtain rfl := db.context.row_unique rowIn inside (of_decide_eq_true named)
    rfl
  calc db.storeIppool context.uuid context.ippool
      _ = { db with context := (db.storeIppool context.uuid context.ippool).context } := rfl
      _ = db := by rw [kept]

/-- A deletion that touches nothing leaves everything as it is. -/
theorem delNode_quiet (object : NodeObject) (node : Node)
    (writes : DelNodeWrites env db request object node)
    (quiet : ¬ DelNodeTouches env db node) : Idle db (handle env db .delNode request) := by
  have result := delNode_result env db request
  obtain ⟨kept, later⟩ := not_or.mp quiet
  have revoked : env.revoked db node = db := by
    unfold Env.revoked Outcome.leaves
    split
    · next done => exact absurd done kept
    · rfl
  generalize handle env db .delNode request = handled at result ⊢
  cases result with
  | turnedDown idle never => exact idle
  | noIppool other missing =>
    obtain ⟨rfl, rfl⟩ := writes.same env db request other
    exact ⟨revoked, rfl, responds_bare _⟩
  | notStored other fetched found failed =>
    obtain ⟨rfl, rfl⟩ := writes.same env db request other
    obtain ⟨inside, named⟩ := (db.context?_eq_some _ _).mp found
    refine ⟨revoked, if_neg fun connected => ?_, carried_bare _ _⟩
    exact later ⟨fetched, _, inside, named, Or.inl connected⟩
  | carriedOut other fetched found done =>
    obtain ⟨rfl, rfl⟩ := writes.same env db request other
    obtain ⟨inside, named⟩ := (db.context?_eq_some _ _).mp found
    refine ⟨?_, if_neg fun connected => ?_, carried_bare _ _⟩
    · have same := Classical.not_not.mp fun changed =>
        later ⟨fetched, _, inside, named, Or.inr ⟨done, changed⟩⟩
      rw [revoked, same, ← named, storeIppool_same db _ inside]
    · exact later ⟨fetched, _, inside, named, Or.inl connected⟩

/-- An executed deletion takes the row away. -/
theorem delNode_gone (object : NodeObject) (node : Node)
    (writes : DelNodeWrites env db request object node) (done : env.outcome .delNode = .done) :
    node ∉ (handle env db .delNode request).db.node.rows := by
  have result := delNode_result env db request
  have gone : node ∉ (env.revoked db node).node.rows := by
    intro inside
    rw [Env.revoked, done] at inside
    simp [Outcome.leaves, Db.deleteNode] at inside
  generalize handle env db .delNode request = handled at result ⊢
  cases result with
  | turnedDown idle never => exact absurd writes (never _ _)
  | noIppool other missing =>
    obtain ⟨rfl, rfl⟩ := writes.same env db request other
    exact gone
  | notStored other fetched found failed =>
    obtain ⟨rfl, rfl⟩ := writes.same env db request other
    exact gone
  | carriedOut other fetched found stored =>
    obtain ⟨rfl, rfl⟩ := writes.same env db request other
    exact gone

/-- A deletion that touches something disturbs the network. -/
theorem delNode_disturbs (object : NodeObject) (node : Node)
    (writes : DelNodeWrites env db request object node) (touches : DelNodeTouches env db node) :
    Disturbs node.networkUuid db (handle env db .delNode request) := by
  rcases touches with done | ⟨fetched, context, inside, named, touched⟩
  · exact Or.inl ⟨node, writes.row, rfl, delNode_gone env db request object node writes done⟩
  · right
    have result := delNode_result env db request
    have found := (db.context?_eq_some _ _).mpr ⟨inside, named⟩
    generalize handle env db .delNode request = handled at result ⊢
    cases result with
    | turnedDown idle never => exact absurd writes (never _ _)
    | noIppool other missing =>
      obtain ⟨rfl, rfl⟩ := writes.same env db request other
      cases (missing fetched).symm.trans found
    | notStored other _ same failed =>
      obtain ⟨rfl, rfl⟩ := writes.same env db request other
      rcases touched with connected | ⟨done, _⟩
      · exact Or.inr ⟨.delNode object, by simp [Env.forward, connected], writes.network⟩
      · exact absurd done failed
    | carriedOut other _ same done =>
      obtain ⟨rfl, rfl⟩ := writes.same env db request other
      obtain rfl := Option.some.inj (found.symm.trans same)
      rcases touched with connected | ⟨_, changed⟩
      · exact Or.inr ⟨.delNode object, by simp [Env.forward, connected], writes.network⟩
      · refine Or.inl ⟨context, inside, named, fun kept => ?_⟩
        have bitmap := storeIppool_ippool _ _ _ context kept named
        exact changed bitmap.symm

/-! ## Listings -/

theorem listNetwork_db : (handle env db .listNetwork request).db = db := by
  have result := listNetwork_result env db request
  generalize handle env db .listNetwork request = handled at result ⊢
  cases result with
  | turnedDown idle => exact idle.db
  | listed client => rfl

theorem listNode_db : (handle env db .listNode request).db = db := by
  have result := listNode_result env db request
  generalize handle env db .listNode request = handled at result ⊢
  cases result with
  | turnedDown idle never => exact idle.db
  | listed reads => rfl

end Effects

end NetVirt.Nvctrler
