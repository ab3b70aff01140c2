import NetVirt.AddressBook

/-!
# Requests that fail half way

A handler leaves at the first call that fails, and there is no transaction around its calls.
A failure before the first write leaves everything as it was. One after it leaves a half of
the request behind, unless that half is empty.
-/

namespace NetVirt.Nvctrler

open Inet RowTables Bitmaps IpPool

/-- The tables are as before. A node that is added later then gets an address that no node of
its network has, if the address book was right. -/
structure Unharmed (before after : Db) : Prop where
  nodes : after.node = before.node
  contexts : after.context = before.context
  addresses : AddressBook before → ∀ env request row,
    row ∈ (handle env after .addNode request).db.node.rows → row ∉ after.node.rows →
      ∀ node ∈ after.node.rows, node.networkUuid = row.networkUuid →
        node.ipaddress ≠ row.ipaddress

/-- A node row added to a right address book has an address of its own. -/
theorem AddressBook.addNode {db : Db} (book : AddressBook db) (env : Env) (request : Request)
    (row : Node) (added : row ∈ (handle env db .addNode request).db.node.rows)
    (new : row ∉ db.node.rows) (node : Node) (inside : node ∈ db.node.rows)
    (network : node.networkUuid = row.networkUuid) : node.ipaddress ≠ row.ipaddress := by
  have fresh : ∀ context ∈ db.context.rows, row.networkUuid = context.uuid →
      (takeIp env.endian context.ippool).2 = some row.ipaddress →
        node.ipaddress ≠ row.ipaddress := by
    intro context contextIn named taken same
    rcases takeIp_spec env.endian context.ippool with ⟨nothing, _⟩ | ⟨bit, host, ip, _, clear⟩
    · cases nothing.symm.trans taken
    · have address := Option.some.inj (taken.symm.trans ip)
      have booked := (book.bits context contextIn bit (by omega)).mpr
        ⟨node, inside, network.trans named, same.trans address⟩
      simp [clear] at booked
  have result := addNode_result env db request
  generalize handle env db .addNode request = handled at result added
  cases result with
  | turnedDown idle never =>
    rw [idle.db] at added
    exact absurd added new
  | notAdded writes failed => exact absurd added new
  | notStored writes newRow executed inserted failed =>
    rw [(insertNode_rows _ _ _ inserted).2.2.1] at added
    rcases List.mem_append.mp added with old | last
    · exact absurd old new
    · obtain rfl := List.mem_singleton.mp last
      exact fresh _ writes.row newRow.network newRow.address
  | carriedOut writes newRow executed inserted done =>
    have rows := (insertNode_rows _ _ _ inserted).2.2.1
    rcases List.mem_append.mp (rows ▸ added) with old | last
    · exact absurd old new
    · obtain rfl := List.mem_singleton.mp last
      exact fresh _ writes.row newRow.network newRow.address

theorem unharmed_of_same (before after : Db) (nodes : after.node = before.node)
    (contexts : after.context = before.context) : Unharmed before after := by
  refine ⟨nodes, contexts, fun book => ?_⟩
  have still : AddressBook after := by
    constructor
    case distinct => exact nodes ▸ book.distinct
    case hosts => exact nodes ▸ book.hosts
    case bits =>
      unfold InUse
      rw [nodes, contexts]
      exact book.bits
    case exhausted =>
      unfold InUse
      rw [nodes, contexts]
      exact book.exhausted
  exact still.addNode

/-- The request gets past its first write, and a later call fails. -/
def LeavesHalf (env : Env) (db : Db) (request : Request) : Action → Prop
  | .addNode => ∃ object description context,
      AddNodeWrites env db request object description context ∧
        ¬ (env.outcome .addNode = .done ∧ (takeIp env.endian context.ippool).2 ≠ none ∧
          (∀ node ∈ db.node.rows, node.uuid ≠ env.uuid) ∧
          env.outcome .updateContextIppool = .done)
  | .delNode => ∃ object node, DelNodeWrites env db request object node ∧
      env.outcome .delNode = .done ∧
        ¬ (env.outcome .fetchContextIppool = .done ∧
          (∃ context ∈ db.context.rows, context.uuid = node.networkUuid) ∧
          env.outcome .updateContextIppool = .done)
  | .delNetwork => ∃ network uuid clientId,
      DelNetworkWrites env db request network uuid clientId ∧
        env.outcome .delNodeByContextId = .done ∧
        (∃ node ∈ db.node.rows, node.networkUuid = uuid) ∧ env.outcome .delContext = .noResult
  | _ => False

/-- If a call fails, the tables are as before. -/
def AllOrNothing (db : Db) (handled : Handled) : Prop :=
  (∃ code ∈ handled.codes, code < 0) → Unharmed db handled.db

theorem Idle.allOrNothing {db : Db} {handled : Handled} (idle : Idle db handled) :
    AllOrNothing db handled :=
  fun _ => unharmed_of_same _ _ (by rw [idle.db]) (by rw [idle.db])

section Failures
variable (env : Env) (db : Db) (request : Request)

/-- Past the serial, only a complete request is harmless. -/
theorem addNode_allOrNothing : AllOrNothing db (handle env db .addNode request) ↔
    ¬ LeavesHalf env db request .addNode := by
  have changes := addNode_changes env db request
  have result := addNode_result env db request
  generalize handle env db .addNode request = handled at result changes ⊢
  constructor
  · rintro whole ⟨object, description, context, writes, incomplete⟩
    have failed : ∃ code ∈ handled.codes, code < 0 := by
      cases result with
      | turnedDown idle never => exact absurd writes (never _ _ _)
      | notAdded other failed => exact ⟨-1, by simp, by decide⟩
      | notStored other new executed inserted failed => exact ⟨-1, by simp, by decide⟩
      | carriedOut other new executed inserted done =>
        obtain rfl := writes.same env db request other
        exfalso
        apply incomplete
        refine ⟨executed, by simp [new.address], ?_, done⟩
        rw [← new.uuid]
        exact (insertNode_rows _ _ _ inserted).2.2.2
    have same := (whole failed).contexts
    apply changes object description context writes
    rw [same]
    exact writes.row
  · intro whole
    cases result with
    | turnedDown idle never => exact idle.allOrNothing
    | notAdded writes failed =>
      refine absurd ⟨_, _, _, writes, ?_⟩ whole
      rintro ⟨executed, address, fresh, _⟩
      rcases failed executed with nothing | ⟨node, inside, taken⟩
      · exact address nothing
      · exact fresh node inside taken
    | notStored writes new executed inserted failed =>
      exact absurd ⟨_, _, _, writes, fun complete => failed complete.2.2.2⟩ whole
    | carriedOut writes new executed inserted done =>
      rintro ⟨code, made, failed⟩
      simp only [List.mem_cons, List.not_mem_nil, or_false, or_self] at made
      omega

/-- Past the node row, only a complete request is harmless. -/
theorem delNode_allOrNothing : AllOrNothing db (handle env db .delNode request) ↔
    ¬ LeavesHalf env db request .delNode := by
  have gone := delNode_gone env db request
  have result := delNode_result env db request
  generalize handle env db .delNode request = handled at result gone ⊢
  constructor
  · rintro whole ⟨object, node, writes, deleted, incomplete⟩
    have failed : ∃ code ∈ handled.codes, code < 0 := by
      cases result with
      | turnedDown idle never => exact absurd writes (never _ _)
      | noIppool other missing => exact ⟨-1, by simp, by decide⟩
      | notStored other fetched found failed => exact ⟨-1, by simp, by decide⟩
      | carriedOut other fetched found done =>
        obtain ⟨rfl, rfl⟩ := writes.same env db request other
        obtain ⟨inside, named⟩ := (db.context?_eq_some _ _).mp found
        exact absurd ⟨fetched, ⟨_, inside, named⟩, done⟩ incomplete
    have same := (whole failed).nodes
    apply gone object node writes deleted
    rw [same]
    exact writes.row
  · intro whole
    have kept : ∀ node, env.outcome .delNode ≠ .done → env.revoked db node = db := by
      intro node undone
      unfold Env.revoked Outcome.leaves
      split
      · next done => exact absurd done undone
      · rfl
    cases result with
    | turnedDown idle never => exact idle.allOrNothing
    | noIppool writes missing =>
      have undone : env.outcome .delNode ≠ .done := by
        intro done
        refine whole ⟨_, _, writes, done, ?_⟩
        rintro ⟨fetched, ⟨context, inside, named⟩, _⟩
        have found := (db.context?_eq_some _ _).mpr ⟨inside, named⟩
        cases (missing fetched).symm.trans found
      intro _
      exact unharmed_of_same _ _ (by rw [kept _ undone]) (by rw [kept _ undone])
    | notStored writes fetched found failed =>
      have undone : env.outcome .delNode ≠ .done := by
        intro done
        exact whole ⟨_, _, writes, done, fun complete => failed complete.2.2⟩
      intro _
      exact unharmed_of_same _ _ (by rw [kept _ undone]) (by rw [kept _ undone])
    | carriedOut writes fetched found done =>
      rintro ⟨code, made, failed⟩
      simp only [List.mem_cons, List.not_mem_nil, or_false, or_self] at made
      omega

/-- Past the node rows, a failure is harmless only if there were none. -/
theorem delNetwork_allOrNothing : AllOrNothing db (handle env db .delNetwork request) ↔
    ¬ LeavesHalf env db request .delNetwork := by
  have gone := delNetwork_gone env db request
  have result := delNetwork_result env db request
  generalize handle env db .delNetwork request = handled at result gone ⊢
  constructor
  · rintro whole ⟨network, uuid, clientId, writes, deleted, ⟨node, inside, named⟩, noResult⟩
    have failed : ∃ code ∈ handled.codes, code < 0 := by
      cases result with
      | turnedDown idle never => exact absurd writes (never _ _ _)
      | stopped other failed => exact ⟨-1, by simp, by decide⟩
      | carriedOut other done => exact absurd noResult done
    have same := (whole failed).nodes
    apply gone network uuid clientId writes deleted node named
    rw [same]
    exact inside
  · intro whole
    cases result with
    | turnedDown idle never => exact idle.allOrNothing
    | stopped writes failed =>
      next network uuid clientId =>
      have emptied : env.emptied db uuid = db := by
        apply emptied_of_quiet
        rintro ⟨done, rows⟩
        exact whole ⟨network, uuid, clientId, writes, done, rows, failed⟩
      intro _
      exact unharmed_of_same _ _ (by rw [emptied]) (by rw [emptied])
    | carriedOut writes done =>
      rintro ⟨code, made, failed⟩
      simp only [List.mem_cons, List.not_mem_nil, or_false, or_self] at made
      omega

/-- A request with a failing call leaves the tables as they were exactly when it fails before
its first write, or that write had nothing to do.

Proof: for each of the three requests, along the ways in which its handler can end: before its
first write everything is unharmed, and behind it the rows that it wrote stay. -/
theorem failed_requests (action : Action)
    (about : action = .addNode ∨ action = .delNode ∨ action = .delNetwork) :
    AllOrNothing db (handle env db action request) ↔ ¬ LeavesHalf env db request action := by
  rcases about with rfl | rfl | rfl
  · exact addNode_allOrNothing env db request
  · exact delNode_allOrNothing env db request
  · exact delNetwork_allOrNothing env db request

end Failures

/-! ## A deletion that fails half way -/

/-- The pool cannot be stored. -/
def sampleFailure : Env :=
  { sampleEnv with
    outcome := fun statement => if statement = .updateContextIppool then .failed else .done }

/-- `add-node` for the first client's network. -/
def sampleAddition : Request :=
  { apikey := some "key-1".toList
    network := none
    node := some { networkuuid := some "net-1".toList, uuid := none,
                   description := some "phone".toList } }

/-- The request gets past its first write, and its second one fails. -/
theorem addition_leavesHalf : LeavesHalf sampleFailure sampleDb sampleAddition .addNode := by
  refine ⟨_, _, sampleContext, ⟨rfl, rfl, rfl, ⟨by decide, by decide⟩, by decide,
    List.mem_singleton_self _, by decide⟩, ?_⟩
  rintro ⟨_, _, _, stored⟩
  exact absurd stored (by decide)

/-- The node row is added, and the bit of its address is not. -/
theorem addition_not_allOrNothing :
    ¬ AllOrNothing sampleDb (handle sampleFailure sampleDb .addNode sampleAddition) := fun whole =>
  (addNode_allOrNothing sampleFailure sampleDb sampleAddition).mp whole addition_leavesHalf

/-- A deletion of a network does not write the pool. -/
theorem failed_requests_addition :
    AllOrNothing sampleDb (handle sampleFailure sampleDb .delNetwork sampleIntruder) ∧
      LeavesHalf sampleFailure sampleDb sampleAddition .addNode ∧
      ¬ AllOrNothing sampleDb (handle sampleFailure sampleDb .addNode sampleAddition) := by
  refine ⟨?_, addition_leavesHalf, fun whole => ?_⟩
  · refine (failed_requests sampleFailure sampleDb sampleIntruder .delNetwork
      (Or.inr (Or.inr rfl))).mpr ?_
    rintro ⟨network, uuid, clientId, _, _, _, failed⟩
    exact absurd failed (by decide)
  · exact (failed_requests sampleFailure sampleDb sampleAddition .addNode (Or.inl rfl)).mp whole
      addition_leavesHalf

end NetVirt.Nvctrler
