import NetVirt.TenantIsolation

/-!
# Requests without a valid key

A key that no active client has is looked up without an error, and finds nobody. A handler
that looks at the client turns the request down; adding and deleting a node look at the
error only.
-/

namespace NetVirt.Nvctrler

open Inet RowTables Decimal IpPool

/-- The request has no key, or one that no active client has. -/
def Unauthorised (db : Db) (request : Request) : Prop :=
  ∀ key, request.apikey = some key →
    ∀ client ∈ db.client, client.apikey = key → client.status ≠ 1

/-- The handler goes on to a write although the lookup found nobody. -/
def ActsForNobody (env : Env) (db : Db) (request : Request) : Action → Prop
  | .addNode => ∃ object description context,
      AddNodeWrites env db request object description context
  | .delNode => ∃ object node, DelNodeWrites env db request object node ∧
      DelNodeTouches env db node
  | _ => False

section Unauthorised
variable (env : Env) (db : Db) (request : Request)

theorem addNode_idle : Idle db (handle env db .addNode request) ↔
    ¬ ActsForNobody env db request .addNode := by
  constructor
  · rintro idle ⟨object, description, context, writes⟩
    exact (addNode_disturbs env db request object description context writes).not_idle idle
  · intro nobody
    have result := addNode_result env db request
    generalize handle env db .addNode request = handled at result ⊢
    cases result with
    | turnedDown idle never => exact idle
    | notAdded writes failed => exact absurd ⟨_, _, _, writes⟩ nobody
    | notStored writes new executed inserted failed => exact absurd ⟨_, _, _, writes⟩ nobody
    | carriedOut writes new executed inserted done => exact absurd ⟨_, _, _, writes⟩ nobody

theorem delNode_idle : Idle db (handle env db .delNode request) ↔
    ¬ ActsForNobody env db request .delNode := by
  constructor
  · rintro idle ⟨object, node, writes, touches⟩
    exact (delNode_disturbs env db request object node writes touches).not_idle idle
  · intro nobody
    by_cases reaches : ∃ object node, DelNodeWrites env db request object node
    · obtain ⟨object, node, writes⟩ := reaches
      exact delNode_quiet env db request object node writes fun touches =>
        nobody ⟨object, node, writes, touches⟩
    · have result := delNode_result env db request
      generalize handle env db .delNode request = handled at result ⊢
      cases result with
      | turnedDown idle never => exact idle
      | noIppool writes missing => exact absurd ⟨_, _, writes⟩ reaches
      | notStored writes fetched found failed => exact absurd ⟨_, _, writes⟩ reaches
      | carriedOut writes fetched found done => exact absurd ⟨_, _, writes⟩ reaches

variable (unauthorised : Unauthorised db request)
include unauthorised

/-- The lookup finds nobody, however it ends. -/
theorem lookedUp_nobody : lookedUp env db request.apikey = none := by
  unfold lookedUp
  split
  · cases given : request.apikey with
    | none => rfl
    | some key =>
      simpa [Db.activeClient] using unauthorised key given
  · rfl

/-- The handlers that look at the client turn the request down. -/
theorem unauthorised_idle (action : Action) (addNode : action ≠ .addNode)
    (delNode : action ≠ .delNode) : Idle db (handle env db action request) := by
  have nobody := lookedUp_nobody env db request unauthorised
  cases action with
  | addNetwork =>
    have result := addNetwork_result env db request
    generalize handle env db .addNetwork request = handled at result ⊢
    cases result with
    | turnedDown idle => exact idle
    | carriedOut client new same inserted => cases nobody.symm.trans client
  | delNetwork =>
    have result := delNetwork_result env db request
    generalize handle env db .delNetwork request = handled at result ⊢
    cases result with
    | turnedDown idle never => exact idle
    | stopped writes failed => cases nobody.symm.trans writes.client
    | carriedOut writes done => cases nobody.symm.trans writes.client
  | listNetwork =>
    have result := listNetwork_result env db request
    generalize handle env db .listNetwork request = handled at result ⊢
    cases result with
    | turnedDown idle => exact idle
    | listed client => cases nobody.symm.trans client
  | addNode => exact absurd rfl addNode
  | delNode => exact absurd rfl delNode
  | listNode =>
    have result := listNode_result env db request
    generalize handle env db .listNode request = handled at result ⊢
    cases result with
    | turnedDown idle never => exact idle
    | listed reads => cases nobody.symm.trans reads.client

/-- Without a valid key, nothing is written, forwarded or listed exactly when the request is not
one to add or delete a node that gets to its writes.

Proof: the handlers that look the client up find nobody and are idle. Those of add-node and
del-node go on, and disturb the database exactly when they get to a write. -/
theorem key_required (action : Action) : Idle db (handle env db action request) ↔
    ¬ ActsForNobody env db request action := by
  cases action with
  | addNode => exact addNode_idle env db request
  | delNode => exact delNode_idle env db request
  | addNetwork =>
    exact iff_of_true (unauthorised_idle env db request unauthorised _ (by simp) (by simp)) id
  | delNetwork =>
    exact iff_of_true (unauthorised_idle env db request unauthorised _ (by simp) (by simp)) id
  | listNetwork =>
    exact iff_of_true (unauthorised_idle env db request unauthorised _ (by simp) (by simp)) id
  | listNode =>
    exact iff_of_true (unauthorised_idle env db request unauthorised _ (by simp) (by simp)) id

end Unauthorised

/-! ## A request under a key of nobody -/

/-- `del-node` for the sample node under a key that was never given out. -/
def sampleStranger : Request :=
  { apikey := some "key-3".toList
    network := none
    node := some { networkuuid := some "net-1".toList, uuid := some "node-1".toList,
                   description := none } }

theorem stranger_unauthorised : Unauthorised sampleDb sampleStranger := by
  intro key given
  cases given
  decide

/-- The deletion gets to its writes. -/
theorem stranger_acts : ActsForNobody sampleEnv sampleDb sampleStranger .delNode := by
  have writes : DelNodeWrites sampleEnv sampleDb sampleStranger
      { networkuuid := some "net-1".toList, uuid := some "node-1".toList, description := none }
      sampleNode :=
    ⟨rfl, ⟨by decide, by decide⟩, rfl, List.mem_singleton_self _, rfl, rfl, by decide⟩
  exact ⟨_, _, writes, Or.inl rfl⟩

/-- The node is deleted. -/
theorem stranger_not_idle : Unauthorised sampleDb sampleStranger ∧
    ¬ Idle sampleDb (handle sampleEnv sampleDb .delNode sampleStranger) := by
  refine ⟨stranger_unauthorised, fun idle => ?_⟩
  exact (delNode_idle sampleEnv sampleDb sampleStranger).mp idle stranger_acts

/-- The stranger cannot delete the network, but its node. -/
theorem key_required_stranger :
    Idle sampleDb (handle sampleEnv sampleDb .delNetwork sampleStranger) ∧
      ActsForNobody sampleEnv sampleDb sampleStranger .delNode ∧
      ¬ Idle sampleDb (handle sampleEnv sampleDb .delNode sampleStranger) := by
  refine ⟨?_, stranger_acts, fun idle => ?_⟩
  · exact (key_required sampleEnv sampleDb sampleStranger stranger_unauthorised .delNetwork).mpr id
  · exact (key_required sampleEnv sampleDb sampleStranger stranger_unauthorised .delNode).mp idle
      stranger_acts

end NetVirt.Nvctrler
