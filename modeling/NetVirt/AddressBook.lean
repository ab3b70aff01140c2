import NetVirt.Runs
import NetVirt.TenantIsolation

/-!
# The address book

The addresses in use are kept twice: in the node rows, and as bits of the pool that is stored
with their network. The handlers load the pool, change a bit and store it. The two agree
along every run of requests whose statements are all executed, unless a network is deleted
by a client that does not own it: then its node rows go and its pool stays.
-/

namespace NetVirt.Nvctrler

open Inet RowTables Bitmaps IpPool

/-! ## The pool of a network -/

/-- 44.128.0.1 -/
def firstHost : Nat := 44 * 2 ^ 24 + 128 * 2 ^ 16 + 1

/-- The address that a bit stands for. -/
def bitAddress (bit : Nat) : Text := hostText (firstHost + bit)

theorem bitAddress_injective (one other : Nat) (oneInside : one < 2 ^ 16)
    (otherInside : other < 2 ^ 16) (same : bitAddress one = bitAddress other) : one = other := by
  have bound : firstHost + 2 ^ 16 ≤ 2 ^ 32 := by decide
  have first := named_hostText .little (firstHost + one) (by omega)
  have second := named_hostText .little (firstHost + other) (by omega)
  unfold bitAddress at same
  rw [same, second] at first
  have values := Option.some.inj first
  omega

theorem contextPool_spans (endian : Endian) (bitmap : Bitmap) :
    Spans endian (contextPool endian bitmap) firstHost 65534 := by
  have hosts : (contextPool endian bitmap).hosts = 65533 := newPool_hosts endian
  have hostmin : (ntohl endian (newPool endian).hostmin).toNat = firstHost := by
    cases endian <;> decide
  refine ⟨hostmin, ?_, ?_, by decide, by decide⟩
  · rw [hosts]
    decide
  · rw [hosts]
    decide

/-- The address taken is one whose bit was clear. None is left when all bits are set. -/
theorem takeIp_spec (endian : Endian) (bitmap : Bitmap) :
    ((takeIp endian bitmap).2 = none ∧ (takeIp endian bitmap).1 = bitmap ∧
      ∀ bit, bit < 65534 → getBit bitmap.val bit = true) ∨
    ∃ bit, bit < 65534 ∧ (takeIp endian bitmap).2 = some (bitAddress bit) ∧
      (takeIp endian bitmap).1.val = setBit bitmap.val bit ∧ getBit bitmap.val bit = false := by
  rcases ippoolGetIp_spec (contextPool_spans endian bitmap) with
    ⟨nothing, same, full⟩ | ⟨bit, inside, ip, pool, clear, _⟩
  · exact Or.inl ⟨nothing, Subtype.ext same, full⟩
  · exact Or.inr ⟨bit, inside, ip, pool, clear⟩

/-- Releasing an address clears its bit. -/
theorem releaseIp_spec (endian : Endian) (bitmap : Bitmap) (bit : Nat) (inside : bit < 65534) :
    (releaseIp endian bitmap (bitAddress bit)).val = clearBit bitmap.val bit := by
  have bound : firstHost + 65534 ≤ 2 ^ 32 := by decide
  have name := named_hostText endian (firstHost + bit) (by omega)
  have low : firstHost ≤ firstHost + bit := Nat.le_add_right _ _
  have high : firstHost + bit < firstHost + 65534 := Nat.add_lt_add_left inside _
  have released := (ippoolReleaseIp_spec (contextPool_spans endian bitmap) (bitAddress bit)).1
    (firstHost + bit) name low high
  rw [Nat.add_sub_cancel_left] at released
  exact released

/-! ## The invariant -/

/-- Some node of the network has the address of the bit. -/
def InUse (db : Db) (uuid : Text) (bit : Nat) : Prop :=
  ∃ node ∈ db.node.rows, node.networkUuid = uuid ∧ node.ipaddress = bitAddress bit

/-- The node rows and the pools agree. The bits past the last host are never set. -/
structure AddressBook (db : Db) : Prop where
  distinct : ∀ one ∈ db.node.rows, ∀ other ∈ db.node.rows,
    one.networkUuid = other.networkUuid → one.ipaddress = other.ipaddress → one = other
  hosts : ∀ node ∈ db.node.rows, ∃ bit, bit < 65534 ∧ node.ipaddress = bitAddress bit
  bits : ∀ context ∈ db.context.rows, ∀ bit, bit < 65536 →
    (getBit context.ippool.val bit = true ↔ InUse db context.uuid bit)
  exhausted : ∀ context ∈ db.context.rows, ∀ endian, (takeIp endian context.ippool).2 = none →
    ∀ bit, bit < 65534 → InUse db context.uuid bit

/-- What the requests keep: besides, every node's network is there. -/
structure Kept (db : Db) : Prop where
  known : ∀ node ∈ db.node.rows, ∃ context ∈ db.context.rows, context.uuid = node.networkUuid
  distinct : ∀ one ∈ db.node.rows, ∀ other ∈ db.node.rows,
    one.networkUuid = other.networkUuid → one.ipaddress = other.ipaddress → one = other
  hosts : ∀ node ∈ db.node.rows, ∃ bit, bit < 65534 ∧ node.ipaddress = bitAddress bit
  bits : ∀ context ∈ db.context.rows, ∀ bit, bit < 65536 →
    (getBit context.ippool.val bit = true ↔ InUse db context.uuid bit)

/-- A pool with no address left has all its hosts in use. -/
theorem Kept.addressBook {db : Db} (kept : Kept db) : AddressBook db := by
  refine ⟨kept.distinct, kept.hosts, kept.bits, ?_⟩
  intro context inside endian nothing bit bounded
  rcases takeIp_spec endian context.ippool with ⟨_, _, full⟩ | ⟨_, _, taken, _⟩
  · exact (kept.bits context inside bit (by omega)).mp (full bit bounded)
  · cases nothing.symm.trans taken

/-! ## Bookings -/

/-- Rows of the same networks with the same pools keep the agreement. -/
theorem Kept.repool {db after : Db} (kept : Kept db) (nodes : after.node = db.node)
    (old : ∀ row ∈ after.context.rows, ∃ old ∈ db.context.rows, old.uuid = row.uuid ∧
      old.ippool = row.ippool)
    (still : ∀ old ∈ db.context.rows, ∃ row ∈ after.context.rows, row.uuid = old.uuid) :
    Kept after := by
  constructor
  case known =>
    rw [nodes]
    intro node inside
    obtain ⟨before, beforeIn, named⟩ := kept.known node inside
    obtain ⟨row, rowIn, same⟩ := still before beforeIn
    exact ⟨row, rowIn, same.trans named⟩
  case distinct =>
    rw [nodes]
    exact kept.distinct
  case hosts =>
    rw [nodes]
    exact kept.hosts
  case bits =>
    intro row rowIn bit bounded
    obtain ⟨before, beforeIn, named, pool⟩ := old row rowIn
    unfold InUse
    rw [nodes, ← named, ← pool]
    exact kept.bits before beforeIn bit bounded

theorem Kept.serialized {db : Db} (kept : Kept db) (context : Context) :
    Kept (db.serialized context) := by
  have nodes : (db.serialized context).node = db.node := rfl
  apply kept.repool nodes
  · intro row rowIn
    obtain ⟨old, oldIn, rfl⟩ := (db.mem_storeSerial _ _ _).mp rowIn
    refine ⟨old, oldIn, ?_⟩
    split
    · exact ⟨rfl, rfl⟩
    · exact ⟨rfl, rfl⟩
  · intro old oldIn
    refine ⟨_, (db.mem_storeSerial _ _ _).mpr ⟨old, oldIn, rfl⟩, ?_⟩
    split
    · rfl
    · rfl

section Booking
variable {db : Db} (kept : Kept db) (context : Context) (inside : context ∈ db.context.rows)
  (bit : Nat) (host : bit < 65534) (bitmap : Bitmap)
include kept inside host

/-- A node with a free address, and its bit. -/
theorem Kept.book (row : Node) (added : Db) (network : row.networkUuid = context.uuid)
    (address : row.ipaddress = bitAddress bit) (clear : getBit context.ippool.val bit = false)
    (inserted : db.insertNode row = some added)
    (set : bitmap.val = setBit context.ippool.val bit) :
    Kept (added.storeIppool context.uuid bitmap) := by
  obtain ⟨_, contexts, rows, fresh⟩ := insertNode_rows db row added inserted
  have nodes : ∀ node, node ∈ (added.storeIppool context.uuid bitmap).node.rows ↔
      node ∈ db.node.rows ∨ node = row := by
    intro node
    calc node ∈ added.node.rows
        _ ↔ node ∈ db.node.rows ∨ node = row := by rw [rows, List.mem_append, List.mem_singleton]
  have unused : ∀ node ∈ db.node.rows, node.networkUuid = context.uuid →
      node.ipaddress ≠ bitAddress bit := by
    intro node nodeIn named same
    have booked := (kept.bits context inside bit (by omega)).mpr ⟨node, nodeIn, named, same⟩
    simp [clear] at booked
  have inUse : ∀ uuid tested, InUse (added.storeIppool context.uuid bitmap) uuid tested ↔
      InUse db uuid tested ∨ (row.networkUuid = uuid ∧ row.ipaddress = bitAddress tested) := by
    intro uuid tested
    unfold InUse
    simp only [nodes, or_and_right, exists_or, exists_eq_left]
  constructor
  case known =>
    intro node nodeIn
    have old : ∃ old ∈ db.context.rows, old.uuid = node.networkUuid := by
      rcases (nodes node).mp nodeIn with before | rfl
      · exact kept.known node before
      · exact ⟨context, inside, network.symm⟩
    obtain ⟨old, oldIn, named⟩ := old
    refine ⟨_, (added.mem_storeIppool _ _ _).mpr ⟨old, contexts ▸ oldIn, rfl⟩, ?_⟩
    split
    · exact named
    · exact named
  case distinct =>
    intro one oneIn other otherIn named same
    rcases (nodes one).mp oneIn with oneOld | rfl
    · rcases (nodes other).mp otherIn with otherOld | rfl
      · exact kept.distinct one oneOld other otherOld named same
      · exact absurd (same.trans address) (unused one oneOld (named.trans network))
    · rcases (nodes other).mp otherIn with otherOld | rfl
      · exact absurd (same.symm.trans address)
          (unused other otherOld (named.symm.trans network))
      · rfl
  case hosts =>
    intro node nodeIn
    rcases (nodes node).mp nodeIn with before | rfl
    · exact kept.hosts node before
    · exact ⟨bit, host, address⟩
  case bits =>
    intro row' rowIn tested bounded
    obtain ⟨old, oldIn, rfl⟩ := (added.mem_storeIppool _ _ _).mp rowIn
    rw [contexts] at oldIn
    rw [inUse]
    by_cases own : old.uuid = context.uuid
    · obtain rfl := db.context.row_unique oldIn inside own
      have stored : bit / 8 < old.ippool.val.length := by
        rw [old.ippool.property]
        omega
      rw [if_pos rfl, set, getBit_setBit _ _ _ stored, Bool.or_eq_true, decide_eq_true_eq,
        kept.bits old inside tested bounded]
      apply or_congr Iff.rfl
      constructor
      · rintro rfl
        exact ⟨network, address⟩
      · rintro ⟨_, same⟩
        exact bitAddress_injective _ _ bounded (by omega) (same.symm.trans address)
    · rw [if_neg own, kept.bits old oldIn tested bounded]
      constructor
      · exact Or.inl
      · rintro (used | ⟨other, _⟩)
        · exact used
        · exact absurd (other.symm.trans network) own

/-- A node that is gone, and its bit. -/
theorem Kept.unbook (node : Node) (nodeIn : node ∈ db.node.rows)
    (network : context.uuid = node.networkUuid) (address : node.ipaddress = bitAddress bit)
    (cleared : bitmap.val = clearBit context.ippool.val bit) :
    Kept ((db.deleteNode node.networkUuid node.uuid).storeIppool node.networkUuid bitmap) := by
  have nodes : ∀ row,
      row ∈ ((db.deleteNode node.networkUuid node.uuid).storeIppool node.networkUuid
        bitmap).node.rows ↔ row ∈ db.node.rows ∧ row ≠ node := by
    intro row
    calc row ∈ (db.deleteNode node.networkUuid node.uuid).node.rows
        _ ↔ row ∈ db.node.rows ∧ row ≠ node := by
          simp only [Db.deleteNode, RowTable.mem_delete, decide_eq_false_iff_not]
          apply and_congr_right
          intro rowIn
          apply not_congr
          constructor
          · exact fun same => db.node.row_unique rowIn nodeIn same.2
          · rintro rfl
            exact ⟨rfl, rfl⟩
  constructor
  case known =>
    intro row rowIn
    obtain ⟨old, oldIn, named⟩ := kept.known row ((nodes row).mp rowIn).1
    refine ⟨_, (Db.mem_storeIppool _ _ _ _).mpr ⟨old, oldIn, rfl⟩, ?_⟩
    split
    · exact named
    · exact named
  case distinct =>
    intro one oneIn other otherIn
    exact kept.distinct one ((nodes one).mp oneIn).1 other ((nodes other).mp otherIn).1
  case hosts =>
    intro row rowIn
    exact kept.hosts row ((nodes row).mp rowIn).1
  case bits =>
    intro row' rowIn tested bounded
    obtain ⟨old, oldIn, rfl⟩ := (Db.mem_storeIppool _ _ _ _).mp rowIn
    have before := kept.bits old oldIn tested bounded
    unfold InUse
    by_cases own : old.uuid = node.networkUuid
    · obtain rfl := db.context.row_unique oldIn inside (own.trans network.symm)
      rw [if_pos own, cleared, getBit_clearBit, Bool.and_eq_true, decide_eq_true_eq, before]
      constructor
      · rintro ⟨⟨user, userIn, named, same⟩, other⟩
        refine ⟨user, (nodes user).mpr ⟨userIn, ?_⟩, named, same⟩
        rintro rfl
        exact other (bitAddress_injective _ _ bounded (by omega) (same.symm.trans address))
      · rintro ⟨user, userIn, named, same⟩
        obtain ⟨userOld, other⟩ := (nodes user).mp userIn
        refine ⟨⟨user, userOld, named, same⟩, ?_⟩
        rintro rfl
        exact other (kept.distinct user userOld node nodeIn (named.trans own)
          (same.trans address.symm))
    · rw [if_neg own, before]
      constructor
      · rintro ⟨user, userIn, named, same⟩
        refine ⟨user, (nodes user).mpr ⟨userIn, ?_⟩, named, same⟩
        rintro rfl
        exact own named.symm
      · rintro ⟨user, userIn, named, same⟩
        exact ⟨user, ((nodes user).mp userIn).1, named, same⟩

end Booking

/-! ## Requests -/

theorem insertContext_rows (db : Db) (row : Context) (added : Db)
    (inserted : db.insertContext row = some added) :
    added.node = db.node ∧ added.context.rows = db.context.rows ++ [row] ∧
      ∀ context ∈ db.context.rows, context.uuid ≠ row.uuid := by
  unfold Db.insertContext at inserted
  split at inserted
  · cases inserted
  · obtain ⟨context, accepted, same⟩ := Option.bind_eq_some_iff.mp inserted
    cases same
    obtain ⟨fresh, rows⟩ := RowTable.insert_eq_some _ _ _ accepted
    exact ⟨rfl, rows, fresh⟩

section Requests
variable (env : Env) (db : Db) (request : Request) (kept : Kept db)
include kept

/-- A new network has no nodes and no address in use. -/
theorem addNetwork_kept : Kept (handle env db .addNetwork request).db := by
  have result := addNetwork_result env db request
  generalize handle env db .addNetwork request = handled at result ⊢
  cases result with
  | turnedDown idle => rwa [idle.db]
  | carriedOut client new same inserted =>
    obtain ⟨nodes, rows, fresh⟩ := insertContext_rows db _ _ inserted
    constructor
    case known =>
      rw [nodes, rows]
      intro node inside
      obtain ⟨context, contextIn, named⟩ := kept.known node inside
      exact ⟨context, List.mem_append_left _ contextIn, named⟩
    case distinct =>
      rw [nodes]
      exact kept.distinct
    case hosts =>
      rw [nodes]
      exact kept.hosts
    case bits =>
      unfold InUse
      rw [nodes, rows]
      intro context inside bit bounded
      rcases List.mem_append.mp inside with old | last
      · exact kept.bits context old bit bounded
      · obtain rfl := List.mem_singleton.mp last
        have clear : getBit context.ippool.val bit = false := by
          rw [new.ippool]
          simp only [newBitmap, newPool_pool]
          exact getBit_replicate 8192 bit
        rw [clear]
        refine iff_of_false (by simp) ?_
        rintro ⟨node, nodeIn, named, _⟩
        obtain ⟨old, oldIn, oldNamed⟩ := kept.known node nodeIn
        exact fresh old oldIn (oldNamed.trans named)

variable (done : ∀ statement, env.outcome statement = .done)
include done

/-- A new node gets an address that was free. -/
theorem addNode_kept : Kept (handle env db .addNode request).db := by
  have result := addNode_result env db request
  generalize handle env db .addNode request = handled at result ⊢
  cases result with
  | turnedDown idle never => rwa [idle.db]
  | notAdded writes failed => exact kept.serialized _
  | notStored writes new executed inserted failed => exact absurd (done _) failed
  | carriedOut writes new executed inserted stored =>
    next object description context row added =>
    rcases takeIp_spec env.endian context.ippool with ⟨nothing, _⟩ | ⟨bit, host, ip, set, clear⟩
    · cases nothing.symm.trans new.address
    · have address := Option.some.inj (new.address.symm.trans ip)
      have serialized : { context with embassySerial := nextSerial context.embassySerial } ∈
          (db.serialized context).context.rows :=
        (db.mem_storeSerial _ _ _).mpr ⟨context, writes.row, if_pos rfl⟩
      exact (kept.serialized context).book _ serialized bit host _ row added new.network address
        clear inserted set

/-- A deleted node's address is free. -/
theorem delNode_kept : Kept (handle env db .delNode request).db := by
  have result := delNode_result env db request
  generalize handle env db .delNode request = handled at result ⊢
  cases result with
  | turnedDown idle never => rwa [idle.db]
  | noIppool writes missing =>
    obtain ⟨context, inside, named⟩ := kept.known _ writes.row
    have found := (db.context?_eq_some _ _).mpr ⟨inside, named⟩
    cases (missing (done _)).symm.trans found
  | notStored writes fetched found failed => exact absurd (done _) failed
  | carriedOut writes fetched found stored =>
    next object node context =>
    obtain ⟨inside, named⟩ := (db.context?_eq_some _ _).mp found
    obtain ⟨bit, host, address⟩ := kept.hosts node writes.row
    have revoked : env.revoked db node = db.deleteNode node.networkUuid node.uuid := by
      rw [Env.revoked, done]
      rfl
    rw [revoked]
    apply kept.unbook context inside bit host _ node writes.row named address
    rw [address]
    exact releaseIp_spec env.endian context.ippool bit host

/-- The request deletes the node rows of a network that stays, because it is not the client's. -/
structure Evicts (network : NetworkObject) (uuid : Text) (clientId : Int) : Prop where
  writes : DelNetworkWrites env db request network uuid clientId
  foreign : Foreign db clientId uuid
  nodes : ∃ node ∈ db.node.rows, node.networkUuid = uuid

omit done in
/-- A network that goes takes its nodes along; one that stays had none. -/
theorem Kept.drop (uuid : Text) (clientId : Int)
    (own : Foreign db clientId uuid → ∀ node ∈ db.node.rows, node.networkUuid ≠ uuid) :
    Kept ((db.deleteNodes uuid).deleteContext clientId uuid) := by
  have nodes : ∀ node, node ∈ ((db.deleteNodes uuid).deleteContext clientId uuid).node.rows ↔
      node ∈ db.node.rows ∧ node.networkUuid ≠ uuid := by
    intro node
    calc node ∈ (db.deleteNodes uuid).node.rows
        _ ↔ _ := by simp [Db.deleteNodes]
  have contexts : ∀ context,
      context ∈ ((db.deleteNodes uuid).deleteContext clientId uuid).context.rows ↔
        context ∈ db.context.rows ∧ ¬ (context.clientId = clientId ∧ context.uuid = uuid) := by
    intro context
    calc context ∈ (db.context.delete fun context =>
            context.clientId = clientId ∧ context.uuid = uuid).rows
        _ ↔ _ := by rw [RowTable.mem_delete, decide_eq_false_iff_not]
  constructor
  case known =>
    intro node nodeIn
    obtain ⟨inside, other⟩ := (nodes node).mp nodeIn
    obtain ⟨context, contextIn, named⟩ := kept.known node inside
    exact ⟨context, (contexts context).mpr ⟨contextIn, fun gone => other (named ▸ gone.2)⟩, named⟩
  case distinct =>
    intro one oneIn other otherIn
    exact kept.distinct one ((nodes one).mp oneIn).1 other ((nodes other).mp otherIn).1
  case hosts =>
    intro node nodeIn
    exact kept.hosts node ((nodes node).mp nodeIn).1
  case bits =>
    intro context contextIn bit bounded
    obtain ⟨inside, stays⟩ := (contexts context).mp contextIn
    rw [kept.bits context inside bit bounded]
    constructor
    · rintro ⟨node, nodeIn, named, address⟩
      refine ⟨node, (nodes node).mpr ⟨nodeIn, fun same => ?_⟩, named, address⟩
      have foreign : Foreign db clientId uuid :=
        ⟨context, inside, named.symm.trans same, fun mine => stays ⟨mine, named.symm.trans same⟩⟩
      exact own foreign node nodeIn same
    · rintro ⟨node, nodeIn, named, address⟩
      exact ⟨node, ((nodes node).mp nodeIn).1, named, address⟩

omit kept in
/-- What an executed deletion leaves. -/
theorem delNetwork_executed (network : NetworkObject) (uuid : Text) (clientId : Int)
    (writes : DelNetworkWrites env db request network uuid clientId) :
    (handle env db .delNetwork request).db = (db.deleteNodes uuid).deleteContext clientId uuid := by
  have result := delNetwork_result env db request
  generalize handle env db .delNetwork request = handled at result ⊢
  cases result with
  | turnedDown idle never => exact absurd writes (never _ _ _)
  | stopped other failed => cases (done _).symm.trans failed
  | carriedOut other _ =>
    obtain rfl := Option.some.inj (writes.asked.symm.trans other.asked)
    obtain rfl := Option.some.inj (writes.named.symm.trans other.named)
    obtain rfl := Option.some.inj (writes.client.symm.trans other.client)
    rw [Env.emptied, done, done]
    rfl

theorem delNetwork_kept (own : ∀ network uuid clientId,
    ¬ Evicts env db request network uuid clientId) :
    Kept (handle env db .delNetwork request).db := by
  by_cases reaches : ∃ network uuid clientId,
      DelNetworkWrites env db request network uuid clientId
  · obtain ⟨network, uuid, clientId, writes⟩ := reaches
    rw [delNetwork_executed env db request done network uuid clientId writes]
    apply Kept.drop db kept
    intro foreign node inside named
    exact own network uuid clientId ⟨writes, foreign, node, inside, named⟩
  · have result := delNetwork_result env db request
    generalize handle env db .delNetwork request = handled at result ⊢
    cases result with
    | turnedDown idle never => rwa [idle.db]
    | stopped writes failed => exact absurd ⟨_, _, _, writes⟩ reaches
    | carriedOut writes _ => exact absurd ⟨_, _, _, writes⟩ reaches

/-- The pool of a network whose nodes were evicted still has their bits. -/
theorem evicts_breaks (network : NetworkObject) (uuid : Text) (clientId : Int)
    (evicts : Evicts env db request network uuid clientId) :
    ¬ AddressBook (handle env db .delNetwork request).db := by
  rw [delNetwork_executed env db request done network uuid clientId evicts.writes]
  intro book
  obtain ⟨context, inside, named, other⟩ := evicts.foreign
  obtain ⟨node, nodeIn, member⟩ := evicts.nodes
  obtain ⟨bit, host, address⟩ := kept.hosts node nodeIn
  have set := (kept.bits context inside bit (by omega)).mpr
    ⟨node, nodeIn, member.trans named.symm, address⟩
  have stays : context ∈ ((db.deleteNodes uuid).deleteContext clientId uuid).context.rows := by
    refine (RowTable.mem_delete _ _ _).mpr ⟨inside, ?_⟩
    exact decide_eq_false fun gone => other gone.1
  obtain ⟨user, userIn, used, _⟩ := (book.bits context stays bit (by omega)).mp set
  have gone := ((RowTable.mem_delete _ _ _).mp userIn).2
  exact of_decide_eq_false gone (used.trans named)

end Requests

/-! ## Runs -/

/-- A request, with what it finds around it. -/
structure Call where
  env : Env
  action : Action
  request : Request

def serve (db : Db) (call : Call) : Option Db :=
  some (handle call.env db call.action call.request).db

/-- Every statement is executed. -/
def Call.Executed (call : Call) : Prop := ∀ statement, call.env.outcome statement = .done

/-- A deletion of a network does not evict the nodes of one that stays. -/
def SparesOthers (db : Db) (call : Call) : Prop :=
  call.action = .delNetwork →
    ∀ network uuid clientId, ¬ Evicts call.env db call.request network uuid clientId

/-- A database without networks. -/
def newDb (clients : List Client) : Db :=
  { client := clients
    context := { rows := [], unique := List.nodup_nil }
    node := { rows := [], unique := List.nodup_nil } }

theorem newDb_kept (clients : List Client) : Kept (newDb clients) := by
  constructor <;> simp [newDb]

theorem serve_kept (db : Db) (call : Call) (next : Db) (kept : Kept db) (executed : call.Executed)
    (spares : SparesOthers db call) (served : serve db call = some next) : Kept next := by
  obtain rfl := Option.some.inj served
  obtain ⟨env, action, request⟩ := call
  cases action with
  | addNetwork => exact addNetwork_kept env db request kept
  | addNode => exact addNode_kept env db request kept executed
  | delNode => exact delNode_kept env db request kept executed
  | delNetwork => exact delNetwork_kept env db request kept executed (spares rfl)
  | listNetwork =>
    have same := listNetwork_db env db request
    dsimp only
    rwa [same]
  | listNode =>
    have same := listNode_db env db request
    dsimp only
    rwa [same]

theorem serve_breaks (db : Db) (call : Call) (next : Db) (kept : Kept db)
    (executed : call.Executed) (evicts : ¬ SparesOthers db call)
    (served : serve db call = some next) : ¬ AddressBook next := by
  obtain rfl := Option.some.inj served
  obtain ⟨env, action, request⟩ := call
  obtain ⟨deletion, reaches⟩ := Classical.not_imp.mp evicts
  obtain rfl : action = .delNetwork := deletion
  have evicted : ∃ network uuid clientId, Evicts env db request network uuid clientId := by
    simpa using reaches
  obtain ⟨network, uuid, clientId, evicts⟩ := evicted
  exact evicts_breaks env db request kept executed network uuid clientId evicts

theorem serves (db : Db) (calls : List Call) : ∃ final, Runs.run serve db calls = some final := by
  induction calls generalizing db with
  | nil => exact ⟨db, rfl⟩
  | cons call rest inductionHypothesis => exact inductionHypothesis _

/-- The address book is right in every state of a run of executed requests exactly when no
network that stays loses its nodes to a client that does not own it.

Proof: the addresses of the nodes are kept to the bits of their networks' pools. Every
executed request keeps this unless it evicts the nodes of a network that stays, and after such
a request a bit is set that no node has. -/
theorem address_book (clients : List Client) (calls : List Call)
    (executed : ∀ call ∈ calls, call.Executed) :
    (∀ past, past <+: calls → ∀ db, Runs.run serve (newDb clients) past = some db →
      AddressBook db) ↔ Runs.Meets serve SparesOthers (newDb clients) calls := by
  obtain ⟨final, reached⟩ := serves (newDb clients) calls
  exact Runs.holds_along_iff serve Call.Executed SparesOthers Kept AddressBook
    (fun _ kept => kept.addressBook) serve_kept serve_breaks (newDb clients) final calls
    (newDb_kept clients) executed reached

/-! ## A run with an eviction -/

/-- `add-network`, `add-node` under the first client's key, then `del-network` under the
second's. -/
def evictionRun : List Call :=
  [{ env := { sampleEnv with contextUuid := "net-1".toList }, action := .addNetwork
     request :=
      { apikey := some "key-1".toList
        network := some { uuid := none, name := some "home".toList }
        node := none } },
   { env := sampleEnv, action := .addNode
     request :=
      { apikey := some "key-1".toList
        network := none
        node := some { networkuuid := some "net-1".toList, uuid := none,
                       description := some "laptop".toList } } },
   { env := sampleEnv, action := .delNetwork, request := sampleIntruder }]

theorem evictionRun_executed : ∀ call ∈ evictionRun, call.Executed := by
  intro call inside statement
  simp only [evictionRun, List.mem_cons, List.not_mem_nil, or_false] at inside
  rcases inside with rfl | rfl | rfl <;> rfl

theorem evictionRun_additions : ∀ call ∈ evictionRun.take 2, call.action ≠ .delNetwork := by
  intro call inside
  simp only [evictionRun, List.take_succ_cons, List.take_zero, List.mem_cons, List.not_mem_nil,
    or_false] at inside
  rcases inside with rfl | rfl <;> simp

/-- The database before the deletion. -/
def evictionDb : Db :=
  (Runs.run serve (newDb sampleDb.client) (evictionRun.take 2)).get (by decide)

theorem evictionDb_reached :
    Runs.run serve (newDb sampleDb.client) (evictionRun.take 2) = some evictionDb :=
  (Option.some_get _).symm

theorem evictionDb_kept : Kept evictionDb := by
  apply Runs.invariant_of_allowed serve
    (fun call => call.Executed ∧ call.action ≠ .delNetwork) Kept
    (fun db call next kept allowed => serve_kept db call next kept allowed.1
      fun deletion => absurd deletion allowed.2)
    (newDb sampleDb.client) evictionDb (evictionRun.take 2) (newDb_kept _)
  · intro call inside
    exact ⟨evictionRun_executed call (List.mem_of_mem_take inside),
      evictionRun_additions call inside⟩
  · exact evictionDb_reached

/-- The deletion takes the nodes of the network and leaves the network. -/
theorem evictionDb_evicts : Evicts sampleEnv evictionDb sampleIntruder
    { uuid := some "net-1".toList, name := none } "net-1".toList 2 := by
  refine ⟨⟨rfl, rfl, by decide, by decide⟩, ?_, by decide⟩
  unfold Foreign
  decide

/-- After the run, no node has the address 44.128.0.1 whose bit is set. -/
theorem evictionRun_breaks : (∀ call ∈ evictionRun, call.Executed) ∧
    ∃ db, Runs.run serve (newDb sampleDb.client) evictionRun = some db ∧ ¬ AddressBook db :=
  ⟨evictionRun_executed, _, rfl, evicts_breaks sampleEnv evictionDb sampleIntruder evictionDb_kept
    (fun _ => rfl) _ _ _ evictionDb_evicts⟩

/-- The address book is right up to the deletion of the network, and not after it. -/
theorem address_book_eviction :
    (∀ past, past <+: evictionRun.take 2 → ∀ db,
      Runs.run serve (newDb sampleDb.client) past = some db → AddressBook db) ∧
    ∃ past, past <+: evictionRun ∧ ∃ db,
      Runs.run serve (newDb sampleDb.client) past = some db ∧ ¬ AddressBook db := by
  constructor
  · refine (address_book sampleDb.client (evictionRun.take 2) (fun call inside =>
      evictionRun_executed call (List.mem_of_mem_take inside))).mpr ?_
    exact Runs.meets_mono serve _ SparesOthers (fun _ _ other deletion => absurd deletion other)
      _ _ (Runs.meets_of_allowed serve _ _ _ evictionRun_additions)
  · by_contra right
    push Not at right
    have spares := (address_book sampleDb.client evictionRun evictionRun_executed).mp right
    have last := (Runs.meets_iff_forall serve SparesOthers _ evictionRun).mp spares
      (evictionRun.take 2) _ List.prefix_rfl evictionDb evictionDb_reached
    exact last rfl _ _ _ evictionDb_evicts

end NetVirt.Nvctrler
