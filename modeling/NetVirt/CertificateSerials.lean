import NetVirt.AddressBook

/-!
# Serials of certificates

The counter of a network is in its row, as a number that is fetched as a text, counted up when
a certificate is delivered, and stored as a text again before the node is. A failure after
that loses a serial and never gives one out twice. As long as the text of the next serial fits
into `emb_serial`, every serial that was delivered is less than the stored one.
-/

namespace NetVirt.Nvctrler

open Inet RowTables Decimal

/-! ## Numbers that are given out -/

/-- The numbers that were given out are different, and all before the next one. -/
structure Issued {Number : Type} [LT Number] (numbers : List Number) (next : Number) : Prop where
  distinct : numbers.Nodup
  before : ∀ number ∈ numbers, number < next

section Issuing
variable {Number : Type} [Preorder Number] {numbers : List Number} {next later : Number}

/-- A number is left out. -/
theorem Issued.skip (issued : Issued numbers next) (ahead : next < later) :
    Issued numbers later :=
  ⟨issued.distinct, fun number inside => (issued.before number inside).trans ahead⟩

/-- The next number is given out. -/
theorem Issued.give (issued : Issued numbers next) (ahead : next < later) :
    Issued (numbers ++ [next]) later := by
  constructor
  · have new : next ∉ numbers := fun inside => lt_irrefl next (issued.before next inside)
    rw [← List.concat_eq_append]
    exact issued.distinct.concat new
  · intro number inside
    rcases List.mem_append.mp inside with old | last
    · exact (issued.before number old).trans ahead
    · exact List.mem_singleton.mp last ▸ ahead

end Issuing

/-! ## The counter -/

/-- The number that a certificate has for its serial, which is not signed. -/
def Certificate.number (certificate : Certificate) : Int := certificate.serial.toNat

/-- The text of the next serial fits into `emb_serial`. -/
def Fits (serial : BitVec 32) : Prop := (formatInt (serial + 1).toInt).length ≤ 9

instance (serial : BitVec 32) : Decidable (Fits serial) := inferInstanceAs (Decidable (_ ≤ _))

/-- A text that fits is read back as the next serial. -/
theorem nextSerial_of_fits (serial : BitVec 32) (fits : Fits serial) :
    nextSerial serial = serial + 1 := by
  rw [nextSerial, serialOf, List.take_of_length_le fits, atoi_formatInt, BitVec.ofInt_toInt]

/-- A serial whose text fits has not wrapped around. -/
theorem toInt_of_fits (serial : BitVec 32) (fits : Fits serial) (natural : 0 ≤ serial.toInt) :
    (serial + 1).toInt = serial.toInt + 1 := by
  have unwrapped : serial ≠ BitVec.intMax 32 := by
    rintro rfl
    exact absurd fits (by decide)
  have below : serial.toInt ≠ 2 ^ 31 - 1 := fun last =>
    unwrapped (BitVec.eq_of_toInt_eq (by rw [last]; decide))
  have bound : serial.toInt < 2 ^ 31 := BitVec.toInt_lt
  rw [BitVec.toInt_add]
  simp [Int.bmod]
  omega

/-- The serial that is stored for a new network. -/
theorem newEmbassy_serial (keyring : Keyring) (commonName : Text) (altName : Option Text) :
    serialOf (pkiEmbassyDeliverPassport (pkiEmbassyNew keyring) commonName altName).2.serialText =
      2 := by
  change serialOf ((formatInt ((1 : BitVec 32) + 1).toInt).take 9) = 2
  decide

/-! ## What the handlers store -/

/-- Nodes that were not there before have certificates of their network's stored serial. -/
def Delivered (db : Db) (handled : Handled) : Prop :=
  ∀ node ∈ handled.db.node.rows, node ∉ db.node.rows →
    ∃ context ∈ db.context.rows, context.uuid = node.networkUuid ∧
      node.certificate.serial = context.embassySerial

/-- Networks that were not there before start with the serials 0 and 1, and 2 is the next. -/
def Founded (db : Db) (handled : Handled) : Prop :=
  ∀ context ∈ handled.db.context.rows, context ∉ db.context.rows →
    context.embassyCertificate.serial = 0 ∧ context.passportCertificate.serial = 1 ∧
      context.embassySerial = 2

theorem founded_of_contexts (db : Db) (handled : Handled)
    (same : handled.db.context = db.context) : Founded db handled := by
  intro context inside new
  rw [same] at inside
  exact absurd inside new

theorem delivered_of_nodes (db : Db) (handled : Handled) (same : handled.db.node = db.node) :
    Delivered db handled := by
  intro node inside new
  rw [same] at inside
  exact absurd inside new

theorem delivered_of_insert (db before added : Db) (row : Node) (context : Context)
    (inserted : before.insertNode row = some added) (nodes : before.node = db.node)
    (inside : context ∈ db.context.rows) (named : context.uuid = row.networkUuid)
    (serial : row.certificate.serial = context.embassySerial) (handled : Handled)
    (same : handled.db.node = added.node) : Delivered db handled := by
  intro node nodeIn new
  obtain ⟨-, -, rows, -⟩ := insertNode_rows before row added inserted
  rw [same, rows, nodes] at nodeIn
  rcases List.mem_append.mp nodeIn with old | last
  · exact absurd old new
  · obtain rfl := List.mem_singleton.mp last
    exact ⟨context, inside, named, serial⟩

section Handlers
variable (env : Env) (db : Db) (request : Request)

/-- The certificate of a node is delivered under the serial that was fetched. -/
theorem addNode_delivered : Delivered db (handle env db .addNode request) := by
  unfold handle handler addNode
  cases request.node with
  | none => exact delivered_of_nodes db _ rfl
  | some object =>
    dsimp only
    cases request.apikey with
    | none => exact delivered_of_nodes db _ rfl
    | some apikey =>
      cases object.networkuuid with
      | none => exact delivered_of_nodes db _ rfl
      | some networkUuid =>
        cases object.description with
        | none => exact delivered_of_nodes db _ rfl
        | some description =>
          apply lookup_rule
          case refused => exact fun _ _ => delivered_of_nodes db _ rfl
          case admitted =>
            intro _
            simp only [ne_eq, not_true_eq_false, if_false]
            apply fetchFirst_rule
            case missing => exact fun _ => delivered_of_nodes db _ rfl
            case found =>
              intro embassy _ found
              obtain ⟨context, known, rfl⟩ := Option.map_eq_some_iff.mp found
              obtain ⟨inside, rfl⟩ := (db.context?_eq_some _ _).mp known
              simp only [not_true_eq_false, if_false, daoUpdateEmbassySerial]
              apply writeChecked_rule
              case failed => exact fun _ => delivered_of_nodes db _ rfl
              case done =>
                intro serialized _ stored
                cases stored
                simp only [no_error, if_false]
                cases (takeIp env.endian context.embassy.ippool).2 with
                | none => exact delivered_of_nodes db _ rfl
                | some ip =>
                  simp only [daoAddNode, daoUpdateContextIppool]
                  apply writeChecked_rule
                  case failed => exact fun _ => delivered_of_nodes db _ rfl
                  case done =>
                    intro added _ inserted
                    have serial : BitVec.ofInt 32 (atoi context.embassy.serial) =
                        context.embassySerial := by
                      rw [Context.embassy, atoi_formatInt, BitVec.ofInt_toInt]
                    have delivers := delivered_of_insert db _ added _ context inserted rfl inside
                      rfl serial
                    simp only [no_error, if_false]
                    apply writeChecked_rule
                    case failed => exact fun _ => delivers _ rfl
                    case done =>
                      intro pooled _ same
                      cases same
                      exact delivers _ rfl

/-- The first serials go to the embassy itself and to the passport of the switch. -/
theorem addNetwork_founded : Founded db (handle env db .addNetwork request) := by
  unfold handle handler addNetwork
  cases request.network with
  | none => exact founded_of_contexts db _ rfl
  | some network =>
    dsimp only
    cases request.apikey with
    | none => exact founded_of_contexts db _ rfl
    | some apikey =>
      cases network.name with
      | none => exact founded_of_contexts db _ rfl
      | some name =>
        apply lookup_rule
        case refused => exact fun _ _ => founded_of_contexts db _ rfl
        case admitted =>
          intro _
          cases lookedUp env db (some apikey) with
          | none =>
            simp only [no_error, if_false]
            exact founded_of_contexts db _ rfl
          | some clientId =>
            simp only [no_error, if_false]
            rw [handled_bind]
            rcases daoAddVnetwork_cases env _ (Access.log ⟨db, []⟩ 0)
              with ⟨added, inserted, result⟩ | result | result
            · rw [result]
              intro context inside new
              obtain ⟨-, rows, -⟩ := insertContext_rows db _ added inserted
              replace inside : context ∈ added.context.rows := inside
              rw [rows] at inside
              rcases List.mem_append.mp inside with old | last
              · exact absurd old new
              · obtain rfl := List.mem_singleton.mp last
                exact ⟨rfl, rfl, newEmbassy_serial env.keyring _ _⟩
            · rw [result]
              exact founded_of_contexts db _ rfl
            · rw [result]
              exact founded_of_contexts db _ rfl

end Handlers

/-! ## One network -/

/-- The node rows of a network that were not there before. -/
def newNodes (uuid : Text) (before after : Db) : List Node :=
  after.node.rows.filter fun node => node.networkUuid = uuid ∧ node ∉ before.node.rows

theorem newNodes_nil (uuid : Text) (before after : Db)
    (old : ∀ node ∈ after.node.rows, node.networkUuid = uuid → node ∈ before.node.rows) :
    newNodes uuid before after = [] := by
  rw [newNodes, List.filter_eq_nil_iff]
  intro node inside
  simp only [decide_eq_true_eq, not_and, not_not]
  exact old node inside

/-- A node that is inserted is the only new one. -/
theorem newNodes_insert (before middle added : Db) (row : Node)
    (nodes : middle.node = before.node) (inserted : middle.insertNode row = some added) :
    newNodes row.networkUuid before added = [row] := by
  obtain ⟨-, -, rows, fresh⟩ := insertNode_rows middle row added inserted
  have new : row ∉ before.node.rows := fun inside => fresh row (nodes ▸ inside) rfl
  rw [newNodes, rows, List.filter_append, List.filter_eq_nil_iff.mpr]
  · simp [new]
  · intro node inside
    simp [nodes ▸ inside]

/-- What a request can do to the row of a network and its counter. -/
structure Counts (uuid : Text) (before after : Db) (stored later : Context) : Prop where
  inside : later ∈ after.context.rows
  named : later.uuid = uuid
  embassy : later.embassyCertificate = stored.embassyCertificate
  passport : later.passportCertificate = stored.passportCertificate
  counts : newNodes uuid before after = [] ∧ later.embassySerial = stored.embassySerial ∨
    newNodes uuid before after = [] ∧ later.embassySerial = nextSerial stored.embassySerial ∨
    later.embassySerial = nextSerial stored.embassySerial ∧ ∃ node,
      newNodes uuid before after = [node] ∧ node.certificate.serial = stored.embassySerial

section Counting
variable (env : Env) (db : Db) (request : Request) (stored : Context)

/-- A request that leaves the row as it is and adds no node. -/
theorem counts_same (after : Db) (kept : stored ∈ after.context.rows)
    (old : ∀ node ∈ after.node.rows, node.networkUuid = stored.uuid → node ∈ db.node.rows) :
    Counts stored.uuid db after stored stored :=
  ⟨kept, rfl, rfl, rfl, .inl ⟨newNodes_nil _ _ _ old, rfl⟩⟩

/-- A new bitmap is stored in the row. -/
theorem counts_storeIppool (before : Db) (ippool : Bitmap) (later : Context)
    (counts : Counts stored.uuid db before stored later) :
    Counts stored.uuid db (before.storeIppool stored.uuid ippool) stored
      { later with ippool := ippool } where
  inside := (before.mem_storeIppool _ _ _).mpr ⟨later, counts.inside, if_pos counts.named⟩
  named := counts.named
  embassy := counts.embassy
  passport := counts.passport
  counts := counts.counts

variable (inside : stored ∈ db.context.rows)
include inside

/-- A request about another network. -/
theorem counts_confined (other : Text) (after : Db) (confined : Confined other db after)
    (apart : stored.uuid ≠ other) : Counts stored.uuid db after stored stored := by
  refine counts_same db stored after ((confined.contexts stored apart).mpr inside) ?_
  intro node nodeIn named
  exact (confined.nodes node (named ▸ apart)).mp nodeIn

theorem counts_idle (handled : Handled) (idle : Idle db handled) :
    Counts stored.uuid db handled.db stored stored := by
  rw [idle.db]
  exact counts_same db stored db inside fun _ nodeIn _ => nodeIn

theorem addNetwork_counts :
    ∃ later, Counts stored.uuid db (handle env db .addNetwork request).db stored later := by
  have result := addNetwork_result env db request
  generalize handle env db .addNetwork request = handled at result ⊢
  refine ⟨stored, ?_⟩
  cases result with
  | turnedDown idle => exact counts_idle db stored inside _ idle
  | carriedOut client new same inserted =>
    obtain ⟨nodes, rows, -⟩ := insertContext_rows db _ _ inserted
    refine counts_same db stored _ (rows ▸ List.mem_append_left _ inside) ?_
    intro node nodeIn _
    exact nodes ▸ nodeIn

/-- A network that is not named is not deleted. -/
theorem delNetwork_counts
    (spares : ∀ network, request.network = some network → network.uuid ≠ some stored.uuid) :
    ∃ later, Counts stored.uuid db (handle env db .delNetwork request).db stored later := by
  have result := delNetwork_result env db request
  have concerns := delNetwork_concerns env db request
  generalize handle env db .delNetwork request = handled at result concerns ⊢
  refine ⟨stored, ?_⟩
  cases result with
  | turnedDown idle never => exact counts_idle db stored inside _ idle
  | stopped writes failed =>
    refine counts_confined db stored inside _ _ (concerns _ _ _ writes).confined ?_
    exact fun same => spares _ writes.asked (same ▸ writes.named)
  | carriedOut writes done =>
    refine counts_confined db stored inside _ _ (concerns _ _ _ writes).confined ?_
    exact fun same => spares _ writes.asked (same ▸ writes.named)

/-- The deletion of a node leaves the row and adds no node. -/
theorem revoked_counts (node : Node) :
    Counts stored.uuid db (env.revoked db node) stored stored := by
  refine counts_same db stored _ ?_ ?_
  · rw [env.revoked_context]
    exact inside
  · intro other otherIn _
    unfold Env.revoked Outcome.leaves at otherIn
    split at otherIn
    · exact ((RowTable.mem_delete _ _ _).mp otherIn).1
    · exact otherIn

theorem delNode_counts :
    ∃ later, Counts stored.uuid db (handle env db .delNode request).db stored later := by
  have result := delNode_result env db request
  have concerns := delNode_concerns env db request
  generalize handle env db .delNode request = handled at result concerns ⊢
  cases result with
  | turnedDown idle never => exact ⟨stored, counts_idle db stored inside _ idle⟩
  | noIppool writes missing => exact ⟨stored, revoked_counts env db stored inside _⟩
  | notStored writes fetched found failed => exact ⟨stored, revoked_counts env db stored inside _⟩
  | @carriedOut object node context writes fetched found done =>
    by_cases same : stored.uuid = node.networkUuid
    · rw [← same]
      exact ⟨_, counts_storeIppool db stored _ _ stored (revoked_counts env db stored inside node)⟩
    · exact ⟨stored, counts_confined db stored inside _ _ (concerns _ _ writes).confined same⟩

/-- A serial is counted up before the node is added. -/
theorem serialized_counts :
    Counts stored.uuid db (db.serialized stored) stored
      { stored with embassySerial := nextSerial stored.embassySerial } where
  inside := (db.mem_storeSerial _ _ _).mpr ⟨stored, inside, if_pos rfl⟩
  named := rfl
  embassy := rfl
  passport := rfl
  counts := .inr (.inl ⟨newNodes_nil _ _ _ fun _ nodeIn _ => nodeIn, rfl⟩)

/-- A node is added with the serial that was counted. -/
theorem inserted_counts (row : Node) (added : Db) (named : row.networkUuid = stored.uuid)
    (serial : row.certificate.serial = stored.embassySerial)
    (inserted : (db.serialized stored).insertNode row = some added) :
    Counts stored.uuid db added stored
      { stored with embassySerial := nextSerial stored.embassySerial } where
  inside := by
    rw [(insertNode_rows _ row added inserted).2.1]
    exact (serialized_counts db stored inside).inside
  named := rfl
  embassy := rfl
  passport := rfl
  counts := .inr (.inr ⟨rfl, row,
    named ▸ newNodes_insert db (db.serialized stored) added row rfl inserted, serial⟩)

/-- The certificate of the new node was delivered by the embassy in the row. -/
theorem new_serial (handled : Handled) (delivered : Delivered db handled) (row : Node)
    (added : Db) (named : row.networkUuid = stored.uuid) (nodes : handled.db.node = added.node)
    (inserted : (db.serialized stored).insertNode row = some added) :
    row.certificate.serial = stored.embassySerial := by
  obtain ⟨-, -, rows, fresh⟩ := insertNode_rows _ row added inserted
  have last : row ∈ handled.db.node.rows := by
    rw [nodes, rows]
    exact List.mem_append_right _ (List.mem_singleton_self row)
  obtain ⟨context, contextIn, same, serial⟩ :=
    delivered row last fun old => fresh row old rfl
  rw [serial, db.context.row_unique contextIn inside (same.trans named)]

theorem addNode_counts :
    ∃ later, Counts stored.uuid db (handle env db .addNode request).db stored later := by
  have result := addNode_result env db request
  have concerns := addNode_concerns env db request
  have delivered := addNode_delivered env db request
  generalize handle env db .addNode request = handled at result concerns delivered ⊢
  cases result with
  | turnedDown idle never => exact ⟨stored, counts_idle db stored inside _ idle⟩
  | @notAdded object description context writes failed =>
    by_cases same : stored.uuid = context.uuid
    · obtain rfl := db.context.row_unique inside writes.row same
      exact ⟨_, serialized_counts db stored inside⟩
    · exact ⟨stored, counts_confined db stored inside _ _ (concerns _ _ _ writes).confined same⟩
  | @notStored object description context row added writes new executed inserted failed =>
    by_cases same : stored.uuid = context.uuid
    · obtain rfl := db.context.row_unique inside writes.row same
      have serial := new_serial db stored inside _ delivered row added new.network rfl inserted
      exact ⟨_, inserted_counts db stored inside row added new.network serial inserted⟩
    · exact ⟨stored, counts_confined db stored inside _ _ (concerns _ _ _ writes).confined same⟩
  | @carriedOut object description context row added writes new executed inserted done =>
    by_cases same : stored.uuid = context.uuid
    · obtain rfl := db.context.row_unique inside writes.row same
      have serial := new_serial db stored inside _ delivered row added new.network rfl inserted
      exact ⟨_, counts_storeIppool db stored _ _ _
        (inserted_counts db stored inside row added new.network serial inserted)⟩
    · exact ⟨stored, counts_confined db stored inside _ _ (concerns _ _ _ writes).confined same⟩

end Counting

/-! ## Runs -/

/-- A call does not delete the network. -/
def Spares (uuid : Text) (call : Call) : Prop :=
  call.action = .delNetwork → ∀ network, call.request.network = some network →
    network.uuid ≠ some uuid

theorem serve_counts (db : Db) (stored : Context) (inside : stored ∈ db.context.rows)
    (call : Call) (spares : Spares stored.uuid call) :
    ∃ later, Counts stored.uuid db (handle call.env db call.action call.request).db stored
      later := by
  obtain ⟨env, action, request⟩ := call
  cases action with
  | addNetwork => exact addNetwork_counts env db request stored inside
  | delNetwork => exact delNetwork_counts env db request stored inside (spares rfl)
  | addNode => exact addNode_counts env db request stored inside
  | delNode => exact delNode_counts env db request stored inside
  | listNetwork =>
    refine ⟨stored, ?_⟩
    simp only [listNetwork_db]
    exact counts_same db stored db inside fun _ nodeIn _ => nodeIn
  | listNode =>
    refine ⟨stored, ?_⟩
    simp only [listNode_db]
    exact counts_same db stored db inside fun _ nodeIn _ => nodeIn

/-- The node rows that were ever inserted for a network, in order. -/
def inserted (uuid : Text) : Db → List Call → List Node
  | _, [] => []
  | db, call :: rest =>
    newNodes uuid db (handle call.env db call.action call.request).db ++
      inserted uuid (handle call.env db call.action call.request).db rest

/-- The numbers of the certificates of a network: its embassy's, its passport's and those of
its nodes. -/
def numbers (stored : Context) (nodes : List Node) : List Int :=
  stored.embassyCertificate.number :: stored.passportCertificate.number ::
    nodes.map fun node => node.certificate.number

/-- The next serial of the network fits into `emb_serial`. -/
def FitsNext (uuid : Text) (db : Db) : Prop :=
  ∀ stored ∈ db.context.rows, stored.uuid = uuid → Fits stored.embassySerial

instance (uuid : Text) (db : Db) : Decidable (FitsNext uuid db) :=
  inferInstanceAs (Decidable (∀ stored ∈ db.context.rows, stored.uuid = uuid →
    Fits stored.embassySerial))

/-- The stored serial is next, after different numbers. -/
structure Numbered (stored : Context) (nodes : List Node) : Prop where
  natural : 0 ≤ stored.embassySerial.toInt
  issued : Issued (numbers stored nodes) stored.embassySerial.toInt

theorem numbers_snoc (stored : Context) (nodes : List Node) (node : Node) :
    numbers stored (nodes ++ [node]) = numbers stored nodes ++ [node.certificate.number] := by
  simp [numbers]

/-- A natural serial is the same number in a certificate and in the row. -/
theorem number_of_serial (certificate : Certificate) (serial : BitVec 32)
    (delivered : certificate.serial = serial) (natural : 0 ≤ serial.toInt) :
    certificate.number = serial.toInt := by
  rw [Certificate.number, delivered, BitVec.toInt_eq_toNat_of_lt]
  rw [BitVec.toInt_eq_toNat_cond] at natural
  split at natural
  · assumption
  · have bound := serial.isLt
    omega

/-- While the next serial fits, a request keeps the numbers different. -/
theorem Counts.numbered {uuid : Text} {before after : Db} {stored later : Context}
    (counts : Counts uuid before after stored later) (fits : Fits stored.embassySerial)
    (nodes : List Node) (numbered : Numbered stored nodes) :
    Numbered later (nodes ++ newNodes uuid before after) := by
  have next := (congrArg BitVec.toInt (nextSerial_of_fits _ fits)).trans
    (toInt_of_fits _ fits numbered.natural)
  have same (list : List Node) : numbers later list = numbers stored list := by
    rw [numbers, numbers, counts.embassy, counts.passport]
  have natural := numbered.natural
  rcases counts.counts with ⟨none, kept⟩ | ⟨none, counted⟩ | ⟨counted, node, one, delivered⟩
  · rw [none, List.append_nil]
    refine ⟨kept ▸ natural, ?_⟩
    rw [same, kept]
    exact numbered.issued
  · rw [none, List.append_nil]
    refine ⟨by rw [counted, next]; omega, ?_⟩
    rw [same, counted, next]
    exact numbered.issued.skip (Int.lt_succ _)
  · rw [one]
    refine ⟨by rw [counted, next]; omega, ?_⟩
    rw [same, counted, next, numbers_snoc, number_of_serial _ _ delivered natural]
    exact numbered.issued.give (Int.lt_succ _)

/-- A new network has the numbers 0 and 1. -/
theorem founded_numbered (stored : Context) (embassy : stored.embassyCertificate.serial = 0)
    (passport : stored.passportCertificate.serial = 1) (next : stored.embassySerial = 2) :
    Numbered stored [] := by
  have list : numbers stored [] = [0, 1] := by
    simp [numbers, Certificate.number, embassy, passport]
  constructor
  · rw [next]
    decide
  · rw [list, next]
    exact ⟨by decide, by decide⟩

theorem run_numbered (uuid : Text) (db final : Db) (calls : List Call) (stored : Context)
    (nodes : List Node) (inside : stored ∈ db.context.rows) (named : stored.uuid = uuid)
    (numbered : Numbered stored nodes) (spares : ∀ call ∈ calls, Spares uuid call)
    (fits : Runs.Meets serve (fun db _ => FitsNext uuid db) db calls)
    (reached : Runs.run serve db calls = some final) :
    ∃ later ∈ final.context.rows, later.uuid = uuid ∧
      Numbered later (nodes ++ inserted uuid db calls) := by
  induction calls generalizing db stored nodes with
  | nil =>
    obtain rfl := Option.some.inj reached
    exact ⟨stored, inside, named, by simpa [inserted] using numbered⟩
  | cons call rest inductionHypothesis =>
    obtain ⟨later, counts⟩ :=
      serve_counts db stored inside call (named ▸ spares call List.mem_cons_self)
    rw [named] at counts
    have kept := counts.numbered (fits.1 stored inside named) nodes numbered
    rw [inserted, ← List.append_assoc]
    exact inductionHypothesis _ later _ counts.inside counts.named kept
      (fun other otherIn => spares other (List.mem_cons_of_mem call otherIn))
      (fits.2 _ rfl) reached

/-- The serials of a network's certificates are different. After `add_network` added the
network, whatever is asked of the controller but its deletion, and whichever statements fail,
as long as the next serial fits into `emb_serial`: the certificates of the embassy, of the
passport and of every node that was ever inserted have different numbers, and the stored
serial is greater than all of them.

Proof: add_network gives out the first numbers and stores the next one. From there on every
request either takes the stored number for a new certificate and stores its successor, or
inserts nothing. -/
theorem serials_distinct (env : Env) (db : Db) (request : Request) (context : Context)
    (created : context ∈ (handle env db .addNetwork request).db.context.rows)
    (new : context ∉ db.context.rows) (calls : List Call) (final : Db)
    (spares : ∀ call ∈ calls, Spares context.uuid call)
    (fits : Runs.Meets serve (fun db _ => FitsNext context.uuid db)
      (handle env db .addNetwork request).db calls)
    (reached : Runs.run serve (handle env db .addNetwork request).db calls = some final) :
    ∃ stored ∈ final.context.rows, stored.uuid = context.uuid ∧
      Issued (numbers stored
          (inserted context.uuid (handle env db .addNetwork request).db calls))
        stored.embassySerial.toInt := by
  obtain ⟨embassy, passport, next⟩ := addNetwork_founded env db request context created new
  obtain ⟨stored, inside, named, numbered⟩ := run_numbered context.uuid _ final calls context []
    created rfl (founded_numbered context embassy passport next) spares fits reached
  exact ⟨stored, inside, named, numbered.issued⟩

/-! ## A run with a failure -/

/-- `add-network` under the first client's key. -/
def foundingRequest : Request :=
  { apikey := some "key-1".toList
    network := some { uuid := none, name := some "home".toList }
    node := none }

def foundedDb : Db :=
  (handle sampleEnv (newDb sampleDb.client) .addNetwork foundingRequest).db

def additionTo (uuid : Text) : Request :=
  { apikey := some "key-1".toList
    network := none
    node := some { networkuuid := some uuid, uuid := none, description := some [] } }

/-- Of three nodes the second is not stored, after its serial was counted. -/
def threeNodes : List Call :=
  [{ env := sampleEnv, action := .addNode, request := additionTo "net-2".toList },
   { env := { sampleEnv with
      uuid := "node-3".toList
      outcome := fun statement => if statement = .addNode then .failed else .done }
     action := .addNode, request := additionTo "net-2".toList },
   { env := { sampleEnv with uuid := "node-4".toList }
     action := .addNode, request := additionTo "net-2".toList }]

/-- The row that was founded. -/
def foundedNetwork : Context := foundedDb.context.rows.head (by decide +kernel)

theorem threeNodes_distinct :
    (inserted "net-2".toList foundedDb threeNodes).map (fun node => node.certificate.serial) =
        [2, 4] ∧
      ∃ final, Runs.run serve foundedDb threeNodes = some final ∧
        ∃ stored ∈ final.context.rows, stored.uuid = "net-2".toList ∧
          Issued (numbers stored (inserted "net-2".toList foundedDb threeNodes))
            stored.embassySerial.toInt := by
  refine ⟨by decide +kernel, _, rfl, ?_⟩
  refine serials_distinct sampleEnv (newDb sampleDb.client) foundingRequest foundedNetwork
    (List.head_mem _) List.not_mem_nil threeNodes _ ?_ (by decide +kernel) rfl
  intro call inside deletion
  simp only [threeNodes, List.mem_cons, List.not_mem_nil, or_false] at inside
  rcases inside with rfl | rfl | rfl <;> cases deletion

end NetVirt.Nvctrler
