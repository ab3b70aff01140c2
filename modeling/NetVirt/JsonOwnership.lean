import NetVirt.CtrlerChannel
import NetVirt.JsonCustody

/-!
# Who owns the JSON of a request

`on_read_cb` owns the message that it loads, hands it to a handler and drops it at the end. A
handler borrows from it and owns the response that it makes. Two of them go further: the status
of a node drops the `node` of the message, and a password reset gives its `account` to the response.
-/

namespace NetVirt.JsonOwnership

open Inet (Text)
open Nvctrler (PeerType)
open JsonCounts

/-! ## The handlers -/

/-- What the functions return that a handler calls besides those of jansson. None is called twice
in a handler. -/
structure Outcomes where
  daoFetchClientIdByApikey : Option Text × Int
  daoDelNodeByContextId : Int
  daoDelContext : Int
  daoFetchContextEmbassy : Int
  daoUpdateEmbassySerial : Int
  daoAddNode : Int
  daoUpdateContextIppool : Int
  daoFetchNodeIp : Int
  daoDelNode : Int
  daoFetchContextIppool : Int
  daoSetResetkey : Int
  uuidV4 : Text
  pkiGenKey : Option Text
  switchConnected : Bool

/-- `update_node_status` -/
def updateNodeStatus (jmsg : JsonRef) : Jansson Unit := do
  let node ← jsonObjectGet (some jmsg) "node".toList
  let _status ← jsonUnpack node "status".toList
  let _localIpaddr ← jsonUnpack node "local-ipaddr".toList
  let _uuid ← jsonUnpack node "uuid".toList
  let _networkUuid ← jsonUnpack node "networkuuid".toList
  jsonDecref node

/-- How the handlers of the API begin their response. -/
def response : Jansson JsonRef := do
  let resp ← jsonObject
  setString (some resp) "tid".toList (some "tid".toList)
  setString (some resp) "action".toList (some "response".toList)
  return resp

/-- And how they end it. Writing it with `json_dumps` only reads. -/
def answer (resp : JsonRef) (text : Text) : Jansson Unit := do
  setString (some resp) "response".toList (some text)
  jsonDecref (some resp)

/-- The message of `del_network` for the switch. -/
def forwardDelNetwork (jmsg jsNetwork : JsonRef) (networkUuid : Option Text) : Jansson Unit := do
  jsonObjectDel (some jmsg) "apikey".toList
  setString (some jsNetwork) "networkuuid".toList networkUuid
  jsonObjectDel (some jsNetwork) "uuid".toList
  jsonObjectDel (some jsNetwork) "name".toList

/-- `del_network`. Where a deletion fails it returns without dropping its response. -/
def delNetwork (outcomes : Outcomes) (jmsg : JsonRef) : Jansson Unit := do
  match ← jsonObjectGet (some jmsg) "network".toList with
  | none => pure ()
  | some jsNetwork => do
    let _apikey ← jsonUnpack (some jmsg) "apikey".toList
    let networkUuid ← jsonUnpack (some jsNetwork) "uuid".toList
    let resp ← response
    if outcomes.daoFetchClientIdByApikey.1 = none then answer resp "denied".toList
    else if outcomes.daoFetchClientIdByApikey.2 = -1 then answer resp "error".toList
    else if outcomes.daoDelNodeByContextId < 0 then pure ()
    else if outcomes.daoDelContext < 0 then pure ()
    else do
      if outcomes.switchConnected then forwardDelNetwork jmsg jsNetwork networkUuid
      jsonDecref (some resp)

/-- The message of `add_node` for the switch. -/
def forwardAddNode (networkUuid uuid : Option Text) : Jansson Unit := do
  let fwdResp ← jsonObject
  let node ← jsonObject
  let array ← jsonArray
  setString (some fwdResp) "action".toList (some "listall-node".toList)
  setString (some fwdResp) "response".toList (some "more-data".toList)
  setString (some node) "networkuuid".toList networkUuid
  setString (some node) "uuid".toList uuid
  jsonArrayAppendNew (some array) (some node)
  jsonObjectSetNew (some fwdResp) "nodes".toList (some array)
  jsonDecref (some fwdResp)

/-- `add_node` -/
def addNode (outcomes : Outcomes) (jmsg : JsonRef) : Jansson Unit := do
  match ← jsonObjectGet (some jmsg) "node".toList with
  | none => pure ()
  | some jsNode => do
    let resp ← response
    let apikey ← jsonUnpack (some jmsg) "apikey".toList
    let networkUuid ← jsonUnpack (some jsNode) "networkuuid".toList
    let description ← jsonUnpack (some jsNode) "description".toList
    if apikey = none ∨ networkUuid = none ∨ description = none then answer resp "error".toList
    else if outcomes.daoFetchClientIdByApikey.2 ≠ 0 then answer resp "denied".toList
    else if outcomes.daoFetchContextEmbassy ≠ 0 then answer resp "error".toList
    else if outcomes.daoUpdateEmbassySerial = -1 then answer resp "error".toList
    else if outcomes.daoAddNode = -1 then answer resp "error".toList
    else if outcomes.daoUpdateContextIppool = -1 then answer resp "error".toList
    else do
      if outcomes.switchConnected then forwardAddNode networkUuid (some outcomes.uuidV4)
      answer resp "success".toList

/-- `del_node`. Its response has no member `response` when it succeeds. -/
def delNode (outcomes : Outcomes) (jmsg : JsonRef) : Jansson Unit := do
  match ← jsonObjectGet (some jmsg) "node".toList with
  | none => pure ()
  | some jsNode => do
    let _apikey ← jsonUnpack (some jmsg) "apikey".toList
    let _networkUuid ← jsonUnpack (some jsNode) "networkuuid".toList
    let _nodeUuid ← jsonUnpack (some jsNode) "uuid".toList
    let resp ← response
    if outcomes.daoFetchClientIdByApikey.2 ≠ 0 then answer resp "denied".toList
    else if outcomes.daoFetchNodeIp ≠ 0 then answer resp "no-such-object".toList
    else if outcomes.daoDelNode ≠ 0 then answer resp "error".toList
    else if outcomes.daoFetchContextIppool = -1 then answer resp "error".toList
    else do
      if outcomes.switchConnected then jsonObjectDel (some jmsg) "apikey".toList
      jsonDecref (some resp)

/-- The response of `reset_account_password` when the key is set. -/
def answerAccount (resp jsAccount : JsonRef) (resetkey : Text) : Jansson Unit := do
  setString (some resp) "response".toList (some "success".toList)
  setString (some jsAccount) "resetkey".toList (some resetkey)
  jsonObjectDel (some jsAccount) "email".toList
  jsonObjectSetNew (some resp) "account".toList (some jsAccount)
  jsonDecref (some resp)

/-- `reset_account_password` -/
def resetAccountPassword (outcomes : Outcomes) (jmsg : JsonRef) : Jansson Unit := do
  match ← jsonObjectGet (some jmsg) "account".toList with
  | none => pure ()
  | some jsAccount => do
    match ← jsonUnpack (some jsAccount) "email".toList with
    | none => pure ()
    | some _ => do
      let resp ← response
      match outcomes.pkiGenKey with
      | none => answer resp "error".toList
      | some resetkey =>
        if outcomes.daoSetResetkey = -1 then answer resp "denied".toList
        else answerAccount resp jsAccount resetkey

/-- `dispatch_nvswitch`. The handlers of the other actions only read the message. -/
def dispatchNvswitch (jmsg : JsonRef) : Jansson Unit := do
  let action ← jsonUnpack (some jmsg) "action".toList
  if action = some "update-node-status".toList then updateNodeStatus jmsg else pure ()

/-- `dispatch_nvapi`. The handlers of the other actions only read the message. -/
def dispatchNvapi (outcomes : Outcomes) (jmsg : JsonRef) : Jansson Unit := do
  let action ← jsonUnpack (some jmsg) "action".toList
  if action = some "reset-account-password".toList then resetAccountPassword outcomes jmsg
  else if action = some "del-network".toList then delNetwork outcomes jmsg
  else if action = some "add-node".toList then addNode outcomes jmsg
  else if action = some "del-node".toList then delNode outcomes jmsg
  else pure ()

/-- What `on_read_cb` does with a message that it has loaded. -/
def dispatch (outcomes : Outcomes) (jmsg : JsonRef) : Option PeerType → Jansson Unit
  | none => pure ()
  | some .nvswitch => dispatchNvswitch jmsg
  | some .nvapi => dispatchNvapi outcomes jmsg

/-- `on_read_cb`, with what the text of a line says. A line that is not JSON says nothing. -/
def onReadCb (outcomes : Outcomes) (type : Option PeerType) : Option Document → Jansson Unit
  | none => pure ()
  | some document => do
    let jmsg ← jsonLoad document
    dispatch outcomes jmsg type
    jsonDecref (some jmsg)

/-! ## Serving a request -/

/-- While a request is served the code owns the message and these later objects, which are not
part of it. The message has this shape. -/
structure Serving (base jmsg : JsonId) (shape : Option Shape) (objects : List JsonId)
    (mem : Memory) : Prop where
  custody : Custody base [] mem
  owned : mem.owned = objects ++ [jmsg]
  later : ∀ id ∈ objects, base ≤ id
  request : mem.shape (some (.counted jmsg)) = shape

section Serving
variable {base jmsg : JsonId} {shape : Option Shape} {objects : List JsonId} {mem : Memory}

theorem Serving.owns (serving : Serving base jmsg shape objects mem) : jmsg ∈ mem.owned :=
  serving.owned ▸ List.mem_append_right _ (List.mem_singleton.mpr rfl)

theorem Serving.readable (serving : Serving base jmsg shape objects mem) :
    Readable mem (some (.counted jmsg)) :=
  readable_owned serving.custody serving.owns

/-- A member of the message is there. -/
theorem Serving.readable_member (serving : Serving base jmsg shape objects mem) {key : Text}
    {ref : Option JsonRef} (member : shape.bind (Shape.member key) = ref) : Readable mem ref := by
  have reached := serving.custody.sound.readable_member (some (.counted jmsg)) key
  rwa [Memory.member, serving.request, member] at reached

/-- A member of the message is not what the code owns. -/
theorem Serving.borrowed (serving : Serving base jmsg shape objects mem) {key : Text}
    {id : JsonId} (member : shape.bind (Shape.member key) = some (.counted id)) :
    id ∉ mem.owned := by
  have reached : mem.member (some (.counted jmsg)) key = some (.counted id) := by
    rw [Memory.member, serving.request, member]
  obtain ⟨parent, -, inside⟩ := member_children reached
  exact serving.custody.borrowed inside

/-- A function that does not touch the message. -/
theorem Serving.step (serving : Serving base jmsg shape objects mem) {after : Memory}
    {left touched : List JsonId} (custody : Custody base [] after)
    (owned : after.owned = left ++ [jmsg]) (later : ∀ id ∈ left, base ≤ id)
    (frame : Frame touched mem after) (untouched : jmsg ∉ touched) :
    Serving base jmsg shape left after := by
  have owns : jmsg ∈ after.owned := owned ▸ List.mem_append_right _ (List.mem_singleton.mpr rfl)
  obtain ⟨value, found⟩ := Option.isSome_iff_exists.mp (serving.readable jmsg rfl)
  have inside := serving.custody.sound.inside found
  exact
    { custody := custody
      owned := owned
      later := later
      request := (frame.shape inside untouched (readable_owned custody owns)).trans
        serving.request }

/-- The objects of the handler are not the message. -/
theorem Serving.apart (serving : Serving base jmsg shape objects mem) : jmsg ∉ objects := by
  have once := serving.custody.nodup
  rw [List.nil_append, serving.owned, List.nodup_append] at once
  exact fun member => once.2.2 jmsg member jmsg (List.mem_singleton.mpr rfl) rfl

theorem Serving.new (serving : Serving base jmsg shape objects mem) (made : Shape)
    (leaf : made.children = []) :
    Serving base jmsg shape (mem.fresh :: objects) (mem.new made) :=
  serving.step (serving.custody.new made leaf) (congrArg (List.cons mem.fresh) serving.owned)
    (fun _ member => (List.mem_cons.mp member).elim (fun same => same ▸ serving.custody.base)
      (serving.later _)) (frame_new mem made []) List.not_mem_nil

/-- Setting a string of an object of the handler. -/
theorem Serving.setString (serving : Serving base jmsg shape objects mem) {id : JsonId}
    (own : id ∈ objects) (key : Text) (text : Option Text) :
    Yields (setString (some (.counted id)) key text mem) fun _ after =>
      Serving base jmsg shape objects after := by
  have inside : id ∈ mem.owned := serving.owned ▸ List.mem_append_left _ own
  refine yields_mono (setString_yields serving.custody (readable_owned serving.custody inside)
    key text) fun _ after ⟨custody, owned, frame⟩ => ?_
  refine serving.step custody (owned.trans serving.owned) serving.later frame fun member => ?_
  exact serving.apart (List.mem_singleton.mp member ▸ own)

/-- Dropping the newest object of the handler. -/
theorem Serving.decref {id : JsonId} (serving : Serving base jmsg shape (id :: objects) mem) :
    Yields (jsonDecref (some (.counted id)) mem) fun _ after =>
      Serving base jmsg shape objects after := by
  have inside : id ∈ mem.owned := serving.owned ▸ List.mem_cons_self
  refine yields_mono (jsonDecref_yields (.counted id) serving.custody
    (fun _ member => List.mem_singleton.mp member ▸ inside) [])
    fun _ after ⟨custody, owned, frame⟩ => ?_
  rw [serving.owned] at owned
  exact serving.step custody (owned.trans (List.erase_cons_head id _))
    (fun other member => serving.later other (List.mem_cons_of_mem id member)) frame
    List.not_mem_nil

theorem Serving.response (serving : Serving base jmsg shape objects mem) :
    Yields (response mem) fun ref after => ∃ resp, ref = .counted resp ∧
      Serving base jmsg shape (resp :: objects) after := by
  have own : mem.fresh ∈ mem.fresh :: objects := List.mem_cons_self
  refine yields_run rfl (yields_bind ((serving.new _ rfl).setString own _ _) fun _ _ named => ?_)
  refine yields_bind (named.setString own _ _) fun _ _ made => ?_
  exact yields_pure _ ⟨mem.fresh, rfl, made⟩

theorem Serving.answer {resp : JsonId} (serving : Serving base jmsg shape (resp :: objects) mem)
    (text : Text) :
    Yields (answer (.counted resp) text mem) fun _ after =>
      Serving base jmsg shape objects after :=
  yields_bind (serving.setString List.mem_cons_self _ _) fun _ _ complete => complete.decref

/-- Reading the message. -/
theorem Serving.get (serving : Serving base jmsg shape objects mem) (key : Text) :
    jsonObjectGet (some (.counted jmsg)) key mem =
      some (shape.bind (Shape.member key), mem) := by
  rw [jsonObjectGet_eq serving.readable, Memory.member, serving.request]

theorem Serving.unpack (serving : Serving base jmsg shape objects mem) {ref : Option JsonRef}
    (readable : Readable mem ref) (key : Text) :
    jsonUnpack ref key mem = some (mem.text ref key, mem) :=
  jsonUnpack_eq serving.custody.sound readable key

end Serving

/-! ## The handlers keep the balance -/

/-- The code owns the message still. -/
def Served (base jmsg : JsonId) (mem : Memory) : Prop :=
  ∃ shape objects, Serving base jmsg shape objects mem

section Handlers
variable {base jmsg : JsonId} {shape : Option Shape} {objects : List JsonId} {mem : Memory}

theorem Serving.served (serving : Serving base jmsg shape objects mem) : Served base jmsg mem :=
  ⟨shape, objects, serving⟩

/-- A handler is done when it has dropped its response. -/
theorem Serving.dropped {resp : JsonId}
    (serving : Serving base jmsg shape (resp :: objects) mem) :
    Yields (jsonDecref (some (.counted resp)) mem) fun _ after => Served base jmsg after :=
  yields_mono serving.decref fun _ _ done => done.served

theorem Serving.answered {resp : JsonId}
    (serving : Serving base jmsg shape (resp :: objects) mem) (text : Text) :
    Yields (JsonOwnership.answer (.counted resp) text mem) fun _ after =>
      Served base jmsg after :=
  yields_mono (serving.answer text) fun _ _ done => done.served

/-- The status of a node, while there is no `node` to drop. -/
theorem updateNodeStatus_yields (serving : Serving base jmsg shape objects mem)
    (uncounted : idsOf (shape.bind (Shape.member "node".toList)) = []) :
    Yields (updateNodeStatus (.counted jmsg) mem) fun _ after => Served base jmsg after := by
  have there : Readable mem (shape.bind (Shape.member "node".toList)) :=
    serving.readable_member rfl
  refine yields_run (serving.get _) ?_
  refine yields_run (serving.unpack there _) (yields_run (serving.unpack there _) ?_)
  refine yields_run (serving.unpack there _) (yields_run (serving.unpack there _) ?_)
  cases node : shape.bind (Shape.member "node".toList) with
  | none => exact yields_pure () serving.served
  | some ref =>
    rw [node] at uncounted
    cases ref with
    | counted id => cases uncounted
    | constant =>
      refine yields_mono (jsonDecref_yields .constant serving.custody
        (fun _ member => nomatch member) []) fun _ after ⟨custody, owned, frame⟩ => ?_
      exact (serving.step custody (owned.trans serving.owned) serving.later frame
        List.not_mem_nil).served

/-- Deleting a member of the message. -/
theorem Serving.delete (serving : Serving base jmsg shape objects mem) (key : Text) :
    Yields (jsonObjectDel (some (.counted jmsg)) key mem) fun _ after =>
      ∃ less, Serving base jmsg less objects after ∧
        ∀ other, other ≠ key → less.bind (Shape.member other) =
          shape.bind (Shape.member other) := by
  refine yields_mono (jsonObjectDel_yields serving.custody serving.readable key)
    fun _ after ⟨custody, owned, _, members⟩ => ?_
  have owns : jmsg ∈ after.owned := owned ▸ serving.owns
  refine ⟨after.shape (some (.counted jmsg)),
    { custody := custody
      owned := owned.trans serving.owned
      later := serving.later
      request := rfl }, fun other different => ?_⟩
  have same := members other different (readable_owned custody owns)
  rwa [Memory.member, Memory.member, serving.request] at same

/-- What only touches a member of the message. -/
theorem Serving.within (serving : Serving base jmsg shape objects mem) {key : Text}
    {ref : JsonRef} (member : shape.bind (Shape.member key) = some ref) {after : Memory}
    (custody : Custody base [] after) (owned : after.owned = mem.owned)
    (frame : Frame (idsOf (some ref)) mem after) : Serving base jmsg shape objects after := by
  refine serving.step custody (owned.trans serving.owned) serving.later frame fun touched => ?_
  cases ref with
  | constant => cases touched
  | counted id =>
    obtain rfl := List.mem_singleton.mp touched
    exact serving.borrowed member serving.owns

theorem forwardDelNetwork_yields (serving : Serving base jmsg shape objects mem)
    {jsNetwork : JsonRef} (network : shape.bind (Shape.member "network".toList) = some jsNetwork)
    (networkUuid : Option Text) :
    Yields (forwardDelNetwork (.counted jmsg) jsNetwork networkUuid mem) fun _ after =>
      ∃ less, Serving base jmsg less objects after := by
  refine yields_bind (serving.delete _) fun _ _ ⟨less, first, members⟩ => ?_
  have kept : less.bind (Shape.member "network".toList) = some jsNetwork :=
    (members _ (by decide)).trans network
  refine yields_bind (setString_yields first.custody (first.readable_member kept) _ _)
    fun _ _ ⟨custodySet, ownedSet, frameSet⟩ => ?_
  have second := first.within kept custodySet ownedSet frameSet
  refine yields_bind (jsonObjectDel_yields second.custody (second.readable_member kept) _)
    fun _ _ ⟨custodyDel, ownedDel, frameDel, _⟩ => ?_
  have third := second.within kept custodyDel ownedDel frameDel
  refine yields_mono (jsonObjectDel_yields third.custody (third.readable_member kept) _)
    fun _ _ ⟨custody, owned, frame, _⟩ => ?_
  exact ⟨less, third.within kept custody owned frame⟩

theorem delNetwork_yields (serving : Serving base jmsg shape objects mem) (outcomes : Outcomes) :
    Yields (delNetwork outcomes (.counted jmsg) mem) fun _ after => Served base jmsg after := by
  refine yields_run (serving.get _) ?_
  cases network : shape.bind (Shape.member "network".toList) with
  | none => exact yields_pure () serving.served
  | some jsNetwork =>
    refine yields_run (serving.unpack serving.readable _) ?_
    refine yields_run (serving.unpack (serving.readable_member network) _) ?_
    refine yields_bind serving.response ?_
    rintro - made ⟨resp, rfl, responding⟩
    dsimp only
    split
    · exact responding.answered _
    split
    · exact responding.answered _
    split
    · exact yields_pure () responding.served
    split
    · exact yields_pure () responding.served
    split
    · refine yields_bind (forwardDelNetwork_yields responding network _) ?_
      rintro - forwarded ⟨less, forwarding⟩
      exact forwarding.dropped
    · exact responding.dropped

/-- An object of the handler becomes an element of its newest one. -/
theorem Serving.append {array node : JsonId}
    (serving : Serving base jmsg shape (array :: node :: objects) mem) :
    Yields (jsonArrayAppendNew (some (.counted array)) (some (.counted node)) mem) fun _ after =>
      Serving base jmsg shape (array :: objects) after := by
  have arrayOwned : array ∈ mem.owned := serving.owned ▸ List.mem_cons_self
  have nodeOwned : node ∈ mem.owned :=
    serving.owned ▸ List.mem_cons_of_mem array List.mem_cons_self
  have different : array ≠ node := by
    have once := serving.custody.nodup
    rw [List.nil_append, serving.owned] at once
    exact fun same => (List.nodup_cons.mp once).1 (same ▸ List.mem_cons_self)
  have later : ∀ id ∈ array :: objects, base ≤ id := fun id member =>
    serving.later id ((List.mem_cons.mp member).elim (fun same => same ▸ List.mem_cons_self)
      fun among => List.mem_cons_of_mem array (List.mem_cons_of_mem node among))
  have stored := jsonArrayAppendNew_yields (.counted node) serving.custody
    (readable_owned serving.custody arrayOwned)
    (fun _ member => List.mem_singleton.mp member ▸ nodeOwned)
    (fun target same unlike => by
      obtain ⟨⟩ := same
      exact storable_owned serving.custody arrayOwned unlike fun _ member =>
        List.mem_singleton.mp member ▸ serving.later node
          (List.mem_cons_of_mem array List.mem_cons_self))
  refine yields_mono stored fun _ after ⟨custody, owned, frame⟩ => ?_
  rw [serving.owned] at owned
  refine serving.step custody (owned.trans ?_) later frame fun touched => ?_
  · refine (List.erase_cons_tail (beq_false_of_ne different ▸ Bool.false_ne_true)).trans ?_
    exact congrArg (List.cons array) (List.erase_cons_head node _)
  · exact serving.apart (List.mem_singleton.mp touched ▸ List.mem_cons_self)

/-- The newest object of the handler becomes a member of the one before. -/
theorem Serving.set {array fwdResp : JsonId}
    (serving : Serving base jmsg shape (array :: fwdResp :: objects) mem) (key : Text) :
    Yields (jsonObjectSetNew (some (.counted fwdResp)) key (some (.counted array)) mem)
      fun _ after => Serving base jmsg shape (fwdResp :: objects) after := by
  have arrayOwned : array ∈ mem.owned := serving.owned ▸ List.mem_cons_self
  have respOwned : fwdResp ∈ mem.owned :=
    serving.owned ▸ List.mem_cons_of_mem array List.mem_cons_self
  have stored := jsonObjectSetNew_yields (.counted array) serving.custody
    (readable_owned serving.custody respOwned)
    (fun _ member => List.mem_singleton.mp member ▸ arrayOwned)
    (fun target same unlike => by
      obtain ⟨⟩ := same
      exact storable_owned serving.custody respOwned unlike fun _ member =>
        List.mem_singleton.mp member ▸ serving.later array List.mem_cons_self) key
  refine yields_mono stored fun _ after ⟨custody, owned, frame⟩ => ?_
  rw [serving.owned] at owned
  refine serving.step custody (owned.trans (List.erase_cons_head array _))
    (fun id member => serving.later id (List.mem_cons_of_mem array member)) frame fun touched => ?_
  exact serving.apart
    (List.mem_singleton.mp touched ▸ List.mem_cons_of_mem array List.mem_cons_self)

/-- The message of `add_node` for the switch is made and dropped. -/
theorem forwardAddNode_yields (serving : Serving base jmsg shape objects mem)
    (networkUuid uuid : Option Text) :
    Yields (forwardAddNode networkUuid uuid mem) fun _ after =>
      Serving base jmsg shape objects after := by
  have fwdResp := serving.new (.object []) rfl
  have node := fwdResp.new (.object []) rfl
  have array := node.new (.array []) rfl
  have nodeOwn : mem.fresh + 1 ∈ [mem.fresh + 2, mem.fresh + 1, mem.fresh] ++ objects := by simp
  have respOwn : mem.fresh ∈ [mem.fresh + 2, mem.fresh + 1, mem.fresh] ++ objects := by simp
  refine yields_run rfl (yields_run rfl (yields_run rfl ?_))
  refine yields_bind (array.setString respOwn _ _) fun _ _ first => ?_
  refine yields_bind (first.setString respOwn _ _) fun _ _ second => ?_
  refine yields_bind (second.setString nodeOwn _ _) fun _ _ third => ?_
  refine yields_bind (third.setString nodeOwn _ _) fun _ _ fourth => ?_
  refine yields_bind fourth.append fun _ _ nodes => ?_
  exact yields_bind (nodes.set _) fun _ _ whole => whole.decref

theorem addNode_yields (serving : Serving base jmsg shape objects mem) (outcomes : Outcomes) :
    Yields (addNode outcomes (.counted jmsg) mem) fun _ after => Served base jmsg after := by
  refine yields_run (serving.get _) ?_
  cases node : shape.bind (Shape.member "node".toList) with
  | none => exact yields_pure () serving.served
  | some jsNode =>
    refine yields_bind serving.response ?_
    rintro - made ⟨resp, rfl, responding⟩
    have there := responding.readable_member node
    refine yields_run (responding.unpack responding.readable _) ?_
    refine yields_run (responding.unpack there _) (yields_run (responding.unpack there _) ?_)
    dsimp only
    split
    · exact responding.answered _
    split
    · exact responding.answered _
    split
    · exact responding.answered _
    split
    · exact responding.answered _
    split
    · exact responding.answered _
    split
    · exact responding.answered _
    split
    · refine yields_bind (forwardAddNode_yields responding _ _) fun _ _ forwarding => ?_
      exact forwarding.answered _
    · exact responding.answered _

theorem delNode_yields (serving : Serving base jmsg shape objects mem) (outcomes : Outcomes) :
    Yields (delNode outcomes (.counted jmsg) mem) fun _ after => Served base jmsg after := by
  refine yields_run (serving.get _) ?_
  cases node : shape.bind (Shape.member "node".toList) with
  | none => exact yields_pure () serving.served
  | some jsNode =>
    have there := serving.readable_member node
    refine yields_run (serving.unpack serving.readable _) ?_
    refine yields_run (serving.unpack there _) (yields_run (serving.unpack there _) ?_)
    refine yields_bind serving.response ?_
    rintro - made ⟨resp, rfl, responding⟩
    dsimp only
    split
    · exact responding.answered _
    split
    · exact responding.answered _
    split
    · exact responding.answered _
    split
    · exact responding.answered _
    split
    · refine yields_bind (responding.delete _) ?_
      rintro - forwarded ⟨less, forwarding, -⟩
      exact forwarding.dropped
    · exact responding.dropped

/-- A password reset that sets no key. -/
theorem resetAccountPassword_yields (serving : Serving base jmsg shape objects mem)
    (outcomes : Outcomes)
    (refused : mem.text (shape.bind (Shape.member "account".toList)) "email".toList = none ∨
      outcomes.pkiGenKey = none ∨ outcomes.daoSetResetkey = -1) :
    Yields (resetAccountPassword outcomes (.counted jmsg) mem) fun _ after =>
      Served base jmsg after := by
  refine yields_run (serving.get _) ?_
  cases account : shape.bind (Shape.member "account".toList) with
  | none => exact yields_pure () serving.served
  | some jsAccount =>
    refine yields_run (serving.unpack (serving.readable_member account) _) ?_
    rw [account] at refused
    cases email : mem.text (some jsAccount) "email".toList with
    | none => exact yields_pure () serving.served
    | some text =>
      refine yields_bind serving.response ?_
      rintro - made ⟨resp, rfl, responding⟩
      cases key : outcomes.pkiGenKey with
      | none => exact responding.answered _
      | some resetkey =>
        rw [email, key] at refused
        have denied : outcomes.daoSetResetkey = -1 :=
          (refused.resolve_left (nomatch ·)).resolve_left (nomatch ·)
        dsimp only
        rw [if_pos denied]
        exact responding.answered _

end Handlers

/-! ## Where the code gives away what it borrowed -/

/-- The `node` of the message is dropped, as it is a counted value. -/
def DropsNode (message : Message) : Prop :=
  idsOf (message.mem.member (some message.jmsg) "node".toList) ≠ []

/-- The `account` of the message is given to the response, as its key is set. -/
def GivesAccount (outcomes : Outcomes) (message : Message) : Prop :=
  (message.mem.text (message.mem.member (some message.jmsg) "account".toList)
    "email".toList).isSome ∧
    outcomes.pkiGenKey.isSome ∧ outcomes.daoSetResetkey ≠ -1

/-- A message of this type and action takes one of the two paths. -/
def Oversteps (outcomes : Outcomes) (message : Message) : Option PeerType → Prop
  | none => False
  | some .nvswitch => message.mem.text (some message.jmsg) "action".toList =
      some "update-node-status".toList ∧ DropsNode message
  | some .nvapi => message.mem.text (some message.jmsg) "action".toList =
      some "reset-account-password".toList ∧ GivesAccount outcomes message

/-- The code owns the message after the handler, and all counts are those of the references. What
the handler left of the message is there, with as many references as before, and the last
`json_decref` frees every value of it that was not freed, each once. -/
structure Balanced (message : Message) (after final : Memory) : Prop where
  owned : after.unowned = []
  mine : ∀ id ∈ message.jmsg.ids, id ∈ after.owned
  whole : ∀ parent child, child ∈ after.children parent → (after.values child).isSome
  owners : ∀ id value, after.values id = some value →
    value.refs = after.incoming id + after.owned.count id
  kept : ∀ id before value, message.mem.values id = some before →
    after.values id = some value → value.refs = before.refs
  dropped : final.unowned = []
  once : ∀ id, id < message.mem.fresh → final.freed.count id = 1

/-- `on_read_cb` serves this document and keeps the balance. -/
def Respects (outcomes : Outcomes) (type : Option PeerType) (document : Document) : Prop :=
  ∃ after final,
    dispatch outcomes (Message.load document).jmsg type (Message.load document).mem =
      some ((), after) ∧
    onReadCb outcomes type (some document) Memory.empty = some ((), final) ∧
    Balanced (Message.load document) after final

section Balance
variable {outcomes : Outcomes} {message : Message}

/-- A message that is a constant has no action. -/
theorem dispatch_constant (type : Option PeerType) (mem : Memory) :
    dispatch outcomes .constant type mem = some ((), mem) := by
  cases type with
  | none => rfl
  | some peer =>
    cases peer with
    | nvswitch => rfl
    | nvapi => rfl

theorem outOf_last {ref : JsonRef} {objects : List JsonId} (apart : ∀ id ∈ ref.ids, id ∉ objects) :
    ref.outOf (objects ++ ref.ids) = objects := by
  cases ref with
  | constant => exact List.append_nil objects
  | counted id =>
    change (objects ++ [id]).erase id = objects
    rw [List.erase_append_right _ (apart id (List.mem_singleton.mpr rfl)), List.erase_cons_head,
      List.append_nil]

/-- While the code owns the message and later objects, dropping the message frees all of it. -/
theorem message_settles {after : Memory} {objects : List JsonId}
    (custody : Custody message.mem.fresh [] after)
    (owned : after.owned = objects ++ message.jmsg.ids)
    (later : ∀ id ∈ objects, message.mem.fresh ≤ id) :
    ∃ final, jsonDecref (some message.jmsg) after = some ((), final) ∧
      Balanced message after final := by
  have mine : ∀ id ∈ message.jmsg.ids, id ∈ after.owned := fun id member =>
    owned ▸ List.mem_append_right _ member
  obtain ⟨_, final, run, kept, left, -⟩ := jsonDecref_yields message.jmsg custody mine []
  have apart : ∀ id ∈ message.jmsg.ids, id ∉ objects := by
    have once := custody.nodup
    rw [List.nil_append, owned, List.nodup_append] at once
    exact fun id member object => once.2.2 id object id member rfl
  rw [owned, outOf_last apart] at left
  refine ⟨final, run,
    { owned := custody.unowned
      mine := mine
      whole := custody.sound.live
      owners := custody.sound.refs
      kept := fun id before value found reached =>
        (custody.single id value reached).trans (message.custody.single id before found).symm
      dropped := kept.unowned
      once := fun id before => ?_ }⟩
  have gone := kept.gone (fun object member => later object (left ▸ member)) before
  have inside : id < final.fresh := Nat.lt_of_lt_of_le before kept.base
  exact List.count_eq_one_of_mem kept.sound.freedOnce ((kept.sound.freed id).mpr ⟨inside, gone⟩)

/-- A message that is counted is what the code owns. -/
theorem message_serving {jmsg : JsonId} (counted : message.jmsg = .counted jmsg) :
    Serving message.mem.fresh jmsg (message.mem.shape (some (.counted jmsg))) [] message.mem :=
  { custody := message.custody
    owned := message.owned.trans (congrArg JsonRef.ids counted)
    later := fun _ member => nomatch member
    request := rfl }

/-- A message that takes neither path is served. -/
theorem dispatch_yields (type : Option PeerType) {jmsg : JsonId}
    (counted : message.jmsg = .counted jmsg) (within : ¬ Oversteps outcomes message type) :
    Yields (dispatch outcomes (.counted jmsg) type message.mem) fun _ after =>
      Served message.mem.fresh jmsg after := by
  have serving := message_serving counted
  cases type with
  | none => exact yields_pure () serving.served
  | some peer =>
    cases peer with
    | nvswitch =>
      simp only [Oversteps, DropsNode, counted, not_and, not_not] at within
      refine yields_run (serving.unpack serving.readable _) ?_
      split
      · next status => exact updateNodeStatus_yields serving (within status)
      · exact yields_pure () serving.served
    | nvapi =>
      simp only [Oversteps, GivesAccount, counted, not_and, not_not, Option.isSome_iff_ne_none]
        at within
      refine yields_run (serving.unpack serving.readable _) ?_
      split
      · next reset =>
        refine resetAccountPassword_yields serving outcomes ?_
        exact Classical.or_iff_not_imp_left.mpr fun email =>
          Classical.or_iff_not_imp_left.mpr fun key => within reset email key
      split
      · exact delNetwork_yields serving outcomes
      split
      · exact addNode_yields serving outcomes
      split
      · exact delNode_yields serving outcomes
      · exact yields_pure () serving.served

/-- A status that drops the node drops what the message owns. -/
theorem updateNodeStatus_overdraws {base jmsg : JsonId} {shape : Option Shape}
    {objects : List JsonId} {mem : Memory} (serving : Serving base jmsg shape objects mem)
    (counted : idsOf (shape.bind (Shape.member "node".toList)) ≠ []) :
    Overdraws (updateNodeStatus (.counted jmsg) mem) := by
  have there : Readable mem (shape.bind (Shape.member "node".toList)) :=
    serving.readable_member rfl
  refine overdraws_run (serving.get _) ?_
  refine overdraws_run (serving.unpack there _) (overdraws_run (serving.unpack there _) ?_)
  refine overdraws_run (serving.unpack there _) (overdraws_run (serving.unpack there _) ?_)
  cases node : shape.bind (Shape.member "node".toList) with
  | none => exact absurd (congrArg idsOf node) counted
  | some ref =>
    cases ref with
    | constant => exact absurd (congrArg idsOf node) counted
    | counted id => exact overdraws_jsonDecref (serving.borrowed node)

/-- A reset that sets a key gives what the message owns to the response. -/
theorem resetAccountPassword_overdraws {base jmsg : JsonId} {shape : Option Shape}
    {objects : List JsonId} {mem : Memory} (serving : Serving base jmsg shape objects mem)
    (email : mem.text (shape.bind (Shape.member "account".toList)) "email".toList ≠ none)
    (key : outcomes.pkiGenKey ≠ none) (set : outcomes.daoSetResetkey ≠ -1) :
    Overdraws (resetAccountPassword outcomes (.counted jmsg) mem) := by
  refine overdraws_run (serving.get _) ?_
  cases account : shape.bind (Shape.member "account".toList) with
  | none => exact absurd (congrArg (fun ref => mem.text ref "email".toList) account) email
  | some jsAccount =>
    cases jsAccount with
    | constant => exact absurd (congrArg (fun ref => mem.text ref "email".toList) account) email
    | counted id =>
      refine overdraws_run (serving.unpack (serving.readable_member account) _) ?_
      rw [account] at email
      obtain ⟨text, found⟩ := Option.ne_none_iff_exists'.mp email
      obtain ⟨resetkey, generated⟩ := Option.ne_none_iff_exists'.mp key
      rw [found]
      refine overdraws_bind serving.response ?_
      rintro - made ⟨resp, rfl, responding⟩
      rw [generated]
      dsimp only
      rw [if_neg set]
      refine overdraws_bind (responding.setString List.mem_cons_self _ _) fun _ _ success => ?_
      refine overdraws_bind (setString_yields success.custody (success.readable_member account) _ _)
        fun _ _ ⟨custodySet, ownedSet, frameSet⟩ => ?_
      have keyed := success.within account custodySet ownedSet frameSet
      refine overdraws_bind (jsonObjectDel_yields keyed.custody (keyed.readable_member account) _)
        fun _ _ ⟨custodyDel, ownedDel, frameDel, _⟩ => ?_
      have anonymous := keyed.within account custodyDel ownedDel frameDel
      exact overdraws_first (overdraws_jsonObjectSetNew (anonymous.borrowed account) _ _)
        fun _ => remembers_jsonDecref _

/-- A message that takes one of the paths is not. -/
theorem dispatch_overdraws (type : Option PeerType) {jmsg : JsonId}
    (counted : message.jmsg = .counted jmsg) (oversteps : Oversteps outcomes message type) :
    Overdraws (dispatch outcomes (.counted jmsg) type message.mem) := by
  have serving := message_serving counted
  cases type with
  | none => cases oversteps
  | some peer =>
    cases peer with
    | nvswitch =>
      obtain ⟨status, drops⟩ := oversteps
      rw [counted] at status
      rw [DropsNode, counted] at drops
      refine overdraws_run (serving.unpack serving.readable _) ?_
      rw [if_pos status]
      exact updateNodeStatus_overdraws serving drops
    | nvapi =>
      obtain ⟨reset, email, key, set⟩ := oversteps
      rw [counted] at reset email
      refine overdraws_run (serving.unpack serving.readable _) ?_
      rw [if_pos reset]
      exact resetAccountPassword_overdraws serving (Option.isSome_iff_ne_none.mp email)
        (Option.isSome_iff_ne_none.mp key) set

end Balance

theorem onReadCb_eq (outcomes : Outcomes) (type : Option PeerType) (document : Document)
    {after : Memory} (run : dispatch outcomes (Message.load document).jmsg type
      (Message.load document).mem = some ((), after)) :
    onReadCb outcomes type (some document) Memory.empty =
      jsonDecref (some (Message.load document).jmsg) after := by
  change (jsonLoad document Memory.empty).bind _ = _
  rw [jsonLoad_eq]
  change (dispatch outcomes (Message.load document).jmsg type (Message.load document).mem).bind _ =
    _
  rw [run]
  rfl

/-- Only a counted message has an action. -/
theorem oversteps_counted {outcomes : Outcomes} {message : Message} {type : Option PeerType}
    (oversteps : Oversteps outcomes message type) : ∃ jmsg, message.jmsg = .counted jmsg := by
  cases counted : message.jmsg with
  | counted jmsg => exact ⟨jmsg, rfl⟩
  | constant =>
    cases type with
    | none => cases oversteps
    | some peer =>
      cases peer <;>
      · have action := oversteps.1
        rw [counted] at action
        cases action

/-- The last `json_decref` after a handler that kept the balance. -/
theorem respects_of_dispatch {outcomes : Outcomes} {type : Option PeerType} {document : Document}
    {after : Memory} (objects : List JsonId)
    (run : dispatch outcomes (Message.load document).jmsg type (Message.load document).mem =
      some ((), after))
    (custody : Custody (Message.load document).mem.fresh [] after)
    (owned : after.owned = objects ++ (Message.load document).jmsg.ids)
    (later : ∀ id ∈ objects, (Message.load document).mem.fresh ≤ id) :
    Respects outcomes type document := by
  obtain ⟨final, settles, balanced⟩ := message_settles custody owned later
  exact ⟨after, final, run, (onReadCb_eq outcomes type document run).trans settles, balanced⟩

/-- A document is served with the balance kept exactly when it takes neither path: the status of a
node with a counted `node`, and the password reset of an account whose key is set.

Proof: a document that takes one of the two paths drops a reference that its request does not
have. On every other path the counts of the request's objects are followed call by call, from
the load to the last decref. -/
theorem ownership_iff (outcomes : Outcomes) (type : Option PeerType) (document : Document) :
    Respects outcomes type document ↔ ¬ Oversteps outcomes (Message.load document) type := by
  constructor
  · rintro ⟨after, final, run, -, balanced⟩ oversteps
    obtain ⟨jmsg, counted⟩ := oversteps_counted oversteps
    rw [counted] at run
    exact dispatch_overdraws type counted oversteps () after run balanced.owned
  · intro within
    cases counted : (Message.load document).jmsg with
    | constant =>
      have whole := (Message.load document).owned
      refine respects_of_dispatch [] ?_ (Message.load document).custody whole
        fun _ member => nomatch member
      rw [counted]
      exact dispatch_constant type _
    | counted jmsg =>
      obtain ⟨_, after, run, shape, objects, serving⟩ := dispatch_yields type counted within
      refine respects_of_dispatch objects ?_ serving.custody ?_ serving.later
      · rw [counted]
        exact run
      · rw [counted]
        exact serving.owned

/-- What succeeds with a switch. -/
def Outcomes.succeed : Outcomes :=
  { daoFetchClientIdByApikey := (some "1".toList, 0)
    daoDelNodeByContextId := 0
    daoDelContext := 0
    daoFetchContextEmbassy := 0
    daoUpdateEmbassySerial := 0
    daoAddNode := 0
    daoUpdateContextIppool := 0
    daoFetchNodeIp := 0
    daoDelNode := 0
    daoFetchContextIppool := 0
    daoSetResetkey := 0
    uuidV4 := "4c5a".toList
    pkiGenKey := some "b7e1".toList
    switchConnected := true }

/-- The status that the switch sends when a node connects. -/
def nodeStatus : Document :=
  .object [("action".toList, .string "update-node-status".toList),
    ("node".toList, .object [("status".toList, .string "1".toList),
      ("local-ipaddr".toList, .string "10.0.0.2".toList), ("uuid".toList, .string "n1".toList),
      ("networkuuid".toList, .string "w1".toList)])]

/-- The request of a reset key. -/
def passwordReset : Document :=
  .object [("action".toList, .string "reset-account-password".toList),
    ("account".toList, .object [("email".toList, .string "a@b.c".toList)])]

/-- Dropping the message reads the node, or the account, that was freed before. -/
theorem ownership_not_kept :
    ¬ Respects .succeed (some .nvswitch) nodeStatus ∧
      ¬ Respects .succeed (some .nvapi) passwordReset := by
  have status : onReadCb .succeed (some .nvswitch) (some nodeStatus) Memory.empty = none := by
    rfl
  have reset : onReadCb .succeed (some .nvapi) (some passwordReset) Memory.empty = none := by
    rfl
  refine ⟨?_, ?_⟩
  · rintro ⟨after, final, -, run, -⟩
    rw [status] at run
    cases run
  · rintro ⟨after, final, -, run, -⟩
    rw [reset] at run
    cases run

end NetVirt.JsonOwnership
