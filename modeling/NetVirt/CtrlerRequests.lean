import NetVirt.Dao
import NetVirt.PoolLaw

/-!
# The requests of the API

The handlers of request.c for networks and nodes. A handler makes its calls in order and
leaves at the first one it takes for a failure; what earlier calls wrote stays written.
-/

namespace NetVirt.Nvctrler

open Inet RowTables Decimal IpPool

/-! ## Messages -/

/-- The `network` object of a request. A field that is not a string reads as NULL. -/
structure NetworkObject where
  uuid : Option Text
  name : Option Text
deriving DecidableEq

/-- The `node` object of a request. -/
structure NodeObject where
  networkuuid : Option Text
  uuid : Option Text
  description : Option Text
deriving DecidableEq

structure Request where
  apikey : Option Text
  network : Option NetworkObject
  node : Option NodeObject
deriving DecidableEq

structure Response where
  tid : Text := "tid".toList
  action : Text := "response".toList
  response : Option Text := none
  networks : Option (List (Text × Text)) := none
  nodes : Option (List NodeListing) := none
deriving DecidableEq

/-- An element of the `networks` of a listing. -/
structure NetworkElement where
  id : Option Text
  uuid : Text
  network : Text
  netmask : Text
  cert : Certificate
  pkey : Keyring
  tcert : Certificate
deriving DecidableEq

/-- An element of the `nodes` of a listing. -/
structure NodeElement where
  networkuuid : Text
  uuid : Text
deriving DecidableEq

/-- The `response` of a listing: whether other rows follow. -/
inductive Listing where
  | moreData
  | success
deriving DecidableEq

/-- The messages for the switch. The deletions are the request itself, without the key. -/
inductive Command where
  | listallNetwork (element : NetworkElement) (response : Listing)
  | listallNode (element : NodeElement) (response : Listing)
  | delNetwork (networkuuid : Option Text)
  | delNode (node : NodeObject)
deriving DecidableEq

/-- The uuid of the network that a command is about. -/
def Command.network : Command → Option Text
  | .listallNetwork element _ => some element.uuid
  | .listallNode element _ => some element.networkuuid
  | .delNetwork networkuuid => networkuuid
  | .delNode node => node.networkuuid

/-- What a handler sends: the reply, none when it returns before, and what it forwards. -/
structure Answer where
  reply : Option Response
  forwarded : List Command

def Answer.silent : Answer := { reply := none, forwarded := [] }

def Answer.responds (response : Text) : Answer :=
  { reply := some { response := some response }, forwarded := [] }

/-- What is written to the switch, which is nothing while it is not connected. -/
def Env.forward (env : Env) (command : Command) : List Command :=
  if env.switchConnected then [command] else []

/-! ## Certificates -/

structure Embassy where
  certificate : Certificate
  keyring : Keyring
  serial : BitVec 32

/-- `pki_embassy_new` for the identity "embassy". -/
def pkiEmbassyNew (keyring : Keyring) : Embassy :=
  { certificate := { commonName := "embassy".toList, altName := none,
                     issuer := "embassy".toList, serial := 0, authority := true }
    keyring := keyring
    serial := 1 }

/-- `pki_embassy_load_from_memory` -/
def pkiEmbassyLoadFromMemory (certificate : Certificate) (privatekey : Keyring) (serial : Int) :
    Embassy :=
  { certificate := certificate, keyring := privatekey, serial := BitVec.ofInt 32 serial }

/-- `pki_embassy_deliver_passport`: the certificate, and the embassy after it. -/
def pkiEmbassyDeliverPassport (embassy : Embassy) (commonName : Text) (altName : Option Text) :
    Certificate × Embassy :=
  ({ commonName := commonName, altName := altName, issuer := embassy.certificate.commonName,
     serial := embassy.serial, authority := false },
   { embassy with serial := embassy.serial + 1 })

/-- `snprintf` of `"%d"` into `emb_serial`, which has ten characters. -/
def Embassy.serialText (embassy : Embassy) : Text := (formatInt embassy.serial.toInt).take 9

/-! ## The pool of a network -/

/-- `ippool_new("44.128.0.0", "255.255.0.0")` -/
def newPool (endian : Endian) : Ippool :=
  (ippoolNew endian "44.128.0.0".toList "255.255.0.0".toList).get (by cases endian <;> decide)

theorem newPool_hosts (endian : Endian) : (newPool endian).hosts = 65533 := by
  cases endian <;> decide

theorem newPool_pool (endian : Endian) : (newPool endian).pool = List.replicate 8192 0 := by
  have bytes : bitmapBytes 65533 = 8192 := by decide
  have new := ippoolNew_pool endian "44.128.0.0".toList "255.255.0.0".toList (newPool endian)
    (Option.some_get _).symm
  rw [new, newPool_hosts, bytes]

/-- The bitmap of a new network. -/
def newBitmap (endian : Endian) : Bitmap :=
  ⟨(newPool endian).pool, by rw [newPool_pool, List.length_replicate]⟩

/-- The new pool with a bitmap that was stored. -/
def contextPool (endian : Endian) (bitmap : Bitmap) : Ippool :=
  (newPool endian).withPool bitmap.val
    (by rw [bitmap.property, newPool_pool, List.length_replicate])

/-- `ippool_get_ip` on a stored bitmap: the bitmap to store, and the address. -/
def takeIp (endian : Endian) (bitmap : Bitmap) : Bitmap × Option Text :=
  (⟨(ippoolGetIp endian (contextPool endian bitmap)).1.pool,
      (allocateBit_length _ _).trans bitmap.property⟩,
    (ippoolGetIp endian (contextPool endian bitmap)).2)

/-- `ippool_release_ip` on a stored bitmap. -/
def releaseIp (endian : Endian) (bitmap : Bitmap) (ip : Text) : Bitmap :=
  ⟨(ippoolReleaseIp endian (contextPool endian bitmap) ip).pool, by
    unfold ippoolReleaseIp
    cases inetAton endian ip with
    | none => exact bitmap.property
    | some addr => exact (freeBit_length _ _ _).trans bitmap.property⟩

/-! ## Handlers -/

/-- `add_network` -/
def addNetwork (env : Env) (request : Request) : Dao Answer := do
  let some network := request.network | return .silent
  let some apikey := request.apikey | return .responds "error".toList
  let some name := network.name | return .responds "error".toList
  let (ret, clientId) ← daoFetchClientIdByApikey env (some apikey)
  if ret = -1 then
    return .responds "error".toList
  let some clientId := clientId | return .responds "denied".toList
  let embassy := pkiEmbassyNew env.keyring
  let (passport, delivered) := pkiEmbassyDeliverPassport embassy "nvswitch".toList none
  let (ret, networkUuid) ← daoAddVnetwork env
    { uuid := [], clientId := clientId, description := name, network := "44.128.0.0/16".toList,
      embassyCertificate := embassy.certificate, embassyPrivatekey := embassy.keyring,
      embassySerial := serialOf delivered.serialText, passportCertificate := passport,
      passportPrivatekey := env.secondKeyring, ippool := newBitmap env.endian }
  if ret = -1 then
    return .responds "error".toList
  if ret = -2 then
    return .responds "duplicate".toList
  let some networkUuid := networkUuid | return .silent
  let element : NetworkElement :=
    { id := none, uuid := networkUuid, network := "44.128.0.0".toList,
      netmask := "255.255.0.0".toList, cert := passport, pkey := env.secondKeyring,
      tcert := embassy.certificate }
  return { reply := some { response := some "success".toList }
           forwarded := env.forward (.listallNetwork element .moreData) }

/-- `del_network`. The reply to a request that was carried out says nothing. -/
def delNetwork (env : Env) (request : Request) : Dao Answer := do
  let some network := request.network | return .silent
  let (ret, clientId) ← daoFetchClientIdByApikey env request.apikey
  let some clientId := clientId | return .responds "denied".toList
  if ret = -1 then
    return .responds "error".toList
  let ret ← daoDelNodeByContextId env network.uuid
  if ret < 0 then
    return .silent
  let ret ← daoDelContext env clientId network.uuid
  if ret < 0 then
    return .silent
  return { reply := some {}, forwarded := env.forward (.delNetwork network.uuid) }

/-- `list_network` -/
def listNetwork (env : Env) (request : Request) : Dao Answer := do
  let (ret, clientId) ← daoFetchClientIdByApikey env request.apikey
  let some clientId := clientId | return .responds "denied".toList
  if ret = -1 then
    return .responds "error".toList
  let (ret, array) ← daoFetchNetworksByClientId env clientId
  if ret = -1 then
    return .responds "error".toList
  return { reply := some { response := some "success".toList, networks := some array }
           forwarded := [] }

/-- `add_node`. Only the code of the client's lookup is looked at, not the client. -/
def addNode (env : Env) (request : Request) : Dao Answer := do
  let some node := request.node | return .silent
  let some apikey := request.apikey | return .responds "error".toList
  let some networkUuid := node.networkuuid | return .responds "error".toList
  let some description := node.description | return .responds "error".toList
  let (ret, _) ← daoFetchClientIdByApikey env (some apikey)
  if ret ≠ 0 then
    return .responds "denied".toList
  let (ret, embassy) ← daoFetchContextEmbassy env networkUuid
  if ret ≠ 0 then
    return .responds "error".toList
  let some stored := embassy | return .silent
  let embassy := pkiEmbassyLoadFromMemory stored.certificate stored.privatekey (atoi stored.serial)
  let commonName := ("nva2-".toList ++ networkUuid).take 63
  let altName := ("URI:".toList ++ env.uuid ++ ['@'] ++ networkUuid).take 255
  let (passport, embassy) := pkiEmbassyDeliverPassport embassy commonName (some altName)
  let ret ← daoUpdateEmbassySerial env networkUuid embassy.serialText
  if ret = -1 then
    return .responds "error".toList
  let (ippool, ip) := takeIp env.endian stored.ippool
  let ret ← daoAddNode env networkUuid env.uuid passport env.keyring env.provcode description ip
  if ret = -1 then
    return .responds "error".toList
  let ret ← daoUpdateContextIppool env ippool networkUuid
  if ret = -1 then
    return .responds "error".toList
  let element : NodeElement := { networkuuid := networkUuid, uuid := env.uuid }
  return { reply := some { response := some "success".toList }
           forwarded := env.forward (.listallNode element .moreData) }

/-- `del_node`. Only the code of the client's lookup is looked at, and a failure to store the
pool is only logged. -/
def delNode (env : Env) (request : Request) : Dao Answer := do
  let some node := request.node | return .silent
  let (ret, _) ← daoFetchClientIdByApikey env request.apikey
  if ret ≠ 0 then
    return .responds "denied".toList
  let (ret, ipaddr) ← daoFetchNodeIp env node.networkuuid node.uuid
  if ret ≠ 0 then
    return .responds "no-such-object".toList
  let some ipaddr := ipaddr | return .silent
  let ret ← daoDelNode env node.networkuuid node.uuid
  if ret ≠ 0 then
    return .responds "error".toList
  let (ret, ippool) ← daoFetchContextIppool env node.networkuuid
  if ret = -1 then
    return .responds "error".toList
  let some ippool := ippool | return .silent
  let _ ← daoUpdateContextIppool env (releaseIp env.endian ippool ipaddr) node.networkuuid
  return { reply := some {}, forwarded := env.forward (.delNode node) }

/-- `list_node`. The rows of the network are listed whoever's it is. -/
def listNode (env : Env) (request : Request) : Dao Answer := do
  let some network := request.network | return .silent
  let (_, clientId) ← daoFetchClientIdByApikey env request.apikey
  let some _ := clientId | return .responds "denied".toList
  let (ret, array) ← daoFetchNodeFromContextId env network.uuid
  if ret ≠ 0 then
    return .responds "denied".toList
  return { reply := some { response := some "success".toList, nodes := some array }
           forwarded := [] }

inductive Action where
  | addNetwork
  | delNetwork
  | listNetwork
  | addNode
  | delNode
  | listNode
deriving DecidableEq

/-- The handlers of `dispatch_nvapi` that take a key. -/
def handler (env : Env) (request : Request) : Action → Dao Answer
  | .addNetwork => addNetwork env request
  | .delNetwork => delNetwork env request
  | .listNetwork => listNetwork env request
  | .addNode => addNode env request
  | .delNode => delNode env request
  | .listNode => listNode env request

/-- What a request leaves: the database, the codes of the calls, and what was sent. -/
structure Handled where
  db : Db
  codes : List Int
  answer : Answer

def Dao.handled (dao : Dao Answer) (access : Access) : Handled :=
  { db := (dao access).2.db, codes := (dao access).2.codes, answer := (dao access).1 }

def handle (env : Env) (db : Db) (action : Action) (request : Request) : Handled :=
  (handler env request action).handled { db := db, codes := [] }

end NetVirt.Nvctrler
