import NetVirt.Agent
import NetVirt.MessageFields
import NetVirt.OctetStrings
import NetVirt.SwitchEvents

/-!
# Reads of a constant width

The getters of dnds.c that copy an address out of a decoded message, the header that
forward_ethernet reads, and the handlers of the switch and of the agent around them. Which
bytes of a field are read is recorded; what a read beyond the string brings is what the
allocation holds there. No getter looks at the length of its field. What they do check, the
PDU and the operation, has been told apart by the dispatcher before.
-/

namespace NetVirt.FieldReads

open OctetStrings

/-! ## dnds.c and inet.c -/

/-- The fields of a message that are read in this way. -/
inductive Field where
  | ipLocal
  | macAddr
  | macAddrDst
  | ipAddrDst
  | ipAddress
  | ethernet
deriving DecidableEq

/-- What a getter reads, and the bytes that it returns. -/
structure Got where
  reads : List (Field × Nat)
  bytes : Option (List UInt8)

/-- A copy of n bytes of a field. -/
def getBytes (field : Field) (offset n : Nat) (octets : Octets) : Got :=
  { reads := (List.range n).map fun index => (field, offset + index)
    bytes := octets.copy offset n }

/-- A getter finds its bytes, in the string or behind it, exactly when the decoder has appended
something to the string, if only nothing. -/
theorem getBytes_decoded (field : Field) (offset n : Nat) (stale : Nat → UInt8)
    (chunks : List (List UInt8)) (octets : Octets)
    (decoded : decode stale chunks = some octets) (positive : 0 < n) (few : offset + n ≤ 16) :
    (getBytes field offset n octets).bytes.isSome = true ↔ chunks ≠ [] := by
  have buffer := (decode_content stale chunks octets decoded).2
  obtain ⟨n, rfl⟩ : ∃ less, n = less + 1 := ⟨n - 1, by omega⟩
  by_cases null : octets.allocated = 0
  · refine iff_of_false ?_ (not_not.mpr (buffer.mp null))
    rw [getBytes, copy_null octets offset n null]
    simp
  · exact iff_of_true (copy_allocated octets offset (n + 1) null few)
      fun empty => null (buffer.mpr empty)

/-- What is allocated for a decoded string, as the accessors of a message have it. -/
def allocation (octets : Octets) : MessageFields.OctetString :=
  { buf := if octets.allocated = 0 then none else some octets.block
    size := BitVec.ofNat 32 octets.size }

/-- The getters of dnds.c return the first bytes of the allocation, in the same cases. -/
theorem getBytes_first (field : Field) (n : Nat) (octets : Octets) :
    (getBytes field 0 (n + 1) octets).bytes = (allocation octets).first (n + 1) := by
  rw [getBytes, copy_block, allocation, MessageFields.OctetString.first]
  by_cases null : octets.allocated = 0
  · have empty : octets.block = [] := by simp [Octets.block, null]
    simp [null, empty]
  · rw [if_neg null, Option.bind_some, List.drop_zero]
    simp only [Nat.zero_add, Nat.lt_iff_add_one_le]

/-- The text that inet_ntop writes for four bytes. -/
def inetNtop (address : List UInt8) : List UInt8 :=
  Cert.ascii ((address.map fun byte => Nat.toDigits 10 byte.toNat).intersperse ['.']).flatten

theorem inetNtop_ascii (address : List UInt8) :
    inetNtop address = Cert.ascii (AddressSetters.inetNtop address) := by
  simp only [inetNtop, AddressSetters.inetNtop, Inet.dotted, List.intercalate, List.map_map]
  rfl

/-- The address that a getter reads is the one that the accessor of the field reads. -/
theorem getBytes_readAddress (field : Field) (octets : Octets) :
    ((getBytes field 0 4 octets).bytes.map fun four =>
      (AddressSetters.Retcode.success, some (AddressSetters.inetNtop four))) =
      MessageFields.readAddress (allocation octets) := by
  rw [getBytes_first field 3 octets, MessageFields.readAddress]

theorem getBytes_readMacAddr (field : Field) (octets : Octets) :
    ((getBytes field 0 6 octets).bytes.map fun six =>
      (AddressSetters.Retcode.success, some six)) =
      MessageFields.readMacAddr (allocation octets) := by
  rw [getBytes_first field 5 octets, MessageFields.readMacAddr]

/-- `NetinfoRequest_get_ipLocal` -/
def netinfoRequestGetIpLocal (ipLocal : Octets) : Got := getBytes .ipLocal 0 4 ipLocal

/-- `NetinfoRequest_get_macAddr` -/
def netinfoRequestGetMacAddr (macAddr : Octets) : Got := getBytes .macAddr 0 6 macAddr

/-- `ProvResponse_get_ipAddress`, when the field is present. -/
def provResponseGetIpAddress (ipAddress : Octets) : Got := getBytes .ipAddress 0 4 ipAddress

/-- `P2pRequest_get_macAddrDst` -/
def p2pRequestGetMacAddrDst (macAddrDst : Octets) : Got := getBytes .macAddrDst 0 6 macAddrDst

/-- `P2pRequest_get_ipAddrDst` -/
def p2pRequestGetIpAddrDst (ipAddrDst : Octets) : Got := getBytes .ipAddrDst 0 4 ipAddrDst

/-- `inet_get_mac_addr_src` -/
def inetGetMacAddrSrc (frame : Octets) : Got := getBytes .ethernet 6 6 frame

/-- `inet_get_mac_addr_dst` -/
def inetGetMacAddrDst (frame : Octets) : Got := getBytes .ethernet 0 6 frame

/-! ## The property -/

/-- What a handler reads of these fields, and the state that it leaves: none where a NULL pointer
is followed. -/
structure Handled (State : Type) where
  reads : List (Field × Nat)
  after : Option State

/-- The reads of a handler are inside the decoded fields, and a message with a field that is
too short changes nothing. -/
structure Respected {State : Type} (size : Field → Nat) (short : Prop) (before : State)
    (handled : Handled State) : Prop where
  inside : ∀ read ∈ handled.reads, read.2 < size read.1
  rejected : short → handled.after = some before

/-- The reads of a copy are inside exactly when the field has the bytes. -/
theorem reads_inside_iff (field : Field) (offset n : Nat) (octets : Octets)
    (positive : 0 < n) (size : Field → Nat) :
    (∀ read ∈ (getBytes field offset n octets).reads, read.2 < size read.1) ↔
      offset + n ≤ size field := by
  simp only [getBytes, List.forall_mem_map, List.mem_range]
  constructor
  · intro inside
    have last := inside (n - 1) (by omega)
    omega
  · intro enough index less
    omega

/-- A message without such a field is handled as it should be. -/
theorem respected_plain {State : Type} (size : Field → Nat) (before : State)
    (after : Option State) : Respected size False before { reads := [], after := after } :=
  ⟨fun _ read => absurd read List.not_mem_nil, False.elim⟩

/-- A handler that reads two fields from their start is right exactly on a message that has both
in full. -/
theorem respected_pair_iff {State : Type} (first second : Field) (n m : Nat) (left right : Octets)
    (size : Field → Nat) (before : State) (after : Option State)
    (positive : 0 < n) (positiveToo : 0 < m) :
    Respected size (size first < n ∨ size second < m) before
        { reads := (getBytes first 0 n left).reads ++ (getBytes second 0 m right).reads,
          after := after } ↔
      n ≤ size first ∧ m ≤ size second := by
  have one := reads_inside_iff first 0 n left positive size
  have other := reads_inside_iff second 0 m right positiveToo size
  rw [Nat.zero_add] at one other
  constructor
  · intro respected
    obtain ⟨early, late⟩ := List.forall_mem_append.mp respected.inside
    exact ⟨one.mp early, other.mp late⟩
  · rintro ⟨enough, enoughToo⟩
    refine ⟨List.forall_mem_append.mpr ⟨one.mpr enough, other.mpr enoughToo⟩, ?_⟩
    rintro (short | short)
    · exact absurd short (Nat.not_lt.mpr enough)
    · exact absurd short (Nat.not_lt.mpr enoughToo)

/-! ## The switch -/

/-- The messages of a client, as they are decoded. -/
inductive ClientMessage where
  | provRequest (provCode : List UInt8)
  | authRequest (certName : List UInt8)
  | netinfoRequest (ipLocal macAddr : Octets)
  | other
  | ethernet (frame : Octets)
  | invalid

/-- How many bytes each field of a message has. -/
def ClientMessage.size : ClientMessage → Field → Nat
  | .netinfoRequest ipLocal _, .ipLocal => ipLocal.size
  | .netinfoRequest _ macAddr, .macAddr => macAddr.size
  | .ethernet frame, .ethernet => frame.size
  | _, _ => 0

/-- A field has fewer bytes than are read of it. -/
def ClientMessage.Short : ClientMessage → Prop
  | .netinfoRequest ipLocal macAddr => ipLocal.size < 4 ∨ macAddr.size < 6
  | .ethernet frame => frame.size < 12
  | _ => False

/-- `handle_netinfo_request` -/
def handleNetinfoRequest (switch : Nvswitch.Switch) (s : Nvswitch.SessionId)
    (ipLocal macAddr : Octets) : Handled Nvswitch.Switch :=
  let address := netinfoRequestGetIpLocal ipLocal
  let hwaddr := netinfoRequestGetMacAddr macAddr
  { reads := address.reads ++ hwaddr.reads
    after := do
      let address ← address.bytes
      let hwaddr ← hwaddr.bytes
      Nvswitch.handleNetinfoRequest switch s (inetNtop address) hwaddr }

/-- The part of forward_ethernet after the addresses were read. -/
def forwardFrame (switch : Nvswitch.Switch) (s : Nvswitch.SessionId) (session : Nvswitch.Session)
    (macaddrSrc macaddrDst frame : List UInt8) (env : Nvswitch.Env) : Option Nvswitch.Switch := do
  let (switch, source) ← Nvswitch.learn switch s macaddrSrc
  let v ← session.vnetwork
  let vnet ← switch.vnets v
  match vnet.ftable.find macaddrDst with
  | some target =>
    if target = source then return switch
    if Nvswitch.inetGetMacAddrType macaddrDst = .unicast then
      Nvswitch.introduce (switch.netSendMsg target (.ethernet frame)) source target env.now env.rand
    else
      let recipients ← switch.sessionList vnet.sessionList
      return Nvswitch.sendEach switch recipients (.ethernet frame)
  | none =>
    let recipients ← switch.sessionList vnet.sessionList
    return Nvswitch.sendEach switch recipients (.ethernet frame)

/-- `forward_ethernet` -/
def forwardEthernet (switch : Nvswitch.Switch) (s : Nvswitch.SessionId)
    (session : Nvswitch.Session) (frame : Octets) (env : Nvswitch.Env) :
    Handled Nvswitch.Switch :=
  if session.state ≠ .authed then { reads := [], after := some switch }
  else
    let src := inetGetMacAddrSrc frame
    let dst := inetGetMacAddrDst frame
    { reads := src.reads ++ dst.reads
      after := do
        let src ← src.bytes
        let dst ← dst.bytes
        forwardFrame switch s session src dst frame.content env }

/-- `dispatch_operation`, and the cases of on_input around it. -/
def dispatchOperation (switch : Nvswitch.Switch) (s : Nvswitch.SessionId)
    (session : Nvswitch.Session) (env : Nvswitch.Env) : ClientMessage → Handled Nvswitch.Switch
  | .provRequest provCode =>
    { reads := [], after := Nvswitch.dispatchOperation switch s env (.provRequest provCode) }
  | .authRequest certName =>
    { reads := [], after := Nvswitch.dispatchOperation switch s env (.authRequest certName) }
  | .netinfoRequest ipLocal macAddr => handleNetinfoRequest switch s ipLocal macAddr
  | .other => { reads := [], after := Nvswitch.dispatchOperation switch s env .other }
  | .ethernet frame => forwardEthernet switch s session frame env
  | .invalid => { reads := [], after := Nvswitch.dispatchOperation switch s env .invalid }

/-- The fields that are read in this state have the bytes. -/
def ClientMessage.LongEnough (state : Nvswitch.SessionState) : ClientMessage → Prop
  | .netinfoRequest ipLocal macAddr => 4 ≤ ipLocal.size ∧ 6 ≤ macAddr.size
  | .ethernet frame => state = .authed → 12 ≤ frame.size
  | _ => True

theorem handleNetinfoRequest_respected_iff (switch : Nvswitch.Switch) (s : Nvswitch.SessionId)
    (ipLocal macAddr : Octets) :
    Respected (ClientMessage.netinfoRequest ipLocal macAddr).size
        (ClientMessage.netinfoRequest ipLocal macAddr).Short switch
        (handleNetinfoRequest switch s ipLocal macAddr) ↔
      4 ≤ ipLocal.size ∧ 6 ≤ macAddr.size :=
  respected_pair_iff .ipLocal .macAddr 4 6 ipLocal macAddr
    (ClientMessage.netinfoRequest ipLocal macAddr).size switch _ (by decide) (by decide)

theorem forwardEthernet_respected_iff (switch : Nvswitch.Switch) (s : Nvswitch.SessionId)
    (session : Nvswitch.Session) (frame : Octets) (env : Nvswitch.Env) :
    Respected (ClientMessage.ethernet frame).size (ClientMessage.ethernet frame).Short switch
        (forwardEthernet switch s session frame env) ↔
      (session.state = .authed → 12 ≤ frame.size) := by
  have src := reads_inside_iff .ethernet 6 6 frame (by decide) (ClientMessage.ethernet frame).size
  have dst := reads_inside_iff .ethernet 0 6 frame (by decide) (ClientMessage.ethernet frame).size
  unfold forwardEthernet
  by_cases authed : session.state = .authed
  · rw [if_neg (not_not.mpr authed)]
    constructor
    · exact fun respected _ => src.mp (List.forall_mem_append.mp respected.inside).1
    · intro enough
      have twelve := enough authed
      refine ⟨List.forall_mem_append.mpr ⟨src.mpr twelve, dst.mpr ?_⟩, ?_⟩
      · exact Nat.le_trans (by decide) twelve
      · exact fun short => absurd short (Nat.not_lt.mpr twelve)
  · rw [if_pos authed]
    refine iff_of_true ⟨fun _ read => absurd read List.not_mem_nil, fun _ => rfl⟩ ?_
    exact fun now => absurd now authed

/-- The switch reads what a message has, and rejects one that is too short, exactly when it is
long enough. -/
theorem dispatchOperation_respected_iff (switch : Nvswitch.Switch) (s : Nvswitch.SessionId)
    (session : Nvswitch.Session) (env : Nvswitch.Env) (message : ClientMessage) :
    Respected message.size message.Short switch (dispatchOperation switch s session env message) ↔
      message.LongEnough session.state := by
  cases message with
  | netinfoRequest ipLocal macAddr =>
    exact handleNetinfoRequest_respected_iff switch s ipLocal macAddr
  | ethernet frame => exact forwardEthernet_respected_iff switch s session frame env
  | provRequest | authRequest | other | invalid =>
    exact iff_of_true (respected_plain _ _ _) trivial

/-- What a message says, when its fields are long enough. -/
def ClientMessage.plain : ClientMessage → Nvswitch.Message
  | .provRequest provCode => .provRequest provCode
  | .authRequest certName => .authRequest certName
  | .netinfoRequest ipLocal macAddr =>
    .netinfoRequest (inetNtop (ipLocal.content.take 4)) (macAddr.content.take 6)
  | .other => .other
  | .ethernet frame => .ethernet frame.content
  | .invalid => .invalid

/-- A message that is long enough does what it says. -/
theorem dispatchOperation_plain (switch : Nvswitch.Switch) (s : Nvswitch.SessionId)
    (session : Nvswitch.Session) (live : switch.sessions s = some session) (env : Nvswitch.Env)
    (message : ClientMessage) (enough : message.LongEnough session.state) :
    (dispatchOperation switch s session env message).after =
      Nvswitch.dispatchOperation switch s env message.plain := by
  cases message with
  | provRequest | authRequest | other | invalid => rfl
  | netinfoRequest ipLocal macAddr =>
    have ⟨four, six⟩ := enough
    simp only [dispatchOperation, handleNetinfoRequest, netinfoRequestGetIpLocal,
      netinfoRequestGetMacAddr, getBytes, copy_inside ipLocal 0 4 four,
      copy_inside macAddr 0 6 six, List.drop_zero]
    rfl
  | ethernet frame =>
    simp only [dispatchOperation, forwardEthernet, ClientMessage.plain,
      Nvswitch.dispatchOperation, Nvswitch.forwardEthernet, live]
    by_cases authed : session.state = .authed
    · have twelve : 12 ≤ frame.content.length := enough authed
      have src := copy_inside frame 6 6 twelve
      have dst := copy_inside frame 0 6 (Nat.le_trans (by decide) twelve)
      have long : ¬ frame.content.length < 12 := Nat.not_lt.mpr twelve
      simp only [authed, ne_eq, not_true_eq_false, if_false, inetGetMacAddrSrc,
        inetGetMacAddrDst, getBytes, src, dst, long, Option.bind_eq_bind, Option.bind_some]
      rfl
    · simp [authed]

/-! ## The agent -/

/-- The messages of the switch, as they are decoded. -/
inductive ServerMessage where
  | provResponse (certificate certificateKey trustedCert : Option (List UInt8))
      (ipAddress : Option Octets)
  | authResponse (result : Nvagent.DndsResult)
  | netinfoResponse
  | p2pRequest (macAddrDst ipAddrDst : Octets)
  | terminateRequest
  | invalidOperation
  | ethernet (frame : Octets)
  | invalidPdu

def ServerMessage.size : ServerMessage → Field → Nat
  | .provResponse _ _ _ (some ipAddress), .ipAddress => ipAddress.size
  | .p2pRequest macAddrDst _, .macAddrDst => macAddrDst.size
  | .p2pRequest _ ipAddrDst, .ipAddrDst => ipAddrDst.size
  | _, _ => 0

def ServerMessage.Short : ServerMessage → Prop
  | .provResponse _ _ _ (some ipAddress) => ipAddress.size < 4
  | .p2pRequest macAddrDst ipAddrDst => macAddrDst.size < 6 ∨ ipAddrDst.size < 4
  | _ => False

/-- The files that op_prov_response opens for writing: which of them can be opened. -/
structure Files where
  certificate : Bool
  privatekey : Bool
  trustedCert : Bool
  ipConf : Bool
deriving DecidableEq

/-- How op_prov_response ends before it reads the address: it returns, it follows a NULL
pointer, or it gets there. -/
inductive Progress where
  | returned
  | followedNull
  | reached
deriving DecidableEq

/-- The part of op_prov_response that stores the certificates. Of a key or a trusted
certificate that is missing, the length is asked for all the same. -/
def storeCertificates (files : Files)
    (certificate certificateKey trustedCert : Option (List UInt8)) : Progress :=
  if certificate = none ∨ files.certificate = false then .returned
  else if files.privatekey = false then .returned
  else if certificateKey = none then .followedNull
  else if files.trustedCert = false then .returned
  else if trustedCert = none then .followedNull
  else .reached

/-- `op_prov_response` -/
def opProvResponse (agent : Nvagent.Agent) (files : Files) (host : Nvagent.Host)
    (certificate certificateKey trustedCert : Option (List UInt8)) (ipAddress : Option Octets) :
    Handled Nvagent.Agent :=
  match storeCertificates files certificate certificateKey trustedCert with
  | .returned => { reads := [], after := some agent }
  | .followedNull => { reads := [], after := none }
  | .reached =>
    let host := { host with opensWritten := files.ipConf }
    match ipAddress with
    | none => { reads := [], after := Nvagent.opProvResponse agent certificate host }
    | some ipAddress =>
      let address := provResponseGetIpAddress ipAddress
      { reads := address.reads
        after := address.bytes.bind fun _ => Nvagent.opProvResponse agent certificate host }

/-- `op_p2p_request` -/
def opP2pRequest (agent : Nvagent.Agent) (macAddrDst ipAddrDst : Octets) :
    Handled Nvagent.Agent :=
  let macDst := p2pRequestGetMacAddrDst macAddrDst
  let ipDst := p2pRequestGetIpAddrDst ipAddrDst
  { reads := macDst.reads ++ ipDst.reads
    after := do
      let macDst ← macDst.bytes
      let _ ← ipDst.bytes
      return Nvagent.opP2pRequest agent macDst }

/-- `dispatch_op`, and the cases of on_input around it. -/
def dispatchOp (cfg : Nvagent.AgentCfg) (agent : Nvagent.Agent) (files : Files)
    (host : Nvagent.Host) : ServerMessage → Handled Nvagent.Agent
  | .provResponse certificate certificateKey trustedCert ipAddress =>
    opProvResponse agent files host certificate certificateKey trustedCert ipAddress
  | .authResponse result =>
    { reads := [], after := Nvagent.onInput cfg agent host (.authResponse result) }
  | .netinfoResponse => { reads := [], after := Nvagent.onInput cfg agent host .netinfoResponse }
  | .p2pRequest macAddrDst ipAddrDst => opP2pRequest agent macAddrDst ipAddrDst
  | .terminateRequest => { reads := [], after := Nvagent.onInput cfg agent host .terminateRequest }
  | .invalidOperation => { reads := [], after := Nvagent.onInput cfg agent host .invalidOperation }
  | .ethernet frame =>
    { reads := [], after := Nvagent.onInput cfg agent host (.ethernet frame.content) }
  | .invalidPdu => { reads := [], after := Nvagent.onInput cfg agent host .invalidPdu }

/-- The fields have the bytes, or op_prov_response returns before it reads its own. -/
def ServerMessage.LongEnough (files : Files) : ServerMessage → Prop
  | .provResponse certificate certificateKey trustedCert (some ipAddress) =>
    4 ≤ ipAddress.size ∨
      storeCertificates files certificate certificateKey trustedCert = .returned
  | .p2pRequest macAddrDst ipAddrDst => 6 ≤ macAddrDst.size ∧ 4 ≤ ipAddrDst.size
  | _ => True

theorem opProvResponse_respected_iff (agent : Nvagent.Agent) (files : Files) (host : Nvagent.Host)
    (certificate certificateKey trustedCert : Option (List UInt8)) (ipAddress : Octets) :
    Respected
        (ServerMessage.provResponse certificate certificateKey trustedCert (some ipAddress)).size
        (ServerMessage.provResponse certificate certificateKey trustedCert (some ipAddress)).Short
        agent
        (opProvResponse agent files host certificate certificateKey trustedCert (some ipAddress)) ↔
      4 ≤ ipAddress.size ∨
        storeCertificates files certificate certificateKey trustedCert = .returned := by
  have address := reads_inside_iff .ipAddress 0 4 ipAddress (by decide)
    (ServerMessage.provResponse certificate certificateKey trustedCert (some ipAddress)).size
  unfold opProvResponse
  cases storeCertificates files certificate certificateKey trustedCert with
  | returned =>
    exact iff_of_true ⟨fun _ read => absurd read List.not_mem_nil, fun _ => rfl⟩ (Or.inr rfl)
  | followedNull =>
    rw [or_iff_left (by decide)]
    constructor
    · intro respected
      by_contra short
      exact absurd (respected.rejected (Nat.not_le.mp short)) (by simp)
    · intro enough
      exact ⟨fun _ read => absurd read List.not_mem_nil,
        fun short => absurd short (Nat.not_lt.mpr enough)⟩
  | reached =>
    rw [or_iff_left (by decide)]
    constructor
    · exact fun respected => address.mp respected.inside
    · exact fun enough => ⟨address.mpr enough, fun short => absurd short (Nat.not_lt.mpr enough)⟩

theorem opP2pRequest_respected_iff (agent : Nvagent.Agent) (macAddrDst ipAddrDst : Octets) :
    Respected (ServerMessage.p2pRequest macAddrDst ipAddrDst).size
        (ServerMessage.p2pRequest macAddrDst ipAddrDst).Short agent
        (opP2pRequest agent macAddrDst ipAddrDst) ↔
      6 ≤ macAddrDst.size ∧ 4 ≤ ipAddrDst.size :=
  respected_pair_iff .macAddrDst .ipAddrDst 6 4 macAddrDst ipAddrDst
    (ServerMessage.p2pRequest macAddrDst ipAddrDst).size agent _ (by decide) (by decide)

/-- The same of the agent. -/
theorem dispatchOp_respected_iff (cfg : Nvagent.AgentCfg) (agent : Nvagent.Agent) (files : Files)
    (host : Nvagent.Host) (message : ServerMessage) :
    Respected message.size message.Short agent (dispatchOp cfg agent files host message) ↔
      message.LongEnough files := by
  cases message with
  | provResponse certificate certificateKey trustedCert ipAddress =>
    cases ipAddress with
    | none =>
      refine iff_of_true ⟨?_, False.elim⟩ trivial
      simp only [dispatchOp, opProvResponse]
      split <;> exact fun _ read => absurd read List.not_mem_nil
    | some ipAddress =>
      exact opProvResponse_respected_iff agent files host certificate certificateKey trustedCert
        ipAddress
  | p2pRequest macAddrDst ipAddrDst => exact opP2pRequest_respected_iff agent macAddrDst ipAddrDst
  | authResponse | netinfoResponse | terminateRequest | invalidOperation | ethernet | invalidPdu =>
    exact iff_of_true (respected_plain _ _ _) trivial

/-- What a message says, when its fields are long enough. -/
def ServerMessage.plain : ServerMessage → Nvagent.Incoming
  | .provResponse certificate _ _ _ => .provResponse certificate
  | .authResponse result => .authResponse result
  | .netinfoResponse => .netinfoResponse
  | .p2pRequest macAddrDst _ => .p2pRequest (macAddrDst.content.take 6)
  | .terminateRequest => .terminateRequest
  | .invalidOperation => .invalidOperation
  | .ethernet frame => .ethernet frame.content
  | .invalidPdu => .invalidPdu

/-- How storing the certificates of a message ends; other messages have none. -/
def ServerMessage.progress (files : Files) : ServerMessage → Progress
  | .provResponse certificate certificateKey trustedCert _ =>
    storeCertificates files certificate certificateKey trustedCert
  | _ => .reached

/-- A message that is long enough does what it says, unless a NULL pointer is followed. -/
theorem dispatchOp_plain (cfg : Nvagent.AgentCfg) (agent : Nvagent.Agent) (files : Files)
    (host : Nvagent.Host) (message : ServerMessage) (enough : message.LongEnough files)
    (followed : message.progress files ≠ .followedNull) :
    (dispatchOp cfg agent files host message).after =
      Nvagent.onInput cfg agent
        { host with opensWritten := (message.progress files == .reached) && files.ipConf }
        message.plain := by
  cases message with
  | authResponse | netinfoResponse | terminateRequest | invalidOperation | ethernet | invalidPdu =>
    rfl
  | p2pRequest macAddrDst ipAddrDst =>
    have ⟨six, four⟩ := enough
    simp only [dispatchOp, opP2pRequest, p2pRequestGetMacAddrDst, p2pRequestGetIpAddrDst, getBytes,
      copy_inside macAddrDst 0 6 six, copy_inside ipAddrDst 0 4 four, List.drop_zero]
    rfl
  | provResponse certificate certificateKey trustedCert ipAddress =>
    simp only [dispatchOp, opProvResponse, ServerMessage.plain, Nvagent.onInput,
      ServerMessage.progress] at followed ⊢
    cases stored : storeCertificates files certificate certificateKey trustedCert with
    | returned => simp [Nvagent.opProvResponse]
    | followedNull => exact absurd stored followed
    | reached =>
      cases ipAddress with
      | none => simp
      | some ipAddress =>
        have four : 4 ≤ ipAddress.size := enough.resolve_right (by simp [stored])
        simp [provResponseGetIpAddress, getBytes, copy_inside ipAddress 0 4 four]

/-- A fixed-width read stays inside its field, and a message that is too short is rejected,
exactly when the fields that are read are long enough.

Proof: one copy of n octets stays inside its field exactly when the field has them; each
handler makes its copies one after the other, up to where it stops. -/
theorem fixed_reads_iff (switch : Nvswitch.Switch) (s : Nvswitch.SessionId)
    (session : Nvswitch.Session) (env : Nvswitch.Env) (request : ClientMessage)
    (cfg : Nvagent.AgentCfg) (agent : Nvagent.Agent) (files : Files) (host : Nvagent.Host)
    (response : ServerMessage) :
    (Respected request.size request.Short switch
        (dispatchOperation switch s session env request) ↔
      request.LongEnough session.state) ∧
    (Respected response.size response.Short agent (dispatchOp cfg agent files host response) ↔
      response.LongEnough files) :=
  ⟨dispatchOperation_respected_iff switch s session env request,
    dispatchOp_respected_iff cfg agent files host response⟩

/-- A string of no bytes, as the decoder leaves it: 16 bytes are allocated. -/
def emptyString : Octets where
  content := []
  allocated := 16
  stale := fun _ => 0xaa
  formed := Or.inr ⟨Nat.le_refl 16, by decide⟩

/-- A string of no parts, which has no buffer. -/
def missingString : Octets := .empty fun _ => 0xaa

/-- A session that was just opened, before any authentication. -/
def openedSession : Nvswitch.Session :=
  Nvswitch.sessionNew [] { peerHost := [], securityLevel := .secureAdh }

def openedSwitch : Nvswitch.Switch := Nvswitch.onConnect .initial 0 []

def sampleAgent : Nvagent.Agent :=
  { session := { passport := none, connected := true, state := .authed }
    reconnecting := false
    ftable := .empty
    peers := fun _ => none
    peersMade := 0
    history := [] }

def sampleEnv : Nvswitch.Env := { now := 0, rand := 0 }

def sampleCfg : Nvagent.AgentCfg := { provCode := none, ipLocal := [], hwaddr := [] }

def openFiles : Files :=
  { certificate := true, privatekey := true, trustedCert := true, ipConf := true }

def sampleHost : Nvagent.Host :=
  { opensWritten := true, opensIpConf := true, passport := none, sends := true }

/-- Before a client is authenticated, six bytes of the heap become its hardware address, or a
NULL pointer is followed. The addresses of an empty frame, and of a peer, are taken from the heap
in the same way. -/
theorem emptyString_read :
    decode (fun _ => 0xaa) [[]] = some emptyString ∧
    (openedSwitch.sessions 0 = some openedSession ∧ openedSession.state = .notAuthed ∧
      ¬ Respected (ClientMessage.netinfoRequest emptyString emptyString).size
        (ClientMessage.netinfoRequest emptyString emptyString).Short openedSwitch
        (dispatchOperation openedSwitch 0 openedSession sampleEnv
          (.netinfoRequest emptyString emptyString)) ∧
      ((dispatchOperation openedSwitch 0 openedSession sampleEnv
          (.netinfoRequest emptyString emptyString)).after.bind fun after =>
            (after.sessions 0).map Nvswitch.Session.tunMacAddr) =
        some [0, 0xaa, 0xaa, 0xaa, 0xaa, 0xaa] ∧
      (dispatchOperation openedSwitch 0 openedSession sampleEnv
        (.netinfoRequest missingString missingString)).after.isNone = true) ∧
    ¬ Respected (ClientMessage.ethernet emptyString).size (ClientMessage.ethernet emptyString).Short
      openedSwitch (dispatchOperation openedSwitch 0 { openedSession with state := .authed }
        sampleEnv (.ethernet emptyString)) ∧
    ¬ Respected (ServerMessage.p2pRequest emptyString emptyString).size
      (ServerMessage.p2pRequest emptyString emptyString).Short sampleAgent
      (dispatchOp sampleCfg sampleAgent openFiles sampleHost
        (.p2pRequest emptyString emptyString)) := by
  refine ⟨?_, ⟨rfl, rfl, ?_, rfl, rfl⟩, ?_, ?_⟩
  · simp [decode, Octets.append, Octets.size, Octets.empty, grow, emptyString]
  · rw [dispatchOperation_respected_iff]
    exact fun enough => absurd enough.1 (by decide)
  · rw [dispatchOperation_respected_iff]
    exact fun enough => absurd (enough rfl) (by decide)
  · rw [dispatchOp_respected_iff]
    exact fun enough => absurd enough.1 (by decide)

end NetVirt.FieldReads
