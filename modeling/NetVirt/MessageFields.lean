import NetVirt.AddressSetters

/-!
# Accessors of the Dynamic Network operations

The functions of dnds.c that set a field of an operation in a message, and those that get it. The
operations share the memory of a union: each of them is a way to read and to write this memory. An
accessor sees the message as a DNMessage, whatever the tag of its PDU is, and the operation as its
own one, where it does not look at the tag.

What is allocated at buf is part of an octet string. A getter has no result where it reads behind
the end of a buffer, or where there is none.
-/

namespace NetVirt.MessageFields

open Inet (Text)
open AddressSetters (Retcode Calloc PduPR inetPton inetNtop zeros)

/-! ## Memory that is shared -/

/-- A part of a memory that can be read and written. -/
structure Lens (Memory Part : Type) where
  get : Memory → Part
  put : Part → Memory → Memory
  get_put : ∀ part memory, get (put part memory) = part
  put_get : ∀ memory, put (get memory) memory = memory

/-- A part of a part. -/
def Lens.comp {Memory Part Field : Type} (outer : Lens Memory Part) (inner : Lens Part Field) :
    Lens Memory Field where
  get memory := inner.get (outer.get memory)
  put field memory := outer.put (inner.put field (outer.get memory)) memory
  get_put field memory := by rw [outer.get_put, inner.get_put]
  put_get memory := by rw [inner.put_get, outer.put_get]

/-- Only what is there already is put without a change. -/
theorem Lens.put_eq_self_iff {Memory Part : Type} (lens : Lens Memory Part) (part : Part)
    (memory : Memory) : lens.put part memory = memory ↔ part = lens.get memory := by
  constructor
  · intro same
    rw [← same, lens.get_put]
  · rintro rfl
    exact lens.put_get memory

/-! ## Messages -/

/-- An OCTET_STRING, and so is a PrintableString and an IA5String: what is allocated at buf, which
may be NULL, and the int size. -/
structure OctetString where
  buf : Option (List UInt8)
  size : BitVec 32
deriving DecidableEq

/-- The numbers and the enumerations in a message. -/
abbrev Long := BitVec 64

structure AuthRequest where
  certName : OctetString

structure NetinfoRequest where
  ipLocal : OctetString
  macAddr : OctetString

structure NetinfoResponse where
  ipAddress : OctetString
  netmask : OctetString
  result : Long

structure ProvRequest where
  provCode : Option OctetString

structure ProvResponse where
  certificate : Option OctetString
  certificateKey : Option OctetString
  trustedCert : Option OctetString
  ipAddress : Option OctetString

structure P2pRequest where
  macAddrDst : OctetString
  ipAddrDst : OctetString
  port : Long
  side : Long

structure P2pResponse where
  macAddrDst : OctetString
  result : Long

/-- dnop_PR. A message of another PDU may have any number in its place. -/
inductive DnopPR where
  | nothing
  | authRequest
  | authResponse
  | netinfoRequest
  | netinfoResponse
  | provRequest
  | provResponse
  | p2pRequest
  | p2pResponse
  | terminateRequest
  | number (present : BitVec 32)
deriving DecidableEq

/-- The operations as ways to read and to write the memory of their union. -/
structure DnopUnion (Memory : Type) where
  authRequest : Lens Memory AuthRequest
  authResponse : Lens Memory Long
  netinfoRequest : Lens Memory NetinfoRequest
  netinfoResponse : Lens Memory NetinfoResponse
  provRequest : Lens Memory ProvRequest
  provResponse : Lens Memory ProvResponse
  p2pRequest : Lens Memory P2pRequest
  p2pResponse : Lens Memory P2pResponse

/-- The tag of the PDU, and what is in the message when it is read as a DNMessage. -/
structure Message (Memory : Type) where
  present : PduPR
  dnop : DnopPR
  choice : Memory

/-! ## Fields -/

section Fields
variable {Memory : Type} (union : DnopUnion Memory)

/-- `msg->pdu.choice.dnm.dnop.choice.authRequest.certName` -/
def certName : Lens Memory OctetString :=
  union.authRequest.comp
    { get := AuthRequest.certName
      put := fun field request => { request with certName := field }
      get_put := fun _ _ => rfl
      put_get := fun _ => rfl }

def authResult : Lens Memory Long := union.authResponse

def ipLocal : Lens Memory OctetString :=
  union.netinfoRequest.comp
    { get := NetinfoRequest.ipLocal
      put := fun field request => { request with ipLocal := field }
      get_put := fun _ _ => rfl
      put_get := fun _ => rfl }

def macAddr : Lens Memory OctetString :=
  union.netinfoRequest.comp
    { get := NetinfoRequest.macAddr
      put := fun field request => { request with macAddr := field }
      get_put := fun _ _ => rfl
      put_get := fun _ => rfl }

def ipAddress : Lens Memory OctetString :=
  union.netinfoResponse.comp
    { get := NetinfoResponse.ipAddress
      put := fun field response => { response with ipAddress := field }
      get_put := fun _ _ => rfl
      put_get := fun _ => rfl }

def netmask : Lens Memory OctetString :=
  union.netinfoResponse.comp
    { get := NetinfoResponse.netmask
      put := fun field response => { response with netmask := field }
      get_put := fun _ _ => rfl
      put_get := fun _ => rfl }

def netinfoResult : Lens Memory Long :=
  union.netinfoResponse.comp
    { get := NetinfoResponse.result
      put := fun field response => { response with result := field }
      get_put := fun _ _ => rfl
      put_get := fun _ => rfl }

def provCode : Lens Memory (Option OctetString) :=
  union.provRequest.comp
    { get := ProvRequest.provCode
      put := fun field request => { request with provCode := field }
      get_put := fun _ _ => rfl
      put_get := fun _ => rfl }

def certificate : Lens Memory (Option OctetString) :=
  union.provResponse.comp
    { get := ProvResponse.certificate
      put := fun field response => { response with certificate := field }
      get_put := fun _ _ => rfl
      put_get := fun _ => rfl }

def certificateKey : Lens Memory (Option OctetString) :=
  union.provResponse.comp
    { get := ProvResponse.certificateKey
      put := fun field response => { response with certificateKey := field }
      get_put := fun _ _ => rfl
      put_get := fun _ => rfl }

def trustedCert : Lens Memory (Option OctetString) :=
  union.provResponse.comp
    { get := ProvResponse.trustedCert
      put := fun field response => { response with trustedCert := field }
      get_put := fun _ _ => rfl
      put_get := fun _ => rfl }

def provIpAddress : Lens Memory (Option OctetString) :=
  union.provResponse.comp
    { get := ProvResponse.ipAddress
      put := fun field response => { response with ipAddress := field }
      get_put := fun _ _ => rfl
      put_get := fun _ => rfl }

def requestMacAddrDst : Lens Memory OctetString :=
  union.p2pRequest.comp
    { get := P2pRequest.macAddrDst
      put := fun field request => { request with macAddrDst := field }
      get_put := fun _ _ => rfl
      put_get := fun _ => rfl }

def ipAddrDst : Lens Memory OctetString :=
  union.p2pRequest.comp
    { get := P2pRequest.ipAddrDst
      put := fun field request => { request with ipAddrDst := field }
      get_put := fun _ _ => rfl
      put_get := fun _ => rfl }

def port : Lens Memory Long :=
  union.p2pRequest.comp
    { get := P2pRequest.port
      put := fun field request => { request with port := field }
      get_put := fun _ _ => rfl
      put_get := fun _ => rfl }

def side : Lens Memory Long :=
  union.p2pRequest.comp
    { get := P2pRequest.side
      put := fun field request => { request with side := field }
      get_put := fun _ _ => rfl
      put_get := fun _ => rfl }

def responseMacAddrDst : Lens Memory OctetString :=
  union.p2pResponse.comp
    { get := P2pResponse.macAddrDst
      put := fun field response => { response with macAddrDst := field }
      get_put := fun _ _ => rfl
      put_get := fun _ => rfl }

def p2pResult : Lens Memory Long :=
  union.p2pResponse.comp
    { get := P2pResponse.result
      put := fun field response => { response with result := field }
      get_put := fun _ _ => rfl
      put_get := fun _ => rfl }

end Fields

/-! ## What is done with a field -/

/-- A char pointer and a length. The string ends before the first zero. -/
structure Given where
  bytes : List UInt8
  length : BitVec 64

/-- What a getter of a text writes: the pointer to the buffer, and its length. -/
structure Returned where
  buf : Option (List UInt8)
  length : BitVec 64
deriving DecidableEq

/-- The bytes of a string with the zero behind them. -/
def cString (bytes : List UInt8) : List UInt8 := bytes.takeWhile (· ≠ 0) ++ [0]

/-- `strdup`, when it is the allocation of this number in its call. -/
def strdup (calloc : Calloc) (number : Nat) (bytes : List UInt8) : Option (List UInt8) :=
  if calloc number then some (cString bytes) else none

/-- The ETHER_ADDR_LEN bytes of a MAC address. -/
structure MacAddr where
  bytes : List UInt8
  six : bytes.length = 6

/-- The first bytes at buf, whatever size says. -/
def OctetString.first (octets : OctetString) (count : Nat) : Option (List UInt8) :=
  octets.buf.bind fun block => if count ≤ block.length then some (block.take count) else none

/-- What a setter returns, and what it makes of the field. The allocations of a call succeed or
not. -/
abbrev Change (Value Field : Type) := Calloc → Value → Field → Retcode × Field

/-- What a getter returns, with what it writes. -/
abbrev Read (Field Out : Type) := Field → Option (Retcode × Option Out)

def changeText : Change Given OctetString := fun calloc given _ =>
  (.success, { buf := strdup calloc 0 given.bytes, size := given.length.setWidth 32 })

def changeOptionalText : Change Given (Option OctetString) := fun calloc given _ =>
  if ¬ calloc 0 then (.allocFailed, none)
  else
    (.success, some { buf := strdup calloc 1 given.bytes, size := given.length.setWidth 32 })

def readText : Read OctetString Returned := fun field =>
  some (.success, some { buf := field.buf, length := field.size.signExtend 64 })

def readOptionalText : Read (Option OctetString) Returned
  | none => some (.valueNotPresent, none)
  | some field => readText field

def changeAddress : Change Text OctetString := fun calloc text field =>
  if ¬ calloc 0 then (.allocFailed, { field with buf := none })
  else
    match inetPton text with
    | none => (.conversionFailed, { field with buf := some zeros })
    | some four => (.success, { buf := some four, size := 4 })

def changeOptionalAddress : Change Text (Option OctetString) := fun calloc text _ =>
  if ¬ calloc 0 then (.allocFailed, none)
  else if ¬ calloc 1 then (.allocFailed, some { buf := none, size := 0 })
  else
    match inetPton text with
    | none => (.conversionFailed, some { buf := some zeros, size := 0 })
    | some four => (.success, some { buf := some four, size := 4 })

def readAddress : Read OctetString Text := fun field =>
  (field.first 4).map fun four => (.success, some (inetNtop four))

def readOptionalAddress : Read (Option OctetString) Text
  | none => some (.valueNotPresent, none)
  | some field => readAddress field

/-- The string as the setters and the getters of an address alone have it. -/
def OctetString.sized (octets : OctetString) : AddressSetters.OctetString :=
  { buf := octets.buf, size := octets.size.toNat }

/-- An address in an operation is set as any other address of a message. -/
theorem changeAddress_sized (calloc : Calloc) (text : Text) (field : OctetString) :
    Prod.map id OctetString.sized (changeAddress calloc text field) =
      AddressSetters.changeInline calloc text field.sized := by
  unfold changeAddress AddressSetters.changeInline
  split
  · rfl
  · cases inetPton text <;> rfl

theorem changeOptionalAddress_sized (calloc : Calloc) (text : Text) (field : Option OctetString) :
    Prod.map id (Option.map OctetString.sized) (changeOptionalAddress calloc text field) =
      AddressSetters.changeOptional calloc text (field.map OctetString.sized) := by
  unfold changeOptionalAddress AddressSetters.changeOptional
  split
  · rfl
  · split
    · rfl
    · cases inetPton text <;> rfl

/-- It is read in the same way. -/
theorem readAddress_sized (field : OctetString) :
    readAddress field = AddressSetters.readInline field.sized := rfl

theorem readOptionalAddress_sized (field : Option OctetString) :
    readOptionalAddress field =
      AddressSetters.readOptional false (field.map OctetString.sized) := by
  cases field with
  | none => rfl
  | some field => simp [readOptionalAddress, AddressSetters.readOptional, readAddress_sized]

def changeMacAddr : Change MacAddr OctetString := fun calloc macAddr field =>
  if ¬ calloc 0 then (.allocFailed, { field with buf := none })
  else (.success, { buf := some macAddr.bytes, size := 6 })

def readMacAddr : Read OctetString (List UInt8) := fun field =>
  (field.first 6).map fun six => (.success, some six)

/-- The numbers and the enumerations of the program have 32 bits. -/
def changeNumber : Change (BitVec 32) Long := fun _ value _ => (.success, value.setWidth 64)

def readNumber : Read Long (BitVec 32) := fun field => some (.success, some (field.setWidth 32))

/-! ## Setters and getters -/

/-- The tests in front of an accessor: of the PDU first, then of the operation. -/
structure Checks where
  pdu : Bool
  operation : Option DnopPR

/-- What an accessor of this operation tests, as a rule. -/
def bothTags (operation : DnopPR) : Checks := { pdu := true, operation := some operation }

/-- Here the PDU is not tested. -/
def operationTag (operation : DnopPR) : Checks := { pdu := false, operation := some operation }

def noTag : Checks := { pdu := false, operation := none }

section Accessors
variable {Memory Value Field Out : Type}

def Checks.refusal (checks : Checks) (msg : Message Memory) : Option Retcode :=
  if checks.pdu = true ∧ msg.present ≠ .dnm then some .invalidPdu
  else if checks.operation ≠ none ∧ checks.operation ≠ some msg.dnop then some .invalidOp
  else none

/-- A message and a value, each of which may be NULL. -/
abbrev Setter (Memory Value : Type) :=
  Calloc → Option (Message Memory) → Option Value → Retcode × Option (Message Memory)

/-- A message that may be NULL, and whether there is where to write to. -/
abbrev Getter (Memory Out : Type) :=
  Option (Message Memory) → Bool → Option (Retcode × Option Out)

/-- The setters differ in their tests, in their field and in what they do with it. A number is
never NULL. -/
def setField (checks : Checks) (field : Lens Memory Field) (change : Change Value Field) :
    Setter Memory Value
  | calloc, some msg, some value =>
    match checks.refusal msg with
    | some code => (code, some msg)
    | none =>
      let (code, new) := change calloc value (field.get msg.choice)
      (code, some { msg with choice := field.put new msg.choice })
  | _, msg, _ => (.invalidParam, msg)

def getField (checks : Checks) (field : Lens Memory Field) (read : Read Field Out) :
    Getter Memory Out
  | some msg, true =>
    match checks.refusal msg with
    | some code => some (code, none)
    | none => read (field.get msg.choice)
  | _, _ => some (.invalidParam, none)

end Accessors

section Functions
variable {Memory : Type} (union : DnopUnion Memory)

/-- `AuthRequest_set_certName` -/
def authRequestSetCertName : Setter Memory Given :=
  setField (bothTags .authRequest) (certName union) changeText

/-- `AuthRequest_get_certName` -/
def authRequestGetCertName : Getter Memory Returned :=
  getField (bothTags .authRequest) (certName union) readText

/-- `AuthResponse_set_result` -/
def authResponseSetResult : Setter Memory (BitVec 32) :=
  setField (bothTags .authResponse) (authResult union) changeNumber

/-- `AuthResponse_get_result` -/
def authResponseGetResult : Getter Memory (BitVec 32) :=
  getField (bothTags .authResponse) (authResult union) readNumber

/-- `NetinfoRequest_set_ipLocal` -/
def netinfoRequestSetIpLocal : Setter Memory Text :=
  setField (bothTags .netinfoRequest) (ipLocal union) changeAddress

/-- `NetinfoRequest_get_ipLocal` -/
def netinfoRequestGetIpLocal : Getter Memory Text :=
  getField (bothTags .netinfoRequest) (ipLocal union) readAddress

/-- `NetinfoRequest_set_macAddr` -/
def netinfoRequestSetMacAddr : Setter Memory MacAddr :=
  setField (bothTags .netinfoRequest) (macAddr union) changeMacAddr

/-- `NetinfoRequest_get_macAddr` -/
def netinfoRequestGetMacAddr : Getter Memory (List UInt8) :=
  getField (bothTags .netinfoRequest) (macAddr union) readMacAddr

/-- `NetinfoResponse_set_ipAddress` -/
def netinfoResponseSetIpAddress : Setter Memory Text :=
  setField (bothTags .netinfoResponse) (ipAddress union) changeAddress

/-- `NetinfoResponse_get_ipAddress` -/
def netinfoResponseGetIpAddress : Getter Memory Text :=
  getField (bothTags .netinfoResponse) (ipAddress union) readAddress

/-- `NetinfoResponse_set_netmask` -/
def netinfoResponseSetNetmask : Setter Memory Text :=
  setField (bothTags .netinfoResponse) (netmask union) changeAddress

/-- `NetinfoResponse_get_netmask` -/
def netinfoResponseGetNetmask : Getter Memory Text :=
  getField (bothTags .netinfoResponse) (netmask union) readAddress

/-- `NetinfoResponse_set_result` -/
def netinfoResponseSetResult : Setter Memory (BitVec 32) :=
  setField (bothTags .netinfoResponse) (netinfoResult union) changeNumber

/-- `NetinfoResponse_get_result` -/
def netinfoResponseGetResult : Getter Memory (BitVec 32) :=
  getField (bothTags .netinfoResponse) (netinfoResult union) readNumber

/-- `ProvRequest_set_provCode` -/
def provRequestSetProvCode : Setter Memory Given :=
  setField (operationTag .provRequest) (provCode union) changeOptionalText

/-- `ProvRequest_get_provCode` -/
def provRequestGetProvCode : Getter Memory Returned :=
  getField (operationTag .provRequest) (provCode union) readOptionalText

/-- `ProvResponse_set_certificate` -/
def provResponseSetCertificate : Setter Memory Given :=
  setField (operationTag .provResponse) (certificate union) changeOptionalText

/-- `ProvResponse_get_certificate` -/
def provResponseGetCertificate : Getter Memory Returned :=
  getField (operationTag .provResponse) (certificate union) readOptionalText

/-- `ProvResponse_set_certificateKey` -/
def provResponseSetCertificateKey : Setter Memory Given :=
  setField (operationTag .provResponse) (certificateKey union) changeOptionalText

/-- `ProvResponse_get_certificateKey` -/
def provResponseGetCertificateKey : Getter Memory Returned :=
  getField (operationTag .provResponse) (certificateKey union) readOptionalText

/-- `ProvResponse_set_trustedCert` -/
def provResponseSetTrustedCert : Setter Memory Given :=
  setField (operationTag .provResponse) (trustedCert union) changeOptionalText

/-- `ProvResponse_get_trustedCert` -/
def provResponseGetTrustedCert : Getter Memory Returned :=
  getField (operationTag .provResponse) (trustedCert union) readOptionalText

/-- `ProvResponse_set_ipAddress` -/
def provResponseSetIpAddress : Setter Memory Text :=
  setField (operationTag .provResponse) (provIpAddress union) changeOptionalAddress

/-- `ProvResponse_get_ipAddress` -/
def provResponseGetIpAddress : Getter Memory Text :=
  getField (operationTag .provResponse) (provIpAddress union) readOptionalAddress

/-- `P2pRequest_set_macAddrDst` -/
def p2pRequestSetMacAddrDst : Setter Memory MacAddr :=
  setField (bothTags .p2pRequest) (requestMacAddrDst union) changeMacAddr

/-- `P2pRequest_get_macAddrDst` does not test where it writes to. -/
def p2pRequestGetMacAddrDst : Getter Memory (List UInt8)
  | some msg, false =>
    match (bothTags .p2pRequest).refusal msg with
    | some code => some (code, none)
    | none => none
  | msg, out => getField (bothTags .p2pRequest) (requestMacAddrDst union) readMacAddr msg out

/-- `P2pRequest_set_ipAddrDst` -/
def p2pRequestSetIpAddrDst : Setter Memory Text :=
  setField (bothTags .p2pRequest) (ipAddrDst union) changeAddress

/-- `P2pRequest_get_ipAddrDst` -/
def p2pRequestGetIpAddrDst : Getter Memory Text :=
  getField (bothTags .p2pRequest) (ipAddrDst union) readAddress

/-- `P2pRequest_set_port` -/
def p2pRequestSetPort : Setter Memory (BitVec 32) :=
  setField (bothTags .p2pRequest) (port union) changeNumber

/-- `P2pRequest_get_port` tests no tag. -/
def p2pRequestGetPort : Getter Memory (BitVec 32) := getField noTag (port union) readNumber

/-- `P2pRequest_set_side` -/
def p2pRequestSetSide : Setter Memory (BitVec 32) :=
  setField (bothTags .p2pRequest) (side union) changeNumber

/-- `P2pRequest_get_side` -/
def p2pRequestGetSide : Getter Memory (BitVec 32) :=
  getField (bothTags .p2pRequest) (side union) readNumber

/-- `P2pResponse_set_macAddrDst` -/
def p2pResponseSetMacAddrDst : Setter Memory MacAddr :=
  setField (bothTags .p2pResponse) (responseMacAddrDst union) changeMacAddr

/-- `P2pResponse_get_macAddrDst` -/
def p2pResponseGetMacAddrDst : Getter Memory (List UInt8) :=
  getField (bothTags .p2pResponse) (responseMacAddrDst union) readMacAddr

/-- `P2pResponse_set_result` -/
def p2pResponseSetResult : Setter Memory (BitVec 32) :=
  setField (bothTags .p2pResponse) (p2pResult union) changeNumber

/-- `P2pResponse_get_result` -/
def p2pResponseGetResult : Getter Memory (BitVec 32) :=
  getField (bothTags .p2pResponse) (p2pResult union) readNumber

end Functions

end NetVirt.MessageFields
