import NetVirt.Inet

/-!
# Setters of addresses

The functions of dnds.c that set an IP address in a message or an object, and those that get it.
A setter puts a new buffer of four zero bytes in the place of the old one before it converts the
text, and leaves it there when that fails. The fields that are no address are as they are in
the message; operations and objects without an address are not told apart.

The octet strings of a message are its memory, the bytes and the length of each are its value.
-/

namespace NetVirt.AddressSetters

open Inet (Text)

/-- DNDS_retcode -/
inductive Retcode where
  | success
  | allocFailed
  | invalidParam
  | invalidPdu
  | invalidOp
  | invalidObjectType
  | valueNotPresent
  | conversionFailed
deriving DecidableEq

/-! ## Messages and objects -/

/-- An OCTET_STRING: what is allocated at buf, which may be NULL, and size. -/
structure OctetString where
  buf : Option (List UInt8)
  size : Nat
deriving DecidableEq

/-- The bytes and the length. -/
structure Shown where
  bytes : List UInt8
  length : Nat
deriving DecidableEq

/-- What there is of the string at buf. -/
def OctetString.bytes (octets : OctetString) : List UInt8 := (octets.buf.getD []).take octets.size

def OctetString.shown (octets : OctetString) : Shown :=
  { bytes := octets.bytes, length := octets.size }

structure NetinfoRequest (String : Type) where
  ipLocal : String
  macAddr : String

structure NetinfoResponse (String : Type) where
  ipAddress : String
  netmask : String
  result : Int

structure ProvResponse (String : Type) where
  certificate : Option String
  certificateKey : Option String
  trustedCert : Option String
  ipAddress : Option String

structure P2pRequest (String : Type) where
  macAddrDst : String
  ipAddrDst : String
  port : Nat
  side : Int

structure NodeConnInfo (String : Type) where
  certName : String
  ipAddr : String
  state : Int

structure Context (String : Type) where
  id : Option Nat
  clientId : Option Nat
  description : Option String
  network : Option String
  netmask : Option String
  serverCert : Option String
  serverPrivkey : Option String
  trustedCert : Option String

structure Node (String : Type) where
  contextId : Option Nat
  contextName : Option String
  description : Option String
  uuid : Option String
  provCode : Option String
  certificate : Option String
  certificateKey : Option String
  trustedCert : Option String
  ipAddress : Option String
  status : Option Int

/-- The tag of the operation, with its member of the union. -/
inductive Dnop (String : Type) where
  | netinfoRequest (request : NetinfoRequest String)
  | netinfoResponse (response : NetinfoResponse String)
  | provResponse (response : ProvResponse String)
  | p2pRequest (request : P2pRequest String)
  | other

inductive Dsop (String : Type) where
  | nodeConnInfo (info : NodeConnInfo String)
  | other

inductive PduPR where
  | nothing
  | dnm
  | dsm
  | ethernet
deriving DecidableEq

/-- The member of the union that was written last. -/
inductive Choice (String : Type) where
  | dnm (dnop : Dnop String)
  | dsm (dsop : Dsop String)
  | ethernet

/-- `DNDSMessage_set_pdu` changes the tag alone, so that it may be another one. -/
structure Message (String : Type) where
  present : PduPR
  choice : Choice String

inductive Object (String : Type) where
  | context (context : Context String)
  | node (node : Node String)
  | other

section Values
variable {S T : Type} (f : S → T)

def Dnop.map : Dnop S → Dnop T
  | .netinfoRequest request =>
    .netinfoRequest { ipLocal := f request.ipLocal, macAddr := f request.macAddr }
  | .netinfoResponse response =>
    .netinfoResponse
      { ipAddress := f response.ipAddress
        netmask := f response.netmask
        result := response.result }
  | .provResponse response =>
    .provResponse
      { certificate := response.certificate.map f
        certificateKey := response.certificateKey.map f
        trustedCert := response.trustedCert.map f
        ipAddress := response.ipAddress.map f }
  | .p2pRequest request =>
    .p2pRequest
      { macAddrDst := f request.macAddrDst
        ipAddrDst := f request.ipAddrDst
        port := request.port
        side := request.side }
  | .other => .other

def Dsop.map : Dsop S → Dsop T
  | .nodeConnInfo info =>
    .nodeConnInfo { certName := f info.certName, ipAddr := f info.ipAddr, state := info.state }
  | .other => .other

def Choice.map : Choice S → Choice T
  | .dnm dnop => .dnm (dnop.map f)
  | .dsm dsop => .dsm (dsop.map f)
  | .ethernet => .ethernet

def Message.map (msg : Message S) : Message T :=
  { present := msg.present, choice := msg.choice.map f }

def Object.map : Object S → Object T
  | .context fields =>
    .context
      { id := fields.id
        clientId := fields.clientId
        description := fields.description.map f
        network := fields.network.map f
        netmask := fields.netmask.map f
        serverCert := fields.serverCert.map f
        serverPrivkey := fields.serverPrivkey.map f
        trustedCert := fields.trustedCert.map f }
  | .node fields =>
    .node
      { contextId := fields.contextId
        contextName := fields.contextName.map f
        description := fields.description.map f
        uuid := fields.uuid.map f
        provCode := fields.provCode.map f
        certificate := fields.certificate.map f
        certificateKey := fields.certificateKey.map f
        trustedCert := fields.trustedCert.map f
        ipAddress := fields.ipAddress.map f
        status := fields.status }
  | .other => .other

end Values

/-- Which optional fields are present, and the bytes and length of every field. -/
def Message.value (msg : Message OctetString) : Message Shown := msg.map OctetString.shown

def Object.value (object : Object OctetString) : Object Shown := object.map OctetString.shown

/-! ## Fields -/

/-- A field of some of the operations or objects. -/
structure Part (Whole Value Field Appearance : Type) (value : Whole → Value)
    (shown : Field → Appearance) where
  pick : Whole → Option Field
  put : Field → Whole → Whole
  pick_put : ∀ whole field new, pick whole = some field → pick (put new whole) = some new
  value_put : ∀ whole field new, pick whole = some field →
    (value (put new whole) = value whole ↔ shown new = shown field)

/-- A field of a message or an object with the checks in front of it. -/
structure Place (Whole Value Field Appearance : Type) (value : Whole → Value)
    (shown : Field → Appearance) where
  find : Whole → Except Retcode Field
  put : Field → Whole → Whole
  find_put : ∀ whole field new, find whole = .ok field → find (put new whole) = .ok new
  value_put : ∀ whole field new, find whole = .ok field →
    (value (put new whole) = value whole ↔ shown new = shown field)

abbrev DnopPart :=
  Part (Dnop OctetString) (Dnop Shown) OctetString Shown (Dnop.map OctetString.shown)
    OctetString.shown

abbrev ObjectPart :=
  Part (Object OctetString) (Object Shown) (Option OctetString) (Option Shown) Object.value
    (Option.map OctetString.shown)

abbrev MessageField :=
  Place (Message OctetString) (Message Shown) OctetString Shown Message.value OctetString.shown

abbrev OptionalMessageField :=
  Place (Message OctetString) (Message Shown) (Option OctetString) (Option Shown) Message.value
    (Option.map OctetString.shown)

abbrev OptionalObjectField :=
  Place (Object OctetString) (Object Shown) (Option OctetString) (Option Shown) Object.value
    (Option.map OctetString.shown)

def ipLocal : DnopPart where
  pick
    | .netinfoRequest request => some request.ipLocal
    | _ => none
  put field
    | .netinfoRequest request => .netinfoRequest { request with ipLocal := field }
    | dnop => dnop
  pick_put dnop field new picked := by cases dnop <;> simp_all
  value_put dnop field new picked := by cases dnop <;> simp_all [Dnop.map]

def ipAddress : DnopPart where
  pick
    | .netinfoResponse response => some response.ipAddress
    | _ => none
  put field
    | .netinfoResponse response => .netinfoResponse { response with ipAddress := field }
    | dnop => dnop
  pick_put dnop field new picked := by cases dnop <;> simp_all
  value_put dnop field new picked := by cases dnop <;> simp_all [Dnop.map]

def netmask : DnopPart where
  pick
    | .netinfoResponse response => some response.netmask
    | _ => none
  put field
    | .netinfoResponse response => .netinfoResponse { response with netmask := field }
    | dnop => dnop
  pick_put dnop field new picked := by cases dnop <;> simp_all
  value_put dnop field new picked := by cases dnop <;> simp_all [Dnop.map]

def ipAddrDst : DnopPart where
  pick
    | .p2pRequest request => some request.ipAddrDst
    | _ => none
  put field
    | .p2pRequest request => .p2pRequest { request with ipAddrDst := field }
    | dnop => dnop
  pick_put dnop field new picked := by cases dnop <;> simp_all
  value_put dnop field new picked := by cases dnop <;> simp_all [Dnop.map]

/-- The checks of a DNMessage field: first the PDU, then the operation. -/
def dnmField (part : DnopPart) : MessageField where
  find msg :=
    if msg.present ≠ .dnm then .error .invalidPdu
    else match msg.choice with
      | .dnm dnop =>
        match part.pick dnop with
        | some field => .ok field
        | none => .error .invalidOp
      | _ => .error .invalidOp
  put field msg :=
    match msg.choice with
    | .dnm dnop => { msg with choice := .dnm (part.put field dnop) }
    | _ => msg
  find_put := by
    rintro ⟨present, choice⟩ field new found
    cases choice with
    | dnm dnop =>
      cases picked : part.pick dnop with
      | none => split at found <;> simp_all
      | some old =>
        have law := part.pick_put dnop old new picked
        by_cases tag : present = .dnm <;> simp_all
    | dsm dsop => split at found <;> cases found
    | ethernet => split at found <;> cases found
  value_put := by
    rintro ⟨present, choice⟩ field new found
    cases choice with
    | dnm dnop =>
      cases picked : part.pick dnop with
      | none => split at found <;> simp_all
      | some old =>
        have law := part.value_put dnop old new picked
        by_cases tag : present = .dnm <;> simp_all [Message.value, Message.map, Choice.map]
    | dsm dsop => split at found <;> cases found
    | ethernet => split at found <;> cases found

/-- The field of a DSMessage. -/
def nodeConnInfoIpAddr : MessageField where
  find msg :=
    if msg.present ≠ .dsm then .error .invalidPdu
    else match msg.choice with
      | .dsm (.nodeConnInfo info) => .ok info.ipAddr
      | _ => .error .invalidOp
  put field msg :=
    match msg.choice with
    | .dsm (.nodeConnInfo info) =>
      { msg with choice := .dsm (.nodeConnInfo { info with ipAddr := field }) }
    | _ => msg
  find_put := by
    rintro ⟨present, choice⟩ field new found
    split at found
    · cases found
    · split at found <;> simp_all
  value_put := by
    rintro ⟨present, choice⟩ field new found
    split at found
    · cases found
    · split at found
      · cases found
        simp_all [Message.value, Message.map, Choice.map, Dsop.map]
      · cases found

/-- The PDU is not looked at, here alone. -/
def provResponseIpAddress : OptionalMessageField where
  find msg :=
    match msg.choice with
    | .dnm (.provResponse response) => .ok response.ipAddress
    | _ => .error .invalidOp
  put field msg :=
    match msg.choice with
    | .dnm (.provResponse response) =>
      { msg with choice := .dnm (.provResponse { response with ipAddress := field }) }
    | _ => msg
  find_put := by
    rintro ⟨present, choice⟩ field new found
    split at found <;> simp_all
  value_put := by
    rintro ⟨present, choice⟩ field new found
    split at found
    · cases found
      simp_all [Message.value, Message.map, Choice.map, Dnop.map]
    · cases found

def network : ObjectPart where
  pick
    | .context fields => some fields.network
    | _ => none
  put field
    | .context fields => .context { fields with network := field }
    | object => object
  pick_put object field new picked := by cases object <;> simp_all
  value_put object field new picked := by cases object <;> simp_all [Object.value, Object.map]

def contextNetmask : ObjectPart where
  pick
    | .context fields => some fields.netmask
    | _ => none
  put field
    | .context fields => .context { fields with netmask := field }
    | object => object
  pick_put object field new picked := by cases object <;> simp_all
  value_put object field new picked := by cases object <;> simp_all [Object.value, Object.map]

def nodeIpAddress : ObjectPart where
  pick
    | .node fields => some fields.ipAddress
    | _ => none
  put field
    | .node fields => .node { fields with ipAddress := field }
    | object => object
  pick_put object field new picked := by cases object <;> simp_all
  value_put object field new picked := by cases object <;> simp_all [Object.value, Object.map]

/-- The check of an object's field: its type. -/
def objectField (part : ObjectPart) : OptionalObjectField where
  find object :=
    match part.pick object with
    | some field => .ok field
    | none => .error .invalidObjectType
  put := part.put
  find_put object field new found := by
    cases picked : part.pick object with
    | none => simp [picked] at found
    | some old => simp [part.pick_put object old new picked]
  value_put object field new found := by
    cases picked : part.pick object with
    | none => simp [picked] at found
    | some old =>
      have law := part.value_put object old new picked
      simp_all

/-! ## Setters and getters -/

/-- Whether each calloc of a call returns memory. -/
abbrev Calloc := Nat → Bool

def zeros : List UInt8 := [0, 0, 0, 0]

/-- `inet_pton`: the four bytes, in network order. -/
def inetPton (text : Text) : Option (List UInt8) :=
  (Inet.inetPton .big text).map fun word => (Inet.octets word).map UInt8.ofNat

/-- The text that inet_ntop writes for four bytes. -/
def inetNtop (four : List UInt8) : Text := Inet.dotted (four.map UInt8.toNat)

/-- The four bytes at buf, whatever size says. -/
def OctetString.four (octets : OctetString) : Option (List UInt8) :=
  octets.buf.bind fun block => if 4 ≤ block.length then some (block.take 4) else none

/-- What a setter returns, and what it makes of the field. -/
abbrev Change (Field : Type) := Calloc → Text → Field → Retcode × Field

/-- A field that is always there. -/
def changeInline : Change OctetString := fun calloc text field =>
  if ¬ calloc 0 then (.allocFailed, { field with buf := none })
  else
    match inetPton text with
    | none => (.conversionFailed, { field with buf := some zeros })
    | some four => (.success, { buf := some four, size := 4 })

/-- An optional field. -/
def changeOptional : Change (Option OctetString) := fun calloc text _ =>
  if ¬ calloc 0 then (.allocFailed, none)
  else if ¬ calloc 1 then (.allocFailed, some { buf := none, size := 0 })
  else
    match inetPton text with
    | none => (.conversionFailed, some { buf := some zeros, size := 0 })
    | some four => (.success, some { buf := some four, size := 4 })

/-- What a getter returns, with the text that it writes. It has no result where there are no
four bytes to read. -/
abbrev Read (Field : Type) := Field → Option (Retcode × Option Text)

def readInline : Read OctetString := fun field =>
  field.four.map fun four => (.success, some (inetNtop four))

/-- The getters of the objects look at buf as well. -/
def readOptional (checksBuf : Bool) : Read (Option OctetString)
  | none => some (.valueNotPresent, none)
  | some field =>
    if checksBuf ∧ field.buf = none then some (.valueNotPresent, none) else readInline field

abbrev Setter (Whole : Type) := Calloc → Option Whole → Option Text → Retcode × Option Whole

abbrev Getter (Whole : Type) := Option Whole → Option (Retcode × Option Text)

section Fields
variable {Whole Value Field Appearance : Type} {value : Whole → Value}
  {shown : Field → Appearance}

/-- The setters differ in the place of their field and in what they do with it. -/
def setField (change : Change Field) (place : Place Whole Value Field Appearance value shown) :
    Setter Whole
  | calloc, some whole, some text =>
    match place.find whole with
    | .error code => (code, some whole)
    | .ok field =>
      let (code, new) := change calloc text field
      (code, some (place.put new whole))
  | _, whole, _ => (.invalidParam, whole)

/-- The getters, for a text to write to that is not NULL. -/
def getField (read : Read Field) (place : Place Whole Value Field Appearance value shown) :
    Getter Whole
  | none => some (.invalidParam, none)
  | some whole =>
    match place.find whole with
    | .error code => some (code, none)
    | .ok field => read field

end Fields

/-- `NodeConnInfo_set_ipAddr` -/
def nodeConnInfoSetIpAddr : Setter (Message OctetString) :=
  setField changeInline nodeConnInfoIpAddr

/-- `NodeConnInfo_get_ipAddr` -/
def nodeConnInfoGetIpAddr : Getter (Message OctetString) :=
  getField readInline nodeConnInfoIpAddr

/-- `NetinfoRequest_set_ipLocal` -/
def netinfoRequestSetIpLocal : Setter (Message OctetString) :=
  setField changeInline (dnmField ipLocal)

/-- `NetinfoRequest_get_ipLocal` -/
def netinfoRequestGetIpLocal : Getter (Message OctetString) :=
  getField readInline (dnmField ipLocal)

/-- `NetinfoResponse_set_ipAddress` -/
def netinfoResponseSetIpAddress : Setter (Message OctetString) :=
  setField changeInline (dnmField ipAddress)

/-- `NetinfoResponse_get_ipAddress` -/
def netinfoResponseGetIpAddress : Getter (Message OctetString) :=
  getField readInline (dnmField ipAddress)

/-- `NetinfoResponse_set_netmask` -/
def netinfoResponseSetNetmask : Setter (Message OctetString) :=
  setField changeInline (dnmField netmask)

/-- `NetinfoResponse_get_netmask` -/
def netinfoResponseGetNetmask : Getter (Message OctetString) :=
  getField readInline (dnmField netmask)

/-- `ProvResponse_set_ipAddress` -/
def provResponseSetIpAddress : Setter (Message OctetString) :=
  setField changeOptional provResponseIpAddress

/-- `ProvResponse_get_ipAddress` -/
def provResponseGetIpAddress : Getter (Message OctetString) :=
  getField (readOptional false) provResponseIpAddress

/-- `P2pRequest_set_ipAddrDst` -/
def p2pRequestSetIpAddrDst : Setter (Message OctetString) :=
  setField changeInline (dnmField ipAddrDst)

/-- `P2pRequest_get_ipAddrDst` -/
def p2pRequestGetIpAddrDst : Getter (Message OctetString) :=
  getField readInline (dnmField ipAddrDst)

/-- `Context_set_network` -/
def contextSetNetwork : Setter (Object OctetString) :=
  setField changeOptional (objectField network)

/-- `Context_get_network` -/
def contextGetNetwork : Getter (Object OctetString) :=
  getField (readOptional true) (objectField network)

/-- `Context_set_netmask` -/
def contextSetNetmask : Setter (Object OctetString) :=
  setField changeOptional (objectField contextNetmask)

/-- `Context_get_netmask` -/
def contextGetNetmask : Getter (Object OctetString) :=
  getField (readOptional true) (objectField contextNetmask)

/-- `Node_set_ipAddress` -/
def nodeSetIpAddress : Setter (Object OctetString) :=
  setField changeOptional (objectField nodeIpAddress)

/-- `Node_get_ipAddress` -/
def nodeGetIpAddress : Getter (Object OctetString) :=
  getField (readOptional true) (objectField nodeIpAddress)

/-! ## The property -/

/-- A call that returns an error leaves the value as it was, and what the getter returned. -/
def Kept {Whole Value : Type} (value : Whole → Value) (set : Setter Whole) (get : Getter Whole)
    (calloc : Calloc) (whole : Option Whole) (text : Option Text) : Prop :=
  (set calloc whole text).1 ≠ .success →
    (set calloc whole text).2.map value = whole.map value ∧
      ∀ result, get whole = some result → get (set calloc whole text).2 = some result

/-- The same of the field alone. -/
def FieldKept {Field Appearance : Type} (shown : Field → Appearance) (change : Change Field)
    (read : Read Field) (calloc : Calloc) (text : Text) (field : Field) : Prop :=
  (change calloc text field).1 ≠ .success →
    shown (change calloc text field).2 = shown field ∧
      ∀ result, read field = some result → read (change calloc text field).2 = some result

/-- A condition on the text and the field of a call that gets to the field. -/
def Reaches {Whole Field : Type} (find : Whole → Except Retcode Field)
    (condition : Text → Field → Prop) : Option Whole → Option Text → Prop
  | some whole, some text => ∀ field, find whole = .ok field → condition text field
  | _, _ => True

theorem reaches_congr {Whole Field : Type} (find : Whole → Except Retcode Field)
    (left right : Text → Field → Prop) (agree : ∀ text field, left text field ↔ right text field)
    (whole : Option Whole) (text : Option Text) :
    Reaches find left whole text ↔ Reaches find right whole text := by
  cases whole with
  | none => exact Iff.rfl
  | some whole =>
    cases text with
    | none => exact Iff.rfl
    | some text => exact forall₂_congr fun field _ => agree text field

/-- A setter keeps the whole exactly when it keeps the field, if it gets to it. -/
theorem setField_kept_iff {Whole Value Field Appearance : Type} {value : Whole → Value}
    {shown : Field → Appearance} (change : Change Field) (read : Read Field)
    (place : Place Whole Value Field Appearance value shown) (calloc : Calloc)
    (whole : Option Whole) (text : Option Text) :
    Kept value (setField change place) (getField read place) calloc whole text ↔
      Reaches place.find (FieldKept shown change read calloc) whole text := by
  cases whole with
  | none => simp [Kept, Reaches, setField]
  | some whole =>
    cases text with
    | none => simp [Kept, Reaches, setField]
    | some text =>
      cases found : place.find whole with
      | error code => simp [Kept, Reaches, setField, found]
      | ok field =>
        simp [Kept, Reaches, FieldKept, setField, getField, found,
          place.value_put whole field _ found, place.find_put whole field _ found]

/-! ## When a failed setter changes nothing -/

/-- Four zero bytes are what the field shows already, and what its getter reads, if it reads
anything. -/
structure OctetString.Blank (octets : OctetString) : Prop where
  bytes : octets.bytes = zeros.take octets.size
  four : ∀ four, octets.four = some four → four = zeros

/-- For a field that is always there: the text is an address, or the field is blank; without
memory there must be nothing at buf before. -/
def InlineSpared (calloc : Calloc) (text : Text) (field : OctetString) : Prop :=
  if calloc 0 then (inetPton text).isSome ∨ field.Blank
  else field.bytes = [] ∧ field.four = none

/-- For an optional field: the text is an address, or the field is present with a length of zero
and no other bytes than zeros for the getter. -/
def OptionalSpared (checksBuf : Bool) (calloc : Calloc) (text : Text) :
    Option OctetString → Prop
  | none => calloc 0 = false ∨ calloc 1 = true ∧ (inetPton text).isSome
  | some field =>
    calloc 0 = true ∧
      if calloc 1 then
        (inetPton text).isSome ∨ field.size = 0 ∧ (checksBuf = true → field.buf ≠ none) ∧
          ∀ four, field.four = some four → four = zeros
      else field.size = 0 ∧ field.four = none

/-- The texts of bytes are different. -/
theorem inetNtop_injective (left right : List UInt8) (first : left ≠ []) (second : right ≠ [])
    (same : inetNtop left = inetNtop right) : left = right := by
  have bounded : ∀ bytes : List UInt8, ∀ n ∈ bytes.map UInt8.toNat, n < 256 := by
    intro bytes n inside
    obtain ⟨byte, _, rfl⟩ := List.mem_map.mp inside
    exact byte.toNat_lt
  have read : ∀ bytes : List UInt8, bytes ≠ [] →
      ((inetNtop bytes).splitOn '.').mapM Inet.cNumber = some (bytes.map UInt8.toNat) := by
    intro bytes more
    rw [inetNtop, Inet.splitOn_dotted _ (by simpa using more)]
    exact Inet.mapM_texts Inet.cNumber _ fun n inside =>
      (Inet.octet_text n (bounded bytes n inside)).1
  have numbers := (read left first).symm.trans ((congrArg _ (congrArg _ same)).trans
    (read right second))
  refine List.map_injective_iff.mpr (fun x y equal => ?_) (Option.some.inj numbers)
  exact UInt8.toNat_inj.mp equal

theorem four_length (octets : OctetString) (four : List UInt8) (read : octets.four = some four) :
    four.length = 4 := by
  obtain ⟨block, _, taken⟩ := Option.bind_eq_some_iff.mp read
  split at taken
  case isTrue enough =>
    rw [← Option.some.inj taken, List.length_take]
    omega
  case isFalse short => cases taken

/-- The zeros that are left are what the getter returned before, if they were there before. -/
theorem reads_zeros_iff (field : OctetString) (size : Nat) :
    (∀ result, readInline field = some result →
        readInline { buf := some zeros, size := size } = some result) ↔
      ∀ four, field.four = some four → four = zeros := by
  have left : ({ buf := some zeros, size := size } : OctetString).four = some zeros := rfl
  simp only [readInline, left, Option.map_some, Option.some.injEq]
  constructor
  · intro kept four read
    have same := kept (.success, some (inetNtop four)) (by rw [read, Option.map_some])
    simp only [Prod.mk.injEq, true_and, Option.some.injEq] at same
    have length := four_length field four read
    have more : four ≠ [] := List.ne_nil_of_length_eq_add_one length
    exact inetNtop_injective four zeros more (by simp [zeros]) same.symm
  · intro blank result read
    obtain ⟨four, found, rfl⟩ := Option.map_eq_some_iff.mp read
    rw [blank four found]

/-- Nothing is read where there is no buffer, so that nothing may have been read before. -/
theorem reads_nothing_iff (field : OctetString) (size : Nat) :
    (∀ result, readInline field = some result →
        readInline { buf := none, size := size } = some result) ↔ field.four = none := by
  have left : ({ buf := none, size := size } : OctetString).four = none := rfl
  simp only [readInline, left, Option.map_none, reduceCtorEq, imp_false]
  cases field.four with
  | none => simp
  | some four => simp

/-- A field keeps its length when its buffer is replaced. -/
theorem shown_replaced_iff (buf : Option (List UInt8)) (field : OctetString) :
    ({ buf := buf, size := field.size } : OctetString).shown = field.shown ↔
      field.bytes = (buf.getD []).take field.size := by
  simp only [OctetString.shown, Shown.mk.injEq, and_true]
  exact eq_comm

/-- A present field shows the same as an empty one exactly when it is empty. -/
theorem shown_empty_iff (buf : Option (List UInt8)) (field : OctetString) :
    ({ buf := buf, size := 0 } : OctetString).shown = field.shown ↔ field.size = 0 := by
  constructor
  · exact fun same => (congrArg Shown.length same).symm
  · intro empty
    simp [OctetString.shown, OctetString.bytes, empty]

theorem changeInline_kept_iff (calloc : Calloc) (text : Text) (field : OctetString) :
    FieldKept OctetString.shown changeInline readInline calloc text field ↔
      InlineSpared calloc text field := by
  cases memory : calloc 0 with
  | false =>
    have changed : changeInline calloc text field =
        (.allocFailed, { buf := none, size := field.size }) := by simp [changeInline, memory]
    simp only [FieldKept, InlineSpared, changed, memory, shown_replaced_iff,
      reads_nothing_iff field field.size, Option.getD_none, List.take_nil, Bool.false_eq_true,
      if_false, ne_eq, reduceCtorEq, not_false_eq_true, true_implies]
  | true =>
    cases converted : inetPton text with
    | some four => simp [FieldKept, changeInline, InlineSpared, memory, converted]
    | none =>
      have changed : changeInline calloc text field =
          (.conversionFailed, { buf := some zeros, size := field.size }) := by
        simp [changeInline, memory, converted]
      simp only [FieldKept, InlineSpared, changed, memory, converted, shown_replaced_iff,
        reads_zeros_iff field field.size, Option.getD_some, ne_eq, reduceCtorEq,
        not_false_eq_true, true_implies, if_true, Option.isSome_none, Bool.false_eq_true, false_or]
      exact ⟨fun blank => ⟨blank.1, blank.2⟩, fun blank => ⟨blank.bytes, blank.four⟩⟩

/-- The getter of a field that a setter has left empty. -/
theorem readOptional_left (checksBuf : Bool) (field : OctetString) :
    (∀ result, readOptional checksBuf (some field) = some result →
        readOptional checksBuf (some { buf := some zeros, size := 0 }) = some result) ↔
      (checksBuf = true → field.buf ≠ none) ∧ ∀ four, field.four = some four → four = zeros := by
  have left : readOptional checksBuf (some { buf := some zeros, size := 0 }) =
      readInline { buf := some zeros, size := 0 } := by simp [readOptional]
  rw [left, ← reads_zeros_iff field 0]
  cases buffer : field.buf with
  | some block => simp [readOptional, buffer]
  | none =>
    have unread : readInline field = none := by simp [readInline, OctetString.four, buffer]
    cases checksBuf with
    | false => simp [readOptional, unread]
    | true => simp [readOptional, buffer, readInline, OctetString.four]

/-- The getter of a field that a setter has left without a buffer. -/
theorem readOptional_null (checksBuf : Bool) (field : OctetString) :
    (∀ result, readOptional checksBuf (some field) = some result →
        readOptional checksBuf (some { buf := none, size := 0 }) = some result) ↔
      field.four = none := by
  cases checksBuf with
  | false =>
    have plain : ∀ octets, readOptional false (some octets) = readInline octets := by
      intro octets
      simp [readOptional]
    simp only [plain]
    exact reads_nothing_iff field 0
  | true =>
    cases buffer : field.buf with
    | none => simp [readOptional, buffer, OctetString.four]
    | some block =>
      cases read : field.four with
      | none => simp [readOptional, buffer, readInline, read]
      | some four => simp [readOptional, buffer, readInline, read]

theorem changeOptional_kept_iff (checksBuf : Bool) (calloc : Calloc) (text : Text)
    (field : Option OctetString) :
    FieldKept (Option.map OctetString.shown) changeOptional (readOptional checksBuf) calloc text
      field ↔ OptionalSpared checksBuf calloc text field := by
  cases memory : calloc 0 with
  | false =>
    cases field with
    | none => simp [FieldKept, changeOptional, OptionalSpared, memory]
    | some field => simp [FieldKept, changeOptional, OptionalSpared, memory]
  | true =>
    cases buffer : calloc 1 with
    | false =>
      cases field with
      | none => simp [FieldKept, changeOptional, OptionalSpared, memory, buffer]
      | some field =>
        have changed : changeOptional calloc text (some field) =
            (.allocFailed, some { buf := none, size := 0 }) := by
          simp [changeOptional, memory, buffer]
        simp only [FieldKept, OptionalSpared, changed, memory, buffer, Option.map_some,
          Option.some.injEq, shown_empty_iff, readOptional_null checksBuf field,
          Bool.false_eq_true, if_false, ne_eq, reduceCtorEq, not_false_eq_true, true_implies,
          true_and]
    | true =>
      cases converted : inetPton text with
      | some four =>
        cases field with
        | none => simp [FieldKept, changeOptional, OptionalSpared, memory, buffer, converted]
        | some field => simp [FieldKept, changeOptional, OptionalSpared, memory, buffer, converted]
      | none =>
        have changed : changeOptional calloc text field =
            (.conversionFailed, some { buf := some zeros, size := 0 }) := by
          simp [changeOptional, memory, buffer, converted]
        cases field with
        | none => simp [FieldKept, OptionalSpared, changed, memory, converted]
        | some field =>
          simp only [FieldKept, OptionalSpared, changed, memory, buffer, converted,
            Option.map_some, Option.some.injEq, shown_empty_iff, readOptional_left checksBuf field,
            Option.isSome_none, Bool.false_eq_true, false_or, if_true, ne_eq, reduceCtorEq,
            not_false_eq_true, true_implies, true_and]

theorem setInline_kept_iff {Whole Value : Type} {value : Whole → Value}
    (place : Place Whole Value OctetString Shown value OctetString.shown) (calloc : Calloc)
    (whole : Option Whole) (text : Option Text) :
    Kept value (setField changeInline place) (getField readInline place) calloc whole text ↔
      Reaches place.find (InlineSpared calloc) whole text := by
  rw [setField_kept_iff]
  exact reaches_congr place.find _ _ (changeInline_kept_iff calloc) whole text

theorem setOptional_kept_iff {Whole Value : Type} {value : Whole → Value} (checksBuf : Bool)
    (place : Place Whole Value (Option OctetString) (Option Shown) value
      (Option.map OctetString.shown)) (calloc : Calloc)
    (whole : Option Whole) (text : Option Text) :
    Kept value (setField changeOptional place) (getField (readOptional checksBuf) place) calloc
        whole text ↔
      Reaches place.find (OptionalSpared checksBuf calloc) whole text := by
  rw [setField_kept_iff]
  exact reaches_congr place.find _ _ (changeOptional_kept_iff checksBuf calloc) whole text

/-- A failed setter keeps the value and what the getter returns, exactly when it does not get to
its field or the field is spared.

Proof: all setters go to a field and change it there. A setter that does not reach its field
leaves the message alone; at the field, the property says that the field is spared, which
differs between a buffer in place and one behind a pointer. -/
theorem failed_setters_keep_iff (calloc : Calloc) (text : Option Text) :
    (∀ msg, Kept Message.value nodeConnInfoSetIpAddr nodeConnInfoGetIpAddr calloc msg text ↔
      Reaches nodeConnInfoIpAddr.find (InlineSpared calloc) msg text) ∧
    (∀ msg, Kept Message.value netinfoRequestSetIpLocal netinfoRequestGetIpLocal calloc msg text ↔
      Reaches (dnmField ipLocal).find (InlineSpared calloc) msg text) ∧
    (∀ msg, Kept Message.value netinfoResponseSetIpAddress netinfoResponseGetIpAddress calloc msg
        text ↔
      Reaches (dnmField ipAddress).find (InlineSpared calloc) msg text) ∧
    (∀ msg, Kept Message.value netinfoResponseSetNetmask netinfoResponseGetNetmask calloc msg text ↔
      Reaches (dnmField netmask).find (InlineSpared calloc) msg text) ∧
    (∀ msg, Kept Message.value provResponseSetIpAddress provResponseGetIpAddress calloc msg text ↔
      Reaches provResponseIpAddress.find (OptionalSpared false calloc) msg text) ∧
    (∀ msg, Kept Message.value p2pRequestSetIpAddrDst p2pRequestGetIpAddrDst calloc msg text ↔
      Reaches (dnmField ipAddrDst).find (InlineSpared calloc) msg text) ∧
    (∀ object, Kept Object.value contextSetNetwork contextGetNetwork calloc object text ↔
      Reaches (objectField network).find (OptionalSpared true calloc) object text) ∧
    (∀ object, Kept Object.value contextSetNetmask contextGetNetmask calloc object text ↔
      Reaches (objectField contextNetmask).find (OptionalSpared true calloc) object text) ∧
    (∀ object, Kept Object.value nodeSetIpAddress nodeGetIpAddress calloc object text ↔
      Reaches (objectField nodeIpAddress).find (OptionalSpared true calloc) object text) :=
  ⟨fun msg => setInline_kept_iff nodeConnInfoIpAddr calloc msg text,
    fun msg => setInline_kept_iff (dnmField ipLocal) calloc msg text,
    fun msg => setInline_kept_iff (dnmField ipAddress) calloc msg text,
    fun msg => setInline_kept_iff (dnmField netmask) calloc msg text,
    fun msg => setOptional_kept_iff false provResponseIpAddress calloc msg text,
    fun msg => setInline_kept_iff (dnmField ipAddrDst) calloc msg text,
    fun object => setOptional_kept_iff true (objectField network) calloc object text,
    fun object => setOptional_kept_iff true (objectField contextNetmask) calloc object text,
    fun object => setOptional_kept_iff true (objectField nodeIpAddress) calloc object text⟩

/-- A ProvResponse as the switch begins it. -/
def newProvResponse : Message OctetString :=
  { present := .dnm
    choice := .dnm (.provResponse
      { certificate := none, certificateKey := none, trustedCert := none, ipAddress := none }) }

/-- The address of three numbers is refused, and the message has an address of no bytes. -/
theorem refused_address_present :
    ¬ Kept Message.value provResponseSetIpAddress provResponseGetIpAddress (fun _ => true)
      (some newProvResponse) (some ['1', '0', '.', '0', '.', '0']) := by
  intro kept
  have failed : inetPton ['1', '0', '.', '0', '.', '0'] = none := by decide
  have same := (kept (by simp [provResponseSetIpAddress, setField, provResponseIpAddress,
    newProvResponse, changeOptional, failed])).1
  simp [provResponseSetIpAddress, setField, provResponseIpAddress, newProvResponse,
    changeOptional, failed, Message.value, Message.map, Choice.map, Dnop.map] at same

end NetVirt.AddressSetters
