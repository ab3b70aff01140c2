import NetVirt.MessageFields
import Mathlib.Algebra.Ring.Int.Defs

/-!
# Accessors and the tags of a message

An accessor that finds another PDU or another operation than its own must refuse and change
nothing; with the right tags it must touch its own field only, and the getter must return what the
setter was given. Ten accessors of ProvRequest and ProvResponse do not test the PDU, and the getter
of the port tests nothing. With the right tags a getter may still leave its field, where the buffer
is shorter than what it copies, and the text of a setter may be lost, where strdup fails or the
length is not an int.
-/

namespace NetVirt.MessageFields

open Inet (Text)
open AddressSetters (Retcode Calloc PduPR inetPton inetNtop zeros)

section Property
variable {Memory Value Field Out : Type}

/-- The tags of the message are those of the operation. -/
def Own (operation : DnopPR) (msg : Message Memory) : Prop :=
  msg.present = .dnm ∧ msg.dnop = operation

/-- An error, and nothing is written. -/
def Refuses (result : Option (Retcode × Option Out)) : Prop :=
  ∃ code, code ≠ Retcode.success ∧ result = some (code, none)

/-- What is asked of the setter and the getter of a field, in one call of each with arguments that
are not NULL, and in a call of the getter after the setter. -/
structure Respects (operation : DnopPR) (field : Lens Memory Field) (set : Setter Memory Value)
    (get : Getter Memory Out) (shows : Value → Out) (calloc : Calloc) (msg : Message Memory)
    (value : Value) : Prop where
  setRefused : ¬ Own operation msg → (set calloc (some msg) (some value)).1 ≠ .success ∧
    (set calloc (some msg) (some value)).2 = some msg
  getRefused : ¬ Own operation msg → Refuses (get (some msg) true)
  setsOwn : Own operation msg → ∃ new, (set calloc (some msg) (some value)).2 =
    some { msg with choice := field.put new msg.choice }
  getsOwn : Own operation msg → ∃ result, get (some msg) true = some result ∧
    ∀ other, Own operation other → field.get other.choice = field.get msg.choice →
      get (some other) true = some result
  returned : Own operation msg → (set calloc (some msg) (some value)).1 = .success →
    get (set calloc (some msg) (some value)).2 true = some (.success, some (shows value))

/-- An error, and the field is as it was. -/
def Silent (change : Change Value Field) (calloc : Calloc) (value : Value) (field : Field) : Prop :=
  (change calloc value field).1 ≠ .success ∧ (change calloc value field).2 = field

/-- What was set is read again. -/
def Remembers (change : Change Value Field) (read : Read Field Out) (shows : Value → Out)
    (calloc : Calloc) (value : Value) (field : Field) : Prop :=
  (change calloc value field).1 = .success →
    read (change calloc value field).2 = some (.success, some (shows value))

theorem refusal_error (checks : Checks) (msg : Message Memory) (code : Retcode)
    (refused : checks.refusal msg = some code) : code ≠ .success := by
  rintro rfl
  unfold Checks.refusal at refused
  split at refused
  · cases refused
  · split at refused <;> cases refused

theorem setField_passed {checks : Checks} {msg : Message Memory} (field : Lens Memory Field)
    (change : Change Value Field) (calloc : Calloc) (value : Value)
    (passed : checks.refusal msg = none) : setField checks field change calloc (some msg)
      (some value) = ((change calloc value (field.get msg.choice)).1, some { msg with
        choice := field.put (change calloc value (field.get msg.choice)).2 msg.choice }) := by
  rw [setField, passed]

theorem setField_refused {checks : Checks} {msg : Message Memory} (field : Lens Memory Field)
    (change : Change Value Field) (calloc : Calloc) (value : Value) {code : Retcode}
    (refused : checks.refusal msg = some code) :
    setField checks field change calloc (some msg) (some value) = (code, some msg) := by
  rw [setField, refused]

theorem getField_passed {checks : Checks} {msg : Message Memory} (field : Lens Memory Field)
    (read : Read Field Out) (passed : checks.refusal msg = none) :
    getField checks field read (some msg) true = read (field.get msg.choice) := by
  rw [getField, passed]

theorem getField_refused {checks : Checks} {msg : Message Memory} (field : Lens Memory Field)
    (read : Read Field Out) {code : Retcode} (refused : checks.refusal msg = some code) :
    getField checks field read (some msg) true = some (code, none) := by
  rw [getField, refused]

/-- A message is unchanged when its field is. -/
theorem put_message_iff (field : Lens Memory Field) (new : Field) (msg : Message Memory) :
    ({ msg with choice := field.put new msg.choice } : Message Memory) = msg ↔
      new = field.get msg.choice := by
  rw [← field.put_eq_self_iff new msg.choice]
  exact ⟨congrArg Message.choice, fun same => by rw [same]⟩

/-- The property of an accessor is one of its field where its tests pass, and one of its tests
where the tags are others. -/
theorem respects_iff (operation : DnopPR) (setChecks getChecks : Checks)
    (field : Lens Memory Field) (change : Change Value Field) (read : Read Field Out)
    (shows : Value → Out) (calloc : Calloc) (msg : Message Memory) (value : Value)
    (setPasses : Own operation msg → setChecks.refusal msg = none)
    (getPasses : ∀ other : Message Memory, Own operation other → getChecks.refusal other = none) :
    Respects operation field (setField setChecks field change) (getField getChecks field read)
        shows calloc msg value ↔
      (Own operation msg → (read (field.get msg.choice)).isSome ∧
        Remembers change read shows calloc value (field.get msg.choice)) ∧
      (¬ Own operation msg →
        (setChecks.refusal msg = none → Silent change calloc value (field.get msg.choice)) ∧
        (getChecks.refusal msg = none → Refuses (read (field.get msg.choice)))) := by
  by_cases own : Own operation msg
  · have set := setField_passed field change calloc value (setPasses own)
    have get := getField_passed field read (getPasses msg own)
    have after : Own operation { msg with
        choice := field.put (change calloc value (field.get msg.choice)).2 msg.choice } := own
    have again := getField_passed field read (getPasses _ after)
    rw [field.get_put] at again
    constructor
    · intro respects
      refine ⟨fun _ => ⟨?_, fun success => ?_⟩, fun other => absurd own other⟩
      · obtain ⟨result, same, _⟩ := respects.getsOwn own
        rw [← get, same]
        rfl
      · have returned := respects.returned own
        rw [set] at returned
        exact again.symm.trans (returned success)
    · rintro ⟨known, _⟩
      obtain ⟨inside, remembers⟩ := known own
      refine
        { setRefused := fun other => absurd own other
          getRefused := fun other => absurd own other
          setsOwn := fun _ => ⟨_, congrArg Prod.snd set⟩
          getsOwn := fun _ => ?_
          returned := fun _ => ?_ }
      · obtain ⟨result, same⟩ := Option.isSome_iff_exists.mp inside
        refine ⟨result, get.trans same, fun other alike equal => ?_⟩
        rw [getField_passed field read (getPasses other alike), equal, same]
      · rw [set]
        exact fun success => again.trans (remembers success)
  · constructor
    · intro respects
      refine ⟨fun other => absurd other own, fun _ => ⟨fun passed => ?_, fun passed => ?_⟩⟩
      · obtain ⟨error, same⟩ := respects.setRefused own
        rw [setField_passed field change calloc value passed] at error same
        exact ⟨error, (put_message_iff field _ msg).mp (Option.some.inj same)⟩
      · rw [← getField_passed field read passed]
        exact respects.getRefused own
    · rintro ⟨_, others⟩
      obtain ⟨silent, refuses⟩ := others own
      refine
        { setRefused := fun _ => ?_
          getRefused := fun _ => ?_
          setsOwn := fun other => absurd other own
          getsOwn := fun other => absurd other own
          returned := fun other => absurd other own }
      · cases tested : setChecks.refusal msg with
        | some code =>
          rw [setField_refused field change calloc value tested]
          exact ⟨refusal_error _ _ _ tested, rfl⟩
        | none =>
          obtain ⟨error, same⟩ := silent tested
          rw [setField_passed field change calloc value tested]
          exact ⟨error, congrArg some ((put_message_iff field _ msg).mpr same)⟩
      · cases tested : getChecks.refusal msg with
        | some code =>
          exact ⟨code, refusal_error _ _ _ tested, getField_refused field read tested⟩
        | none =>
          rw [getField_passed field read tested]
          exact refuses tested

/-- Only what a getter does where there is somewhere to write to counts. -/
theorem respects_congr {operation : DnopPR} {field : Lens Memory Field}
    {set : Setter Memory Value} {get other : Getter Memory Out} {shows : Value → Out}
    (same : ∀ msg, get msg true = other msg true) (calloc : Calloc) (msg : Message Memory)
    (value : Value) : Respects operation field set get shows calloc msg value ↔
      Respects operation field set other shows calloc msg value := by
  constructor
  · rintro ⟨setRefused, getRefused, setsOwn, getsOwn, returned⟩
    simp only [same] at getRefused getsOwn returned
    exact ⟨setRefused, getRefused, setsOwn, getsOwn, returned⟩
  · rintro ⟨setRefused, getRefused, setsOwn, getsOwn, returned⟩
    simp only [← same] at getRefused getsOwn returned
    exact ⟨setRefused, getRefused, setsOwn, getsOwn, returned⟩

/-! ## The tests -/

theorem refusal_bothTags_iff (operation : DnopPR) (msg : Message Memory) :
    (bothTags operation).refusal msg = none ↔ Own operation msg := by
  simp only [Checks.refusal, bothTags, true_and, Own, ne_eq, reduceCtorEq, not_false_eq_true,
    Option.some.injEq]
  by_cases pdu : msg.present = .dnm
  · by_cases tag : operation = msg.dnop
    · simp [pdu, tag]
    · simp [pdu, tag, Ne.symm tag]
  · simp [pdu]

theorem refusal_operationTag_iff (operation : DnopPR) (msg : Message Memory) :
    (operationTag operation).refusal msg = none ↔ msg.dnop = operation := by
  by_cases tag : operation = msg.dnop
  · simp [Checks.refusal, operationTag, tag]
  · simp [Checks.refusal, operationTag, tag, Ne.symm tag]

variable (operation : DnopPR) (field : Lens Memory Field) (change : Change Value Field)
  (read : Read Field Out) (shows : Value → Out) (calloc : Calloc) (msg : Message Memory)
  (value : Value)

/-- Accessors that test both tags. -/
theorem bothTags_iff :
    Respects operation field (setField (bothTags operation) field change)
        (getField (bothTags operation) field read) shows calloc msg value ↔
      (Own operation msg → (read (field.get msg.choice)).isSome ∧
        Remembers change read shows calloc value (field.get msg.choice)) := by
  rw [respects_iff operation _ _ field change read shows calloc msg value
    (refusal_bothTags_iff operation msg).mpr
    fun other => (refusal_bothTags_iff operation other).mpr]
  refine and_iff_left fun other => ⟨fun passed => ?_, fun passed => ?_⟩
  · exact absurd ((refusal_bothTags_iff operation msg).mp passed) other
  · exact absurd ((refusal_bothTags_iff operation msg).mp passed) other

/-- Accessors that do not test the PDU. -/
theorem operationTag_iff :
    Respects operation field (setField (operationTag operation) field change)
        (getField (operationTag operation) field read) shows calloc msg value ↔
      (Own operation msg → (read (field.get msg.choice)).isSome ∧
        Remembers change read shows calloc value (field.get msg.choice)) ∧
      (¬ Own operation msg → msg.dnop = operation →
        Silent change calloc value (field.get msg.choice) ∧
          Refuses (read (field.get msg.choice))) := by
  rw [respects_iff operation _ _ field change read shows calloc msg value
    (fun own => (refusal_operationTag_iff operation msg).mpr own.2)
    fun other own => (refusal_operationTag_iff operation other).mpr own.2]
  simp only [refusal_operationTag_iff]
  refine and_congr_right fun _ => imp_congr_right fun _ => ?_
  exact ⟨fun both tag => ⟨both.1 tag, both.2 tag⟩, fun both =>
    ⟨fun tag => (both tag).1, fun tag => (both tag).2⟩⟩

end Property

/-! ## The fields -/

/-- A size_t that an int holds. -/
def FitsInt (length : BitVec 64) : Prop := -2 ^ 31 ≤ length.toInt ∧ length.toInt < 2 ^ 31

theorem fitsInt_iff (length : BitVec 64) :
    (length.setWidth 32).signExtend 64 = length ↔ FitsInt length := by
  have wide := length.isLt
  rw [← BitVec.toInt_inj, BitVec.toInt_signExtend_of_le (by decide), BitVec.toInt_setWidth,
    FitsInt, BitVec.toInt_eq_toNat_bmod, Int.bmod, Int.bmod]
  omega

/-- The value of a text, with the zero behind it. -/
def shownText (given : Given) : Returned :=
  { buf := some (cString given.bytes), length := given.length }

theorem text_remembers_iff (calloc : Calloc) (given : Given) (field : OctetString) :
    Remembers changeText readText shownText calloc given field ↔
      calloc 0 = true ∧ FitsInt given.length := by
  rw [← fitsInt_iff]
  cases memory : calloc 0 with
  | false => simp [Remembers, changeText, readText, shownText, strdup, memory]
  | true => simp [Remembers, changeText, readText, shownText, strdup, memory]

theorem optionalText_remembers_iff (calloc : Calloc) (given : Given)
    (field : Option OctetString) :
    Remembers changeOptionalText readOptionalText shownText calloc given field ↔
      (calloc 0 = true → calloc 1 = true ∧ FitsInt given.length) := by
  rw [← fitsInt_iff]
  cases memory : calloc 0 with
  | false => simp [Remembers, changeOptionalText, memory]
  | true =>
    cases string : calloc 1 with
    | false =>
      simp [Remembers, changeOptionalText, readOptionalText, readText, shownText, strdup, memory,
        string]
    | true =>
      simp [Remembers, changeOptionalText, readOptionalText, readText, shownText, strdup, memory,
        string]

/-- An address is read as the text that it was set from. -/
theorem first_inetPton (text : Text) (four : List UInt8) (size : BitVec 32)
    (converted : inetPton text = some four) :
    readAddress { buf := some four, size := size } = some (.success, some text) := by
  obtain ⟨word, read, rfl⟩ := Option.map_eq_some_iff.mp converted
  have same := Inet.inetNtoa_inetPton .big text word read
  have bytes : ((Inet.octets word).map UInt8.ofNat).map UInt8.toNat = Inet.octets word := by
    rw [List.map_map]
    refine (List.map_congr_left fun octet inside => ?_).trans (List.map_id _)
    exact UInt8.toNat_ofNat_of_lt' (Inet.octets_bounded word octet inside)
  have whole : inetNtop ((Inet.octets word).map UInt8.ofNat) = text := by
    rw [inetNtop, bytes]
    exact same
  rw [← whole]
  rfl

theorem address_remembers (calloc : Calloc) (text : Text) (field : OctetString) :
    Remembers changeAddress readAddress id calloc text field := by
  unfold Remembers changeAddress
  split
  · exact fun success => nomatch success
  · split
    case h_1 => exact fun success => nomatch success
    case h_2 four converted => exact fun _ => first_inetPton text four 4 converted

theorem optionalAddress_remembers (calloc : Calloc) (text : Text) (field : Option OctetString) :
    Remembers changeOptionalAddress readOptionalAddress id calloc text field := by
  unfold Remembers changeOptionalAddress
  split
  · exact fun success => nomatch success
  · split
    · exact fun success => nomatch success
    · split
      case h_1 => exact fun success => nomatch success
      case h_2 four converted => exact fun _ => first_inetPton text four 4 converted

theorem macAddr_remembers (calloc : Calloc) (macAddr : MacAddr) (field : OctetString) :
    Remembers changeMacAddr readMacAddr MacAddr.bytes calloc macAddr field := by
  unfold Remembers changeMacAddr
  split
  · exact fun success => nomatch success
  · intro _
    have whole : macAddr.bytes.take 6 = macAddr.bytes := by
      rw [← macAddr.six, List.take_length]
    simp [readMacAddr, OctetString.first, macAddr.six, whole]

theorem number_remembers (calloc : Calloc) (value : BitVec 32) (field : Long) :
    Remembers changeNumber readNumber id calloc value field := by
  intro _
  have same : (value.setWidth 64).setWidth 32 = value := by
    rw [BitVec.setWidth_setWidth_of_le _ (by decide), BitVec.setWidth_eq]
  simp [changeNumber, readNumber, same]

/-! ## Where the PDU is not tested -/

theorem optionalText_unnoticed_iff (calloc : Calloc) (given : Given)
    (field : Option OctetString) :
    Silent changeOptionalText calloc given field ∧ Refuses (readOptionalText field) ↔
      calloc 0 = false ∧ field = none := by
  cases field with
  | none =>
    cases memory : calloc 0 with
    | false => simp [Silent, Refuses, changeOptionalText, readOptionalText, memory]
    | true => simp [Silent, changeOptionalText, memory]
  | some octets => simp [Refuses, readOptionalText, readText]

/-- What is left in an absent field is not absent, and what is read of a present one is no
error. -/
theorem optionalAddress_unnoticed_iff (calloc : Calloc) (text : Text)
    (field : Option OctetString) :
    Silent changeOptionalAddress calloc text field ∧ Refuses (readOptionalAddress field) ↔
      calloc 0 = false ∧ field = none := by
  cases field with
  | none =>
    cases memory : calloc 0 with
    | false => simp [Silent, Refuses, changeOptionalAddress, readOptionalAddress, memory]
    | true =>
      have present : (changeOptionalAddress calloc text none).2 ≠ none := by
        unfold changeOptionalAddress
        split
        · next failed => simp [memory] at failed
        · split
          · exact Option.some_ne_none _
          · split <;> exact Option.some_ne_none _
      simp [Silent, present]
  | some octets => simp [Refuses, readOptionalAddress, readAddress]

/-! ## All accessors -/

/-- A setter and a getter. -/
inductive FieldName where
  | authRequestCertName
  | authResponseResult
  | netinfoRequestIpLocal
  | netinfoRequestMacAddr
  | netinfoResponseIpAddress
  | netinfoResponseNetmask
  | netinfoResponseResult
  | provRequestProvCode
  | provResponseCertificate
  | provResponseCertificateKey
  | provResponseTrustedCert
  | provResponseIpAddress
  | p2pRequestMacAddrDst
  | p2pRequestIpAddrDst
  | p2pRequestPort
  | p2pRequestSide
  | p2pResponseMacAddrDst
  | p2pResponseResult
deriving DecidableEq

inductive Kind where
  | text
  | optionalText
  | address
  | optionalAddress
  | macAddr
  | number
deriving DecidableEq

namespace Kind

/-- What a setter is given. -/
def Value : Kind → Type
  | text | optionalText => Given
  | address | optionalAddress => Text
  | macAddr => MacAddr
  | number => BitVec 32

def Field : Kind → Type
  | text | address | macAddr => OctetString
  | optionalText | optionalAddress => Option OctetString
  | number => Long

/-- What a getter writes. -/
def Out : Kind → Type
  | text | optionalText => Returned
  | address | optionalAddress => Text
  | macAddr => List UInt8
  | number => BitVec 32

def change : (kind : Kind) → Change kind.Value kind.Field
  | text => changeText
  | optionalText => changeOptionalText
  | address => changeAddress
  | optionalAddress => changeOptionalAddress
  | macAddr => changeMacAddr
  | number => changeNumber

def read : (kind : Kind) → Read kind.Field kind.Out
  | text => readText
  | optionalText => readOptionalText
  | address => readAddress
  | optionalAddress => readOptionalAddress
  | macAddr => readMacAddr
  | number => readNumber

/-- What a getter writes for what was set. -/
def shows : (kind : Kind) → kind.Value → kind.Out
  | text | optionalText => shownText
  | address | optionalAddress => id
  | macAddr => MacAddr.bytes
  | number => id

/-- There are as many bytes in the buffer as the getter copies. -/
def Inside : (kind : Kind) → kind.Field → Prop
  | text | optionalText | number => fun _ => True
  | address => fun field => (OctetString.first field 4).isSome
  | optionalAddress => fun field => ∀ octets, field = some octets → (octets.first 4).isSome
  | macAddr => fun field => (OctetString.first field 6).isSome

/-- A text is duplicated, and its length is one for an int. -/
def Kept : (kind : Kind) → Calloc → kind.Value → Prop
  | text => fun calloc given => calloc 0 = true ∧ FitsInt given.length
  | optionalText => fun calloc given =>
    calloc 0 = true → calloc 1 = true ∧ FitsInt given.length
  | address | optionalAddress | macAddr | number => fun _ _ => True

theorem inside_iff (kind : Kind) (field : kind.Field) :
    (kind.read field).isSome ↔ kind.Inside field := by
  cases kind with
  | text => exact iff_of_true rfl trivial
  | optionalText => cases field <;> exact iff_of_true rfl trivial
  | address => exact Bool.eq_iff_iff.mp Option.isSome_map
  | optionalAddress =>
    cases field with
    | none => exact iff_of_true rfl fun _ present => nomatch present
    | some octets =>
      have same : (readAddress octets).isSome = (octets.first 4).isSome := Option.isSome_map
      exact ⟨fun read other equal => Option.some.inj equal ▸ same ▸ read,
        fun inside => same.trans (inside octets rfl)⟩
  | macAddr => exact Bool.eq_iff_iff.mp Option.isSome_map
  | number => exact iff_of_true rfl trivial

theorem kept_iff (kind : Kind) (calloc : Calloc) (value : kind.Value) (field : kind.Field) :
    Remembers kind.change kind.read kind.shows calloc value field ↔ kind.Kept calloc value := by
  cases kind with
  | text => exact text_remembers_iff calloc value field
  | optionalText => exact optionalText_remembers_iff calloc value field
  | address => exact iff_of_true (address_remembers calloc value field) trivial
  | optionalAddress => exact iff_of_true (optionalAddress_remembers calloc value field) trivial
  | macAddr => exact iff_of_true (macAddr_remembers calloc value field) trivial
  | number => exact iff_of_true (number_remembers calloc value field) trivial

section Accessors
variable {Memory : Type} (kind : Kind) (operation : DnopPR) (field : Lens Memory kind.Field)
  (calloc : Calloc) (msg : Message Memory) (value : kind.Value)

theorem bothTags_iff :
    Respects operation field (setField (bothTags operation) field kind.change)
        (getField (bothTags operation) field kind.read) kind.shows calloc msg value ↔
      (Own operation msg → kind.Inside (field.get msg.choice) ∧ kind.Kept calloc value) := by
  rw [MessageFields.bothTags_iff, inside_iff, kept_iff]

theorem operationTag_iff :
    Respects operation field (setField (operationTag operation) field kind.change)
        (getField (operationTag operation) field kind.read) kind.shows calloc msg value ↔
      (Own operation msg → kind.Inside (field.get msg.choice) ∧ kind.Kept calloc value) ∧
      (¬ Own operation msg → msg.dnop = operation →
        Silent kind.change calloc value (field.get msg.choice) ∧
          Refuses (kind.read (field.get msg.choice))) := by
  rw [MessageFields.operationTag_iff, inside_iff, kept_iff]

theorem optionalText_operationTag_iff (field : Lens Memory (Option OctetString)) (given : Given) :
    Respects operation field (setField (operationTag operation) field changeOptionalText)
        (getField (operationTag operation) field readOptionalText) shownText calloc msg given ↔
      (Own operation msg → optionalText.Inside (field.get msg.choice) ∧
        optionalText.Kept calloc given) ∧
      (¬ Own operation msg → msg.dnop = operation →
        calloc 0 = false ∧ field.get msg.choice = none) := by
  rw [← optionalText_unnoticed_iff calloc given]
  exact operationTag_iff .optionalText operation field calloc msg given

/-- The getter of the port returns whatever is in its place. -/
theorem port_iff (field : Lens Memory Long) (value : BitVec 32) :
    Respects operation field (setField (bothTags operation) field changeNumber)
        (getField noTag field readNumber) id calloc msg value ↔ Own operation msg := by
  have passes : ∀ other : Message Memory, noTag.refusal other = none := fun other => by
    simp [Checks.refusal, noTag]
  rw [respects_iff operation _ _ field changeNumber readNumber id calloc msg value
    (refusal_bothTags_iff operation msg).mpr fun other _ => passes other]
  constructor
  · rintro ⟨_, others⟩
    by_contra other
    obtain ⟨code, error, same⟩ := (others other).2 (passes msg)
    cases Option.some.inj same
  · intro own
    exact ⟨fun _ => ⟨rfl, number_remembers calloc value _⟩, fun other => absurd own other⟩

end Accessors

end Kind

namespace FieldName

def kind : FieldName → Kind
  | authRequestCertName => .text
  | provRequestProvCode | provResponseCertificate | provResponseCertificateKey
  | provResponseTrustedCert => .optionalText
  | netinfoRequestIpLocal | netinfoResponseIpAddress | netinfoResponseNetmask
  | p2pRequestIpAddrDst => .address
  | provResponseIpAddress => .optionalAddress
  | netinfoRequestMacAddr | p2pRequestMacAddrDst | p2pResponseMacAddrDst => .macAddr
  | authResponseResult | netinfoResponseResult | p2pRequestPort | p2pRequestSide
  | p2pResponseResult => .number

def operation : FieldName → DnopPR
  | authRequestCertName => .authRequest
  | authResponseResult => .authResponse
  | netinfoRequestIpLocal | netinfoRequestMacAddr => .netinfoRequest
  | netinfoResponseIpAddress | netinfoResponseNetmask | netinfoResponseResult => .netinfoResponse
  | provRequestProvCode => .provRequest
  | provResponseCertificate | provResponseCertificateKey | provResponseTrustedCert
  | provResponseIpAddress => .provResponse
  | p2pRequestMacAddrDst | p2pRequestIpAddrDst | p2pRequestPort | p2pRequestSide => .p2pRequest
  | p2pResponseMacAddrDst | p2pResponseResult => .p2pResponse

section Union
variable {Memory : Type} (union : DnopUnion Memory)

def field : (name : FieldName) → Lens Memory name.kind.Field
  | authRequestCertName => certName union
  | authResponseResult => authResult union
  | netinfoRequestIpLocal => ipLocal union
  | netinfoRequestMacAddr => macAddr union
  | netinfoResponseIpAddress => ipAddress union
  | netinfoResponseNetmask => netmask union
  | netinfoResponseResult => netinfoResult union
  | provRequestProvCode => provCode union
  | provResponseCertificate => certificate union
  | provResponseCertificateKey => certificateKey union
  | provResponseTrustedCert => trustedCert union
  | provResponseIpAddress => provIpAddress union
  | p2pRequestMacAddrDst => requestMacAddrDst union
  | p2pRequestIpAddrDst => ipAddrDst union
  | p2pRequestPort => port union
  | p2pRequestSide => side union
  | p2pResponseMacAddrDst => responseMacAddrDst union
  | p2pResponseResult => p2pResult union

def set : (name : FieldName) → Setter Memory name.kind.Value
  | authRequestCertName => authRequestSetCertName union
  | authResponseResult => authResponseSetResult union
  | netinfoRequestIpLocal => netinfoRequestSetIpLocal union
  | netinfoRequestMacAddr => netinfoRequestSetMacAddr union
  | netinfoResponseIpAddress => netinfoResponseSetIpAddress union
  | netinfoResponseNetmask => netinfoResponseSetNetmask union
  | netinfoResponseResult => netinfoResponseSetResult union
  | provRequestProvCode => provRequestSetProvCode union
  | provResponseCertificate => provResponseSetCertificate union
  | provResponseCertificateKey => provResponseSetCertificateKey union
  | provResponseTrustedCert => provResponseSetTrustedCert union
  | provResponseIpAddress => provResponseSetIpAddress union
  | p2pRequestMacAddrDst => p2pRequestSetMacAddrDst union
  | p2pRequestIpAddrDst => p2pRequestSetIpAddrDst union
  | p2pRequestPort => p2pRequestSetPort union
  | p2pRequestSide => p2pRequestSetSide union
  | p2pResponseMacAddrDst => p2pResponseSetMacAddrDst union
  | p2pResponseResult => p2pResponseSetResult union

def get : (name : FieldName) → Getter Memory name.kind.Out
  | authRequestCertName => authRequestGetCertName union
  | authResponseResult => authResponseGetResult union
  | netinfoRequestIpLocal => netinfoRequestGetIpLocal union
  | netinfoRequestMacAddr => netinfoRequestGetMacAddr union
  | netinfoResponseIpAddress => netinfoResponseGetIpAddress union
  | netinfoResponseNetmask => netinfoResponseGetNetmask union
  | netinfoResponseResult => netinfoResponseGetResult union
  | provRequestProvCode => provRequestGetProvCode union
  | provResponseCertificate => provResponseGetCertificate union
  | provResponseCertificateKey => provResponseGetCertificateKey union
  | provResponseTrustedCert => provResponseGetTrustedCert union
  | provResponseIpAddress => provResponseGetIpAddress union
  | p2pRequestMacAddrDst => p2pRequestGetMacAddrDst union
  | p2pRequestIpAddrDst => p2pRequestGetIpAddrDst union
  | p2pRequestPort => p2pRequestGetPort union
  | p2pRequestSide => p2pRequestGetSide union
  | p2pResponseMacAddrDst => p2pResponseGetMacAddrDst union
  | p2pResponseResult => p2pResponseGetResult union

/-- A message with other tags is refused all the same. Where the PDU is not tested, the operation
is another one, or there is no value and no memory to make one. -/
def Unnoticed (calloc : Calloc) (msg : Message Memory) : FieldName → Prop
  | provRequestProvCode => msg.dnop = .provRequest →
    calloc 0 = false ∧ (provCode union).get msg.choice = none
  | provResponseCertificate => msg.dnop = .provResponse →
    calloc 0 = false ∧ (certificate union).get msg.choice = none
  | provResponseCertificateKey => msg.dnop = .provResponse →
    calloc 0 = false ∧ (certificateKey union).get msg.choice = none
  | provResponseTrustedCert => msg.dnop = .provResponse →
    calloc 0 = false ∧ (trustedCert union).get msg.choice = none
  | provResponseIpAddress => msg.dnop = .provResponse →
    calloc 0 = false ∧ (provIpAddress union).get msg.choice = none
  | p2pRequestPort => False
  | _ => True

end Union

end FieldName

/-- The accessors of a field respect the tags of a message, touch their own field and remember what
was set, exactly when a message with other tags is noticed, the getter does not read behind a
buffer, and a text that is set is duplicated and its length kept.

Proof: case by case over the names. Where both tags are checked, a message with other tags is
noticed and the kind of the field decides alone; the accessors that check the operation only,
or nothing, have the tags in their condition. -/
theorem accessors_respect_iff {Memory : Type} (union : DnopUnion Memory) (name : FieldName)
    (calloc : Calloc) (msg : Message Memory) (value : name.kind.Value) :
    Respects name.operation (name.field union) (name.set union) (name.get union) name.kind.shows
        calloc msg value ↔
      (Own name.operation msg →
        name.kind.Inside ((name.field union).get msg.choice) ∧ name.kind.Kept calloc value) ∧
      (¬ Own name.operation msg → name.Unnoticed union calloc msg) := by
  have noticed : ∀ {left right other : Prop}, (left ↔ right) → (left ↔ right ∧ (other → True)) :=
    fun same => same.trans (and_iff_left fun _ => trivial).symm
  cases name with
  | authRequestCertName => exact noticed (Kind.bothTags_iff .text _ (certName union) ..)
  | authResponseResult => exact noticed (Kind.bothTags_iff .number _ (authResult union) ..)
  | netinfoRequestIpLocal => exact noticed (Kind.bothTags_iff .address _ (ipLocal union) ..)
  | netinfoRequestMacAddr => exact noticed (Kind.bothTags_iff .macAddr _ (macAddr union) ..)
  | netinfoResponseIpAddress => exact noticed (Kind.bothTags_iff .address _ (ipAddress union) ..)
  | netinfoResponseNetmask => exact noticed (Kind.bothTags_iff .address _ (netmask union) ..)
  | netinfoResponseResult =>
    exact noticed (Kind.bothTags_iff .number _ (netinfoResult union) ..)
  | provRequestProvCode =>
    exact Kind.optionalText_operationTag_iff _ calloc msg (provCode union) value
  | provResponseCertificate =>
    exact Kind.optionalText_operationTag_iff _ calloc msg (certificate union) value
  | provResponseCertificateKey =>
    exact Kind.optionalText_operationTag_iff _ calloc msg (certificateKey union) value
  | provResponseTrustedCert =>
    exact Kind.optionalText_operationTag_iff _ calloc msg (trustedCert union) value
  | provResponseIpAddress =>
    refine
      (Kind.operationTag_iff .optionalAddress _ (provIpAddress union) calloc msg value).trans ?_
    refine and_congr_right fun _ => imp_congr_right fun _ => imp_congr_right fun _ => ?_
    exact optionalAddress_unnoticed_iff calloc value _
  | p2pRequestMacAddrDst =>
    have same : ∀ msg, p2pRequestGetMacAddrDst union msg true =
        getField (bothTags .p2pRequest) (requestMacAddrDst union) readMacAddr msg true := by
      intro msg
      cases msg <;> rfl
    refine (respects_congr same calloc msg value).trans ?_
    exact noticed (Kind.bothTags_iff .macAddr _ (requestMacAddrDst union) ..)
  | p2pRequestIpAddrDst => exact noticed (Kind.bothTags_iff .address _ (ipAddrDst union) ..)
  | p2pRequestPort =>
    refine (Kind.port_iff _ calloc msg (port union) value).trans ?_
    exact ⟨fun own => ⟨fun _ => ⟨trivial, trivial⟩, fun other => other own⟩,
      fun conditions => not_not.mp conditions.2⟩
  | p2pRequestSide => exact noticed (Kind.bothTags_iff .number _ (side union) ..)
  | p2pResponseMacAddrDst =>
    exact noticed (Kind.bothTags_iff .macAddr _ (responseMacAddrDst union) ..)
  | p2pResponseResult => exact noticed (Kind.bothTags_iff .number _ (p2pResult union) ..)

/-- A union in which the fields of one type are shared: the first with the first, and so on. -/
structure Slots where
  octets : OctetString
  moreOctets : OctetString
  pointers : ProvResponse
  long : Long
  moreLong : Long

def slots : DnopUnion Slots where
  authRequest :=
    { get := fun slots => { certName := slots.octets }
      put := fun request slots => { slots with octets := request.certName }
      get_put := fun _ _ => rfl
      put_get := fun _ => rfl }
  authResponse :=
    { get := Slots.long
      put := fun result slots => { slots with long := result }
      get_put := fun _ _ => rfl
      put_get := fun _ => rfl }
  netinfoRequest :=
    { get := fun slots => { ipLocal := slots.octets, macAddr := slots.moreOctets }
      put := fun request slots =>
        { slots with octets := request.ipLocal, moreOctets := request.macAddr }
      get_put := fun _ _ => rfl
      put_get := fun _ => rfl }
  netinfoResponse :=
    { get := fun slots =>
        { ipAddress := slots.octets, netmask := slots.moreOctets, result := slots.long }
      put := fun response slots =>
        { slots with
          octets := response.ipAddress
          moreOctets := response.netmask
          long := response.result }
      get_put := fun _ _ => rfl
      put_get := fun _ => rfl }
  provRequest :=
    { get := fun slots => { provCode := slots.pointers.certificate }
      put := fun request slots =>
        { slots with pointers := { slots.pointers with certificate := request.provCode } }
      get_put := fun _ _ => rfl
      put_get := fun _ => rfl }
  provResponse :=
    { get := Slots.pointers
      put := fun response slots => { slots with pointers := response }
      get_put := fun _ _ => rfl
      put_get := fun _ => rfl }
  p2pRequest :=
    { get := fun slots =>
        { macAddrDst := slots.octets
          ipAddrDst := slots.moreOctets
          port := slots.long
          side := slots.moreLong }
      put := fun request slots =>
        { slots with
          octets := request.macAddrDst
          moreOctets := request.ipAddrDst
          long := request.port
          moreLong := request.side }
      get_put := fun _ _ => rfl
      put_get := fun _ => rfl }
  p2pResponse :=
    { get := fun slots => { macAddrDst := slots.octets, result := slots.long }
      put := fun response slots =>
        { slots with octets := response.macAddrDst, long := response.result }
      get_put := fun _ _ => rfl
      put_get := fun _ => rfl }

/-- The memory of a NetinfoResponse with a result. -/
def resultSlots (result : Long) : Slots where
  octets := { buf := some zeros, size := 4 }
  moreOctets := { buf := some zeros, size := 4 }
  pointers :=
    { certificate := none
      certificateKey := none
      trustedCert := none
      ipAddress := none }
  long := result
  moreLong := 0

/-- The result of a NetinfoResponse is returned for the port of a P2pRequest, and a message that is
no DNMessage gets a provisioning code. -/
theorem accessors_not_respect :
    p2pRequestGetPort slots
        (some { present := .dnm, dnop := .netinfoResponse, choice := resultSlots 1 }) true =
      some (.success, some 1) ∧
    ¬ Respects .p2pRequest (port slots) (p2pRequestSetPort slots) (p2pRequestGetPort slots) id
      (fun _ => true) { present := .dnm, dnop := .netinfoResponse, choice := resultSlots 1 } 0 ∧
    ¬ Respects .provRequest (provCode slots) (provRequestSetProvCode slots)
      (provRequestGetProvCode slots) shownText (fun _ => true)
      { present := .dsm, dnop := .provRequest, choice := resultSlots 1 }
      { bytes := [0x61], length := 1 } := by
  refine ⟨by decide, fun respects => ?_, fun respects => ?_⟩
  · obtain ⟨code, _, same⟩ := respects.getRefused fun own => by cases own.2
    have returned : p2pRequestGetPort slots
        (some { present := .dnm, dnop := .netinfoResponse, choice := resultSlots 1 }) true =
          some (.success, some 1) := by decide
    cases Option.some.inj (returned.symm.trans same)
  · have refused := (respects.setRefused fun own => by cases own.1).1
    exact refused rfl

end NetVirt.MessageFields
