import NetVirt.BerChoices
import NetVirt.BerIntegers
import NetVirt.BerSequencesOf
import NetVirt.BerStrings

/-!
# The messages of the protocol

The types that the ASN.1 compiler generated of dnds.asn1, as its tables describe them. A
type is applied under a tag that replaces its own, or, where it is a choice and has none,
under a tag around it. It comes with the values it carries and with the laws of its codec,
so that a sequence or a choice of such types is again one: every type of the protocol
reads back what it writes, however the bytes are cut, because it cannot be built otherwise.
-/

namespace NetVirt.Dnds

open Ber

/-- `ASN_TAG_CLASS_UNIVERSAL | (value << 2)` -/
def universal (value : Nat) : Tag := value * 4

/-- `ASN_TAG_CLASS_CONTEXT | (value << 2)` -/
def contextual (value : Nat) : Tag := value * 4 + 2

/-- How a member's tag is applied: `tag_mode` is -1 or +1 in the tables. -/
inductive Tagging where
  | implicit
  | explicit
deriving DecidableEq

def Tagging.mode : Tagging → Int
  | .implicit => -1
  | .explicit => 1

theorem Tagging.applied (tagging : Tagging) : tagging.mode ≠ 0 := by
  cases tagging <;> decide

theorem contextual_bound {value : Nat} (bound : value < 2 ^ 29) :
    value * 4 + 2 < 2 ^ 32 - 1 := by
  omega

/-- A type that is applied in one way, under any tag. -/
structure Kind (tagging : Tagging) where
  codec : Codec
  Valid : Value → Prop
  carried : ∀ tag : Nat, tag < 2 ^ 32 → Lawful codec tagging.mode tag Valid
  confined : codec.Confined tagging.mode

/-- A member of a sequence or an alternative of a choice. -/
structure Element where
  field : Field
  lawful : field.Lawful
  confined : field.member.codec.Confined field.member.tagMode

/-- The member with a tag `[number]`. One that is a pointer may be left out, as may the
given number of members from it on. -/
def Kind.placed {tagging : Tagging} (kind : Kind tagging) (number : Nat)
    (bound : number < 2 ^ 29) (pointer : Bool) (optional : Nat) : Element where
  field :=
    { member :=
        { codec := kind.codec
          tag := contextual number
          tagMode := tagging.mode
          pointer := pointer
          optional := optional
          openType := false }
      Valid := kind.Valid }
  lawful :=
    ⟨tagging.applied, rfl, Nat.ne_of_lt (contextual_bound bound),
      kind.carried _ (Nat.lt_of_lt_of_le (contextual_bound bound) (Nat.sub_le _ _))⟩
  confined := kind.confined

/-- A member that is always there. -/
def Kind.at {tagging : Tagging} (kind : Kind tagging) (number : Nat)
    (bound : number < 2 ^ 29 := by decide) : Element :=
  kind.placed number bound false 0

/-- A member that may be left out. -/
def Kind.optionalAt {tagging : Tagging} (kind : Kind tagging) (number optional : Nat)
    (bound : number < 2 ^ 29 := by decide) : Element :=
  kind.placed number bound true optional

def membersOf (elements : List Element) : List Member :=
  elements.map fun element => element.field.member

theorem membersOf_fields (elements : List Element) :
    membersOf elements = (elements.map Element.field).map Field.member := by
  rw [List.map_map]
  rfl

theorem elements_lawful (elements : List Element) :
    ∀ field ∈ elements.map Element.field, field.Lawful := by
  intro field inside
  obtain ⟨element, _, rfl⟩ := List.mem_map.mp inside
  exact element.lawful

theorem members_confined (elements : List Element) :
    ∀ elm ∈ membersOf elements, elm.codec.Confined elm.tagMode := by
  intro elm inside
  obtain ⟨element, _, rfl⟩ := List.mem_map.mp inside
  exact element.confined

/-- Every table `asn_MAP_..._tag2el` lists the elements in their order, each once. -/
def inOrder (elements : List Member) : List Tag2Member :=
  elements.mapIdx fun index elm => ⟨elm.tag, index, 0, 0⟩

theorem inOrder_tags (elements : List Member) :
    (inOrder elements).map Tag2Member.elTag = elements.map Member.tag := by
  apply List.ext_getElem?
  intro index
  simp [inOrder, List.getElem?_mapIdx, Function.comp_def]

/-! ## Types made of types -/

/-- The descriptor of a sequence, whose own tag is that of all sequences. -/
def sequenceType (elements : List Element) (extAfter extBefore : Int) : SequenceType where
  tags := [universal 16]
  elements := membersOf elements
  tag2el := inOrder (membersOf elements)
  extAfter := extAfter
  extBefore := extBefore

def sequenceKind (calls : Nat) (elements : List Element) (extAfter extBefore : Int)
    (arranged : Arranged (membersOf elements) := by
      simp [Arranged, membersOf, Kind.at, Kind.optionalAt, Kind.placed, contextual]) :
    Kind .implicit where
  codec := sequence calls (sequenceType elements extAfter extBefore)
  Valid := SequenceValid (elements.map Element.field)
  carried tag bound :=
    sequence_carries calls (membersOf_fields elements) (elements_lawful elements) arranged
      (.implicit _ tag) bound
  confined := sequence_confined calls _ _ (members_confined elements)

/-- The descriptor of a choice, which has no tag. -/
def choiceType (elements : List Element) (extStart : Int) : ChoiceType where
  tags := []
  elements := membersOf elements
  tag2el := inOrder (membersOf elements)
  extStart := extStart

/-- The tags of the alternatives are in the order of the table. -/
def Ascends (elements : List Element) : Prop :=
  ((membersOf elements).map Member.tag).Pairwise fun first second =>
    compareTags first second = .lt

theorem compareTags_contextual (first second : Nat) :
    compareTags (contextual first) (contextual second) = .lt ↔ first < second := by
  unfold compareTags berTagClass berTagValue contextual
  grind

theorem tabled_inOrder {elements : List Element} (ascends : Ascends elements)
    (extStart : Int) : Tabled (choiceType elements extStart) where
  sorted := by
    have tags := ascends
    unfold Ascends at tags
    rw [← inOrder_tags, List.pairwise_map] at tags
    exact tags
  listed index elm found := by
    refine ⟨index, ⟨elm.tag, index, 0, 0⟩, ?_, rfl, rfl⟩
    simp only [choiceType] at found
    simp [choiceType, inOrder, List.getElem?_mapIdx, found]

def choiceKind (calls : Nat) (elements : List Element) (extStart : Int)
    (ascends : Ascends elements := by
      simp [Ascends, membersOf, Kind.at, Kind.placed, compareTags_contextual]) :
    Kind .explicit where
  codec := choice calls (choiceType elements extStart)
  Valid := ChoiceValid (elements.map Element.field)
  carried tag bound :=
    choice_carries calls (membersOf_fields elements) (elements_lawful elements)
      (tabled_inOrder ascends extStart) (.explicit tag) bound
  confined := choice_confined calls _ _ (members_confined elements)

/-! ## Primitive types -/

def stringKind (universalTag : Nat) (inherited : List Tag) (variant : Subvariant) :
    Kind .implicit where
  codec := octetString [universal universalTag] (universal universalTag :: inherited) variant
  Valid := StringValid variant
  carried tag bound := octetString_carries (.implicit _ tag) bound _ variant
  confined := octetString_confined _ _ variant _

theorem octets_carried : Lawful (octetString [universal 4] [universal 4] .str) (-1) (contextual 1)
    (StringValid .str) :=
  octetString_lawful (.implicit _ _) (by decide) [universal 4] .str

/-- `asn_DEF_OCTET_STRING` -/
def octets : Kind .implicit := stringKind 4 [] .str

/-- `asn_DEF_BIT_STRING` -/
def bits : Kind .implicit := stringKind 3 [] .bit

/-- `asn_DEF_PrintableString` -/
def printable : Kind .implicit := stringKind 19 [universal 4] .str

/-- `asn_DEF_IA5String` -/
def ia5 : Kind .implicit := stringKind 22 [universal 4] .str

/-- `NativeInteger_decode_ber` under the one tag of the descriptor. -/
def nativeKind (tag : Tag) (fieldUnsigned : Bool) : Kind .implicit where
  codec := nativeInteger [tag] fieldUnsigned
  Valid := NativeValid fieldUnsigned
  carried place bound := nativeInteger_lawful (.implicit _ place) bound fieldUnsigned
  confined := nativeInteger_confined _ fieldUnsigned _

/-- `asn_DEF_NativeInteger` -/
def native : Kind .implicit := nativeKind (universal 2) false

/-- The descriptor of a member that is an unsigned INTEGER carries the member's tag. -/
def unsignedAt (number : Nat) : Kind .implicit := nativeKind (contextual number) true

/-- The enumerations of their own: `DNDSResult`, `ConnState`, `ObjectName`, `P2pSide` and
`SearchType`, and the responses that are a result, `AuthResponse`, `AddResponse`,
`DelResponse` and `ModifyResponse`. -/
def enumerated : Kind .implicit := nativeKind (universal 10) false

/-- `TerminateRequest`, a NULL. -/
def terminateRequest : Kind .implicit where
  codec := nullType [universal 5]
  Valid value := value = .boolean 0
  carried tag bound := nullType_lawful (.implicit _ tag) bound
  confined := nullType_confined _ _

/-! ## The types of dnds.asn1 -/

section Types
variable (calls : Nat)

def client : Kind .implicit :=
  sequenceKind calls
    [(unsignedAt 0).optionalAt 0 5, ia5.optionalAt 1 4, printable.optionalAt 2 3,
      printable.optionalAt 3 2, native.optionalAt 4 1]
    4 6

def context : Kind .implicit :=
  sequenceKind calls
    [(unsignedAt 0).optionalAt 0 8, (unsignedAt 1).optionalAt 1 7, printable.optionalAt 2 6,
      octets.optionalAt 3 5, octets.optionalAt 4 4, printable.optionalAt 5 3,
      printable.optionalAt 6 2, printable.optionalAt 7 1]
    7 9

def node : Kind .implicit :=
  sequenceKind calls
    [(unsignedAt 0).optionalAt 0 10, printable.optionalAt 1 9, printable.optionalAt 2 8,
      printable.optionalAt 3 7, printable.optionalAt 4 6, printable.optionalAt 5 5,
      bits.optionalAt 6 4, printable.optionalAt 7 3, octets.optionalAt 8 2, native.optionalAt 9 1]
    9 11

def dndsObjectElements : List Element :=
  [(client calls).at 0, (context calls).at 1, (node calls).at 2]

theorem dndsObject_ascends : Ascends (dndsObjectElements calls) := by
  simp [Ascends, dndsObjectElements, membersOf, Kind.at, Kind.placed, compareTags_contextual]

/-- `DNDSObject`, which `AddRequest`, `DelRequest` and `ModifyRequest` are too. -/
def dndsObject : Kind .explicit :=
  choiceKind calls (dndsObjectElements calls) 3 (dndsObject_ascends calls)

/-- Every item of `DNDSObjects` takes some bytes. -/
theorem dndsObject_productive : (dndsObject calls).codec.Productive 0 := by
  apply choice_productive calls _ rfl
  intro elm inside
  obtain ⟨element, listed, rfl⟩ := List.mem_map.mp inside
  simp only [dndsObjectElements, List.mem_cons, List.not_mem_nil, or_false] at listed
  rcases listed with rfl | rfl | rfl
  all_goals exact sequence_productive calls _ (.implicit _ 0) (members_confined _)

def dndsObjectsType : SequenceOfType where
  tags := [universal 16]
  tag := anyTag
  codec := (dndsObject calls).codec

/-- The items have no tag but that of their alternative. -/
theorem dndsObjects_items : ItemsLawful (dndsObjectsType calls) (dndsObject calls).Valid where
  lawful :=
    choice_lawful_untagged calls (membersOf_fields _) (elements_lawful _)
      (tabled_inOrder (dndsObject_ascends calls) 3) rfl anyTag
  tagged _ _ _ _ _ _ := Or.inl rfl

def dndsObjects : Kind .implicit where
  codec := sequenceOf (dndsObjectsType calls)
  Valid := SequenceOfValid (dndsObject calls).Valid
  carried tag bound := sequenceOf_carries (dndsObjects_items calls) (.implicit _ tag) bound
  confined := sequenceOf_confined _ _ (choice_confined calls _ 0 (members_confined _))
    (dndsObject_productive calls)

theorem dndsObjects_carried :
    Lawful (sequenceOf (dndsObjectsType 10)) (-1) (contextual 2)
      (SequenceOfValid (dndsObject 10).Valid) :=
  sequenceOf_lawful (dndsObjects_items 10) (.implicit _ _) (by decide)

def authRequest : Kind .implicit :=
  sequenceKind calls [ia5.at 0] 0 2

def netinfoRequest : Kind .implicit :=
  sequenceKind calls [octets.at 0, octets.at 1] 1 3

def netinfoResponse : Kind .implicit :=
  sequenceKind calls [octets.at 0, octets.at 1, enumerated.at 2] 2 4

def provRequest : Kind .implicit :=
  sequenceKind calls [printable.optionalAt 0 1] 0 2

def provResponse : Kind .implicit :=
  sequenceKind calls
    [printable.optionalAt 0 4, printable.optionalAt 1 3, printable.optionalAt 2 2,
      octets.optionalAt 3 1]
    3 5

def p2pRequest : Kind .implicit :=
  sequenceKind calls [octets.at 0, octets.at 1, (unsignedAt 2).at 2, enumerated.at 3] 3 5

def p2pResponse : Kind .implicit :=
  sequenceKind calls [octets.at 0, enumerated.at 1] 1 3

def nodeConnInfo : Kind .implicit :=
  sequenceKind calls [ia5.at 0, octets.at 1, enumerated.at 2] 2 4

def searchRequest : Kind .implicit :=
  sequenceKind calls
    [enumerated.at 0, enumerated.optionalAt 1 3, (dndsObject calls).optionalAt 2 2,
      (dndsObjects calls).optionalAt 3 1]
    3 5

def searchResponse : Kind .implicit :=
  sequenceKind calls [enumerated.at 0, enumerated.at 1, (dndsObjects calls).at 2] 2 4

def dnop : Kind .explicit :=
  choiceKind calls
    [(authRequest calls).at 0, enumerated.at 1, (netinfoRequest calls).at 2,
      (netinfoResponse calls).at 3, (provRequest calls).at 4, (provResponse calls).at 5,
      (p2pRequest calls).at 6, (p2pResponse calls).at 7, terminateRequest.at 8]
    9

def dnMessage : Kind .implicit :=
  sequenceKind calls [(unsignedAt 0).at 0, (unsignedAt 1).at 1, (dnop calls).at 2] (-1) (-1)

def dsop : Kind .explicit :=
  choiceKind calls
    [(dndsObject calls).at 0, enumerated.at 1, (dndsObject calls).at 2, enumerated.at 3,
      (dndsObject calls).at 4, enumerated.at 5, (nodeConnInfo calls).at 6,
      (searchRequest calls).at 7, (searchResponse calls).at 8, terminateRequest.at 9]
    10

/-- The descriptor of `action` carries the tag of the member, as those of the numbers do. -/
def dsMessage : Kind .implicit :=
  sequenceKind calls
    [(unsignedAt 0).at 0, (unsignedAt 1).at 1, printable.optionalAt 2 1,
      (nativeKind (contextual 3) false).at 3, (dsop calls).at 4]
    (-1) (-1)

/-- Its third member can be left out, and the last one is a choice. -/
theorem dsMessage_carried :
    Lawful (dsMessage 10).codec (-1) (contextual 1) (dsMessage 10).Valid :=
  sequence_lawful 10 (membersOf_fields _) (elements_lawful _)
    (by simp [sequenceType, Arranged, membersOf, Kind.at, Kind.optionalAt, Kind.placed, contextual])
    (.implicit _ _) (by decide)

def pduElements : List Element :=
  [(dnMessage calls).at 0, (dsMessage calls).at 1, bits.at 2]

theorem pdu_ascends : Ascends (pduElements calls) := by
  simp [Ascends, pduElements, membersOf, Kind.at, Kind.placed, compareTags_contextual]

def pdu : Kind .explicit := choiceKind calls (pduElements calls) 3 (pdu_ascends calls)

theorem pdu_carried : Lawful (pdu 10).codec 1 (contextual 2) (pdu 10).Valid :=
  choice_lawful_tagged 10 (membersOf_fields _) (elements_lawful _)
    (tabled_inOrder (pdu_ascends 10) 3) (.explicit _) (by decide)

/-- An ethernet frame of no bytes in a pdu of indefinite length, with a zero octet and a one
behind it. -/
theorem pdu_ethernet_stuck : ∃ state,
    (pdu 10).codec.berDecoder 1 .absent [0xA2, 0x80, 0x82, 1, 0, 0, 1] = .stuck state := by
  have there : ((pduElements 10).map Element.field)[2]? = some (bits.at 2).field := rfl
  have valid : (bits.at 2).field.Valid (.string [] 0) := ⟨by decide, rfl, by decide⟩
  have written : (bits.at 2).field.member.codec.derEncoder (.string [] 0)
      (bits.at 2).field.member.tagMode (bits.at 2).field.member.tag = some [0x82, 1, 0] := rfl
  exact (choice_stuck_iff 10 (membersOf_fields _) (tabled_inOrder (pdu_ascends 10) 3) there
    (bits.at 2).lawful valid written (by decide) (.explicit (contextual 2)) (by decide)
    [0, 1]).mpr ⟨1, [], by decide, rfl⟩

def dndsMessageElements : List Element :=
  [(unsignedAt 0).at 0, native.at 1, (pdu calls).at 2]

/-- `asn_DEF_DNDSMessage` -/
def dndsMessage : Codec :=
  sequence calls (sequenceType (dndsMessageElements calls) (-1) (-1))

/-- The messages whose fields the encoding can hold. -/
def DndsMessageValid : Value → Prop :=
  SequenceValid ((dndsMessageElements calls).map Element.field)

end Types

end NetVirt.Dnds
