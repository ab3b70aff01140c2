import NetVirt.BerConstructed
import NetVirt.BinarySearches

/-!
# Sequences

`SEQUENCE_decode_ber` and `SEQUENCE_encode_der` of constr_SEQUENCE.c. A sequence is decoded
member by member: a tag tells which of the members that may come next has arrived, the step
of the context remembers it, and its decoder is called, once or several times. Unknown
elements are skipped where the type has an extension marker.
-/

namespace NetVirt.Ber

open OnlineParsers ResumableDecoders BinarySearches

/-- `asn_TYPE_member_t`: how many members from this one on may be left out, the tag and how
it is applied, the type, and the flags ATF_POINTER and ATF_OPEN_TYPE. -/
structure Member where
  codec : Codec
  tag : Tag
  tagMode : Int
  pointer : Bool
  optional : Nat
  openType : Bool

/-- `asn_TYPE_tag2member_t` -/
structure Tag2Member where
  elTag : Tag
  elNo : Nat
  toffFirst : Int
  toffLast : Int

/-- The descriptor of a sequence with its `asn_SEQUENCE_specifics_t`. -/
structure SequenceType where
  tags : List Tag
  elements : List Member
  tag2el : List Tag2Member
  extAfter : Int
  extBefore : Int

/-- The tag of a member that has none, or any of several. -/
def anyTag : Tag := 2 ^ 32 - 1

/-- Tags are sorted by class, then by value. -/
def compareTags (tag other : Tag) : Ordering :=
  if berTagClass tag = berTagClass other then
    if berTagValue tag = berTagValue other then .eq
    else if berTagValue tag < berTagValue other then .lt
    else .gt
  else if berTagClass tag < berTagClass other then .lt
  else .gt

/-- `_t2e_cmp` for a key. An entry of a later element counts as equal. -/
def t2eCmp (tag : Tag) (elNo : Nat) (entry : Tag2Member) : Ordering :=
  match compareTags tag entry.elTag with
  | .eq => if elNo > entry.elNo then .gt else .eq
  | other => other

namespace SequenceType

/-- IN_EXTENSION_GROUP -/
def inExtensionGroup (type : SequenceType) (index : Nat) : Prop :=
  type.extAfter < index ∧ (index : Int) < type.extBefore

instance (type : SequenceType) (index : Nat) : Decidable (type.inExtensionGroup index) :=
  inferInstanceAs (Decidable (_ ∧ _))

/-- The sequence may end where this element would come: all others may be left out. -/
def mayEnd (type : SequenceType) (edx : Nat) (elm : Member) : Prop :=
  edx + elm.optional = type.elements.length ∨
    type.inExtensionGroup edx ∧ (type.elements.length : Int) < type.extBefore

instance (type : SequenceType) (edx : Nat) (elm : Member) : Decidable (type.mayEnd edx elm) :=
  inferInstanceAs (Decidable (_ ∨ _))

/-- What the linear search for a tag comes to. -/
inductive Sought where
  | found (index : Nat)
  | untagged
  | exhausted

/-- The linear search, from the element of the given index on. -/
def seek (tag : Tag) : Nat → List Member → Sought
  | _, [] => .exhausted
  | index, elm :: rest =>
    if tag = elm.tag then .found index
    else if elm.openType then .found index
    else if elm.tag = anyTag then .untagged
    else seek tag (index + 1) rest

/-- The binary search, and from its hit on the last entry of the tag whose element may come
next. -/
def sortedSearch (type : SequenceType) (edx : Nat) (elm : Member) (tag : Tag) : Option Nat := do
  let hit ← bsearch (t2eCmp tag edx) type.tag2el
  let t2m ← type.tag2el[hit]?
  let first := (hit + t2m.toffFirst).toNat
  let last := (hit + t2m.toffLast).toNat
  let alike := (type.tag2el.drop first).take (last + 1 - first)
  let best ← ((alike.takeWhile fun entry => entry.elNo ≤ edx + elm.optional).filter fun entry =>
    edx ≤ entry.elNo).getLast?
  return best.elNo

/-- The element with this tag among those that may come next. The linear search goes over at
most eight of them, except where it reaches the last element. -/
def locate (type : SequenceType) (edx : Nat) (elm : Member) (tag : Tag) : Option Nat :=
  let optEdxEnd := edx + elm.optional + 1
  let capped := type.elements.length < optEdxEnd
  let limited := ¬capped ∧ 8 < optEdxEnd - edx
  let optEdxEnd := if capped then type.elements.length else if limited then edx + 8 else optEdxEnd
  match seek tag edx ((type.elements.drop edx).take (optEdxEnd - edx)) with
  | .found index => some index
  | .untagged => type.sortedSearch edx elm tag
  | .exhausted => if limited then type.sortedSearch edx elm tag else none

/-- What microphase 1 decides: a code to return, the end of the sequence, an element to be
decoded, or that an unknown one was skipped. -/
inductive Synchronized where
  | returned (code : RvalCode) (cursor : Cursor)
  | ended
  | found (edx : Nat)
  | skipped (edx : Nat) (cursor : Cursor)

/-- An element that is not of the type is skipped where extensions may come. -/
def skipUnknown (calls : Nat) (type : SequenceType) (edx : Nat) (elm : Member)
    (cursor : Cursor) (tagLen : Nat) : Synchronized :=
  if ¬type.inExtensionGroup (edx + elm.optional) then .returned .fail cursor
  else
    match berSkipLength calls (berTlvConstructed (cursor.rest.headD 0))
        (cursor.window.drop tagLen) with
    | .wantMore => .returned cursor.wanting cursor
    | .failed => .returned .fail cursor
    | .fetched _ skip => .skipped (edx + elm.optional) (cursor.advance (skip + tagLen))

/-- Microphase 1: the next tag is looked at and nothing is consumed. -/
def synchronize (calls : Nat) (type : SequenceType) (edx : Nat) (elm : Member)
    (cursor : Cursor) : Synchronized :=
  if cursor.ctx.left = 0 ∧ type.mayEnd edx elm then .returned .ok (cursor.phase 10)
  else
    match berFetchTag cursor.window with
    | .wantMore => .returned cursor.wanting cursor
    | .failed => .returned .fail cursor
    | .fetched tlvTag tagLen =>
      if cursor.endMark = .part then .returned .wmore cursor
      else if cursor.endMark = .here ∧ type.mayEnd edx elm then .ended
      else
        match type.locate edx elm tlvTag with
        | some index => .found index
        | none => type.skipUnknown calls edx elm cursor tagLen

end SequenceType

/-- The structure that is decoded into, and where its decoder stands. -/
structure SequenceParse where
  cursor : Cursor
  members : List Struct

namespace SequenceParse

/-- The structure is created if it does not exist: all its memory is zero. -/
def load (type : SequenceType) (struct : Struct) (given : List UInt8) : SequenceParse :=
  match struct with
  | .sequence ctx members => { cursor := ⟨given, 0, ctx⟩, members := members }
  | _ =>
    { cursor := ⟨given, 0, .zero⟩, members := List.replicate type.elements.length .absent }

def struct (parse : SequenceParse) : Struct := .sequence parse.cursor.ctx parse.members

def returned (parse : SequenceParse) (code : Option RvalCode) : Outcome Struct :=
  parse.cursor.returned parse.struct code

/-- What a turn of the loop over the elements comes to. -/
inductive Turn where
  | returned (code : Option RvalCode) (parse : SequenceParse)
  | again (edx : Nat) (parse : SequenceParse)
  | ended (parse : SequenceParse)

/-- Microphase 2: the decoder of the member is called. Once the member is complete, the step
is that of the next one. -/
def member (type : SequenceType) (edx : Nat) (parse : SequenceParse) : Turn :=
  match type.elements[edx]? with
  | none => .returned (some .fail) parse
  | some elm =>
    match parse.cursor.invoke elm.codec elm.tagMode (parse.members.getD edx .absent) with
    | (some .ok, member, cursor) =>
      .again (edx + 1)
        { cursor := cursor.step (cursor.ctx.step / 2 * 2 + 2)
          members := parse.members.set edx member }
    | (code, member, cursor) =>
      .returned code { cursor := cursor, members := parse.members.set edx member }

/-- One turn of phase 1. The step is twice the index of the element, and odd in microphase
2. It stays as it is when an unknown element is skipped: it loses two and gains two. -/
def turn (calls : Nat) (type : SequenceType) (edx : Nat) (parse : SequenceParse) : Turn :=
  match type.elements[edx]? with
  | none => .ended parse
  | some elm =>
    if parse.cursor.ctx.step % 2 = 1 then parse.member type edx
    else
      match type.synchronize calls edx elm parse.cursor with
      | .returned code cursor => .returned (some code) { parse with cursor := cursor }
      | .ended => .ended parse
      | .found index =>
        { parse with cursor := parse.cursor.step (1 + 2 * index) }.member type index
      | .skipped next cursor => .again next { parse with cursor := cursor }

/-- Phases 3 and 4: everything until the end of the sequence is skipped, and behind the first
terminator nothing but terminators is expected. -/
def leftover (calls : Nat) (type : SequenceType) : Nat → Cursor → Option RvalCode × Cursor
  | 0, cursor => (none, cursor)
  | fuel + 1, cursor =>
    if cursor.ctx.left = 0 then (some .ok, cursor.phase 10)
    else
      match berFetchTag cursor.window with
      | .wantMore => (some cursor.wanting, cursor)
      | .failed => (some .fail, cursor)
      | .fetched _ tl =>
        if cursor.endMark = .part then (some .wmore, cursor)
        else if cursor.endMark = .here then
          leftover calls type fuel (((cursor.advance 2).left (cursor.ctx.left + 1)).phase 4)
        else if ¬type.inExtensionGroup type.elements.length ∨ cursor.ctx.phase = 4 then
          (some .fail, cursor)
        else
          match berSkipLength calls (berTlvConstructed (cursor.rest.headD 0))
              (cursor.window.drop tl) with
          | .wantMore => (some cursor.wanting, cursor)
          | .failed => (some .fail, cursor)
          | .fetched _ ll => leftover calls type fuel (cursor.advance (tl + ll))

/-- Phases 3 and 4, with as many turns as there are bytes left. -/
def finish (calls : Nat) (type : SequenceType) (parse : SequenceParse) :
    Option RvalCode × SequenceParse :=
  let (code, cursor) := leftover calls type (parse.cursor.rest.length + 1) parse.cursor
  (code, { parse with cursor := cursor })

/-- Phase 1, for a number of turns. -/
def elements (calls : Nat) (type : SequenceType) :
    Nat → Nat → SequenceParse → Option RvalCode × SequenceParse
  | 0, _, parse => (none, parse)
  | fuel + 1, edx, parse =>
    match parse.turn calls type edx with
    | .returned code after => (code, after)
    | .again next after => elements calls type fuel next after
    | .ended after => { after with cursor := after.cursor.phase 3 }.finish calls type

/-- Each turn consumes bytes or goes on to the next element, so that these are enough. -/
def fuel (type : SequenceType) (edx : Nat) (parse : SequenceParse) : Nat :=
  parse.cursor.rest.length + (type.elements.length - edx) + 1

end SequenceParse

/-- `SEQUENCE_decode_ber` -/
def sequenceDecodeBer (calls : Nat) (type : SequenceType) (tagMode : Int) (struct : Struct)
    (given : List UInt8) : Outcome Struct :=
  let parse := SequenceParse.load type struct given
  match parse.cursor.ctx.phase with
  | 0 =>
    match parse.cursor.header type.tags tagMode (some true) with
    | (.ok, opened) =>
      let parse := { parse with cursor := opened }
      let (code, after) := parse.elements calls type (parse.fuel type 0) 0
      after.returned code
    | (code, cursor) => { parse with cursor := cursor }.returned code
  | 1 =>
    let edx := parse.cursor.ctx.step / 2
    let (code, after) := parse.elements calls type (parse.fuel type edx) edx
    after.returned code
  | 3 =>
    let (code, after) := parse.finish calls type
    after.returned code
  | 4 =>
    let (code, after) := parse.finish calls type
    after.returned code
  | _ => parse.returned (some .ok)

/-- What is written of a member. One that is not a pointer is there, be it zero. -/
def Member.encode (elm : Member) : Option Value → Option (List UInt8)
  | some value => elm.codec.derEncoder value elm.tagMode elm.tag
  | none =>
    if elm.pointer then if elm.optional ≠ 0 then some [] else none
    else elm.codec.derEncoder elm.codec.zeroed elm.tagMode elm.tag

/-- The members of a sequence, one behind the other. -/
def encodeMembers : List Member → List (Option Value) → Option (List UInt8)
  | [], [] => some []
  | elm :: elements, value :: values => do
    let first ← elm.encode value
    let others ← encodeMembers elements values
    return first ++ others
  | _, _ => none

/-- `SEQUENCE_encode_der` -/
def sequenceEncodeDer (type : SequenceType) (value : Value) (tagMode : Int) (tag : Tag) :
    Option (List UInt8) :=
  match value with
  | .sequence members => do
    let contents ← encodeMembers type.elements members
    return derWriteTags type.tags contents.length tagMode true tag ++ contents
  | _ => none

def sequence (calls : Nat) (type : SequenceType) : Codec where
  tags := type.tags
  zeroed := .sequence (type.elements.map fun elm =>
    if elm.pointer then none else some elm.codec.zeroed)
  berDecoder := sequenceDecodeBer calls type
  derEncoder := sequenceEncodeDer type

/-! ## Elements as a compiler arranges them -/

/-- Every element counts the ones that may be left out from it on, the linear search always
covers these, and no two tags are the same. -/
def Arranged : List Member → Prop
  | [] => True
  | elm :: rest =>
    (elm.optional = 0 ∨ elm.optional = ((rest.head?.map Member.optional).getD 0) + 1) ∧
      (rest.length < elm.optional ∨ elm.optional < 8) ∧
      (∀ other ∈ rest, other.tag ≠ elm.tag) ∧ Arranged rest

/-- Of elements that may all be left out, the first counts them all. -/
theorem Arranged.ends {elm : Member} {rest : List Member} (arranged : Arranged (elm :: rest))
    (optional : ∀ other ∈ elm :: rest, other.optional ≠ 0) :
    elm.optional = rest.length + 1 := by
  induction rest generalizing elm with
  | nil => simpa [optional elm List.mem_cons_self] using arranged.1
  | cons next rest inductionHypothesis =>
    have counted := arranged.1.resolve_left (optional elm List.mem_cons_self)
    have others := inductionHypothesis arranged.2.2.2
      (fun other inside => optional other (List.mem_cons_of_mem elm inside))
    simpa [others] using counted

/-- Elements that are left out are counted by the first of them. -/
theorem Arranged.covers {skipped others : List Member} {elm found : Member}
    {rest : List Member} (arranged : Arranged (elm :: rest))
    (split : elm :: rest = skipped ++ found :: others)
    (optional : ∀ other ∈ skipped, other.optional ≠ 0) : skipped.length ≤ elm.optional := by
  induction skipped generalizing elm rest with
  | nil => exact Nat.zero_le _
  | cons first skipped inductionHypothesis =>
    obtain ⟨rfl, tail⟩ := List.cons.inj split
    have counted := arranged.1.resolve_left (optional elm List.mem_cons_self)
    cases rest with
    | nil => simp at tail
    | cons next rest =>
      have others := inductionHypothesis arranged.2.2.2 tail
        (fun other inside => optional other (List.mem_cons_of_mem elm inside))
      simp only [List.head?_cons, Option.map_some, Option.getD_some] at counted
      rw [List.length_cons]
      omega

theorem Arranged.suffix {before after : List Member} (arranged : Arranged (before ++ after)) :
    Arranged after := by
  induction before with
  | nil => exact arranged
  | cons first rest inductionHypothesis => exact inductionHypothesis arranged.2.2.2

theorem Arranged.distinct {skipped others : List Member} {found : Member}
    (arranged : Arranged (skipped ++ found :: others)) :
    ∀ other ∈ skipped, found.tag ≠ other.tag := by
  induction skipped with
  | nil => nofun
  | cons first skipped inductionHypothesis =>
    intro other inside
    obtain ⟨_, _, apart, rest⟩ := arranged
    rcases List.mem_cons.mp inside with rfl | behind
    · exact apart found (by simp)
    · exact inductionHypothesis rest other behind

/-- The linear search goes past elements of other tags. -/
theorem seek_found (tag : Tag) (index : Nat) (skipped others : List Member) (found : Member)
    (same : found.tag = tag)
    (past : ∀ other ∈ skipped, tag ≠ other.tag ∧ other.openType = false ∧ other.tag ≠ anyTag) :
    SequenceType.seek tag index (skipped ++ found :: others) = .found (index + skipped.length) := by
  induction skipped generalizing index with
  | nil =>
    simp only [List.nil_append, List.length_nil, Nat.add_zero]
    unfold SequenceType.seek
    rw [if_pos same.symm]
  | cons first skipped inductionHypothesis =>
    obtain ⟨apart, closed, tagged⟩ := past first List.mem_cons_self
    rw [List.cons_append]
    unfold SequenceType.seek
    rw [if_neg apart, closed, if_neg (by decide), if_neg tagged,
      inductionHypothesis (index + 1)
        (fun other inside => past other (List.mem_cons_of_mem first inside)), List.length_cons]
    congr 1
    omega

/-- The next member that is there is located by its tag. -/
theorem locate_found (type : SequenceType) (before skipped others : List Member)
    (elm found : Member) (rest : List Member) (all : type.elements = before ++ elm :: rest)
    (split : elm :: rest = skipped ++ found :: others) (arranged : Arranged (elm :: rest))
    (optional : ∀ other ∈ skipped, other.optional ≠ 0)
    (plain : ∀ other ∈ skipped, other.openType = false ∧ other.tag ≠ anyTag) :
    type.locate before.length elm found.tag = some (before.length + skipped.length) := by
  have covers := arranged.covers split optional
  have limit := arranged.2.1
  have apart : ∀ other ∈ skipped, found.tag ≠ other.tag := by
    rw [split] at arranged
    exact arranged.distinct
  have past : ∀ other ∈ skipped, found.tag ≠ other.tag ∧ other.openType = false ∧
      other.tag ≠ anyTag := fun other inside => ⟨apart other inside, plain other inside⟩
  have count : type.elements.length = before.length + (rest.length + 1) := by
    rw [all, List.length_append, List.length_cons]
  have inside : skipped.length < rest.length + 1 := by
    have lengths := congrArg List.length split
    simp only [List.length_append, List.length_cons] at lengths
    omega
  have sought : ∀ width, skipped.length < width →
      SequenceType.seek found.tag before.length ((type.elements.drop before.length).take width) =
        .found (before.length + skipped.length) := by
    intro width wide
    obtain ⟨more, rfl⟩ : ∃ more, width = skipped.length + (more + 1) :=
      ⟨width - skipped.length - 1, by omega⟩
    rw [all, List.drop_left, split, List.take_length_add_append, List.take_succ_cons]
    exact seek_found found.tag before.length skipped _ found rfl past
  unfold SequenceType.locate
  dsimp only
  by_cases capped : type.elements.length < before.length + elm.optional + 1
  · rw [if_pos capped, sought _ (by omega)]
  · have unlimited : ¬(¬type.elements.length < before.length + elm.optional + 1 ∧
        8 < before.length + elm.optional + 1 - before.length) := by omega
    rw [if_neg capped, if_neg unlimited, sought _ (by omega)]

/-! ## A sequence that is written is read back -/

/-- An element with the values it is meant to have. -/
structure Field where
  member : Member
  Valid : Value → Prop

/-- The element has a tag of its own, and its type carries the values behind it. -/
structure Field.Lawful (field : Field) : Prop where
  applied : field.member.tagMode ≠ 0
  plain : field.member.openType = false
  tagged : field.member.tag ≠ anyTag
  lawful : Ber.Lawful field.member.codec field.member.tagMode field.member.tag field.Valid

/-- Every member is valid, or left out where it may be. -/
def FieldsValid : List Field → List (Option Value) → Prop
  | [], [] => True
  | field :: fields, some value :: values => field.Valid value ∧ FieldsValid fields values
  | field :: fields, none :: values =>
    field.member.pointer = true ∧ field.member.optional ≠ 0 ∧ FieldsValid fields values
  | _, _ => False

theorem encodeMembers_total (fields : List Field) (values : List (Option Value))
    (lawful : ∀ field ∈ fields, field.Lawful) (valid : FieldsValid fields values) :
    ∃ encoding, encodeMembers (fields.map Field.member) values = some encoding := by
  induction fields generalizing values with
  | nil =>
    cases values with
    | nil => exact ⟨[], rfl⟩
    | cons value values => exact False.elim valid
  | cons field fields inductionHypothesis =>
    have others := fun values =>
      inductionHypothesis values fun other inside =>
        lawful other (List.mem_cons_of_mem field inside)
    cases values with
    | nil => exact False.elim valid
    | cons value values =>
      cases value with
      | none =>
        obtain ⟨pointer, optional, rest⟩ := valid
        obtain ⟨encoding, encoded⟩ := others values rest
        exact ⟨encoding, by simp [encodeMembers, Member.encode, pointer, optional, encoded]⟩
      | some value =>
        obtain ⟨whole, rest⟩ := valid
        obtain ⟨first, written⟩ := (lawful field List.mem_cons_self).lawful.encodes value whole
        obtain ⟨encoding, encoded⟩ := others values rest
        exact ⟨first ++ encoding, by simp [encodeMembers, Member.encode, written, encoded]⟩

/-- The members that are still to come: all are left out, or some are up to one that is
there. -/
theorem upcoming (fields : List Field) (values : List (Option Value)) (encoding : List UInt8)
    (valid : FieldsValid fields values)
    (encoded : encodeMembers (fields.map Field.member) values = some encoding) :
    (encoding = [] ∧ values = List.replicate fields.length none ∧
      ∀ field ∈ fields, field.member.optional ≠ 0) ∨
    ∃ skipped field others value otherValues first rest,
      fields = skipped ++ field :: others ∧
      values = List.replicate skipped.length none ++ some value :: otherValues ∧
      (∀ other ∈ skipped, other.member.optional ≠ 0) ∧ field.Valid value ∧
      field.member.codec.derEncoder value field.member.tagMode field.member.tag = some first ∧
      FieldsValid others otherValues ∧
      encodeMembers (others.map Field.member) otherValues = some rest ∧
      encoding = first ++ rest := by
  induction fields generalizing values encoding with
  | nil =>
    cases values with
    | nil => exact Or.inl ⟨(Option.some.inj encoded).symm, rfl, nofun⟩
    | cons value values => exact False.elim valid
  | cons field fields inductionHypothesis =>
    cases values with
    | nil => exact False.elim valid
    | cons value values =>
      simp only [encodeMembers, List.map_cons, Option.bind_eq_bind, Option.bind_eq_some_iff,
        Option.pure_def, Option.some.injEq] at encoded
      obtain ⟨first, written, rest, behind, rfl⟩ := encoded
      cases value with
      | some value => exact Or.inr ⟨[], field, fields, value, values, first, rest, rfl, rfl, nofun,
          valid.1, written, valid.2, behind, rfl⟩
      | none =>
        obtain ⟨pointer, optional, others⟩ := valid
        rw [Member.encode, if_pos pointer, if_pos optional] at written
        obtain rfl := Option.some.inj written
        rcases inductionHypothesis values rest others behind with
          ⟨nothing, none, all⟩ | ⟨skipped, found, more, value, otherValues, encodingFirst,
            encodingRest, split, splitValues, some, kept⟩
        · refine Or.inl ⟨nothing, by rw [none]; rfl, fun other inside => ?_⟩
          rcases List.mem_cons.mp inside with rfl | later
          · exact optional
          · exact all other later
        · refine Or.inr ⟨field :: skipped, found, more, value, otherValues, encodingFirst,
            encodingRest, by rw [split]; rfl, by rw [splitValues]; rfl, fun other inside => ?_,
            kept⟩
          rcases List.mem_cons.mp inside with rfl | later
          · exact optional
          · exact some other later

/-- The members before some point are complete, and those from it on are still zero. -/
structure Between (fields : List Field) (values : List (Option Value)) (done todo : List Field)
    (todoValues : List (Option Value)) (finals : List Struct) (remaining : List UInt8)
    (parse : SequenceParse) : Prop where
  fields : fields = done ++ todo
  values : values = finals.map Struct.value ++ todoValues
  length : finals.length = done.length
  members : parse.members = finals ++ List.replicate todo.length .absent
  valid : FieldsValid todo todoValues
  encoded : encodeMembers (todo.map Field.member) todoValues = some remaining
  short : remaining.length + 1024 < 2 ^ 63
  phase : parse.cursor.ctx.phase = 1
  step : parse.cursor.ctx.step = 2 * done.length

/-- The decoder of the member at some point was chosen, and awaits `current`. -/
structure Inside (fields : List Field) (values : List (Option Value)) (done : List Field)
    (field : Field) (others : List Field) (value : Value) (otherValues : List (Option Value))
    (finals : List Struct) (member : Struct) (current rest : List UInt8)
    (parse : SequenceParse) : Prop where
  fields : fields = done ++ field :: others
  values : values = finals.map Struct.value ++ some value :: otherValues
  length : finals.length = done.length
  members : parse.members = finals ++ member :: List.replicate others.length .absent
  awaits : Awaits (field.member.codec.berDecoder field.member.tagMode)
    (fun final => final.value = some value) member current
  nonempty : current ≠ []
  valid : FieldsValid others otherValues
  encoded : encodeMembers (others.map Field.member) otherValues = some rest
  short : rest.length + 1024 < 2 ^ 63
  phase : parse.cursor.ctx.phase = 1
  step : parse.cursor.ctx.step = 2 * done.length + 1

/-- Where the decoder of a sequence stands between two calls, and what it still needs. -/
def Standing (fields : List Field) (values : List (Option Value)) (parse : SequenceParse)
    (remaining : List UInt8) : Prop :=
  parse.cursor.ctx.left = remaining.length ∧
    ((∃ done todo todoValues finals,
        Between fields values done todo todoValues finals remaining parse) ∨
      ∃ done field others value otherValues finals member current rest,
        Inside fields values done field others value otherValues finals member current rest parse ∧
        remaining = current ++ rest)

section Members
variable (calls : Nat) {type : SequenceType} {fields : List Field} {values : List (Option Value)}
  (all : type.elements = fields.map Field.member) (lawful : ∀ field ∈ fields, field.Lawful)
  (arranged : Arranged type.elements)
include all

/-- Once the member is complete, the decoder stands in front of the next one. -/
theorem Inside.completed {done : List Field} {field : Field} {others : List Field}
    {value : Value} {otherValues : List (Option Value)} {finals : List Struct}
    {member final : Struct} {current rest : List UInt8} {parse : SequenceParse}
    (inside : Inside fields values done field others value otherValues finals member current rest
      parse) (settled : final.value = some value)
    (invoked : parse.cursor.invoke field.member.codec field.member.tagMode member =
      (some .ok, final, parse.cursor.advance current.length)) :
    ∃ next, parse.member type done.length = .again (done.length + 1) next ∧
      next.cursor = (parse.cursor.advance current.length).step (2 * (done.length + 1)) ∧
      Between fields values (done ++ [field]) others otherValues (finals ++ [final]) rest next := by
  have elm : type.elements[done.length]? = some field.member := by
    rw [all, inside.fields]
    simp
  have chosen : parse.members.getD done.length .absent = member := by
    rw [inside.members, ← inside.length]
    simp
  have stored : parse.members.set done.length final =
      (finals ++ [final]) ++ List.replicate others.length .absent := by
    rw [inside.members, ← inside.length]
    simp
  have stepped : (parse.cursor.advance current.length).ctx.step / 2 * 2 + 2 =
      2 * (done.length + 1) := by
    simp only [Cursor.advance, inside.step]
    omega
  refine ⟨{ cursor := (parse.cursor.advance current.length).step (2 * (done.length + 1))
            members := parse.members.set done.length final }, ?_, rfl, ?_⟩
  · unfold SequenceParse.member
    rw [elm]
    dsimp only
    rw [chosen, invoked]
    dsimp only
    rw [stepped]
  · exact {
      fields := by rw [inside.fields, List.append_assoc, List.singleton_append]
      values := by
        rw [inside.values, List.map_append, List.append_assoc, List.map_singleton, settled,
          List.singleton_append]
      length := by rw [List.length_append, List.length_append, inside.length]; rfl
      members := stored
      valid := inside.valid
      encoded := inside.encoded
      short := inside.short
      phase := inside.phase
      step := by rw [List.length_append]; rfl }

/-- A member that is all there is completed. -/
theorem Inside.whole {done : List Field} {field : Field} {others : List Field}
    {value : Value} {otherValues : List (Option Value)} {finals : List Struct}
    {member : Struct} {current rest later : List UInt8} {parse : SequenceParse}
    (inside : Inside fields values done field others value otherValues finals member current rest
      parse) (whole : parse.cursor.Whole (current ++ rest) later) :
    ∃ final next, parse.member type done.length = .again (done.length + 1) next ∧
      next.cursor.Whole rest later ∧
      next.cursor.consumed = parse.cursor.consumed + current.length ∧
      Between fields values (done ++ [field]) others otherValues (finals ++ [final]) rest next := by
  obtain ⟨final, invoked, settled⟩ := parse.cursor.invoke_completes whole.window inside.nonempty
    inside.awaits
  obtain ⟨next, turned, cursor, between⟩ := inside.completed all settled invoked
  refine ⟨final, next, turned, ?_, ?_, between⟩
  · rw [cursor]
    exact ⟨whole.advance.left, whole.advance.rest⟩
  · rw [cursor]
    rfl

/-- Of a member that may lack its end, all is taken or its decoder goes on waiting. -/
theorem Inside.part {done : List Field} {field : Field} {others : List Field}
    {value : Value} {otherValues : List (Option Value)} {finals : List Struct}
    {member : Struct} {current rest given missing : List UInt8} {parse : SequenceParse}
    (inside : Inside fields values done field others value otherValues finals member current rest
      parse) (part : parse.cursor.Part given missing) (given_some : given ≠ [])
    (split : given ++ missing = current ++ rest) :
    (∃ behind final next, given = current ++ behind ∧
      parse.member type done.length = .again (done.length + 1) next ∧
      next.cursor.Part behind missing ∧
      next.cursor.consumed = parse.cursor.consumed + current.length ∧
      Between fields values (done ++ [field]) others otherValues (finals ++ [final]) rest next) ∨
    ∃ next awaiting consumed,
      parse.member type done.length = .returned (some .wmore) next ∧
      consumed ≤ given.length ∧ next.cursor.consumed = parse.cursor.consumed + consumed ∧
      next.cursor.ctx.left = ((given ++ missing).drop consumed).length ∧
      Inside fields values done field others value otherValues finals awaiting
        (current.drop consumed) rest next ∧
      (given ++ missing).drop consumed = current.drop consumed ++ rest := by
  rcases split_cases split with ⟨behind, taken, _⟩ | ⟨lacking, unfinished, cut, _⟩
  · left
    obtain ⟨final, invoked, settled⟩ := parse.cursor.invoke_completes
      (part.window.trans taken) inside.nonempty inside.awaits
    obtain ⟨next, turned, cursor, between⟩ := inside.completed all settled invoked
    have advanced := part.advance current.length (by rw [taken, List.length_append]; omega)
    refine ⟨behind, final, next, taken, turned, ?_, ?_, between⟩
    · rw [cursor]
      rw [taken, List.drop_left] at advanced
      exact ⟨advanced.left, advanced.rest, advanced.lacking⟩
    · rw [cursor]
      rfl
  · right
    have awaits := inside.awaits
    rw [cut] at awaits
    obtain ⟨awaiting, consumed, invoked, few, kept⟩ := parse.cursor.invoke_waits part.window
      part.admitted given_some unfinished awaits
    rw [← cut] at kept
    have elm : type.elements[done.length]? = some field.member := by
      rw [all, inside.fields]
      simp
    have chosen : parse.members.getD done.length .absent = member := by
      rw [inside.members, ← inside.length]
      simp
    have stored : parse.members.set done.length awaiting =
        finals ++ awaiting :: List.replicate others.length .absent := by
      rw [inside.members, ← inside.length]
      simp
    have more := List.length_pos_iff.mpr unfinished
    have inner : consumed < current.length := by
      rw [cut, List.length_append]
      omega
    have advanced := part.advance consumed few
    refine ⟨{ cursor := parse.cursor.advance consumed
              members := parse.members.set done.length awaiting },
      awaiting, consumed, ?_, few, rfl, ?_, ?_, ?_⟩
    · unfold SequenceParse.member
      rw [elm]
      dsimp only
      rw [chosen, invoked]
    · rw [advanced.left, List.drop_append_of_le_length few]
    · exact {
        fields := inside.fields
        values := inside.values
        length := inside.length
        members := stored
        awaits := kept
        nonempty := by
          intro nothing
          have length := congrArg List.length nothing
          rw [List.length_drop] at length
          simp only [List.length_nil] at length
          omega
        valid := inside.valid
        encoded := inside.encoded
        short := inside.short
        phase := inside.phase
        step := inside.step }
    · rw [split, List.drop_append_of_le_length (by omega)]

include lawful arranged in
/-- Where the tag of the next member is read, this member is the one that is chosen. -/
theorem Between.turn {done skipped others : List Field} {field : Field} {value : Value}
    {otherValues : List (Option Value)} {finals : List Struct} {first rest : List UInt8}
    {parse : SequenceParse}
    (between : Between fields values done (skipped ++ field :: others)
      (List.replicate skipped.length none ++ some value :: otherValues) finals (first ++ rest)
      parse)
    (optional : ∀ other ∈ skipped, other.member.optional ≠ 0) (valid : field.Valid value)
    (written : field.member.codec.derEncoder value field.member.tagMode field.member.tag =
      some first) (othersValid : FieldsValid others otherValues)
    (encoded : encodeMembers (others.map Field.member) otherValues = some rest)
    (left : 0 < parse.cursor.ctx.left)
    (tagged : ∃ length, berFetchTag parse.cursor.window = .fetched field.member.tag length) :
    ∃ stepped, parse.turn calls type done.length =
        stepped.member type (done ++ skipped).length ∧
      stepped.cursor = parse.cursor.step (2 * (done ++ skipped).length + 1) ∧
      Inside fields values (done ++ skipped) field others value otherValues
        (finals ++ List.replicate skipped.length .absent) .absent first rest stepped := by
  obtain ⟨length, read⟩ := tagged
  have elements : type.elements =
      done.map Field.member ++ (skipped ++ field :: others).map Field.member := by
    rw [all, between.fields, List.map_append]
  obtain ⟨elm, later, cons⟩ : ∃ elm later,
      (skipped ++ field :: others).map Field.member = elm :: later := by
    cases skipped with
    | nil => exact ⟨_, _, rfl⟩
    | cons head tail => exact ⟨_, _, rfl⟩
  have split : elm :: later =
      skipped.map Field.member ++ field.member :: others.map Field.member := by
    rw [← cons, List.map_append, List.map_cons]
  rw [cons] at elements
  have current : type.elements[done.length]? = some elm := by
    rw [elements, ← List.length_map Field.member]
    simp
  have fieldIn : ∀ other ∈ skipped ++ field :: others, other.Lawful := fun other inside =>
    lawful other (by rw [between.fields]; exact List.mem_append_right done inside)
  have located : type.locate done.length elm field.member.tag =
      some (done.length + skipped.length) := by
    have found := locate_found type (done.map Field.member) (skipped.map Field.member)
      (others.map Field.member) elm field.member later elements split
      (elements ▸ arranged : Arranged (_ ++ elm :: later)).suffix
      (by
        intro other inside
        obtain ⟨origin, there, rfl⟩ := List.mem_map.mp inside
        exact optional origin there)
      (by
        intro other inside
        obtain ⟨origin, there, rfl⟩ := List.mem_map.mp inside
        have known := fieldIn origin (List.mem_append_left _ there)
        exact ⟨known.plain, known.tagged⟩)
    simpa only [List.length_map] using found
  have fieldLawful := fieldIn field (by simp)
  obtain ⟨outmost, begins, same⟩ := fieldLawful.lawful.begins value first valid written
  have shorter := between.short
  rw [List.length_append] at shorter
  refine ⟨{ parse with cursor := parse.cursor.step (2 * (done ++ skipped).length + 1) }, ?_, rfl,
    ?_⟩
  · have noEnd : parse.cursor.endMark = .other := if_pos (by omega)
    unfold SequenceParse.turn
    rw [current]
    dsimp only
    rw [if_neg (by rw [between.step]; omega), SequenceType.synchronize,
      if_neg (by rintro ⟨zero, _⟩; omega), read]
    dsimp only
    rw [noEnd, if_neg (by decide), if_neg (by simp), located, List.length_append]
    dsimp only
    rw [Nat.add_comm 1]
  · exact {
      fields := by rw [between.fields, List.append_assoc]
      values := by
        rw [between.values, List.map_append, List.map_replicate, List.append_assoc]
        rfl
      length := by simp [between.length]
      members := by
        rw [between.members, List.length_append, List.length_cons, List.replicate_add,
          List.replicate_succ, List.append_assoc]
      awaits := fieldLawful.lawful.resumes value first valid written (by omega)
      nonempty := begins.nonempty
      valid := othersValid
      encoded := encoded
      short := by omega
      phase := between.phase
      step := rfl }

include arranged in
/-- Where nothing is left and all members to come may be left out, the sequence ends. -/
theorem Between.ended {done todo : List Field} {todoValues : List (Option Value)}
    {finals : List Struct} {later : List UInt8} {parse : SequenceParse} (fuel : Nat)
    (between : Between fields values done todo todoValues finals [] parse)
    (none : todoValues = List.replicate todo.length none)
    (optional : ∀ field ∈ todo, field.member.optional ≠ 0)
    (whole : parse.cursor.Whole [] later) :
    ∃ after, parse.elements calls type (fuel + 1) done.length = (some .ok, after) ∧
      after.cursor.consumed = parse.cursor.consumed ∧
      after.members.map Struct.value = values := by
  have zero : parse.cursor.ctx.left = 0 := whole.left
  have held : parse.members.map Struct.value = values := by
    rw [between.members, between.values, none, List.map_append, List.map_replicate]
    rfl
  unfold SequenceParse.elements SequenceParse.turn
  cases todo with
  | nil =>
    have beyond : type.elements[done.length]? = Option.none := by
      rw [all, between.fields]
      simp
    rw [beyond]
    have stopped : SequenceParse.leftover calls type
        (({ parse with cursor := parse.cursor.phase 3 } : SequenceParse).cursor.rest.length + 1)
          (parse.cursor.phase 3) = (some .ok, (parse.cursor.phase 3).phase 10) := by
      unfold SequenceParse.leftover
      exact if_pos zero
    dsimp only
    rw [SequenceParse.finish, stopped]
    exact ⟨_, rfl, rfl, held⟩
  | cons field others =>
    have current : type.elements[done.length]? = some field.member := by
      rw [all, between.fields]
      simp
    have ends : type.mayEnd done.length field.member := by
      left
      have whole : type.elements =
          done.map Field.member ++ field.member :: others.map Field.member := by
        rw [all, between.fields, List.map_append, List.map_cons]
      rw [whole] at arranged
      have counted := arranged.suffix.ends (by
        intro other inside
        rcases List.mem_cons.mp inside with rfl | behind
        · exact optional field List.mem_cons_self
        · obtain ⟨origin, there, rfl⟩ := List.mem_map.mp behind
          exact optional origin (List.mem_cons_of_mem field there))
      rw [counted, whole]
      simp
    rw [current]
    dsimp only
    rw [if_neg (by rw [between.step]; omega), SequenceType.synchronize, if_pos ⟨zero, ends⟩]
    exact ⟨_, rfl, rfl, held⟩

include lawful arranged in
/-- From between two members to the end of a sequence that is all there. -/
theorem Between.delivers (fuel : Nat) {done todo : List Field}
    {todoValues : List (Option Value)} {finals : List Struct} {remaining later : List UInt8}
    {parse : SequenceParse}
    (between : Between fields values done todo todoValues finals remaining parse)
    (whole : parse.cursor.Whole remaining later) (enough : todo.length < fuel) :
    ∃ after, parse.elements calls type fuel done.length = (some .ok, after) ∧
      after.cursor.consumed = parse.cursor.consumed + remaining.length ∧
      after.members.map Struct.value = values := by
  induction fuel generalizing done todo todoValues finals remaining parse with
  | zero => omega
  | succ fuel inductionHypothesis =>
    rcases upcoming todo todoValues remaining between.valid between.encoded with
      ⟨rfl, none, optional⟩ | ⟨skipped, field, others, value, otherValues, first, rest, rfl, rfl,
        optional, valid, written, othersValid, encoded, rfl⟩
    · exact between.ended calls all arranged fuel none optional whole
    · have fieldLawful := lawful field (by rw [between.fields]; simp)
      obtain ⟨outmost, begins, same⟩ := fieldLawful.lawful.begins value first valid written
      obtain rfl := same fieldLawful.applied
      have positive := List.length_pos_iff.mpr begins.nonempty
      have left := whole.left
      rw [List.length_append] at left
      obtain ⟨stepped, turned, cursor, inside⟩ := between.turn calls all lawful arranged
        optional valid written othersValid encoded (by omega)
        (by rw [whole.window]; exact begins.whole rest)
      have standing : stepped.cursor.Whole (first ++ rest) later := by
        rw [cursor]
        exact ⟨whole.left, whole.rest⟩
      obtain ⟨final, next, completed, ahead, consumed, kept⟩ := inside.whole all standing
      have fewer : others.length < fuel := by
        simp only [List.length_append, List.length_cons] at enough
        omega
      obtain ⟨after, ended, total, result⟩ := inductionHypothesis kept ahead fewer
      refine ⟨after, ?_, ?_, result⟩
      · rw [SequenceParse.elements, turned, completed]
        rw [List.length_append, List.length_singleton] at ended
        exact ended
      · rw [total, consumed, cursor]
        simp only [Cursor.step, List.length_append]
        omega

/-- What the call that starts with these members comes to: it waits, and the bytes that were
not consumed are shown to it again. -/
def Waits (calls : Nat) (type : SequenceType) (fields : List Field)
    (values : List (Option Value)) (fuel edx : Nat) (parse : SequenceParse)
    (given remaining : List UInt8) : Prop :=
  ∃ after consumed, parse.elements calls type fuel edx = (some .wmore, after) ∧
    after.cursor.consumed = parse.cursor.consumed + consumed ∧ consumed ≤ given.length ∧
    Standing fields values after (remaining.drop consumed)

omit all in
/-- A member that was completed on the way counts for what was consumed. -/
theorem waits_behind {fuel edx next : Nat} {parse middle : SequenceParse}
    {current behind missing : List UInt8}
    (turned : parse.turn calls type edx = .again next middle)
    (consumed : middle.cursor.consumed = parse.cursor.consumed + current.length)
    (waits : Waits calls type fields values fuel next middle behind (behind ++ missing)) :
    Waits calls type fields values (fuel + 1) edx parse (current ++ behind)
      (current ++ behind ++ missing) := by
  obtain ⟨after, more, ended, total, few, standing⟩ := waits
  refine ⟨after, current.length + more, ?_, by omega, by rw [List.length_append]; omega, ?_⟩
  · rw [SequenceParse.elements, turned]
    exact ended
  · rwa [List.append_assoc, ← List.drop_drop, List.drop_left]

include lawful arranged in
/-- From between two members, when the end of the sequence is missing. -/
theorem Between.waits (fuel : Nat) {done todo : List Field}
    {todoValues : List (Option Value)} {finals : List Struct} {given missing : List UInt8}
    {parse : SequenceParse}
    (between : Between fields values done todo todoValues finals (given ++ missing) parse)
    (part : parse.cursor.Part given missing) (enough : todo.length < fuel) :
    Waits calls type fields values fuel done.length parse given (given ++ missing) := by
  induction fuel generalizing done todo todoValues finals given parse with
  | zero => omega
  | succ fuel inductionHypothesis =>
    rcases upcoming todo todoValues _ between.valid between.encoded with
      ⟨nothing, _, _⟩ | ⟨skipped, field, others, value, otherValues, first, rest, rfl, rfl,
        optional, valid, written, othersValid, encoded, split⟩
    · exact False.elim (part.lacking (List.append_eq_nil_iff.mp nothing).2)
    · have fieldLawful := lawful field (by rw [between.fields]; simp)
      obtain ⟨outmost, begins, same⟩ := fieldLawful.lawful.begins value first valid written
      obtain rfl := same fieldLawful.applied
      have more := List.length_pos_iff.mpr part.lacking
      have left := part.left
      rw [List.length_append] at left
      have whole := begins.append rest
      rw [← split] at whole
      rcases whole.part with starved | tagged
      · -- Not even the tag is there: the next call looks for it again.
        obtain ⟨elm, current⟩ : ∃ elm, type.elements[done.length]? = some elm := by
          rw [all, between.fields]
          cases skipped with
          | nil => exact ⟨field.member, by simp⟩
          | cons head tail => exact ⟨head.member, by simp⟩
        refine ⟨parse, 0, ?_, rfl, Nat.zero_le _, by rw [List.drop_zero]; exact part.left,
          Or.inl ⟨done, _, _, finals, by rw [List.drop_zero]; exact between⟩⟩
        rw [SequenceParse.elements, SequenceParse.turn, current]
        dsimp only
        rw [if_neg (by rw [between.step]; omega), SequenceType.synchronize,
          if_neg (by rintro ⟨zero, _⟩; omega), part.window, starved]
        dsimp only
        rw [part.wanting]
      · rw [split] at between
        obtain ⟨stepped, turned, cursor, inside⟩ := between.turn calls all lawful
          arranged optional valid written othersValid encoded (by omega)
          (by rw [part.window]; exact tagged)
        have standing : stepped.cursor.Part given missing := by
          rw [cursor]
          exact ⟨part.left, part.rest, part.lacking⟩
        have shown : given ≠ [] := by
          rintro rfl
          obtain ⟨length, read⟩ := tagged
          cases read
        have started : stepped.cursor.consumed = parse.cursor.consumed := by
          rw [cursor]
          rfl
        rcases inside.part all standing shown split with
          ⟨behind, final, next, rfl, completed, ahead, consumed, kept⟩ |
          ⟨next, awaiting, consumed, waiting, few, total, after, kept, unread⟩
        · have fewer : others.length < fuel := by
            simp only [List.length_append, List.length_cons] at enough
            omega
          rw [List.append_assoc, List.append_cancel_left_eq] at split
          rw [← split] at kept
          have waits := inductionHypothesis kept ahead fewer
          rw [List.length_append, List.length_singleton] at waits
          exact waits_behind calls (turned.trans completed) (by rw [consumed, started]) waits
        · refine ⟨next, consumed, ?_, by rw [total, started], few, after,
            Or.inr ⟨_, _, _, _, _, _, _, _, _, kept, unread⟩⟩
          rw [SequenceParse.elements, turned, waiting]

end Members

/-- The values of a sequence of these fields. -/
def SequenceValid (fields : List Field) : Value → Prop
  | .sequence values => FieldsValid fields values
  | _ => False

/-- Nothing was read of the sequence yet. -/
def SequenceFresh (type : SequenceType) (struct : Struct) : Prop :=
  struct = .absent ∨ struct = .sequence .zero (List.replicate type.elements.length .absent)

theorem SequenceFresh.load {type : SequenceType} {struct : Struct}
    (fresh : SequenceFresh type struct) (given : List UInt8) :
    SequenceParse.load type struct given =
      { cursor := ⟨given, 0, .zero⟩, members := List.replicate type.elements.length .absent } := by
  rcases fresh with rfl | rfl <;> rfl

/-- How far the decoder of a sequence got, and what it still needs. -/
def SequenceNeeds (type : SequenceType) (fields : List Field) (values : List (Option Value))
    (header contents : List UInt8) (struct : Struct) (rest : List UInt8) : Prop :=
  SequenceFresh type struct ∧ rest = header ++ contents ∨
    ∃ parse, struct = parse.struct ∧ Standing fields values parse rest

/-- The structure with the bytes of the next call in front of it. -/
def SequenceParse.shown (parse : SequenceParse) (given : List UInt8) : SequenceParse :=
  { parse with cursor := ⟨given, 0, parse.cursor.ctx⟩ }

/-- Phase 1 goes on with the element that the step tells. -/
theorem sequence_resumed (calls : Nat) (type : SequenceType) (tagMode : Int)
    (parse : SequenceParse) (given : List UInt8) (edx : Nat)
    (phase : parse.cursor.ctx.phase = 1) (step : parse.cursor.ctx.step / 2 = edx)
    {code : Option RvalCode} {after : SequenceParse}
    (reached : (parse.shown given).elements calls type ((parse.shown given).fuel type edx) edx =
      (code, after)) :
    sequenceDecodeBer calls type tagMode parse.struct given = after.returned code := by
  have loaded : SequenceParse.load type parse.struct given = parse.shown given := rfl
  have same : (parse.shown given).cursor.ctx = parse.cursor.ctx := rfl
  unfold sequenceDecodeBer
  rw [loaded]
  simp only [same, phase, step, reached]

/-- Phase 0 goes on with the first element. -/
theorem sequence_started (calls : Nat) (type : SequenceType) (tagMode : Int) {struct : Struct}
    (fresh : SequenceFresh type struct) (given : List UInt8) {opened : Cursor}
    (accepted : Cursor.header type.tags tagMode (some true) ⟨given, 0, .zero⟩ = (.ok, opened))
    {parse : SequenceParse} (started : parse =
      { cursor := opened, members := List.replicate type.elements.length .absent })
    {code : Option RvalCode} {after : SequenceParse}
    (reached : parse.elements calls type (parse.fuel type 0) 0 = (code, after)) :
    sequenceDecodeBer calls type tagMode struct given = after.returned code := by
  rw [started] at reached
  unfold sequenceDecodeBer
  rw [fresh.load]
  simp only [Ctx.zero] at accepted ⊢
  simp only [accepted, reached]

section Lawful
variable (calls : Nat) {type : SequenceType} {fields : List Field}
  (all : type.elements = fields.map Field.member) (lawful : ∀ field ∈ fields, field.Lawful)
  (arranged : Arranged type.elements)
include all

/-- The member that was chosen is decoded at once. -/
theorem Inside.turn {values : List (Option Value)} {done : List Field} {field : Field}
    {others : List Field} {value : Value} {otherValues : List (Option Value)}
    {finals : List Struct} {member : Struct} {current rest : List UInt8} {parse : SequenceParse}
    (inside : Inside fields values done field others value otherValues finals member current rest
      parse) : parse.turn calls type done.length = parse.member type done.length := by
  have elm : type.elements[done.length]? = some field.member := by
    rw [all, inside.fields]
    simp
  rw [SequenceParse.turn, elm]
  dsimp only
  rw [if_pos (by rw [inside.step]; omega)]

include lawful arranged

/-- In phase 1 all that is needed completes the sequence. -/
theorem standing_delivers {values : List (Option Value)} (parse : SequenceParse)
    (rest later : List UInt8) (standing : Standing fields values parse rest) (tagMode : Int) :
    ∃ final, sequenceDecodeBer calls type tagMode parse.struct (rest ++ later) =
      .done final rest.length ∧ final.value = some (.sequence values) := by
  obtain ⟨left, stands⟩ := standing
  have whole : (parse.shown (rest ++ later)).cursor.Whole rest later := ⟨left, rfl⟩
  have size : (parse.shown (rest ++ later)).cursor.consumed = 0 := rfl
  have result : ∀ after : SequenceParse, after.members.map Struct.value = values →
      after.struct.value = some (.sequence values) := fun after held => by
    rw [SequenceParse.struct, Struct.value, memberValues_eq_map, held]
  rcases stands with ⟨done, todo, todoValues, finals, between⟩ |
    ⟨done, field, others, value, otherValues, finals, member, current, tail, inside, rfl⟩
  · have here : Between fields values done todo todoValues finals rest
        (parse.shown (rest ++ later)) := { between with }
    have room : type.elements.length = done.length + todo.length := by
      rw [all, here.fields, List.length_map, List.length_append]
    obtain ⟨after, reached, consumed, held⟩ := here.delivers calls all lawful arranged
      ((parse.shown (rest ++ later)).fuel type done.length) whole
      (by unfold SequenceParse.fuel; omega)
    refine ⟨after.struct, ?_, result after held⟩
    rw [sequence_resumed calls type tagMode parse _ done.length between.phase
      (by rw [between.step]; omega) reached, SequenceParse.returned, Cursor.returned, consumed,
      size, Nat.zero_add]
  · have here : Inside fields values done field others value otherValues finals member current
        tail (parse.shown (current ++ tail ++ later)) := { inside with }
    have room : type.elements.length = done.length + (others.length + 1) := by
      rw [all, here.fields, List.length_map, List.length_append, List.length_cons]
    obtain ⟨final, next, completed, ahead, consumed, between⟩ := here.whole all whole
    have forward : (done ++ [field]).length = done.length + 1 := List.length_append
    obtain ⟨after, reached, total, held⟩ := between.delivers calls all lawful arranged
      _ ahead (show others.length < (parse.shown (current ++ tail ++ later)).cursor.rest.length +
        (type.elements.length - done.length) by omega)
    rw [forward] at reached
    have ended : (parse.shown (current ++ tail ++ later)).elements calls type
        ((parse.shown (current ++ tail ++ later)).fuel type done.length) done.length =
          (some .ok, after) := by
      rw [SequenceParse.fuel, SequenceParse.elements, here.turn calls all, completed]
      exact reached
    refine ⟨after.struct, ?_, result after held⟩
    rw [sequence_resumed calls type tagMode parse _ done.length inside.phase
      (by rw [inside.step]; omega) ended, SequenceParse.returned,
      Cursor.returned, total, consumed, size, Nat.zero_add, List.length_append]

/-- In phase 1, while the end is missing, the sequence goes on waiting. -/
theorem standing_waits {values : List (Option Value)} (parse : SequenceParse)
    (given missing : List UInt8) (standing : Standing fields values parse (given ++ missing))
    (someGiven : given ≠ []) (someMissing : missing ≠ []) (tagMode : Int) :
    ∃ next consumed, sequenceDecodeBer calls type tagMode parse.struct given =
        .more (SequenceParse.struct next) consumed ∧ consumed ≤ given.length ∧
      Standing fields values next ((given ++ missing).drop consumed) := by
  obtain ⟨left, stands⟩ := standing
  have part : (parse.shown given).cursor.Part given missing := ⟨left, rfl, someMissing⟩
  have size : (parse.shown given).cursor.consumed = 0 := rfl
  have finished : ∀ edx, Waits calls type fields values ((parse.shown given).fuel type edx) edx
        (parse.shown given) given (given ++ missing) → parse.cursor.ctx.phase = 1 →
      parse.cursor.ctx.step / 2 = edx →
      ∃ next consumed, sequenceDecodeBer calls type tagMode parse.struct given =
          .more (SequenceParse.struct next) consumed ∧ consumed ≤ given.length ∧
        Standing fields values next ((given ++ missing).drop consumed) := by
    rintro edx ⟨after, consumed, reached, total, few, kept⟩ phase step
    refine ⟨after, consumed, ?_, few, kept⟩
    rw [sequence_resumed calls type tagMode parse given edx phase step reached,
      SequenceParse.returned, Cursor.returned, total, size, Nat.zero_add]
  rcases stands with ⟨done, todo, todoValues, finals, between⟩ |
    ⟨done, field, others, value, otherValues, finals, member, current, tail, inside, split⟩
  · have here : Between fields values done todo todoValues finals (given ++ missing)
        (parse.shown given) := { between with }
    have room : type.elements.length = done.length + todo.length := by
      rw [all, here.fields, List.length_map, List.length_append]
    exact finished done.length (here.waits calls all lawful arranged
      ((parse.shown given).fuel type done.length) part (by unfold SequenceParse.fuel; omega))
      between.phase (by rw [between.step]; omega)
  · have here : Inside fields values done field others value otherValues finals member current
        tail (parse.shown given) := { inside with }
    have room : type.elements.length = done.length + (others.length + 1) := by
      rw [all, here.fields, List.length_map, List.length_append, List.length_cons]
    refine finished done.length ?_ inside.phase (by rw [inside.step]; omega)
    rcases here.part all part someGiven split with
      ⟨behind, final, next, rfl, completed, ahead, consumed, kept⟩ |
      ⟨next, awaiting, consumed, waiting, few, total, after, kept, unread⟩
    · rw [List.append_assoc, List.append_cancel_left_eq] at split
      rw [← split] at kept
      have forward : (done ++ [field]).length = done.length + 1 := List.length_append
      have waits := kept.waits calls all lawful arranged _ ahead
        (show others.length < (parse.shown (current ++ behind)).cursor.rest.length +
          (type.elements.length - done.length) by omega)
      rw [forward] at waits
      exact waits_behind calls ((here.turn calls all).trans completed) consumed waits
    · refine ⟨next, consumed, ?_, total, few, after,
        Or.inr ⟨_, _, _, _, _, _, _, _, _, kept, unread⟩⟩
      rw [SequenceParse.fuel, SequenceParse.elements, here.turn calls all, waiting]

variable {tagMode : Int} {tag : Nat} (single : SingleTag type.tags tagMode tag)
  (bound : tag < 2 ^ 32)
include single bound

omit lawful arranged in
/-- Behind a whole header the sequence stands in front of its first member. -/
theorem sequence_opened {values : List (Option Value)} (contents later : List UInt8)
    (fits : contents.length + 1024 < 2 ^ 63) (valid : FieldsValid fields values)
    (encoded : encodeMembers type.elements values = some contents) :
    ∃ opened, Cursor.header type.tags tagMode (some true)
          ⟨derWriteTL tag contents.length true ++ later, 0, .zero⟩ = (.ok, opened) ∧
      opened.consumed = (derWriteTL tag contents.length true).length ∧ opened.rest = later ∧
      opened.ctx.left = (contents.length : Int) ∧
      Between fields values [] fields values [] contents
        { cursor := opened, members := List.replicate type.elements.length .absent } := by
  obtain ⟨opened, accepted, consumed, ctx, rest⟩ := Cursor.header_whole single bound (some true)
    (fun _ same => (Option.some.inj same).symm) contents later fits
    ⟨derWriteTL tag contents.length true ++ later, 0, .zero⟩ rfl rfl
  refine ⟨opened, accepted, consumed.trans (Nat.zero_add _), rest, by rw [ctx], ?_⟩
  exact {
    fields := rfl
    values := rfl
    length := rfl
    members := by rw [all, List.length_map]; rfl
    valid := valid
    encoded := by rw [← all]; exact encoded
    short := fits
    phase := by rw [ctx]; rfl
    step := by rw [ctx]; rfl }

theorem sequence_resumes {values : List (Option Value)} (contents : List UInt8)
    (fits : contents.length + 1024 < 2 ^ 63) (valid : FieldsValid fields values)
    (encoded : encodeMembers type.elements values = some contents) :
    Resumes (sequenceDecodeBer calls type tagMode)
      (fun final => final.value = some (.sequence values))
      (SequenceNeeds type fields values (derWriteTL tag contents.length true) contents) where
  completes := by
    rintro struct rest later (⟨fresh, rfl⟩ | ⟨parse, rfl, standing⟩) _
    · obtain ⟨opened, accepted, consumed, behind, left, between⟩ := sequence_opened all single
        bound contents (contents ++ later) fits valid encoded
      obtain ⟨after, reached, total, held⟩ := between.delivers calls all lawful arranged
        (SequenceParse.fuel type 0
          { cursor := opened, members := List.replicate type.elements.length .absent })
        (show opened.Whole contents later from ⟨left, behind⟩)
        (by rw [SequenceParse.fuel, all, List.length_map]; omega)
      refine ⟨after.struct, ?_, by
        rw [SequenceParse.struct, Struct.value, memberValues_eq_map, held]⟩
      rw [List.append_assoc, sequence_started calls type tagMode fresh _ accepted rfl reached,
        SequenceParse.returned, Cursor.returned, total, consumed, List.length_append]
    · exact standing_delivers calls all lawful arranged parse rest later standing tagMode
  waits := by
    rintro struct given missing (⟨fresh, split⟩ | ⟨parse, rfl, standing⟩) someGiven someMissing
    · rcases split_cases split with ⟨behind, rfl, whole⟩ | ⟨lacking, unfinished, header, _⟩
      · obtain ⟨opened, accepted, consumed, rest, left, between⟩ := sequence_opened all single
          bound contents behind fits valid encoded
        rw [whole] at between left
        obtain ⟨after, more, reached, total, few, kept⟩ := between.waits calls all lawful arranged
          (SequenceParse.fuel type 0
            { cursor := opened, members := List.replicate type.elements.length .absent })
          (show opened.Part behind missing from ⟨left, rest, someMissing⟩)
          (by rw [SequenceParse.fuel, all, List.length_map]; omega)
        refine ⟨after.struct, (derWriteTL tag contents.length true).length + more, ?_, ?_,
          Or.inr ⟨after, rfl, ?_⟩⟩
        · rw [sequence_started calls type tagMode fresh _ accepted rfl reached,
            SequenceParse.returned, Cursor.returned, total, consumed]
        · rw [List.length_append]
          omega
        · rwa [List.append_assoc, ← List.drop_drop, List.drop_left]
      · have refused := Cursor.header_part single bound (some true)
          (fun _ same => (Option.some.inj same).symm) contents.length fits ⟨given, 0, .zero⟩ rfl
          lacking header unfinished
        refine ⟨.sequence .zero (List.replicate type.elements.length .absent), 0, ?_,
          Nat.zero_le _, Or.inl ⟨Or.inr rfl, by rw [List.drop_zero, split]⟩⟩
        unfold sequenceDecodeBer
        rw [fresh.load]
        simp only [Ctx.zero] at refused ⊢
        simp only [refused]
        rfl
    · obtain ⟨next, consumed, waiting, few, kept⟩ := standing_waits calls all lawful arranged
        parse given missing standing someGiven someMissing tagMode
      exact ⟨next.struct, consumed, waiting, few, Or.inr ⟨next, rfl, kept⟩⟩

/-- A sequence carries the values whose members its elements carry.

Proof: encoding is total on valid values and starts with the tag. Decoding is followed over
the members: from the point where some were read, the decoder awaits the encoding of those
that are left, through a member that was cut. -/
theorem sequence_carries : Lawful (sequence calls type) tagMode tag (SequenceValid fields) where
  encodes value valid := by
    cases value with
    | sequence values =>
      obtain ⟨contents, encoded⟩ := encodeMembers_total fields values lawful valid
      rw [← all] at encoded
      exact ⟨_, by simp [sequence, sequenceEncodeDer, encoded]; rfl⟩
    | _ => exact False.elim valid
  begins value encoding valid encoded := by
    cases value with
    | sequence values =>
      simp only [sequence, sequenceEncodeDer, Option.bind_eq_bind, Option.bind_eq_some_iff,
        Option.pure_def, Option.some.injEq] at encoded
      obtain ⟨contents, _, rfl⟩ := encoded
      rw [single.written tag (fun _ => rfl)]
      exact ⟨tag, begins_header tag _ true _ bound, fun _ => rfl⟩
    | _ => exact False.elim valid
  resumes value encoding valid encoded fits := by
    cases value with
    | sequence values =>
      simp only [sequence, sequenceEncodeDer, Option.bind_eq_bind, Option.bind_eq_some_iff,
        Option.pure_def, Option.some.injEq] at encoded
      obtain ⟨contents, written, rfl⟩ := encoded
      rw [single.written tag (fun _ => rfl)] at fits ⊢
      rw [List.length_append] at fits
      exact ⟨_, sequence_resumes calls all lawful arranged single bound contents (by omega) valid
        written, Or.inl ⟨Or.inl rfl, rfl⟩⟩
    | _ => exact False.elim valid

/-- A sequence of any members is read back as it was written, however the bytes are cut. -/
theorem sequence_lawful : Lawful (sequence calls type) tagMode tag (SequenceValid fields) :=
  sequence_carries calls all lawful arranged single bound

end Lawful

/-! ## Any bytes -/

theorem seek_least (tag : Tag) (index found : Nat) (elements : List Member)
    (sought : SequenceType.seek tag index elements = .found found) : index ≤ found := by
  induction elements generalizing index with
  | nil => cases sought
  | cons elm rest inductionHypothesis =>
    unfold SequenceType.seek at sought
    split at sought
    · cases sought
      exact Nat.le_refl _
    · split at sought
      · cases sought
        exact Nat.le_refl _
      · split at sought
        · cases sought
        · exact Nat.le_of_succ_le (inductionHypothesis (index + 1) sought)

theorem sortedSearch_least {type : SequenceType} {edx index : Nat} {elm : Member} {tag : Tag}
    (found : type.sortedSearch edx elm tag = some index) : edx ≤ index := by
  simp only [SequenceType.sortedSearch, Option.bind_eq_bind, Option.bind_eq_some_iff,
    Option.pure_def, Option.some.injEq] at found
  obtain ⟨_, _, _, _, best, last, rfl⟩ := found
  simpa using (List.mem_filter.mp (List.mem_of_getLast? last)).2

/-- Elements that were passed are not gone back to. -/
theorem locate_least {type : SequenceType} {edx index : Nat} {elm : Member} {tag : Tag}
    (found : type.locate edx elm tag = some index) : edx ≤ index := by
  unfold SequenceType.locate at found
  dsimp only at found
  split at found
  · next sought =>
    cases found
    exact seek_least _ _ _ _ sought
  · exact sortedSearch_least found
  · split at found
    · exact sortedSearch_least found
    · cases found

/-- Every member is one that the decoder of its element keeps inside its bytes. -/
def MembersFormed (type : SequenceType) (members : List Struct) : Prop :=
  ∀ index elm, type.elements[index]? = some elm →
    ResumableDecoders.Confined (elm.codec.berDecoder elm.tagMode) Unterminated
      (members.getD index .absent)

theorem MembersFormed.set {type : SequenceType} {members : List Struct}
    (formed : MembersFormed type members) (index : Nat) (elm : Member) (member : Struct)
    (there : type.elements[index]? = some elm)
    (confined : ResumableDecoders.Confined (elm.codec.berDecoder elm.tagMode) Unterminated
      member) : MembersFormed type (members.set index member) := by
  intro other second found
  by_cases same : index = other
  · subst same
    obtain rfl := Option.some.inj (there.symm.trans found)
    by_cases long : index < members.length
    · simpa [List.getD, List.getElem?_set, long] using confined
    · have unset : members.set index member = members :=
        List.set_eq_of_length_le (Nat.le_of_not_lt long)
      rw [unset]
      exact formed index elm there
  · have apart : (members.set index member).getD other .absent = members.getD other .absent := by
      simp [List.getD, same]
    rw [apart]
    exact formed other second found

section Sound
variable (calls : Nat) (type : SequenceType) {size : Nat}

/-- What a turn over the elements leaves. Another one is nearer to the end. -/
def SequenceParse.Turn.Sound (type : SequenceType) (size edx : Nat) (before : SequenceParse) :
    SequenceParse.Turn → Prop
  | .returned code after => after.cursor.Accounts size ∧ MembersFormed type after.members ∧
      after.cursor.rest.length ≤ before.cursor.rest.length ∧
      (code = none → Unterminated before.cursor.rest)
  | .again next after => after.cursor.Accounts size ∧ MembersFormed type after.members ∧
      after.cursor.rest <:+: before.cursor.rest ∧ after.fuel type next < before.fuel type edx
  | .ended after => after.cursor.Accounts size ∧ MembersFormed type after.members ∧
      after.cursor.rest.length ≤ before.cursor.rest.length

theorem member_sound {parse before : SequenceParse} (accounts : parse.cursor.Accounts size)
    (formed : MembersFormed type parse.members) (edx index : Nat) (least : edx ≤ index)
    (same : parse.cursor.rest = before.cursor.rest) :
    (parse.member type index).Sound type size edx before := by
  unfold SequenceParse.member
  cases there : type.elements[index]? with
  | none => exact ⟨accounts, formed, by rw [same], fun same => by cases same⟩
  | some elm =>
    obtain ⟨code, next, after, invoked, kept, onward, endless⟩ := accounts.invoke
      (confined_confines (elm.codec.berDecoder elm.tagMode) Unterminated)
      (formed index elm there)
    obtain ⟨inside, _⟩ := List.getElem?_eq_some_iff.mp there
    have stored := formed.set index elm next there kept
    have behind := onward.behind
    rw [same] at endless behind
    dsimp only
    rw [invoked]
    rcases code with _ | code | code | code
    · exact ⟨onward.accounts, stored, behind.length_le, fun _ => endless rfl⟩
    · refine ⟨onward.accounts, stored, behind, ?_⟩
      have shorter := behind.length_le
      simp only [SequenceParse.fuel, Cursor.step]
      omega
    · exact ⟨onward.accounts, stored, behind.length_le, fun same => by cases same⟩
    · exact ⟨onward.accounts, stored, behind.length_le, fun same => by cases same⟩

/-- What microphase 1 leaves: it goes forward, and consumes what it skips. -/
def SequenceType.Synchronized.Sound (size edx : Nat) (before : Cursor) :
    SequenceType.Synchronized → Prop
  | .returned _ after => after.Accounts size ∧ after.rest.length ≤ before.rest.length
  | .ended => True
  | .found index => edx ≤ index
  | .skipped next after => after.Accounts size ∧ after.rest <:+: before.rest ∧ edx ≤ next ∧
      after.rest.length < before.rest.length

theorem synchronize_sound {cursor : Cursor} (accounts : cursor.Accounts size) (edx : Nat)
    (elm : Member) : (type.synchronize calls edx elm cursor).Sound size edx cursor := by
  have shown := cursor.window_length
  have same : cursor.Accounts size ∧ cursor.rest.length ≤ cursor.rest.length :=
    ⟨accounts, Nat.le_refl _⟩
  unfold SequenceType.synchronize
  split
  · exact same
  · cases read : berFetchTag cursor.window with
    | wantMore => exact same
    | failed => exact same
    | fetched tlvTag tagLen =>
      have tagBounds := online_berFetchTag.bounded _ _ _ read
      dsimp only
      split
      · exact same
      · split
        · trivial
        · cases located : type.locate edx elm tlvTag with
          | some index => exact locate_least located
          | none =>
            dsimp only
            unfold SequenceType.skipUnknown
            split
            · exact same
            · cases skipped : berSkipLength calls (berTlvConstructed (cursor.rest.headD 0))
                  (cursor.window.drop tagLen) with
              | wantMore => exact same
              | failed => exact same
              | fetched _ skip =>
                have skipBounds := berSkipLength_bounded _ _ _ _ skipped
                rw [List.length_drop] at skipBounds
                have onward := accounts.onward (skip + tagLen) (by omega)
                refine ⟨onward.accounts, onward.behind, Nat.le_add_right _ _, ?_⟩
                simp only [Cursor.advance, List.length_drop]
                omega

theorem turn_sound {parse : SequenceParse} (accounts : parse.cursor.Accounts size)
    (formed : MembersFormed type parse.members) (edx : Nat) :
    (parse.turn calls type edx).Sound type size edx parse := by
  unfold SequenceParse.turn
  cases there : type.elements[edx]? with
  | none => exact ⟨accounts, formed, Nat.le_refl _⟩
  | some elm =>
    have sound := synchronize_sound calls type accounts edx elm
    dsimp only
    split
    · exact member_sound type accounts formed edx edx (Nat.le_refl _) rfl
    · cases decided : type.synchronize calls edx elm parse.cursor with
      | returned code cursor =>
        rw [decided] at sound
        exact ⟨sound.1, formed, sound.2, nofun⟩
      | ended => exact ⟨accounts, formed, Nat.le_refl _⟩
      | found index =>
        rw [decided] at sound
        have moved : ({ parse with cursor := parse.cursor.step (1 + 2 * index) } :
            SequenceParse).cursor.Accounts size := accounts
        exact member_sound type moved formed edx index sound rfl
      | skipped next cursor =>
        rw [decided] at sound
        obtain ⟨kept, behind, least, shorter⟩ := sound
        refine ⟨kept, formed, behind, ?_⟩
        simp only [SequenceParse.fuel]
        omega

/-- The leftover is skipped inside the given bytes, in as many turns as there are bytes. -/
theorem leftover_sound (fuel : Nat) (cursor : Cursor) (accounts : cursor.Accounts size)
    (enough : cursor.rest.length < fuel) :
    ∃ code after, SequenceParse.leftover calls type fuel cursor = (some code, after) ∧
      after.Accounts size ∧ after.rest.length ≤ cursor.rest.length := by
  induction fuel generalizing cursor with
  | zero => omega
  | succ fuel inductionHypothesis =>
    have shown := cursor.window_length
    unfold SequenceParse.leftover
    split
    · exact ⟨.ok, _, rfl, accounts, Nat.le_refl _⟩
    · next unended =>
      cases read : berFetchTag cursor.window with
      | wantMore => exact ⟨_, _, rfl, accounts, Nat.le_refl _⟩
      | failed => exact ⟨_, _, rfl, accounts, Nat.le_refl _⟩
      | fetched tag tl =>
        have tagBounds := online_berFetchTag.bounded _ _ _ read
        dsimp only
        by_cases partly : cursor.endMark = .part
        · rw [if_pos partly]
          exact ⟨_, _, rfl, accounts, Nat.le_refl _⟩
        · rw [if_neg partly]
          by_cases ended : cursor.endMark = .here
          · rw [if_pos ended]
            have two : 2 ≤ cursor.window.length := by
              unfold Cursor.endMark at ended
              unfold Cursor.window
              split at ended
              · cases ended
              · next negative =>
                rw [if_pos (by omega)]
                split at ended
                · cases ended
                · split at ended
                  · cases ended
                  · omega
            have onward := accounts.onward 2 two
            have fewer : (((cursor.advance 2).left (cursor.ctx.left + 1)).phase 4).rest.length <
                cursor.rest.length := by
              simp only [Cursor.phase, Cursor.left, Cursor.advance, List.length_drop]
              omega
            obtain ⟨code, after, ended, kept, behind⟩ := inductionHypothesis
              (((cursor.advance 2).left (cursor.ctx.left + 1)).phase 4) onward.accounts
              (Nat.lt_of_lt_of_le fewer (Nat.le_of_lt_succ enough))
            exact ⟨code, after, ended, kept, Nat.le_trans behind (Nat.le_of_lt fewer)⟩
          · rw [if_neg ended]
            split
            · exact ⟨_, _, rfl, accounts, Nat.le_refl _⟩
            · cases skipped : berSkipLength calls (berTlvConstructed (cursor.rest.headD 0))
                  (cursor.window.drop tl) with
              | wantMore => exact ⟨_, _, rfl, accounts, Nat.le_refl _⟩
              | failed => exact ⟨_, _, rfl, accounts, Nat.le_refl _⟩
              | fetched _ ll =>
                have skipBounds := berSkipLength_bounded _ _ _ _ skipped
                rw [List.length_drop] at skipBounds
                have onward := accounts.onward (tl + ll) (by omega)
                have fewer : (cursor.advance (tl + ll)).rest.length < cursor.rest.length := by
                  simp only [Cursor.advance, List.length_drop]
                  omega
                obtain ⟨code, after, ended, kept, behind⟩ := inductionHypothesis _
                  onward.accounts (Nat.lt_of_lt_of_le fewer (Nat.le_of_lt_succ enough))
                exact ⟨code, after, ended, kept, Nat.le_trans behind (Nat.le_of_lt fewer)⟩

theorem finish_sound {parse : SequenceParse} (accounts : parse.cursor.Accounts size)
    (formed : MembersFormed type parse.members) :
    ∃ code after, parse.finish calls type = (some code, after) ∧ after.cursor.Accounts size ∧
      MembersFormed type after.members ∧
      after.cursor.rest.length ≤ parse.cursor.rest.length := by
  obtain ⟨code, cursor, ended, kept, behind⟩ := leftover_sound calls type
    (parse.cursor.rest.length + 1) parse.cursor accounts (Nat.lt_succ_self _)
  exact ⟨code, { parse with cursor := cursor }, by rw [SequenceParse.finish, ended], kept, formed,
    behind⟩

/-- The elements are decoded inside the given bytes, and there is always fuel for another
turn: only a member can be stuck. -/
theorem elements_sound (fuel edx : Nat) (parse : SequenceParse)
    (accounts : parse.cursor.Accounts size) (formed : MembersFormed type parse.members)
    (enough : parse.fuel type edx ≤ fuel) :
    ∃ code after, parse.elements calls type fuel edx = (code, after) ∧
      after.cursor.Accounts size ∧ MembersFormed type after.members ∧
      after.cursor.rest.length ≤ parse.cursor.rest.length ∧
      (code = none → Unterminated parse.cursor.rest) := by
  induction fuel generalizing edx parse with
  | zero =>
    unfold SequenceParse.fuel at enough
    omega
  | succ fuel inductionHypothesis =>
    have sound := turn_sound calls type accounts formed edx
    unfold SequenceParse.elements
    cases turned : parse.turn calls type edx with
    | returned code after =>
      rw [turned] at sound
      exact ⟨code, after, rfl, sound⟩
    | again next after =>
      rw [turned] at sound
      obtain ⟨kept, members, behind, nearer⟩ := sound
      obtain ⟨code, final, reached, last, same, fewer, endless⟩ := inductionHypothesis next after
        kept members (Nat.le_of_lt_succ (Nat.lt_of_lt_of_le nearer enough))
      exact ⟨code, final, reached, last, same, Nat.le_trans fewer behind.length_le,
        fun none => (endless none).around behind⟩
    | ended after =>
      rw [turned] at sound
      have third : ({ after with cursor := after.cursor.phase 3 } :
          SequenceParse).cursor.Accounts size := sound.1
      obtain ⟨code, final, ended, kept, members, fewer⟩ := finish_sound calls type third sound.2.1
      exact ⟨some code, final, ended, kept, members, Nat.le_trans fewer sound.2.2, nofun⟩

end Sound

/-- The memory of a sequence between two calls. -/
def SequenceFormed (type : SequenceType) (struct : Struct) : Prop :=
  MembersFormed type (SequenceParse.load type struct []).members

/-- What the decoder of a sequence returns, and when it does not. -/
structure SequenceReturns (type : SequenceType) (given : List UInt8) (outcome : Outcome Struct) :
    Prop where
  inside : outcome.consumed ≤ given.length
  formed : SequenceFormed type outcome.state
  endless : ∀ next, outcome = .stuck next → Unterminated given

theorem returned_sound {type : SequenceType} {given : List UInt8} (parse : SequenceParse)
    (code : Option RvalCode) (inside : parse.cursor.consumed ≤ given.length)
    (formed : MembersFormed type parse.members) (endless : code = none → Unterminated given) :
    SequenceReturns type given (parse.returned code) := by
  rcases code with _ | code | code | code
  · exact ⟨Nat.zero_le _, formed, fun _ _ => endless rfl⟩
  · exact ⟨inside, formed, nofun⟩
  · exact ⟨inside, formed, nofun⟩
  · exact ⟨inside, formed, nofun⟩

theorem Cursor.Accounts.inside {size : Nat} {cursor : Cursor} (accounts : cursor.Accounts size) :
    cursor.consumed ≤ size := by
  unfold Cursor.Accounts at accounts
  omega

/-- Zeroed memory is such a structure. -/
theorem members_absent {type : SequenceType}
    (members : ∀ elm ∈ type.elements, elm.codec.Confined elm.tagMode) :
    MembersFormed type (List.replicate type.elements.length .absent) := by
  intro index elm there
  have absent : (List.replicate type.elements.length Struct.absent).getD index .absent =
      .absent := by
    by_cases short : index < type.elements.length <;> simp [List.getD, short]
  rw [absent]
  exact members elm (List.mem_of_getElem? there)

/-- Whatever the bytes, the decoder of a sequence stays inside them, as those of its members
do. -/
theorem sequence_confined (calls : Nat) (type : SequenceType) (tagMode : Int)
    (members : ∀ elm ∈ type.elements, elm.codec.Confined elm.tagMode) :
    (sequence calls type).Confined tagMode := by
  have returns : ∀ struct given, SequenceFormed type struct →
      SequenceReturns type given (sequenceDecodeBer calls type tagMode struct given) := by
    intro struct given formed
    have held : MembersFormed type (SequenceParse.load type struct given).members := by
      cases struct <;> exact formed
    have start : (SequenceParse.load type struct given).cursor.Accounts given.length := by
      cases struct <;> exact Nat.zero_add _
    have shown : (SequenceParse.load type struct given).cursor =
        ⟨given, 0, (SequenceParse.load type struct given).cursor.ctx⟩ := by
      cases struct <;> rfl
    have decoded : ∀ (edx : Nat) (parse : SequenceParse), parse.cursor.Accounts given.length →
        parse.cursor.rest <:+: given → MembersFormed type parse.members →
        SequenceReturns type given ((parse.elements calls type (parse.fuel type edx) edx).2.returned
          (parse.elements calls type (parse.fuel type edx) edx).1) := by
      intro edx parse accounts behind same
      obtain ⟨code, after, reached, kept, members, _, endless⟩ := elements_sound calls type
        (parse.fuel type edx) edx parse accounts same (Nat.le_refl _)
      rw [reached]
      exact returned_sound after code kept.inside members fun none => (endless none).around behind
    have finished : SequenceReturns type given
        (((SequenceParse.load type struct given).finish calls type).2.returned
          ((SequenceParse.load type struct given).finish calls type).1) := by
      obtain ⟨code, after, ended, kept, same, _⟩ := finish_sound calls type start held
      rw [ended]
      exact returned_sound after (some code) kept.inside same nofun
    unfold sequenceDecodeBer
    dsimp only
    split
    · obtain ⟨code, opened, checked, inside, _, accepted⟩ := Cursor.header_sound type.tags tagMode
        (some true) (SequenceParse.load type struct given).cursor.ctx given
      rw [shown, checked]
      cases code with
      | ok =>
        obtain ⟨accounts, behind, _⟩ := accepted rfl
        exact decoded 0 { SequenceParse.load type struct given with cursor := opened } accounts
          behind held
      | wmore => exact returned_sound _ (some .wmore) inside held nofun
      | fail => exact returned_sound _ (some .fail) inside held nofun
    · exact decoded _ _ start (shown ▸ List.infix_rfl) held
    · exact finished
    · exact finished
    · exact returned_sound _ (some .ok) start.inside held nofun
  exact ⟨SequenceFormed type, ⟨fun struct given formed => (returns struct given formed).inside,
    fun struct given formed => (returns struct given formed).formed,
    fun struct given next formed => (returns struct given formed).endless next⟩,
    members_absent members⟩

/-- A complete sequence has taken at least its header. -/
theorem sequence_productive (calls : Nat) (type : SequenceType) {tagMode : Int} {tag : Nat}
    (single : SingleTag type.tags tagMode tag)
    (members : ∀ elm ∈ type.elements, elm.codec.Confined elm.tagMode) :
    (sequence calls type).Productive tagMode := by
  intro given final consumed decoded
  have formed := members_absent members
  obtain ⟨code, opened, checked, inside, _, accepted⟩ := Cursor.header_sound type.tags tagMode
    (some true) .zero given
  have fresh : SequenceFresh type .absent := Or.inl rfl
  cases code with
  | ok =>
    have positive := Cursor.header_positive single (some true) given checked
    obtain ⟨accounts, _⟩ := accepted rfl
    obtain ⟨code, after, reached, kept, _, fewer, _⟩ := elements_sound calls type
      (SequenceParse.fuel type 0 ⟨opened, List.replicate type.elements.length .absent⟩) 0
      ⟨opened, List.replicate type.elements.length .absent⟩ accounts formed (Nat.le_refl _)
    have started := sequence_started calls type tagMode fresh given checked rfl reached
    have returned := started.symm.trans decoded
    unfold Cursor.Accounts at accounts kept
    dsimp only at fewer
    rcases code with _ | code | code | code
    · cases returned
    · cases returned
      omega
    · cases returned
    · cases returned
  | wmore =>
    unfold sequence sequenceDecodeBer at decoded
    simp only [fresh.load, Ctx.zero] at decoded checked
    simp only [checked] at decoded
    cases decoded
  | fail =>
    unfold sequence sequenceDecodeBer at decoded
    simp only [fresh.load, Ctx.zero] at decoded checked
    simp only [checked] at decoded
    cases decoded

end NetVirt.Ber
