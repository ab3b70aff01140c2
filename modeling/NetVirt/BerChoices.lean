import NetVirt.BerSequences

/-!
# Choices

`CHOICE_decode_ber` and `CHOICE_encode_der` of constr_CHOICE.c. The first tag tells which
alternative has arrived; it is looked up in a sorted table. A choice has no tag of its own:
one is put around it, or it stands for its alternative. A choice of indefinite length ends
with a terminator, which is waited for in a loop that does not always end.
-/

namespace NetVirt.Ber

open OnlineParsers ResumableDecoders BinarySearches

/-- The descriptor of a choice with its `asn_CHOICE_specifics_t`. -/
structure ChoiceType where
  tags : List Tag
  elements : List Member
  tag2el : List Tag2Member
  extStart : Int

/-- `_search4tag` for a key -/
def search4tag (tag : Tag) (entry : Tag2Member) : Ordering := compareTags tag entry.elTag

/-- The structure that is decoded into, and where its decoder stands. -/
structure ChoiceParse where
  cursor : Cursor
  present : Nat
  member : Struct

namespace ChoiceParse

/-- The structure is created if it does not exist: all its memory is zero. -/
def load (struct : Struct) (given : List UInt8) : ChoiceParse :=
  match struct with
  | .choice ctx present member =>
    { cursor := ⟨given, 0, ctx⟩, present := present, member := member }
  | _ => { cursor := ⟨given, 0, .zero⟩, present := 0, member := .absent }

def struct (parse : ChoiceParse) : Struct := .choice parse.cursor.ctx parse.present parse.member

def returned (parse : ChoiceParse) (code : Option RvalCode) : Outcome Struct :=
  parse.cursor.returned parse.struct code

/-- The loop over the terminators, of which each negative unit of the length stands for one.
Where a zero octet is followed by another octet, the loop goes round without a change. -/
def terminators : Nat → Cursor → Option RvalCode × Cursor
  | 0, cursor => (some .ok, cursor.nextPhase)
  | awaited + 1, cursor =>
    match berFetchTag cursor.window with
    | .wantMore => (some cursor.wanting, cursor)
    | .failed => (some .fail, cursor)
    | .fetched _ _ =>
      if cursor.endMark = .part then (some .wmore, cursor)
      else if cursor.endMark = .here then
        terminators awaited ((cursor.advance 2).left (cursor.ctx.left + 1))
      else if cursor.rest.head? = some 0 then (none, cursor)
      else (some .fail, cursor)

/-- The choice has a tag around it, or one of its own. -/
def tagged (type : ChoiceType) (tagMode : Int) : Prop := tagMode ≠ 0 ∨ type.tags ≠ []

instance (type : ChoiceType) (tagMode : Int) : Decidable (tagged type tagMode) :=
  inferInstanceAs (Decidable (_ ∨ _))

/-- Phase 3: nothing but terminators may come behind the alternative. -/
def ending (type : ChoiceType) (tagMode : Int) (parse : ChoiceParse) :
    Option RvalCode × ChoiceParse :=
  if 0 < parse.cursor.ctx.left then (some .fail, parse)
  else if parse.cursor.ctx.left = -1 ∧ ¬tagged type tagMode then
    (some .ok, { parse with cursor := parse.cursor.nextPhase })
  else
    let (code, cursor) := terminators (-parse.cursor.ctx.left).toNat parse.cursor
    (code, { parse with cursor := cursor })

/-- Phase 2: the decoder of the alternative is called. -/
def alternative (type : ChoiceType) (tagMode : Int) (parse : ChoiceParse) :
    Option RvalCode × ChoiceParse :=
  match type.elements[parse.cursor.ctx.step]? with
  | none => (some .fail, parse)
  | some elm =>
    let present := parse.cursor.ctx.step + 1
    match parse.cursor.invoke elm.codec elm.tagMode parse.member with
    | (some .ok, member, cursor) =>
      let complete : ChoiceParse :=
        { cursor := cursor.nextPhase, present := present, member := member }
      complete.ending type tagMode
    | (code, member, cursor) =>
      (code, { cursor := cursor, present := present, member := member })

/-- Phase 1: the alternative is chosen by its tag. An unknown one is skipped if the type has
an extension marker, and nothing is present then. -/
def choose (calls : Nat) (type : ChoiceType) (tagMode : Int) (parse : ChoiceParse) :
    Option RvalCode × ChoiceParse :=
  match berFetchTag parse.cursor.window with
  | .wantMore => (some parse.cursor.wanting, parse)
  | .failed => (some .fail, parse)
  | .fetched tlvTag tagLen =>
    match (bsearch (search4tag tlvTag) type.tag2el).bind fun hit => type.tag2el[hit]? with
    | some t2m =>
      let chosen := { parse with cursor := parse.cursor.nextPhase.step t2m.elNo }
      chosen.alternative type tagMode
    | none =>
      if type.extStart = -1 then (some .fail, parse)
      else
        match berSkipLength calls (berTlvConstructed (parse.cursor.rest.headD 0))
            (parse.cursor.window.drop tagLen) with
        | .wantMore => (some parse.cursor.wanting, parse)
        | .failed => (some .fail, parse)
        | .fetched _ skip =>
          (some .ok, { parse with cursor := parse.cursor.advance (skip + tagLen) })

end ChoiceParse

/-- `CHOICE_decode_ber` -/
def choiceDecodeBer (calls : Nat) (type : ChoiceType) (tagMode : Int) (struct : Struct)
    (given : List UInt8) : Outcome Struct :=
  let parse := ChoiceParse.load struct given
  match parse.cursor.ctx.phase with
  | 0 =>
    if ChoiceParse.tagged type tagMode then
      match parse.cursor.header type.tags tagMode none with
      | (.ok, opened) =>
        let inside := { parse with cursor := opened }
        let (code, after) := inside.choose calls type tagMode
        after.returned code
      | (code, cursor) => { parse with cursor := cursor }.returned code
    else
      let opened := { parse with cursor := (parse.cursor.left (-1)).nextPhase }
      let (code, after) := opened.choose calls type tagMode
      after.returned code
  | 1 =>
    let (code, after) := parse.choose calls type tagMode
    after.returned code
  | 2 =>
    let (code, after) := parse.alternative type tagMode
    after.returned code
  | 3 =>
    let (code, after) := parse.ending type tagMode
    after.returned code
  | _ => parse.returned (some .ok)

/-- `CHOICE_encode_der`. Tags are written around the alternative if the choice is tagged
explicitly or has tags of its own. -/
def choiceEncodeDer (type : ChoiceType) (value : Value) (tagMode : Int) (tag : Tag) :
    Option (List UInt8) :=
  match value with
  | .choice present member =>
    if present = 0 ∨ type.elements.length < present then
      if present = 0 ∧ type.elements = [] then some [] else none
    else do
      let elm ← type.elements[present - 1]?
      if elm.pointer ∧ member.isNone then
        if elm.optional ≠ 0 then some [] else none
      else do
        let inner ← elm.encode member
        if tagMode = 1 ∨ type.tags ≠ [] then
          some (derWriteTags type.tags inner.length tagMode true tag ++ inner)
        else some inner
  | _ => none

def choice (calls : Nat) (type : ChoiceType) : Codec where
  tags := type.tags
  zeroed := .choice 0 none
  berDecoder := choiceDecodeBer calls type
  derEncoder := choiceEncodeDer type

/-! ## The table of tags -/

/-- The table is sorted, and lists every alternative under its tag. -/
structure Tabled (type : ChoiceType) : Prop where
  sorted : type.tag2el.Pairwise fun first second =>
    compareTags first.elTag second.elTag = .lt
  listed : ∀ (index : Nat) (elm : Member), type.elements[index]? = some elm →
    ∃ (hit : Nat) (entry : Tag2Member), type.tag2el[hit]? = some entry ∧ entry.elTag = elm.tag ∧
      entry.elNo = index

theorem compareTags_self (tag : Tag) : compareTags tag tag = .eq := by simp [compareTags]

theorem compareTags_eq {tag other : Nat} (same : compareTags tag other = .eq) : tag = other := by
  unfold compareTags berTagClass berTagValue at same
  grind

theorem compareTags_lt_trans {tag first second : Nat} (before : compareTags tag first = .lt)
    (sorted : compareTags first second = .lt) : compareTags tag second = .lt := by
  unfold compareTags berTagClass berTagValue at *
  grind

theorem compareTags_gt_trans {tag first second : Nat} (behind : compareTags tag second = .gt)
    (sorted : compareTags first second = .lt) : compareTags tag first = .gt := by
  unfold compareTags berTagClass berTagValue at *
  grind

/-- The tag of an alternative leads to it. -/
theorem Tabled.finds {type : ChoiceType} (tabled : Tabled type) (index : Nat) (elm : Member)
    (there : type.elements[index]? = some elm) :
    ∃ entry, ((bsearch (search4tag elm.tag) type.tag2el).bind fun hit => type.tag2el[hit]?) =
      some entry ∧ entry.elNo = index := by
  obtain ⟨hit, entry, listed, tag, number⟩ := tabled.listed index elm there
  have ascending : Ascending (search4tag elm.tag) type.tag2el :=
    tabled.sorted.imp fun sorted =>
      ⟨fun before => compareTags_lt_trans before sorted,
        fun behind => compareTags_gt_trans behind sorted⟩
  have found := bsearch_finds ascending hit entry listed
    (by rw [search4tag, tag]; exact compareTags_self elm.tag) (by
      intro other second reached same
      have alike : second.elTag = entry.elTag := by
        rw [tag]
        exact (compareTags_eq same).symm
      obtain ⟨firstIn, rfl⟩ := List.getElem?_eq_some_iff.mp listed
      obtain ⟨secondIn, rfl⟩ := List.getElem?_eq_some_iff.mp reached
      have ordered := List.pairwise_iff_getElem.mp tabled.sorted
      rcases Nat.lt_trichotomy other hit with before | rfl | behind
      · have less := ordered other hit secondIn firstIn before
        rw [alike, compareTags_self] at less
        cases less
      · rfl
      · have less := ordered hit other firstIn secondIn behind
        rw [alike, compareTags_self] at less
        cases less)
  exact ⟨entry, by rw [found]; exact listed, number⟩

/-! ## A choice that is written is read back -/

/-- The values of a choice of these alternatives. -/
def ChoiceValid (fields : List Field) : Value → Prop
  | .choice present (some value) =>
    0 < present ∧ ∃ field, fields[present - 1]? = some field ∧ field.Valid value
  | _ => False

/-- What is left of the choice is `remaining`, or its end is that of its alternative. -/
def Limited (type : ChoiceType) (tagMode : Int) (remaining : List UInt8) (cursor : Cursor) :
    Prop :=
  cursor.ctx.left = remaining.length ∨
    cursor.ctx.left = -1 ∧ ¬ChoiceParse.tagged type tagMode

theorem Limited.spans {type : ChoiceType} {tagMode : Int} {remaining : List UInt8}
    {cursor : Cursor} (limited : Limited type tagMode remaining cursor) :
    cursor.Spans remaining := by
  rcases limited with left | ⟨endless, _⟩
  · exact Or.inr left
  · exact Or.inl endless

theorem Limited.advance {type : ChoiceType} {tagMode : Int} {remaining : List UInt8}
    {cursor : Cursor} (limited : Limited type tagMode remaining cursor) (num : Nat)
    (inside : num ≤ remaining.length) :
    Limited type tagMode (remaining.drop num) (cursor.advance num) := by
  rcases limited with left | ⟨endless, untagged⟩
  · left
    rw [List.length_drop]
    simp only [Cursor.advance]
    rw [if_pos (by omega)]
    omega
  · right
    refine ⟨?_, untagged⟩
    simp only [Cursor.advance]
    rw [if_neg (by omega)]
    exact endless

/-- The decoder waits for the tag of the alternative. -/
structure Choosing (type : ChoiceType) (tagMode : Int) (remaining : List UInt8)
    (parse : ChoiceParse) : Prop where
  limited : Limited type tagMode remaining parse.cursor
  member : parse.member = .absent
  phase : parse.cursor.ctx.phase = 1

/-- The alternative was chosen, and its decoder awaits what is left. -/
structure Chosen (type : ChoiceType) (tagMode : Int) (index : Nat) (field : Field) (value : Value)
    (remaining : List UInt8) (parse : ChoiceParse) : Prop where
  limited : Limited type tagMode remaining parse.cursor
  awaits : Awaits (field.member.codec.berDecoder field.member.tagMode)
    (fun final => final.value = some value) parse.member remaining
  nonempty : remaining ≠ []
  phase : parse.cursor.ctx.phase = 2
  step : parse.cursor.ctx.step = index

/-- Behind the alternative there is nothing, and the choice is complete. -/
theorem ending_complete (type : ChoiceType) (tagMode : Int) (parse : ChoiceParse)
    (limited : Limited type tagMode [] parse.cursor) :
    parse.ending type tagMode = (some .ok, { parse with cursor := parse.cursor.nextPhase }) := by
  unfold ChoiceParse.ending
  rcases limited with left | ⟨endless, untagged⟩
  · have zero : parse.cursor.ctx.left = 0 := left
    rw [if_neg (by omega), if_neg (by omega), zero]
    rfl
  · rw [if_neg (by omega), if_pos ⟨endless, untagged⟩]

section Alternative
variable (calls : Nat) {type : ChoiceType} {fields : List Field}
  (all : type.elements = fields.map Field.member) {tagMode : Int} {index : Nat} {field : Field}
  (there : fields[index]? = some field) {value : Value}
include all there

theorem Chosen.whole {remaining later : List UInt8} {parse : ChoiceParse}
    (chosen : Chosen type tagMode index field value remaining parse)
    (rest : parse.cursor.rest = remaining ++ later) :
    ∃ after, parse.alternative type tagMode = (some .ok, after) ∧
      after.cursor.consumed = parse.cursor.consumed + remaining.length ∧
      after.struct.value = some (.choice (index + 1) (some value)) := by
  have elm : type.elements[parse.cursor.ctx.step]? = some field.member := by
    rw [all, chosen.step, List.getElem?_map, there]
    rfl
  obtain ⟨extra, shown⟩ := chosen.limited.spans.whole rest
  obtain ⟨final, invoked, settled⟩ := parse.cursor.invoke_completes shown chosen.nonempty
    chosen.awaits
  have ended := ending_complete type tagMode
    { cursor := (parse.cursor.advance remaining.length).nextPhase, present := index + 1,
      member := final } (by
        have moved := chosen.limited.advance remaining.length (Nat.le_refl _)
        rw [List.drop_length] at moved
        exact moved)
  refine ⟨{ cursor := (parse.cursor.advance remaining.length).nextPhase.nextPhase,
            present := index + 1, member := final }, ?_, ?_, ?_⟩
  · unfold ChoiceParse.alternative
    rw [elm]
    dsimp only
    rw [invoked]
    dsimp only
    rw [chosen.step]
    exact ended
  · rfl
  · simp only [ChoiceParse.struct, Struct.value, settled]

theorem Chosen.part {given missing : List UInt8} {parse : ChoiceParse}
    (chosen : Chosen type tagMode index field value (given ++ missing) parse)
    (rest : parse.cursor.rest = given) (someGiven : given ≠ []) (someMissing : missing ≠ []) :
    ∃ after consumed, parse.alternative type tagMode = (some .wmore, after) ∧
      after.cursor.consumed = parse.cursor.consumed + consumed ∧ consumed ≤ given.length ∧
      Chosen type tagMode index field value ((given ++ missing).drop consumed) after := by
  have elm : type.elements[parse.cursor.ctx.step]? = some field.member := by
    rw [all, chosen.step, List.getElem?_map, there]
    rfl
  obtain ⟨shown, admitted⟩ := chosen.limited.spans.part rest someMissing
  obtain ⟨next, consumed, invoked, few, kept⟩ := parse.cursor.invoke_waits shown admitted
    someGiven someMissing chosen.awaits
  have more := List.length_pos_iff.mpr someMissing
  refine ⟨{ cursor := parse.cursor.advance consumed, present := index + 1, member := next },
    consumed, ?_, rfl, few, ?_⟩
  · unfold ChoiceParse.alternative
    rw [elm]
    dsimp only
    rw [invoked]
    dsimp only
    rw [chosen.step]
  · exact {
      limited := chosen.limited.advance consumed (by rw [List.length_append]; omega)
      awaits := kept
      nonempty := by
        intro nothing
        have length := congrArg List.length nothing
        simp only [List.length_drop, List.length_append, List.length_nil] at length
        omega
      phase := chosen.phase
      step := chosen.step }

variable (lawful : field.Lawful) (tabled : Tabled type) {inner : List UInt8}
  (valid : field.Valid value)
  (written : field.member.codec.derEncoder value field.member.tagMode field.member.tag =
    some inner) (fits : inner.length + 1024 < 2 ^ 63)
include lawful tabled valid written fits

/-- Once the tag is there, the alternative is chosen. -/
theorem Choosing.chooses {parse : ChoiceParse} (choosing : Choosing type tagMode inner parse)
    (tagged : ∃ length, berFetchTag parse.cursor.window = .fetched field.member.tag length) :
    ∃ chosen, parse.choose calls type tagMode = ChoiceParse.alternative type tagMode chosen ∧
      chosen.cursor.rest = parse.cursor.rest ∧
      chosen.cursor.consumed = parse.cursor.consumed ∧
      Chosen type tagMode index field value inner chosen := by
  obtain ⟨length, read⟩ := tagged
  obtain ⟨entry, found, number⟩ := tabled.finds index field.member
    (by rw [all, List.getElem?_map, there]; rfl)
  obtain ⟨outmost, begins, _⟩ := lawful.lawful.begins value inner valid written
  refine ⟨{ parse with cursor := parse.cursor.nextPhase.step entry.elNo }, ?_, rfl, rfl, ?_⟩
  · unfold ChoiceParse.choose
    rw [read]
    dsimp only
    rw [found]
  · exact {
      limited := choosing.limited
      awaits := by
        rw [choosing.member]
        exact lawful.lawful.resumes value inner valid written fits
      nonempty := begins.nonempty
      phase := by
        simp only [Cursor.nextPhase, Cursor.phase, Cursor.step, choosing.phase]
      step := number }

theorem Choosing.whole {later : List UInt8} {parse : ChoiceParse}
    (choosing : Choosing type tagMode inner parse) (rest : parse.cursor.rest = inner ++ later) :
    ∃ after, parse.choose calls type tagMode = (some .ok, after) ∧
      after.cursor.consumed = parse.cursor.consumed + inner.length ∧
      after.struct.value = some (.choice (index + 1) (some value)) := by
  obtain ⟨outmost, begins, same⟩ := lawful.lawful.begins value inner valid written
  obtain rfl := same lawful.applied
  obtain ⟨extra, shown⟩ := choosing.limited.spans.whole rest
  obtain ⟨chosen, chooses, behind, consumed, stands⟩ := choosing.chooses calls all there lawful
    tabled valid written fits (by rw [shown]; exact begins.whole extra)
  obtain ⟨after, ended, total, result⟩ := stands.whole all there (behind.trans rest)
  exact ⟨after, chooses.trans ended, by rw [total, consumed], result⟩

theorem Choosing.part {given missing : List UInt8} {parse : ChoiceParse}
    (choosing : Choosing type tagMode inner parse) (split : inner = given ++ missing)
    (rest : parse.cursor.rest = given) (someMissing : missing ≠ []) :
    ∃ after consumed, parse.choose calls type tagMode = (some .wmore, after) ∧
      after.cursor.consumed = parse.cursor.consumed + consumed ∧ consumed ≤ given.length ∧
      (Choosing type tagMode (inner.drop consumed) after ∧ consumed = 0 ∨
        Chosen type tagMode index field value (inner.drop consumed) after) := by
  obtain ⟨outmost, begins, same⟩ := lawful.lawful.begins value inner valid written
  obtain rfl := same lawful.applied
  have spans := choosing.limited.spans
  rw [split] at spans begins
  obtain ⟨shown, admitted⟩ := spans.part rest someMissing
  rcases begins.part with starved | tagged
  · refine ⟨parse, 0, ?_, rfl, Nat.zero_le _, Or.inl ⟨by rwa [List.drop_zero], rfl⟩⟩
    unfold ChoiceParse.choose
    rw [shown, starved]
    dsimp only
    rw [Cursor.wanting, if_neg admitted]
  · have someGiven : given ≠ [] := by
      rintro rfl
      obtain ⟨length, read⟩ := tagged
      cases read
    obtain ⟨chosen, chooses, behind, consumed, stands⟩ := choosing.chooses calls all there lawful
      tabled valid written fits (by rw [shown]; exact tagged)
    rw [split] at stands ⊢
    obtain ⟨after, taken, waiting, total, few, kept⟩ := stands.part all there
      (behind.trans rest) someGiven someMissing
    exact ⟨after, taken, chooses.trans waiting, by rw [total, consumed], few, Or.inr kept⟩

end Alternative

/-- Nothing was read of the choice yet. -/
def ChoiceFresh (struct : Struct) : Prop := struct = .absent ∨ struct = .choice .zero 0 .absent

theorem ChoiceFresh.load {struct : Struct} (fresh : ChoiceFresh struct) (given : List UInt8) :
    ChoiceParse.load struct given =
      { cursor := ⟨given, 0, .zero⟩, present := 0, member := .absent } := by
  rcases fresh with rfl | rfl <;> rfl

/-- What stands in front of the alternative is read in phase 0. -/
structure Opens (calls : Nat) (type : ChoiceType) (tagMode : Int) (header inner : List UInt8) :
    Prop where
  opened : ∀ struct later, ChoiceFresh struct → ∃ parse, Choosing type tagMode inner parse ∧
    parse.cursor.rest = later ∧ parse.cursor.consumed = header.length ∧
    choiceDecodeBer calls type tagMode struct (header ++ later) =
      (parse.choose calls type tagMode).2.returned (parse.choose calls type tagMode).1
  unopened : ∀ struct given missing, ChoiceFresh struct → header = given ++ missing →
    missing ≠ [] →
      choiceDecodeBer calls type tagMode struct given = .more (.choice .zero 0 .absent) 0

theorem opens_tagged (calls : Nat) (type : ChoiceType) {tagMode : Int} {tag : Nat}
    (single : SingleTag type.tags tagMode tag) (bound : tag < 2 ^ 32) (inner : List UInt8)
    (fits : inner.length + 1024 < 2 ^ 63) :
    Opens calls type tagMode (derWriteTL tag inner.length true) inner where
  opened struct later fresh := by
    have around : ChoiceParse.tagged type tagMode := single.around.imp (by rintro rfl; decide) id
    obtain ⟨opened, accepted, consumed, ctx, rest⟩ := Cursor.header_whole single bound none nofun
      inner later fits ⟨derWriteTL tag inner.length true ++ later, 0, .zero⟩ rfl rfl
    refine ⟨{ cursor := opened, present := 0, member := .absent }, ?_, rest,
      consumed.trans (Nat.zero_add _), ?_⟩
    · exact ⟨Or.inl (by rw [ctx]), rfl, by rw [ctx]; rfl⟩
    · unfold choiceDecodeBer
      rw [fresh.load]
      simp only [Ctx.zero] at accepted ⊢
      rw [if_pos around]
      simp only [accepted]
  unopened struct given missing fresh split lacking := by
    have around : ChoiceParse.tagged type tagMode := single.around.imp (by rintro rfl; decide) id
    have refused := Cursor.header_part single bound none nofun inner.length fits
      ⟨given, 0, .zero⟩ rfl missing split lacking
    unfold choiceDecodeBer
    rw [fresh.load]
    simp only [Ctx.zero] at refused ⊢
    rw [if_pos around]
    simp only [refused]
    rfl

theorem opens_untagged (calls : Nat) (type : ChoiceType) (untagged : type.tags = [])
    (inner : List UInt8) : Opens calls type 0 [] inner where
  opened struct later fresh := by
    have bare : ¬ChoiceParse.tagged type 0 := by simp [ChoiceParse.tagged, untagged]
    refine ⟨{ cursor := ((⟨later, 0, .zero⟩ : Cursor).left (-1)).nextPhase, present := 0,
              member := .absent }, ⟨Or.inr ⟨rfl, bare⟩, rfl, rfl⟩, rfl, rfl, ?_⟩
    unfold choiceDecodeBer
    rw [fresh.load, List.nil_append]
    simp only [Ctx.zero]
    rw [if_neg bare]
  unopened struct given missing fresh split lacking := by
    exact False.elim (lacking (List.append_eq_nil_iff.mp split.symm).2)

/-- How far the decoder of a choice got, and what it still needs. -/
def ChoiceNeeds (type : ChoiceType) (tagMode : Int) (index : Nat) (field : Field) (value : Value)
    (header inner : List UInt8) (struct : Struct) (rest : List UInt8) : Prop :=
  ChoiceFresh struct ∧ rest = header ++ inner ∨
    (∃ parse, struct = parse.struct ∧ Choosing type tagMode rest parse ∧ rest = inner) ∨
    ∃ parse, struct = parse.struct ∧ Chosen type tagMode index field value rest parse

/-- The structure with the bytes of the next call in front of it. -/
def ChoiceParse.shown (parse : ChoiceParse) (given : List UInt8) : ChoiceParse :=
  { parse with cursor := ⟨given, 0, parse.cursor.ctx⟩ }

/-- Phases 1 and 2 go on where they stopped. -/
theorem choice_chooses_on (calls : Nat) (type : ChoiceType) (tagMode : Int) (parse : ChoiceParse)
    (given : List UInt8) (phase : parse.cursor.ctx.phase = 1) {code : Option RvalCode}
    {after : ChoiceParse}
    (reached : (parse.shown given).choose calls type tagMode = (code, after)) :
    choiceDecodeBer calls type tagMode parse.struct given = after.returned code := by
  have loaded : ChoiceParse.load parse.struct given = parse.shown given := rfl
  have same : (parse.shown given).cursor.ctx = parse.cursor.ctx := rfl
  unfold choiceDecodeBer
  rw [loaded]
  simp only [same, phase, reached]

theorem choice_decodes_on (calls : Nat) (type : ChoiceType) (tagMode : Int) (parse : ChoiceParse)
    (given : List UInt8) (phase : parse.cursor.ctx.phase = 2) {code : Option RvalCode}
    {after : ChoiceParse}
    (reached : (parse.shown given).alternative type tagMode = (code, after)) :
    choiceDecodeBer calls type tagMode parse.struct given = after.returned code := by
  have loaded : ChoiceParse.load parse.struct given = parse.shown given := rfl
  have same : (parse.shown given).cursor.ctx = parse.cursor.ctx := rfl
  unfold choiceDecodeBer
  rw [loaded]
  simp only [same, phase, reached]

theorem choice_resumes (calls : Nat) {type : ChoiceType} {fields : List Field}
    (all : type.elements = fields.map Field.member) {tagMode : Int} {index : Nat} {field : Field}
    (there : fields[index]? = some field) {value : Value} (lawful : field.Lawful)
    (tabled : Tabled type) {header inner : List UInt8} (valid : field.Valid value)
    (written : field.member.codec.derEncoder value field.member.tagMode field.member.tag =
      some inner) (fits : inner.length + 1024 < 2 ^ 63)
    (opens : Opens calls type tagMode header inner) :
    Resumes (choiceDecodeBer calls type tagMode)
      (fun final => final.value = some (.choice (index + 1) (some value)))
      (ChoiceNeeds type tagMode index field value header inner) where
  completes := by
    rintro struct rest later
      (⟨fresh, rfl⟩ | ⟨parse, rfl, choosing, rfl⟩ | ⟨parse, rfl, chosen⟩) _
    · obtain ⟨parse, choosing, behind, consumed, decoded⟩ :=
        opens.opened struct (inner ++ later) fresh
      obtain ⟨after, ended, total, result⟩ := choosing.whole calls all there lawful tabled valid
        written fits behind
      refine ⟨after.struct, ?_, result⟩
      rw [List.append_assoc, decoded, ended, ChoiceParse.returned, Cursor.returned, total,
        consumed, List.length_append]
    · have here : Choosing type tagMode rest (parse.shown (rest ++ later)) :=
        { choosing with }
      obtain ⟨after, ended, total, result⟩ := here.whole calls all there lawful tabled valid
        written fits rfl
      refine ⟨after.struct, ?_, result⟩
      rw [choice_chooses_on calls type tagMode parse _ choosing.phase ended, ChoiceParse.returned,
        Cursor.returned, total.trans (Nat.zero_add _)]
    · have here : Chosen type tagMode index field value rest (parse.shown (rest ++ later)) :=
        { chosen with }
      obtain ⟨after, ended, total, result⟩ := here.whole all there rfl
      refine ⟨after.struct, ?_, result⟩
      rw [choice_decodes_on calls type tagMode parse _ chosen.phase ended, ChoiceParse.returned,
        Cursor.returned, total.trans (Nat.zero_add _)]
  waits := by
    rintro struct given missing
      (⟨fresh, split⟩ | ⟨parse, rfl, choosing, split⟩ | ⟨parse, rfl, chosen⟩) someGiven someMissing
    · rcases split_cases split with ⟨behind, rfl, whole⟩ | ⟨lacking, unfinished, cut, _⟩
      · obtain ⟨parse, choosing, rest, started, decoded⟩ := opens.opened struct behind fresh
        obtain ⟨after, more, waiting, total, few, kept⟩ := choosing.part calls all there lawful
          tabled valid written fits whole rest someMissing
        refine ⟨after.struct, header.length + more, ?_, by rw [List.length_append]; omega, ?_⟩
        · rw [decoded, waiting, ChoiceParse.returned, Cursor.returned, total, started]
        · rw [List.append_assoc, ← List.drop_drop, List.drop_left, ← whole]
          rcases kept with ⟨choosing, none⟩ | chosen
          · exact Or.inr (Or.inl ⟨after, rfl, choosing, by rw [none]; rfl⟩)
          · exact Or.inr (Or.inr ⟨after, rfl, chosen⟩)
      · exact ⟨.choice .zero 0 .absent, 0, opens.unopened struct given lacking fresh cut unfinished,
          Nat.zero_le _, Or.inl ⟨Or.inr rfl, by rw [List.drop_zero, split]⟩⟩
    · have here : Choosing type tagMode inner (parse.shown given) := by
        rw [split] at choosing
        exact { choosing with }
      obtain ⟨after, consumed, waiting, total, few, kept⟩ := here.part calls all there lawful
        tabled valid written fits split.symm rfl someMissing
      refine ⟨after.struct, consumed, ?_, few, ?_⟩
      · rw [choice_chooses_on calls type tagMode parse _ choosing.phase waiting,
          ChoiceParse.returned, Cursor.returned, total.trans (Nat.zero_add _)]
      · rw [split]
        rcases kept with ⟨choosing, none⟩ | chosen
        · exact Or.inr (Or.inl ⟨after, rfl, choosing, by rw [none]; rfl⟩)
        · exact Or.inr (Or.inr ⟨after, rfl, chosen⟩)
    · have here : Chosen type tagMode index field value (given ++ missing) (parse.shown given) :=
        { chosen with }
      obtain ⟨after, consumed, waiting, total, few, kept⟩ := here.part all there rfl someGiven
        someMissing
      refine ⟨after.struct, consumed, ?_, few, Or.inr (Or.inr ⟨after, rfl, kept⟩)⟩
      rw [choice_decodes_on calls type tagMode parse _ chosen.phase waiting,
        ChoiceParse.returned, Cursor.returned, total.trans (Nat.zero_add _)]

section Lawful
variable (calls : Nat) {type : ChoiceType} {fields : List Field}
  (all : type.elements = fields.map Field.member) (lawful : ∀ field ∈ fields, field.Lawful)
  (tabled : Tabled type)
include all lawful

/-- What is written of a valid choice: its alternative, and around it the tag that it was
given. -/
theorem choice_written (tagMode : Int) (tag : Tag) (value : Value)
    (valid : ChoiceValid fields value) :
    ∃ index field member inner, value = .choice (index + 1) (some member) ∧
      fields[index]? = some field ∧ field.Lawful ∧ field.Valid member ∧
      field.member.codec.derEncoder member field.member.tagMode field.member.tag = some inner ∧
      choiceEncodeDer type value tagMode tag = some
        ((if tagMode = 1 ∨ type.tags ≠ [] then derWriteTags type.tags inner.length tagMode true tag
          else []) ++ inner) := by
  cases value with
  | choice present chosen =>
    cases chosen with
    | none => exact False.elim valid
    | some member =>
      obtain ⟨positive, field, there, whole⟩ := valid
      have known := lawful field (List.mem_of_getElem? there)
      obtain ⟨inner, written⟩ := known.lawful.encodes member whole
      obtain ⟨inside, _⟩ := List.getElem?_eq_some_iff.mp there
      refine ⟨present - 1, field, member, inner, by rw [Nat.sub_add_cancel positive], there, known,
        whole, written, ?_⟩
      have elm : type.elements[present - 1]? = some field.member := by
        rw [all, List.getElem?_map, there]
        rfl
      have bounds : ¬(present = 0 ∨ type.elements.length < present) := by
        rw [all, List.length_map]
        omega
      unfold choiceEncodeDer
      dsimp only
      rw [if_neg bounds, elm]
      simp only [Option.bind_eq_bind, Option.bind_some, Option.isNone_some, Bool.false_eq_true,
        and_false, if_false, Member.encode, written]
      split <;> rfl
  | _ => exact False.elim valid

include tabled

/-- A choice with a tag around it carries the values that its alternatives carry.

Proof: the encoder writes the alternative behind the tag. The table finds the alternative's
tag by binary search, and from there the decoder awaits what the alternative's own decoder
awaits. -/
theorem choice_carries {tagMode : Int} {tag : Nat} (single : SingleTag type.tags tagMode tag)
    (bound : tag < 2 ^ 32) : Lawful (choice calls type) tagMode tag (ChoiceValid fields) where
  encodes value valid := by
    obtain ⟨_, _, _, _, _, _, _, _, _, encoded⟩ := choice_written all lawful tagMode tag value valid
    exact ⟨_, encoded⟩
  begins value encoding valid encoded := by
    obtain ⟨_, _, _, inner, _, _, _, _, _, written⟩ :=
      choice_written all lawful tagMode tag value valid
    obtain rfl := Option.some.inj (written.symm.trans encoded)
    rw [if_pos single.around, single.written tag (fun _ => rfl)]
    exact ⟨tag, begins_header tag _ true _ bound, fun _ => rfl⟩
  resumes value encoding valid encoded fits := by
    obtain ⟨index, field, member, inner, rfl, there, known, whole, inside, written⟩ :=
      choice_written all lawful tagMode tag value valid
    obtain rfl := Option.some.inj (written.symm.trans encoded)
    rw [if_pos single.around, single.written tag (fun _ => rfl)] at fits ⊢
    rw [List.length_append] at fits
    exact ⟨_, choice_resumes calls all there known tabled whole inside (by omega)
      (opens_tagged calls type single bound inner (by omega)), Or.inl ⟨Or.inl rfl, rfl⟩⟩

/-- A choice under a tag is read back as it was written, however the bytes are cut. -/
theorem choice_lawful_tagged {tagMode : Int} {tag : Nat} (single : SingleTag type.tags tagMode tag)
    (bound : tag < 2 ^ 32) : Lawful (choice calls type) tagMode tag (ChoiceValid fields) :=
  choice_carries calls all lawful tabled single bound

/-- A choice without a tag is written as its alternative. -/
theorem choice_lawful_untagged (untagged : type.tags = []) (tag : Tag) :
    Lawful (choice calls type) 0 tag (ChoiceValid fields) where
  encodes value valid := by
    obtain ⟨_, _, _, _, _, _, _, _, _, encoded⟩ := choice_written all lawful 0 tag value valid
    exact ⟨_, encoded⟩
  begins value encoding valid encoded := by
    obtain ⟨_, field, member, inner, _, _, known, whole, inside, written⟩ :=
      choice_written all lawful 0 tag value valid
    obtain rfl := Option.some.inj (written.symm.trans encoded)
    rw [if_neg (by simp [untagged]), List.nil_append]
    obtain ⟨outmost, begins, _⟩ := known.lawful.begins member inner whole inside
    exact ⟨outmost, begins, fun other => absurd rfl other⟩
  resumes value encoding valid encoded fits := by
    obtain ⟨index, field, member, inner, rfl, there, known, whole, inside, written⟩ :=
      choice_written all lawful 0 tag value valid
    obtain rfl := Option.some.inj (written.symm.trans encoded)
    rw [if_neg (by simp [untagged]), List.nil_append] at fits ⊢
    exact ⟨_, choice_resumes calls all there known tabled whole inside fits
      (opens_untagged calls type untagged inner), Or.inl ⟨Or.inl rfl, rfl⟩⟩

end Lawful

/-! ## Choices of indefinite length -/

/-- Behind a length that is indefinite, a zero octet is a terminator, the first half of one,
or followed by another octet. -/
theorem unterminated_of {cursor : Cursor} (endless : cursor.ctx.left < 0)
    (complete : cursor.endMark ≠ .part) (other : cursor.endMark ≠ .here)
    (zero : cursor.rest.head? = some 0) :
    ∃ octet tail, octet ≠ 0 ∧ cursor.rest = 0 :: octet :: tail := by
  unfold Cursor.endMark at complete other
  rw [if_neg (by omega)] at complete other
  cases shown : cursor.rest with
  | nil =>
    rw [shown] at zero
    cases zero
  | cons first behind =>
    rw [shown] at zero complete other
    obtain rfl := Option.some.inj zero
    cases behind with
    | nil => simp at complete
    | cons octet tail =>
      refine ⟨octet, tail, ?_, rfl⟩
      rintro rfl
      simp at other

section Indefinite
variable (calls : Nat) {type : ChoiceType} {fields : List Field}
  (all : type.elements = fields.map Field.member) (tabled : Tabled type) {index : Nat}
  {field : Field} (there : fields[index]? = some field) (lawful : field.Lawful) {value : Value}
  (valid : field.Valid value) {inner : List UInt8}
  (written : field.member.codec.derEncoder value field.member.tagMode field.member.tag =
    some inner) (fits : inner.length + 1024 < 2 ^ 63) {tagMode : Int} {tag : Nat}
  (single : SingleTag type.tags tagMode tag) (bound : tag < 2 ^ 32)
include all tabled there lawful valid written fits single bound

/-- Behind a tag and an indefinite length the alternative is decoded, and what comes next is
looked at as a terminator. -/
theorem choice_indefinite (behind : List UInt8) :
    ∃ parse : ChoiceParse, parse.cursor.rest = behind ∧ parse.cursor.ctx.left = -1 ∧
      parse.cursor.consumed = (berTlvTagSerialize tag).length + 1 + inner.length ∧
      parse.struct.value = some (.choice (index + 1) (some value)) ∧
      choiceDecodeBer calls type tagMode .absent
          (markForm true (berTlvTagSerialize tag) ++ 0x80 :: (inner ++ behind)) =
        ChoiceParse.returned
          { parse with cursor := (ChoiceParse.terminators 1 parse.cursor).2 }
          (ChoiceParse.terminators 1 parse.cursor).1 := by
  have around : ChoiceParse.tagged type tagMode := single.around.imp (by rintro rfl; decide) id
  obtain ⟨outmost, begins, same⟩ := lawful.lawful.begins value inner valid written
  obtain rfl := same lawful.applied
  obtain ⟨length, read⟩ := begins.whole behind
  have elm : type.elements[index]? = some field.member := by
    rw [all, List.getElem?_map, there]
    rfl
  obtain ⟨entry, found, number⟩ := tabled.finds index field.member elm
  -- The cursor behind the header, and the one in front of the alternative.
  let opened : Cursor :=
    ⟨inner ++ behind, (berTlvTagSerialize tag).length + 1,
      { phase := 1, step := 0, context := 0, left := -1 }⟩
  have header : Cursor.header type.tags tagMode none
      ⟨markForm true (berTlvTagSerialize tag) ++ 0x80 :: (inner ++ behind), 0, .zero⟩ =
        (.ok, opened) := Cursor.header_indefinite single bound none nofun (inner ++ behind)
  let chosen : ChoiceParse := ⟨opened.nextPhase.step entry.elNo, 0, .absent⟩
  have window : chosen.cursor.window = inner ++ behind := rfl
  obtain ⟨final, invoked, settled⟩ := chosen.cursor.invoke_completes window begins.nonempty
    (lawful.lawful.resumes value inner valid written fits)
  have step : chosen.cursor.ctx.step = index := number
  refine ⟨⟨(chosen.cursor.advance inner.length).nextPhase, index + 1, final⟩, ?_, rfl, ?_, ?_, ?_⟩
  · exact List.drop_left
  · rfl
  · simp only [ChoiceParse.struct, Struct.value, settled]
  · have chooses : ChoiceParse.choose calls type tagMode ⟨opened, 0, .absent⟩ =
        chosen.alternative type tagMode := by
      have shown : opened.window = inner ++ behind := rfl
      simp only [ChoiceParse.choose, shown, read, found]
      rfl
    have ended : ∀ cursor : Cursor, cursor.ctx.left = -1 →
        ChoiceParse.ending type tagMode ⟨cursor, index + 1, final⟩ =
          ((ChoiceParse.terminators 1 cursor).1,
            ⟨(ChoiceParse.terminators 1 cursor).2, index + 1, final⟩) := by
      intro cursor left
      unfold ChoiceParse.ending
      rw [if_neg (by dsimp only; omega), if_neg (fun bare => bare.2 around)]
      dsimp only
      rw [left]
      rfl
    have fresh : ChoiceParse.load .absent
        (markForm true (berTlvTagSerialize tag) ++ 0x80 :: (inner ++ behind)) =
          ⟨⟨markForm true (berTlvTagSerialize tag) ++ 0x80 :: (inner ++ behind), 0, .zero⟩, 0,
            .absent⟩ := rfl
    unfold choiceDecodeBer
    rw [fresh]
    simp only [Ctx.zero] at header ⊢
    rw [if_pos around]
    simp only [header, chooses]
    unfold ChoiceParse.alternative
    rw [step, elm]
    dsimp only
    rw [show chosen.member = .absent from rfl, invoked]
    dsimp only
    rw [ended _ rfl]

/-- The decoder of a choice of indefinite length is stuck exactly where a zero octet with
another octet behind it follows the alternative.

Proof: the decoder reads the tag, the indefinite length and the alternative, and awaits one
terminator. Of what can stand there, only a zero with another octet behind it neither ends the
choice nor returns. -/
theorem choice_stuck_iff (behind : List UInt8) :
    (∃ state, choiceDecodeBer calls type tagMode .absent
        (markForm true (berTlvTagSerialize tag) ++ 0x80 :: (inner ++ behind)) = .stuck state) ↔
      ∃ octet later, octet ≠ 0 ∧ behind = 0 :: octet :: later := by
  obtain ⟨parse, rest, left, _, _, decoded⟩ := choice_indefinite calls all tabled there lawful
    valid written fits single bound behind
  rw [decoded]
  constructor
  · rintro ⟨state, stuck⟩
    have none : (ChoiceParse.terminators 1 parse.cursor).1 = none := by
      rcases code : (ChoiceParse.terminators 1 parse.cursor).1 with _ | code | code | code
      · rfl
      · rw [code] at stuck
        cases stuck
      · rw [code] at stuck
        cases stuck
      · rw [code] at stuck
        cases stuck
    unfold ChoiceParse.terminators at none
    cases read : berFetchTag parse.cursor.window with
    | wantMore =>
      rw [read] at none
      cases none
    | failed =>
      rw [read] at none
      cases none
    | fetched found length =>
      rw [read] at none
      dsimp only at none
      by_cases partly : parse.cursor.endMark = .part
      · rw [if_pos partly] at none
        cases none
      · rw [if_neg partly] at none
        by_cases ended : parse.cursor.endMark = .here
        · rw [if_pos ended] at none
          cases none
        · rw [if_neg ended] at none
          by_cases zero : parse.cursor.rest.head? = some 0
          · obtain ⟨octet, tail, other, shown⟩ := unterminated_of (by omega) partly ended zero
            exact ⟨octet, tail, other, rest.symm.trans shown⟩
          · rw [if_neg zero] at none
            cases none
  · rintro ⟨octet, later, other, rfl⟩
    have window : parse.cursor.window = 0 :: octet :: later := by
      unfold Cursor.window
      rw [if_pos (by omega), rest]
    have mark : parse.cursor.endMark = .other := by
      unfold Cursor.endMark
      rw [if_neg (by omega), rest]
      simp [other]
    have read : berFetchTag (0 :: octet :: later) = .fetched 0 1 := rfl
    have hangs : ChoiceParse.terminators 1 parse.cursor = (none, parse.cursor) := by
      unfold ChoiceParse.terminators
      rw [window, read]
      dsimp only
      rw [mark, if_neg (by decide), if_neg (by decide), rest, List.head?_cons, if_pos rfl]
    exact ⟨_, by rw [hangs]; rfl⟩

end Indefinite

/-! ## Any bytes -/

section Sound
variable (calls : Nat) (type : ChoiceType) (tagMode : Int) {size : Nat}

/-- What a phase leaves of the given bytes, and when it does not end. -/
structure ChoiceParse.Sound (type : ChoiceType) (size : Nat) (given : List UInt8)
    (result : Option RvalCode × ChoiceParse) : Prop where
  accounts : result.2.cursor.Accounts size
  endless : result.1 = none → Unterminated given
  early : result.2.cursor.ctx.phase ≤ 1 → result.2.member = .absent
  chosen : result.2.cursor.ctx.phase = 2 → ∀ elm,
    type.elements[result.2.cursor.ctx.step]? = some elm →
      ResumableDecoders.Confined (elm.codec.berDecoder elm.tagMode) Unterminated result.2.member

theorem terminators_sound (awaited : Nat) (cursor : Cursor) (accounts : cursor.Accounts size)
    (left : cursor.ctx.left = -(awaited : Int)) (late : 3 ≤ cursor.ctx.phase) :
    (ChoiceParse.terminators awaited cursor).2.Accounts size ∧
      3 ≤ (ChoiceParse.terminators awaited cursor).2.ctx.phase ∧
      ((ChoiceParse.terminators awaited cursor).1 = none → Unterminated cursor.rest) := by
  induction awaited generalizing cursor with
  | zero => exact ⟨accounts, Nat.le_succ_of_le late, nofun⟩
  | succ awaited inductionHypothesis =>
    unfold ChoiceParse.terminators
    cases read : berFetchTag cursor.window with
    | wantMore => exact ⟨accounts, late, nofun⟩
    | failed => exact ⟨accounts, late, nofun⟩
    | fetched tag length =>
      dsimp only
      by_cases partly : cursor.endMark = .part
      · rw [if_pos partly]
        exact ⟨accounts, late, nofun⟩
      · rw [if_neg partly]
        by_cases ended : cursor.endMark = .here
        · rw [if_pos ended]
          have onward := accounts.onward 2 (by
            unfold Cursor.endMark at ended
            unfold Cursor.window
            rw [if_neg (by omega)] at ended
            rw [if_pos (by omega)]
            split at ended
            · cases ended
            · split at ended
              · cases ended
              · omega)
          obtain ⟨kept, later, endless⟩ := inductionHypothesis
            ((cursor.advance 2).left (cursor.ctx.left + 1)) onward.accounts
            (show cursor.ctx.left + 1 = -(awaited : Int) by omega) late
          exact ⟨kept, later, fun none => (endless none).around onward.behind⟩
        · rw [if_neg ended]
          by_cases zero : cursor.rest.head? = some 0
          · rw [if_pos zero]
            obtain ⟨octet, tail, other, shown⟩ := unterminated_of (by omega) partly ended zero
            exact ⟨accounts, late, fun _ => ⟨octet, other, [], tail, by rw [shown]; rfl⟩⟩
          · rw [if_neg zero]
            exact ⟨accounts, late, nofun⟩

theorem ending_sound {parse : ChoiceParse} (accounts : parse.cursor.Accounts size)
    (late : 3 ≤ parse.cursor.ctx.phase) :
    ChoiceParse.Sound type size parse.cursor.rest (parse.ending type tagMode) := by
  have kept : ∀ (code : RvalCode) (after : ChoiceParse), after.cursor.Accounts size →
      3 ≤ after.cursor.ctx.phase →
      ChoiceParse.Sound type size parse.cursor.rest (some code, after) :=
    fun code after same later => ⟨same, nofun, fun early => absurd (Nat.le_trans later early)
      (by decide), fun two => absurd (two ▸ later : 3 ≤ 2) (by decide)⟩
  unfold ChoiceParse.ending
  split
  · exact kept .fail parse accounts late
  · split
    · exact kept .ok { parse with cursor := parse.cursor.nextPhase } accounts
        (Nat.le_succ_of_le late)
    · next positive _ =>
      obtain ⟨same, later, endless⟩ := terminators_sound (-parse.cursor.ctx.left).toNat
        parse.cursor accounts (by omega) late
      exact ⟨same, endless, fun early => absurd (Nat.le_trans later early) (by decide),
        fun two => absurd (two ▸ later) (by decide)⟩

theorem alternative_sound {parse : ChoiceParse} (accounts : parse.cursor.Accounts size)
    (second : parse.cursor.ctx.phase = 2)
    (chosen : ∀ elm, type.elements[parse.cursor.ctx.step]? = some elm →
      ResumableDecoders.Confined (elm.codec.berDecoder elm.tagMode) Unterminated parse.member) :
    ChoiceParse.Sound type size parse.cursor.rest (parse.alternative type tagMode) := by
  unfold ChoiceParse.alternative
  cases there : type.elements[parse.cursor.ctx.step]? with
  | none =>
    exact ⟨accounts, (fun same => by cases same), fun early => by rw [second] at early; omega,
      fun _ elm found => chosen elm found⟩
  | some elm =>
    obtain ⟨code, next, after, invoked, kept, onward, endless⟩ := accounts.invoke
      (confined_confines (elm.codec.berDecoder elm.tagMode) Unterminated) (chosen elm there)
    have phase := onward.phase.trans second
    have step := onward.step
    have stopped : ∀ code, (code = none → Unterminated parse.cursor.rest) →
        ChoiceParse.Sound type size parse.cursor.rest
          (code, { cursor := after, present := parse.cursor.ctx.step + 1, member := next }) := by
      intro code hangs
      refine ⟨onward.accounts, hangs, fun early => ?_, fun _ other found => ?_⟩
      · dsimp only at early
        omega
      · dsimp only at found
        rw [step] at found
        obtain rfl := Option.some.inj (there.symm.trans found)
        exact kept
    dsimp only
    rw [invoked]
    rcases code with _ | code | code | code
    · exact stopped none endless
    · have third : 3 ≤ (ChoiceParse.mk after.nextPhase (parse.cursor.ctx.step + 1)
          next).cursor.ctx.phase := by
        simp only [Cursor.nextPhase, Cursor.phase, Cursor.step, phase]
        omega
      have moved : (ChoiceParse.mk after.nextPhase (parse.cursor.ctx.step + 1)
          next).cursor.Accounts size := onward.accounts
      have sound := ending_sound type tagMode moved third
      exact ⟨sound.accounts, fun none => (sound.endless none).around onward.behind, sound.early,
        sound.chosen⟩
    · exact stopped (some .wmore) fun same => by cases same
    · exact stopped (some .fail) fun same => by cases same

theorem choose_sound {parse : ChoiceParse} (accounts : parse.cursor.Accounts size)
    (first : parse.cursor.ctx.phase = 1) (fresh : parse.member = .absent)
    (members : ∀ elm ∈ type.elements, elm.codec.Confined elm.tagMode) :
    ChoiceParse.Sound type size parse.cursor.rest (parse.choose calls type tagMode) := by
  have kept : ∀ (code : RvalCode),
      ChoiceParse.Sound type size parse.cursor.rest (some code, parse) :=
    fun code => ⟨accounts, (fun same => by cases same), fun _ => fresh,
      fun two => by dsimp only at two; omega⟩
  have shown := parse.cursor.window_length
  unfold ChoiceParse.choose
  cases read : berFetchTag parse.cursor.window with
  | wantMore => exact kept _
  | failed => exact kept _
  | fetched tlvTag tagLen =>
    have tagBounds := online_berFetchTag.bounded _ _ _ read
    dsimp only
    cases (bsearch (search4tag tlvTag) type.tag2el).bind fun hit => type.tag2el[hit]? with
    | some t2m =>
      have second : ({ parse with cursor := parse.cursor.nextPhase.step t2m.elNo } :
          ChoiceParse).cursor.ctx.phase = 2 := by
        simp only [Cursor.nextPhase, Cursor.phase, Cursor.step, first]
      have moved : ({ parse with cursor := parse.cursor.nextPhase.step t2m.elNo } :
          ChoiceParse).cursor.Accounts size := accounts
      refine alternative_sound type tagMode moved second fun elm there => ?_
      dsimp only
      rw [fresh]
      exact members elm (List.mem_of_getElem? there)
    | none =>
      dsimp only
      split
      · exact kept _
      · cases skipped : berSkipLength calls (berTlvConstructed (parse.cursor.rest.headD 0))
            (parse.cursor.window.drop tagLen) with
        | wantMore => exact kept _
        | failed => exact kept _
        | fetched _ skip =>
          have skipBounds := berSkipLength_bounded _ _ _ _ skipped
          rw [List.length_drop] at skipBounds
          have onward := accounts.onward (skip + tagLen) (by omega)
          exact ⟨onward.accounts, (fun same => by cases same), fun _ => fresh, fun two => by
            have phase := onward.phase
            dsimp only at two
            omega⟩

end Sound

/-- The memory of a choice between two calls. -/
structure ChoiceFormed (type : ChoiceType) (struct : Struct) : Prop where
  early : (ChoiceParse.load struct []).cursor.ctx.phase ≤ 1 →
    (ChoiceParse.load struct []).member = .absent
  chosen : (ChoiceParse.load struct []).cursor.ctx.phase = 2 → ∀ elm,
    type.elements[(ChoiceParse.load struct []).cursor.ctx.step]? = some elm →
      ResumableDecoders.Confined (elm.codec.berDecoder elm.tagMode) Unterminated
        (ChoiceParse.load struct []).member

/-- What the decoder of a choice returns, and when it does not. -/
structure ChoiceReturns (type : ChoiceType) (given : List UInt8) (outcome : Outcome Struct) :
    Prop where
  inside : outcome.consumed ≤ given.length
  formed : ChoiceFormed type outcome.state
  endless : ∀ next, outcome = .stuck next → Unterminated given

theorem ChoiceParse.Sound.returns {type : ChoiceType} {given : List UInt8}
    {result : Option RvalCode × ChoiceParse} (sound : Sound type given.length given result) :
    ChoiceReturns type given (result.2.returned result.1) := by
  obtain ⟨code, after⟩ := result
  have formed : ChoiceFormed type after.struct := ⟨sound.early, sound.chosen⟩
  rcases code with _ | code | code | code
  · exact ⟨Nat.zero_le _, formed, fun _ _ => sound.endless rfl⟩
  · exact ⟨sound.accounts.inside, formed, nofun⟩
  · exact ⟨sound.accounts.inside, formed, nofun⟩
  · exact ⟨sound.accounts.inside, formed, nofun⟩

theorem ChoiceParse.load_cursor (struct : Struct) (given : List UInt8) :
    (load struct given).cursor = ⟨given, 0, (load struct []).cursor.ctx⟩ := by
  cases struct <;> rfl

theorem ChoiceParse.load_member (struct : Struct) (given : List UInt8) :
    (load struct given).member = (load struct []).member := by
  cases struct <;> rfl

theorem ChoiceParse.load_accounts (struct : Struct) (given : List UInt8) :
    (load struct given).cursor.Accounts given.length := by
  rw [load_cursor]
  exact Nat.zero_add _

namespace ChoiceFormed
variable {type : ChoiceType} {struct : Struct} (formed : ChoiceFormed type struct)
  (given : List UInt8)
include formed

theorem load_early (start : (ChoiceParse.load struct given).cursor.ctx.phase ≤ 1) :
    (ChoiceParse.load struct given).member = .absent := by
  rw [ChoiceParse.load_cursor] at start
  rw [ChoiceParse.load_member]
  exact formed.early start

theorem load_chosen (second : (ChoiceParse.load struct given).cursor.ctx.phase = 2)
    (elm : Member)
    (there : type.elements[(ChoiceParse.load struct given).cursor.ctx.step]? = some elm) :
    ResumableDecoders.Confined (elm.codec.berDecoder elm.tagMode) Unterminated
      (ChoiceParse.load struct given).member := by
  rw [ChoiceParse.load_cursor] at second there
  rw [ChoiceParse.load_member]
  exact formed.chosen second elm there

/-- A call that stops in phase 0 leaves the member alone. -/
theorem stopped (zero : (ChoiceParse.load struct given).cursor.ctx.phase = 0) (code : RvalCode)
    (cursor : Cursor) (inside : cursor.consumed ≤ given.length)
    (same : cursor.ctx.phase = (ChoiceParse.load struct given).cursor.ctx.phase) :
    ChoiceReturns type given
      (ChoiceParse.returned { ChoiceParse.load struct given with cursor := cursor }
        (some code)) := by
  have kept : ChoiceFormed type
      (ChoiceParse.struct { ChoiceParse.load struct given with cursor := cursor }) := by
    refine ⟨fun _ => formed.load_early given (by omega), fun two => ?_⟩
    have second : cursor.ctx.phase = 2 := two
    omega
  cases code with
  | ok => exact ⟨inside, kept, nofun⟩
  | wmore => exact ⟨inside, kept, nofun⟩
  | fail => exact ⟨inside, kept, nofun⟩

variable (calls : Nat) (tagMode : Int)
  (members : ∀ elm ∈ type.elements, elm.codec.Confined elm.tagMode)
include members

/-- From a cursor in phase 1 on, the alternative is chosen. -/
theorem chooses (early : (ChoiceParse.load struct given).cursor.ctx.phase ≤ 1)
    {cursor : Cursor} (accounts : cursor.Accounts given.length) (first : cursor.ctx.phase = 1)
    (behind : cursor.rest <:+: given) :
    ChoiceReturns type given
      ((ChoiceParse.choose calls type tagMode
        { ChoiceParse.load struct given with cursor := cursor }).2.returned
        (ChoiceParse.choose calls type tagMode
          { ChoiceParse.load struct given with cursor := cursor }).1) := by
  have moved : ({ ChoiceParse.load struct given with cursor := cursor } :
      ChoiceParse).cursor.Accounts given.length := accounts
  have sound := choose_sound calls type tagMode moved first (formed.load_early given early) members
  have whole : ChoiceParse.Sound type given.length given _ := ⟨sound.accounts,
    fun none => (sound.endless none).around behind, sound.early, sound.chosen⟩
  exact whole.returns

end ChoiceFormed

/-- A call returns from the phase that the last one left. -/
theorem choice_returns (calls : Nat) (type : ChoiceType) (tagMode : Int)
    (members : ∀ elm ∈ type.elements, elm.codec.Confined elm.tagMode) (struct : Struct)
    (given : List UInt8) (formed : ChoiceFormed type struct) :
    ChoiceReturns type given (choiceDecodeBer calls type tagMode struct given) := by
  have shown := ChoiceParse.load_cursor struct given
  have start := ChoiceParse.load_accounts struct given
  have rest : (ChoiceParse.load struct given).cursor.rest = given := by rw [shown]
  have whole : (ChoiceParse.load struct given).cursor.rest <:+: given := by simp [rest]
  unfold choiceDecodeBer
  dsimp only
  split
  · next zero =>
    split
    · obtain ⟨code, opened, checked, inside, phase, accepted⟩ := Cursor.header_sound type.tags
        tagMode none (ChoiceParse.load struct []).cursor.ctx given
      rw [← shown] at checked
      rw [checked]
      cases code with
      | ok =>
        obtain ⟨accounts, behind, first, _⟩ := accepted rfl
        refine formed.chooses given calls tagMode members (by omega) accounts ?_ behind
        rw [shown] at zero
        rw [first, zero]
      | wmore =>
        exact formed.stopped given zero .wmore opened inside (by rw [shown]; exact phase nofun)
      | fail =>
        exact formed.stopped given zero .fail opened inside (by rw [shown]; exact phase nofun)
    · exact formed.chooses given calls tagMode members (by omega) start (congrArg (· + 1) zero) whole
  · next first => exact formed.chooses given calls tagMode members (by omega) start first whole
  · next second =>
    have sound := alternative_sound type tagMode start second (formed.load_chosen given second)
    rw [rest] at sound
    exact sound.returns
  · next third =>
    have sound := ending_sound type tagMode start (by omega)
    rw [rest] at sound
    exact sound.returns
  · next zero first second third =>
    refine ⟨start.inside, ⟨fun before => ?_, fun two => absurd two second⟩, nofun⟩
    have late : (ChoiceParse.load struct given).cursor.ctx.phase ≤ 1 := before
    rcases Nat.le_one_iff_eq_zero_or_eq_one.mp late with none | one
    · exact absurd none zero
    · exact absurd one first

/-- Whatever the bytes, the decoder of a choice stays inside them, as those of its
alternatives do, and is stuck at most where a zero octet is not followed by another. -/
theorem choice_confined (calls : Nat) (type : ChoiceType) (tagMode : Int)
    (members : ∀ elm ∈ type.elements, elm.codec.Confined elm.tagMode) :
    (choice calls type).Confined tagMode := by
  have returns := choice_returns calls type tagMode members
  refine ⟨ChoiceFormed type, ⟨fun struct given formed => (returns struct given formed).inside,
    fun struct given formed => (returns struct given formed).formed,
    fun struct given next formed => (returns struct given formed).endless next⟩, ?_, ?_⟩
  · exact fun _ => rfl
  · exact fun two => absurd two (show ¬(0 : Nat) = 2 by decide)

/-- A complete choice without a tag has taken its alternative, or what it skipped. -/
theorem choice_productive (calls : Nat) (type : ChoiceType) (untagged : type.tags = [])
    (members : ∀ elm ∈ type.elements, elm.codec.Productive elm.tagMode) :
    (choice calls type).Productive 0 := by
  intro given final consumed decoded
  have bare : ¬ChoiceParse.tagged type 0 := by simp [ChoiceParse.tagged, untagged]
  let opened : Cursor := ⟨given, 0, { phase := 1, step := 0, context := 0, left := -1 }⟩
  have started : choiceDecodeBer calls type 0 .absent given =
      (ChoiceParse.choose calls type 0 ⟨opened, 0, .absent⟩).2.returned
        (ChoiceParse.choose calls type 0 ⟨opened, 0, .absent⟩).1 := by
    have fresh : ChoiceParse.load .absent given = ⟨⟨given, 0, .zero⟩, 0, .absent⟩ := rfl
    unfold choiceDecodeBer
    rw [fresh]
    simp only [Ctx.zero]
    rw [if_neg bare]
    rfl
  have returned := started.symm.trans decoded
  have window : opened.window = given := rfl
  -- Only a complete alternative or a skipped one leaves RC_OK.
  have taken : (ChoiceParse.choose calls type 0 ⟨opened, 0, .absent⟩).1 = some .ok →
      0 < (ChoiceParse.choose calls type 0 ⟨opened, 0, .absent⟩).2.cursor.consumed := by
    unfold ChoiceParse.choose
    dsimp only
    rw [window]
    cases read : berFetchTag given with
    | wantMore => exact fun same => absurd (Option.some.inj same) opened.wanting_ne_ok
    | failed => exact fun same => by cases same
    | fetched tlvTag tagLen =>
      have tagBounds := online_berFetchTag.bounded _ _ _ read
      dsimp only
      cases (bsearch (search4tag tlvTag) type.tag2el).bind fun hit => type.tag2el[hit]? with
      | some t2m =>
        dsimp only
        unfold ChoiceParse.alternative
        cases there : type.elements[(opened.nextPhase.step t2m.elNo).ctx.step]? with
        | none => exact fun same => by cases same
        | some elm =>
          have shown : (opened.nextPhase.step t2m.elNo).window = given := rfl
          dsimp only
          unfold Cursor.invoke
          rw [shown]
          cases inner : elm.codec.berDecoder elm.tagMode .absent given with
          | done next taken =>
            have positive := members elm (List.mem_of_getElem? there) given next taken inner
            have endless : ((opened.nextPhase.step t2m.elNo).advance taken).nextPhase.ctx.left =
                -1 := rfl
            dsimp only
            unfold ChoiceParse.ending
            dsimp only
            rw [if_neg (by omega), if_pos ⟨endless, bare⟩]
            intro _
            simp only [Cursor.nextPhase, Cursor.advance, Cursor.phase, Cursor.step]
            omega
          | more next taken =>
            have admitted : ¬(opened.nextPhase.step t2m.elNo).sizeViolation := fun violated =>
              absurd violated.1 (show ¬(0 : Int) ≤ -1 by decide)
            dsimp only
            rw [if_neg admitted]
            exact fun same => by cases same
          | failed next taken => exact fun same => by cases same
          | stuck next => exact fun same => by cases same
      | none =>
        dsimp only
        split
        · exact fun same => by cases same
        · cases skipped : berSkipLength calls (berTlvConstructed (opened.rest.headD 0))
              (given.drop tagLen) with
          | wantMore => exact fun same => absurd (Option.some.inj same) opened.wanting_ne_ok
          | failed => exact fun same => by cases same
          | fetched _ skip =>
            intro _
            simp only [Cursor.advance]
            omega
  rcases code : (ChoiceParse.choose calls type 0 ⟨opened, 0, .absent⟩).1 with _ | code' | _ | _
  · rw [code] at returned
    cases returned
  · rw [code] at returned
    cases returned
    exact taken code
  · rw [code] at returned
    cases returned
  · rw [code] at returned
    cases returned

end NetVirt.Ber
