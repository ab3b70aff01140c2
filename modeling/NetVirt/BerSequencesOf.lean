import NetVirt.BerSequences

/-!
# Sequences of one type

`SET_OF_decode_ber` of constr_SET_OF.c, which decodes a SEQUENCE OF as well, and
`SEQUENCE_OF_encode_der` of constr_SEQUENCE_OF.c. Items are decoded into the pointer of the
context, one after the other, and each is put behind the others once it is complete.
-/

namespace NetVirt.Ber

open OnlineParsers ResumableDecoders

/-- The descriptor of a sequence of items with the tag and the type of these. -/
structure SequenceOfType where
  tags : List Tag
  tag : Tag
  codec : Codec

/-- The structure that is decoded into, with the item of which `ctx->ptr` knows, and where its
decoder stands. -/
structure SequenceOfParse where
  cursor : Cursor
  item : Struct
  list : List Struct

namespace SequenceOfParse

/-- The structure is created if it does not exist: all its memory is zero. -/
def load (struct : Struct) (given : List UInt8) : SequenceOfParse :=
  match struct with
  | .setOf ctx item list => { cursor := ⟨given, 0, ctx⟩, item := item, list := list }
  | _ => { cursor := ⟨given, 0, .zero⟩, item := .absent, list := [] }

def struct (parse : SequenceOfParse) : Struct := .setOf parse.cursor.ctx parse.item parse.list

def returned (parse : SequenceOfParse) (code : Option RvalCode) : Outcome Struct :=
  parse.cursor.returned parse.struct code

/-- What a turn of the loop over the items comes to. -/
inductive Turn where
  | returned (code : Option RvalCode) (parse : SequenceOfParse)
  | again (parse : SequenceOfParse)
  | ended (parse : SequenceOfParse)

/-- Microphase 2: the decoder of the item is called. A complete item is added, one that
failed is freed. -/
def receive (type : SequenceOfType) (parse : SequenceOfParse) : Turn :=
  match parse.cursor.invoke type.codec 0 parse.item with
  | (some .ok, .absent, _) => .returned (some .fail) { parse with item := .absent }
  | (some .ok, item, cursor) =>
    .again { cursor := cursor.step 0, item := .absent, list := parse.list ++ [item] }
  | (some .fail, _, cursor) =>
    .returned (some .fail) { parse with cursor := cursor, item := .absent }
  | (code, item, cursor) => .returned code { parse with cursor := cursor, item := item }

/-- One turn of phase 1. -/
def turn (type : SequenceOfType) (parse : SequenceOfParse) : Turn :=
  if parse.cursor.ctx.step % 2 = 1 then parse.receive type
  else if parse.cursor.ctx.left = 0 then
    .returned (some .ok) { parse with cursor := parse.cursor.phase 10 }
  else
    match berFetchTag parse.cursor.window with
    | .wantMore => .returned (some parse.cursor.wanting) parse
    | .failed => .returned (some .fail) parse
    | .fetched tlvTag _ =>
      if parse.cursor.endMark = .part then .returned (some .wmore) parse
      else if parse.cursor.endMark = .here then .ended parse
      else if type.tag ≠ anyTag ∧ tlvTag ≠ type.tag then .returned (some .fail) parse
      else
        let entered := { parse with cursor := parse.cursor.step (parse.cursor.ctx.step + 1) }
        entered.receive type

/-- Phase 2: the terminators, of which each negative unit of the length stands for one. -/
def terminators : Nat → Cursor → RvalCode × Cursor
  | 0, cursor => (.ok, cursor.phase 10)
  | awaited + 1, cursor =>
    if cursor.window.length < 2 then
      if cursor.window ≠ [] ∧ cursor.rest.head? ≠ some 0 then (.fail, cursor) else (.wmore, cursor)
    else if cursor.rest.take 2 = [0, 0] then
      terminators awaited ((cursor.advance 2).left (cursor.ctx.left + 1))
    else (.fail, cursor)

def finish (parse : SequenceOfParse) : Option RvalCode × SequenceOfParse :=
  let (code, cursor) := terminators (-parse.cursor.ctx.left).toNat parse.cursor
  (some code, { parse with cursor := cursor })

/-- Phase 1, for a number of turns. -/
def items (type : SequenceOfType) : Nat → SequenceOfParse → Option RvalCode × SequenceOfParse
  | 0, parse => (none, parse)
  | fuel + 1, parse =>
    match parse.turn type with
    | .returned code after => (code, after)
    | .again after => items type fuel after
    | .ended after => { after with cursor := after.cursor.nextPhase }.finish

/-- Each item but the first consumes bytes, so that these turns are enough. -/
def fuel (parse : SequenceOfParse) : Nat := parse.cursor.rest.length + 2

end SequenceOfParse

/-- `SET_OF_decode_ber` -/
def setOfDecodeBer (type : SequenceOfType) (tagMode : Int) (struct : Struct)
    (given : List UInt8) : Outcome Struct :=
  let parse := SequenceOfParse.load struct given
  match parse.cursor.ctx.phase with
  | 0 =>
    match parse.cursor.header type.tags tagMode (some true) with
    | (.ok, opened) =>
      let parse := { parse with cursor := opened }
      let (code, after) := parse.items type parse.fuel
      after.returned code
    | (code, cursor) => { parse with cursor := cursor }.returned code
  | 1 =>
    let (code, after) := parse.items type parse.fuel
    after.returned code
  | 2 =>
    let (code, after) := parse.finish
    after.returned code
  | _ => parse.returned (some .ok)

/-- The items that are there, one behind the other. -/
def encodeItems (type : SequenceOfType) : List (Option Value) → Option (List UInt8)
  | [] => some []
  | none :: items => encodeItems type items
  | some item :: items => do
    let first ← type.codec.derEncoder item 0 type.tag
    let others ← encodeItems type items
    return first ++ others

/-- `SEQUENCE_OF_encode_der` -/
def sequenceOfEncodeDer (type : SequenceOfType) (value : Value) (tagMode : Int) (tag : Tag) :
    Option (List UInt8) :=
  match value with
  | .setOf list => do
    let contents ← encodeItems type list
    return derWriteTags type.tags contents.length tagMode true tag ++ contents
  | _ => none

def sequenceOf (type : SequenceOfType) : Codec where
  tags := type.tags
  zeroed := .setOf []
  berDecoder := setOfDecodeBer type
  derEncoder := sequenceOfEncodeDer type

/-! ## A sequence that is written is read back -/

/-- The type of the items carries the valid ones, which start with the tag of the items unless
that is left open. -/
structure ItemsLawful (type : SequenceOfType) (Valid : Value → Prop) : Prop where
  lawful : Lawful type.codec 0 type.tag Valid
  tagged : ∀ value encoding outmost, Valid value →
    type.codec.derEncoder value 0 type.tag = some encoding → Begins outmost encoding →
      type.tag = anyTag ∨ outmost = type.tag

/-- The items before some point were added, and the others are still to come. -/
structure BetweenItems (type : SequenceOfType) (Valid : Value → Prop)
    (values todo : List (Option Value)) (remaining : List UInt8) (parse : SequenceOfParse) :
    Prop where
  values : values = parse.list.map Struct.value ++ todo
  item : parse.item = .absent
  valid : ∀ item ∈ todo, ∃ value, item = some value ∧ Valid value
  encoded : encodeItems type todo = some remaining
  short : remaining.length + 1024 < 2 ^ 63
  phase : parse.cursor.ctx.phase = 1
  step : parse.cursor.ctx.step = 0

/-- The decoder of an item was chosen, and awaits `current`. -/
structure InsideItem (type : SequenceOfType) (Valid : Value → Prop)
    (values todo : List (Option Value)) (value : Value) (current rest : List UInt8)
    (parse : SequenceOfParse) : Prop where
  values : values = parse.list.map Struct.value ++ some value :: todo
  awaits : Awaits (type.codec.berDecoder 0) (fun final => final.value = some value) parse.item
    current
  nonempty : current ≠ []
  valid : ∀ item ∈ todo, ∃ value, item = some value ∧ Valid value
  encoded : encodeItems type todo = some rest
  short : rest.length + 1024 < 2 ^ 63
  phase : parse.cursor.ctx.phase = 1
  step : parse.cursor.ctx.step = 1

/-- Where the decoder stands between two calls, and what it still needs. -/
def StandingItems (type : SequenceOfType) (Valid : Value → Prop) (values : List (Option Value))
    (parse : SequenceOfParse) (remaining : List UInt8) : Prop :=
  parse.cursor.ctx.left = remaining.length ∧
    ((∃ todo, BetweenItems type Valid values todo remaining parse) ∨
      ∃ todo value current rest, InsideItem type Valid values todo value current rest parse ∧
        remaining = current ++ rest)

section Items
variable {type : SequenceOfType} {Valid : Value → Prop} {values : List (Option Value)}

/-- A complete item is added to the list. -/
theorem InsideItem.completed {todo : List (Option Value)} {value : Value}
    {current rest : List UInt8} {parse : SequenceOfParse} {final : Struct}
    (inside : InsideItem type Valid values todo value current rest parse)
    (settled : final.value = some value)
    (invoked : parse.cursor.invoke type.codec 0 parse.item =
      (some .ok, final, parse.cursor.advance current.length)) :
    ∃ next, parse.turn type = .again next ∧
      next.cursor = (parse.cursor.advance current.length).step 0 ∧
      BetweenItems type Valid values todo rest next := by
  refine ⟨{ cursor := (parse.cursor.advance current.length).step 0, item := .absent,
            list := parse.list ++ [final] }, ?_, rfl, ?_⟩
  · unfold SequenceOfParse.turn
    rw [if_pos (by rw [inside.step]), SequenceOfParse.receive, invoked]
    cases final with
    | absent => cases settled
    | _ => rfl
  · exact {
      values := by
        rw [inside.values, List.map_append, List.append_assoc, List.map_singleton, settled,
          List.singleton_append]
      item := rfl
      valid := inside.valid
      encoded := inside.encoded
      short := inside.short
      phase := inside.phase
      step := rfl }

theorem InsideItem.whole {todo : List (Option Value)} {value : Value}
    {current rest later : List UInt8} {parse : SequenceOfParse}
    (inside : InsideItem type Valid values todo value current rest parse)
    (whole : parse.cursor.Whole (current ++ rest) later) :
    ∃ next, parse.turn type = .again next ∧ next.cursor.Whole rest later ∧
      next.cursor.consumed = parse.cursor.consumed + current.length ∧
      BetweenItems type Valid values todo rest next := by
  obtain ⟨final, invoked, settled⟩ := parse.cursor.invoke_completes whole.window inside.nonempty
    inside.awaits
  obtain ⟨next, turned, cursor, between⟩ := inside.completed settled invoked
  refine ⟨next, turned, ?_, ?_, between⟩
  · rw [cursor]
    exact ⟨whole.advance.left, whole.advance.rest⟩
  · rw [cursor]
    rfl

theorem InsideItem.part {todo : List (Option Value)} {value : Value}
    {current rest given missing : List UInt8} {parse : SequenceOfParse}
    (inside : InsideItem type Valid values todo value current rest parse)
    (part : parse.cursor.Part given missing) (someGiven : given ≠ [])
    (split : given ++ missing = current ++ rest) :
    (∃ behind next, given = current ++ behind ∧ parse.turn type = .again next ∧
      next.cursor.Part behind missing ∧
      next.cursor.consumed = parse.cursor.consumed + current.length ∧
      BetweenItems type Valid values todo rest next) ∨
    ∃ next consumed, parse.turn type = .returned (some .wmore) next ∧ consumed ≤ given.length ∧
      next.cursor.consumed = parse.cursor.consumed + consumed ∧
      StandingItems type Valid values next ((given ++ missing).drop consumed) := by
  rcases split_cases split with ⟨behind, taken, _⟩ | ⟨lacking, unfinished, cut, _⟩
  · left
    obtain ⟨final, invoked, settled⟩ := parse.cursor.invoke_completes
      (part.window.trans taken) inside.nonempty inside.awaits
    obtain ⟨next, turned, cursor, between⟩ := inside.completed settled invoked
    have advanced := part.advance current.length (by rw [taken, List.length_append]; omega)
    refine ⟨behind, next, taken, turned, ?_, ?_, between⟩
    · rw [cursor]
      rw [taken, List.drop_left] at advanced
      exact ⟨advanced.left, advanced.rest, advanced.lacking⟩
    · rw [cursor]
      rfl
  · right
    have awaits := inside.awaits
    rw [cut] at awaits
    obtain ⟨next, consumed, invoked, few, kept⟩ := parse.cursor.invoke_waits part.window
      part.admitted someGiven unfinished awaits
    rw [← cut] at kept
    have more := List.length_pos_iff.mpr unfinished
    have inner : consumed < current.length := by
      rw [cut, List.length_append]
      omega
    have advanced := part.advance consumed few
    refine ⟨{ parse with cursor := parse.cursor.advance consumed, item := next }, consumed, ?_, few,
      rfl, ?_, Or.inr ⟨todo, value, current.drop consumed, rest, ?_, ?_⟩⟩
    · unfold SequenceOfParse.turn
      rw [if_pos (by rw [inside.step]), SequenceOfParse.receive, invoked]
    · rw [List.drop_append_of_le_length few]
      exact advanced.left
    · exact {
        values := inside.values
        awaits := kept
        nonempty := by
          intro nothing
          have length := congrArg List.length nothing
          rw [List.length_drop] at length
          simp only [List.length_nil] at length
          omega
        valid := inside.valid
        encoded := inside.encoded
        short := inside.short
        phase := inside.phase
        step := inside.step }
    · rw [split, List.drop_append_of_le_length (by omega)]

variable (items : ItemsLawful type Valid)
include items

/-- Where a tag is read, its item is decoded. -/
theorem BetweenItems.enter {todo : List (Option Value)} {value : Value}
    {first rest : List UInt8} {parse : SequenceOfParse}
    (between : BetweenItems type Valid values (some value :: todo) (first ++ rest) parse)
    (written : type.codec.derEncoder value 0 type.tag = some first)
    (encoded : encodeItems type todo = some rest) (left : 0 < parse.cursor.ctx.left)
    {outmost : Tag} (begins : Begins outmost first)
    (tagged : ∃ length, berFetchTag parse.cursor.window = .fetched outmost length) :
    ∃ entered, parse.turn type = entered.turn type ∧
      entered.cursor = parse.cursor.step 1 ∧
      InsideItem type Valid values todo value first rest entered := by
  obtain ⟨length, read⟩ := tagged
  obtain ⟨found, same, valid⟩ := between.valid (some value) List.mem_cons_self
  obtain rfl := Option.some.inj same
  have expected : ¬(type.tag ≠ anyTag ∧ outmost ≠ type.tag) := by
    rcases items.tagged value first outmost valid written begins with any | only
    · exact fun both => both.1 any
    · exact fun both => both.2 only
  have noEnd : parse.cursor.endMark = .other := if_pos (by omega)
  have shorter := between.short
  rw [List.length_append] at shorter
  refine ⟨{ parse with cursor := parse.cursor.step 1 }, ?_, rfl, ?_⟩
  · have entered : SequenceOfParse.turn type { parse with cursor := parse.cursor.step 1 } =
        SequenceOfParse.receive type { parse with cursor := parse.cursor.step 1 } := if_pos rfl
    rw [entered]
    unfold SequenceOfParse.turn
    rw [if_neg (by rw [between.step]; decide), if_neg (by omega), read]
    dsimp only
    rw [noEnd, if_neg (by decide), if_neg (by decide), if_neg expected, between.step]
  · exact {
      values := between.values
      awaits := by
        rw [between.item]
        exact items.lawful.resumes value first valid written (by omega)
      nonempty := begins.nonempty
      valid := fun item inside => between.valid item (List.mem_cons_of_mem _ inside)
      encoded := encoded
      short := by omega
      phase := between.phase
      step := rfl }

omit items in
/-- What is written of the items that are to come, all of which are there. -/
theorem encodeItems_cons {value : Value} {todo : List (Option Value)} {encoding : List UInt8}
    (encoded : encodeItems type (some value :: todo) = some encoding) :
    ∃ first rest, type.codec.derEncoder value 0 type.tag = some first ∧
      encodeItems type todo = some rest ∧ encoding = first ++ rest := by
  simp only [encodeItems, Option.bind_eq_bind, Option.bind_eq_some_iff, Option.pure_def,
    Option.some.injEq] at encoded
  obtain ⟨first, written, rest, others, rfl⟩ := encoded
  exact ⟨first, rest, written, others, rfl⟩

/-- From between two items to the end of a sequence that is all there. -/
theorem BetweenItems.delivers (fuel : Nat) {todo : List (Option Value)}
    {remaining later : List UInt8} {parse : SequenceOfParse}
    (between : BetweenItems type Valid values todo remaining parse)
    (whole : parse.cursor.Whole remaining later) (enough : remaining.length < fuel) :
    ∃ after, parse.items type fuel = (some .ok, after) ∧
      after.cursor.consumed = parse.cursor.consumed + remaining.length ∧
      after.list.map Struct.value = values := by
  induction fuel generalizing todo remaining parse with
  | zero => omega
  | succ fuel inductionHypothesis =>
    cases todo with
    | nil =>
      obtain rfl := Option.some.inj between.encoded
      have zero : parse.cursor.ctx.left = 0 := whole.left
      refine ⟨{ parse with cursor := parse.cursor.phase 10 }, ?_, rfl, ?_⟩
      · rw [SequenceOfParse.items, SequenceOfParse.turn, if_neg (by rw [between.step]; decide),
          if_pos zero]
      · rw [between.values, List.append_nil]
    | cons item todo =>
      obtain ⟨value, rfl, valid⟩ := between.valid item List.mem_cons_self
      obtain ⟨first, rest, written, encoded, rfl⟩ := encodeItems_cons between.encoded
      obtain ⟨outmost, begins, _⟩ := items.lawful.begins value first valid written
      have positive := List.length_pos_iff.mpr begins.nonempty
      have left := whole.left
      rw [List.length_append] at left
      obtain ⟨entered, turned, cursor, inside⟩ := between.enter items written encoded (by omega)
        begins (by rw [whole.window]; exact begins.whole rest)
      have standing : entered.cursor.Whole (first ++ rest) later := by
        rw [cursor]
        exact ⟨whole.left, whole.rest⟩
      obtain ⟨next, completed, ahead, consumed, kept⟩ := inside.whole standing
      obtain ⟨after, ended, total, result⟩ := inductionHypothesis kept ahead
        (by rw [List.length_append] at enough; omega)
      refine ⟨after, ?_, ?_, result⟩
      · rw [SequenceOfParse.items, turned, completed]
        exact ended
      · rw [total, consumed, cursor]
        simp only [Cursor.step, List.length_append]
        omega

omit items in
/-- What a call comes to that starts here: it waits, and the bytes that were not consumed are
shown to it again. -/
def WaitsItems (type : SequenceOfType) (Valid : Value → Prop) (values : List (Option Value))
    (fuel : Nat) (parse : SequenceOfParse) (given remaining : List UInt8) : Prop :=
  ∃ after consumed, parse.items type fuel = (some .wmore, after) ∧
    after.cursor.consumed = parse.cursor.consumed + consumed ∧ consumed ≤ given.length ∧
    StandingItems type Valid values after (remaining.drop consumed)

omit items in
/-- An item that was completed on the way counts for what was consumed. -/
theorem waitsItems_behind {fuel : Nat} {parse middle : SequenceOfParse}
    {current behind missing : List UInt8} (turned : parse.turn type = .again middle)
    (consumed : middle.cursor.consumed = parse.cursor.consumed + current.length)
    (waits : WaitsItems type Valid values fuel middle behind (behind ++ missing)) :
    WaitsItems type Valid values (fuel + 1) parse (current ++ behind)
      (current ++ behind ++ missing) := by
  obtain ⟨after, more, ended, total, few, standing⟩ := waits
  refine ⟨after, current.length + more, ?_, by omega, by rw [List.length_append]; omega, ?_⟩
  · rw [SequenceOfParse.items, turned]
    exact ended
  · rwa [List.append_assoc, ← List.drop_drop, List.drop_left]

/-- From between two items, when the end of the sequence is missing. -/
theorem BetweenItems.waits (fuel : Nat) {todo : List (Option Value)}
    {given missing : List UInt8} {parse : SequenceOfParse}
    (between : BetweenItems type Valid values todo (given ++ missing) parse)
    (part : parse.cursor.Part given missing) (enough : given.length < fuel) :
    WaitsItems type Valid values fuel parse given (given ++ missing) := by
  induction fuel generalizing todo given parse with
  | zero => omega
  | succ fuel inductionHypothesis =>
    have more := List.length_pos_iff.mpr part.lacking
    have left := part.left
    rw [List.length_append] at left
    cases todo with
    | nil =>
      have nothing := Option.some.inj between.encoded
      exact False.elim (part.lacking (List.append_eq_nil_iff.mp nothing.symm).2)
    | cons item todo =>
      obtain ⟨value, rfl, valid⟩ := between.valid item List.mem_cons_self
      obtain ⟨first, rest, written, encoded, split⟩ := encodeItems_cons between.encoded
      obtain ⟨outmost, begins, _⟩ := items.lawful.begins value first valid written
      have whole := begins.append rest
      rw [← split] at whole
      rcases whole.part with starved | tagged
      · refine ⟨parse, 0, ?_, rfl, Nat.zero_le _, by rw [List.drop_zero]; exact part.left,
          Or.inl ⟨_, by rw [List.drop_zero]; exact between⟩⟩
        rw [SequenceOfParse.items, SequenceOfParse.turn, if_neg (by rw [between.step]; decide),
          if_neg (by omega), part.window, starved]
        dsimp only
        rw [part.wanting]
      · rw [split] at between
        obtain ⟨entered, turned, cursor, inside⟩ := between.enter items written encoded (by omega)
          begins (by rw [part.window]; exact tagged)
        have standing : entered.cursor.Part given missing := by
          rw [cursor]
          exact ⟨part.left, part.rest, part.lacking⟩
        have shown : given ≠ [] := by
          rintro rfl
          obtain ⟨length, read⟩ := tagged
          cases read
        have started : entered.cursor.consumed = parse.cursor.consumed := by
          rw [cursor]
          rfl
        rcases inside.part standing shown split with
          ⟨behind, next, rfl, completed, ahead, consumed, kept⟩ |
          ⟨next, consumed, waiting, few, total, after⟩
        · rw [List.append_assoc, List.append_cancel_left_eq] at split
          rw [← split] at kept
          exact waitsItems_behind (turned.trans completed) (by rw [consumed, started])
            (inductionHypothesis kept ahead (by
              rw [List.length_append] at enough
              have positive := List.length_pos_iff.mpr inside.nonempty
              omega))
        · refine ⟨next, consumed, ?_, by rw [total, started], few, after⟩
          rw [SequenceOfParse.items, turned, waiting]

end Items

/-- The values of a sequence of valid items. -/
def SequenceOfValid (Valid : Value → Prop) : Value → Prop
  | .setOf list => ∀ item ∈ list, ∃ value, item = some value ∧ Valid value
  | _ => False

/-- Nothing was read of the sequence yet. -/
def SequenceOfFresh (struct : Struct) : Prop := struct = .absent ∨ struct = .setOf .zero .absent []

theorem SequenceOfFresh.load {struct : Struct} (fresh : SequenceOfFresh struct)
    (given : List UInt8) :
    SequenceOfParse.load struct given =
      { cursor := ⟨given, 0, .zero⟩, item := .absent, list := [] } := by
  rcases fresh with rfl | rfl <;> rfl

/-- How far the decoder of a sequence got, and what it still needs. -/
def SequenceOfNeeds (type : SequenceOfType) (Valid : Value → Prop) (values : List (Option Value))
    (header contents : List UInt8) (struct : Struct) (rest : List UInt8) : Prop :=
  SequenceOfFresh struct ∧ rest = header ++ contents ∨
    ∃ parse, struct = parse.struct ∧ StandingItems type Valid values parse rest

/-- The structure with the bytes of the next call in front of it. -/
def SequenceOfParse.shown (parse : SequenceOfParse) (given : List UInt8) : SequenceOfParse :=
  { parse with cursor := ⟨given, 0, parse.cursor.ctx⟩ }

/-- Phase 1 goes on where it stopped. -/
theorem setOf_resumed (type : SequenceOfType) (tagMode : Int) (parse : SequenceOfParse)
    (given : List UInt8) (phase : parse.cursor.ctx.phase = 1) {code : Option RvalCode}
    {after : SequenceOfParse}
    (reached : (parse.shown given).items type (given.length + 2) = (code, after)) :
    setOfDecodeBer type tagMode parse.struct given = after.returned code := by
  have loaded : SequenceOfParse.load parse.struct given = parse.shown given := rfl
  have same : (parse.shown given).cursor.ctx = parse.cursor.ctx := rfl
  have fuel : (parse.shown given).fuel = given.length + 2 := rfl
  unfold setOfDecodeBer
  rw [loaded]
  simp only [same, phase, fuel, reached]

/-- Phase 0 goes on with the first item. -/
theorem setOf_started (type : SequenceOfType) (tagMode : Int) {struct : Struct}
    (fresh : SequenceOfFresh struct) (given : List UInt8) {opened : Cursor}
    (accepted : Cursor.header type.tags tagMode (some true) ⟨given, 0, .zero⟩ = (.ok, opened))
    {code : Option RvalCode} {after : SequenceOfParse}
    (reached : SequenceOfParse.items type (opened.rest.length + 2) ⟨opened, .absent, []⟩ =
      (code, after)) : setOfDecodeBer type tagMode struct given = after.returned code := by
  unfold setOfDecodeBer
  rw [fresh.load]
  simp only [Ctx.zero] at accepted ⊢
  simp only [accepted, SequenceOfParse.fuel, reached]

section Lawful
variable {type : SequenceOfType} {Valid : Value → Prop} (items : ItemsLawful type Valid)
include items

/-- In phase 1 all that is needed completes the sequence. -/
theorem standingItems_delivers {values : List (Option Value)} (parse : SequenceOfParse)
    (rest later : List UInt8) (standing : StandingItems type Valid values parse rest)
    (tagMode : Int) :
    ∃ final, setOfDecodeBer type tagMode parse.struct (rest ++ later) =
      .done final rest.length ∧ final.value = some (.setOf values) := by
  obtain ⟨left, stands⟩ := standing
  have whole : (parse.shown (rest ++ later)).cursor.Whole rest later := ⟨left, rfl⟩
  have result : ∀ after : SequenceOfParse, after.list.map Struct.value = values →
      after.struct.value = some (.setOf values) := fun after held => by
    rw [SequenceOfParse.struct, Struct.value, memberValues_eq_map, held]
  rcases stands with ⟨todo, between⟩ | ⟨todo, value, current, tail, inside, rfl⟩
  · have here : BetweenItems type Valid values todo rest (parse.shown (rest ++ later)) :=
      { between with }
    obtain ⟨after, reached, consumed, held⟩ := here.delivers items
      ((rest ++ later).length + 2) whole (by rw [List.length_append]; omega)
    refine ⟨after.struct, ?_, result after held⟩
    rw [setOf_resumed type tagMode parse _ between.phase reached, SequenceOfParse.returned,
      Cursor.returned, consumed.trans (Nat.zero_add _)]
  · have here : InsideItem type Valid values todo value current tail
        (parse.shown (current ++ tail ++ later)) := { inside with }
    obtain ⟨next, completed, ahead, consumed, between⟩ := here.whole whole
    obtain ⟨after, reached, total, held⟩ := between.delivers items
      ((current ++ tail ++ later).length + 1) ahead
      (by simp only [List.length_append]; omega)
    have ended : (parse.shown (current ++ tail ++ later)).items type
        ((current ++ tail ++ later).length + 2) = (some .ok, after) := by
      rw [SequenceOfParse.items, completed]
      exact reached
    refine ⟨after.struct, ?_, result after held⟩
    rw [setOf_resumed type tagMode parse _ inside.phase ended, SequenceOfParse.returned,
      Cursor.returned, total, consumed, List.length_append]
    exact congrArg (Outcome.done after.struct) (Nat.add_right_cancel_iff.mpr (Nat.zero_add _))

/-- In phase 1, while the end is missing, the sequence goes on waiting. -/
theorem standingItems_waits {values : List (Option Value)} (parse : SequenceOfParse)
    (given missing : List UInt8)
    (standing : StandingItems type Valid values parse (given ++ missing))
    (someGiven : given ≠ []) (someMissing : missing ≠ []) (tagMode : Int) :
    ∃ next consumed, setOfDecodeBer type tagMode parse.struct given =
        .more (SequenceOfParse.struct next) consumed ∧ consumed ≤ given.length ∧
      StandingItems type Valid values next ((given ++ missing).drop consumed) := by
  obtain ⟨left, stands⟩ := standing
  have part : (parse.shown given).cursor.Part given missing := ⟨left, rfl, someMissing⟩
  have finished : WaitsItems type Valid values (given.length + 2) (parse.shown given) given
        (given ++ missing) → parse.cursor.ctx.phase = 1 →
      ∃ next consumed, setOfDecodeBer type tagMode parse.struct given =
          .more (SequenceOfParse.struct next) consumed ∧ consumed ≤ given.length ∧
        StandingItems type Valid values next ((given ++ missing).drop consumed) := by
    rintro ⟨after, consumed, reached, total, few, kept⟩ phase
    refine ⟨after, consumed, ?_, few, kept⟩
    rw [setOf_resumed type tagMode parse given phase reached, SequenceOfParse.returned,
      Cursor.returned, total.trans (Nat.zero_add _)]
  rcases stands with ⟨todo, between⟩ | ⟨todo, value, current, tail, inside, split⟩
  · have here : BetweenItems type Valid values todo (given ++ missing) (parse.shown given) :=
      { between with }
    exact finished (here.waits items (given.length + 2) part (by omega)) between.phase
  · have here : InsideItem type Valid values todo value current tail (parse.shown given) :=
      { inside with }
    refine finished ?_ inside.phase
    rcases here.part part someGiven split with
      ⟨behind, next, rfl, completed, ahead, consumed, kept⟩ |
      ⟨next, consumed, waiting, few, total, after⟩
    · rw [List.append_assoc, List.append_cancel_left_eq] at split
      rw [← split] at kept
      exact waitsItems_behind completed consumed
        (kept.waits items ((current ++ behind).length + 1) ahead
          (by rw [List.length_append]; omega))
    · refine ⟨next, consumed, ?_, total, few, after⟩
      rw [SequenceOfParse.items, waiting]

omit items in
theorem encodeItems_total (lawful : Lawful type.codec 0 type.tag Valid)
    (list : List (Option Value)) (valid : ∀ item ∈ list, ∃ value, item = some value ∧ Valid value) :
    ∃ encoding, encodeItems type list = some encoding := by
  induction list with
  | nil => exact ⟨[], rfl⟩
  | cons item list inductionHypothesis =>
    obtain ⟨value, rfl, whole⟩ := valid item List.mem_cons_self
    obtain ⟨first, written⟩ := lawful.encodes value whole
    obtain ⟨others, encoded⟩ := inductionHypothesis
      fun other inside => valid other (List.mem_cons_of_mem _ inside)
    exact ⟨first ++ others, by simp [encodeItems, written, encoded]⟩

variable {tagMode : Int} {tag : Nat} (single : SingleTag type.tags tagMode tag)
  (bound : tag < 2 ^ 32)
include single bound

omit items in
/-- Behind a whole header the sequence stands in front of its first item. -/
theorem setOf_opened {values : List (Option Value)} (contents later : List UInt8)
    (fits : contents.length + 1024 < 2 ^ 63)
    (valid : ∀ item ∈ values, ∃ value, item = some value ∧ Valid value)
    (encoded : encodeItems type values = some contents) :
    ∃ opened, Cursor.header type.tags tagMode (some true)
          ⟨derWriteTL tag contents.length true ++ later, 0, .zero⟩ = (.ok, opened) ∧
      opened.consumed = (derWriteTL tag contents.length true).length ∧ opened.rest = later ∧
      opened.ctx.left = (contents.length : Int) ∧
      BetweenItems type Valid values values contents ⟨opened, .absent, []⟩ := by
  obtain ⟨opened, accepted, consumed, ctx, rest⟩ := Cursor.header_whole single bound (some true)
    (fun _ same => (Option.some.inj same).symm) contents later fits
    ⟨derWriteTL tag contents.length true ++ later, 0, .zero⟩ rfl rfl
  refine ⟨opened, accepted, consumed.trans (Nat.zero_add _), rest, by rw [ctx], ?_⟩
  exact {
    values := rfl
    item := rfl
    valid := valid
    encoded := encoded
    short := fits
    phase := by rw [ctx]; rfl
    step := by rw [ctx] }

theorem setOf_resumes {values : List (Option Value)} (contents : List UInt8)
    (fits : contents.length + 1024 < 2 ^ 63)
    (valid : ∀ item ∈ values, ∃ value, item = some value ∧ Valid value)
    (encoded : encodeItems type values = some contents) :
    Resumes (setOfDecodeBer type tagMode) (fun final => final.value = some (.setOf values))
      (SequenceOfNeeds type Valid values (derWriteTL tag contents.length true) contents) where
  completes := by
    rintro struct rest later (⟨fresh, rfl⟩ | ⟨parse, rfl, standing⟩) _
    · obtain ⟨opened, accepted, consumed, behind, left, between⟩ := setOf_opened single bound
        contents (contents ++ later) fits valid encoded
      obtain ⟨after, reached, total, held⟩ := between.delivers items (opened.rest.length + 2)
        (show opened.Whole contents later from ⟨left, behind⟩)
        (by rw [behind, List.length_append]; omega)
      refine ⟨after.struct, ?_, by
        rw [SequenceOfParse.struct, Struct.value, memberValues_eq_map, held]⟩
      rw [List.append_assoc, setOf_started type tagMode fresh _ accepted reached,
        SequenceOfParse.returned, Cursor.returned, total, consumed, List.length_append]
    · exact standingItems_delivers items parse rest later standing tagMode
  waits := by
    rintro struct given missing (⟨fresh, split⟩ | ⟨parse, rfl, standing⟩) someGiven someMissing
    · rcases split_cases split with ⟨behind, rfl, whole⟩ | ⟨lacking, unfinished, header, _⟩
      · obtain ⟨opened, accepted, consumed, rest, left, between⟩ := setOf_opened single bound
          contents behind fits valid encoded
        rw [whole] at between left
        obtain ⟨after, more, reached, total, few, kept⟩ := between.waits items
          (opened.rest.length + 2) (show opened.Part behind missing from ⟨left, rest, someMissing⟩)
          (by rw [rest]; omega)
        refine ⟨after.struct, (derWriteTL tag contents.length true).length + more, ?_, ?_,
          Or.inr ⟨after, rfl, ?_⟩⟩
        · rw [setOf_started type tagMode fresh _ accepted reached, SequenceOfParse.returned,
            Cursor.returned, total, consumed]
        · rw [List.length_append]
          omega
        · rwa [List.append_assoc, ← List.drop_drop, List.drop_left]
      · have refused := Cursor.header_part single bound (some true)
          (fun _ same => (Option.some.inj same).symm) contents.length fits ⟨given, 0, .zero⟩ rfl
          lacking header unfinished
        refine ⟨.setOf .zero .absent [], 0, ?_, Nat.zero_le _,
          Or.inl ⟨Or.inr rfl, by rw [List.drop_zero, split]⟩⟩
        unfold setOfDecodeBer
        rw [fresh.load]
        simp only [Ctx.zero] at refused ⊢
        simp only [refused]
        rfl
    · obtain ⟨next, consumed, waiting, few, kept⟩ := standingItems_waits items parse given missing
        standing someGiven someMissing tagMode
      exact ⟨next.struct, consumed, waiting, few, Or.inr ⟨next, rfl, kept⟩⟩

/-- A sequence carries the lists of items that the type of its items carries.

Proof: as for the members of a sequence, over the items: between two of them the decoder
awaits the encodings of those that are left, and inside one what the item's decoder awaits. -/
theorem sequenceOf_carries : Lawful (sequenceOf type) tagMode tag (SequenceOfValid Valid) where
  encodes value valid := by
    cases value with
    | setOf list =>
      obtain ⟨contents, encoded⟩ := encodeItems_total items.lawful list valid
      exact ⟨_, by simp [sequenceOf, sequenceOfEncodeDer, encoded]; rfl⟩
    | _ => exact False.elim valid
  begins value encoding valid encoded := by
    cases value with
    | setOf list =>
      simp only [sequenceOf, sequenceOfEncodeDer, Option.bind_eq_bind, Option.bind_eq_some_iff,
        Option.pure_def, Option.some.injEq] at encoded
      obtain ⟨contents, _, rfl⟩ := encoded
      rw [single.written tag (fun _ => rfl)]
      exact ⟨tag, begins_header tag _ true _ bound, fun _ => rfl⟩
    | _ => exact False.elim valid
  resumes value encoding valid encoded fits := by
    cases value with
    | setOf list =>
      simp only [sequenceOf, sequenceOfEncodeDer, Option.bind_eq_bind, Option.bind_eq_some_iff,
        Option.pure_def, Option.some.injEq] at encoded
      obtain ⟨contents, written, rfl⟩ := encoded
      rw [single.written tag (fun _ => rfl)] at fits ⊢
      rw [List.length_append] at fits
      exact ⟨_, setOf_resumes items single bound contents (by omega) valid written,
        Or.inl ⟨Or.inl rfl, rfl⟩⟩
    | _ => exact False.elim valid

/-- A list of items is read back as it was written, however the bytes are cut. -/
theorem sequenceOf_lawful : Lawful (sequenceOf type) tagMode tag (SequenceOfValid Valid) :=
  sequenceOf_carries items single bound

end Lawful

/-! ## Any bytes -/

section Sound
variable (type : SequenceOfType) {size : Nat} (absent : type.codec.Confined 0)
  (productive : type.codec.Productive 0)

/-- What a turn over the items leaves. Another one starts with a new item, and an item that
was started in the same call has taken bytes. -/
def SequenceOfParse.Turn.Sound (type : SequenceOfType) (size : Nat) (before : SequenceOfParse) :
    SequenceOfParse.Turn → Prop
  | .returned code after => after.cursor.Accounts size ∧
      ResumableDecoders.Confined (type.codec.berDecoder 0) Unterminated after.item ∧
      (code = none → Unterminated before.cursor.rest)
  | .again after => after.cursor.Accounts size ∧ after.item = .absent ∧
      after.cursor.rest <:+: before.cursor.rest ∧
      (before.item = .absent → after.cursor.rest.length < before.cursor.rest.length)
  | .ended after => after.cursor.Accounts size ∧
      ResumableDecoders.Confined (type.codec.berDecoder 0) Unterminated after.item

include absent productive

theorem receive_sound {parse : SequenceOfParse} (accounts : parse.cursor.Accounts size)
    (confined : ResumableDecoders.Confined (type.codec.berDecoder 0) Unterminated parse.item) :
    (parse.receive type).Sound type size parse := by
  have confines := confined_confines (type.codec.berDecoder 0) Unterminated
  have inside := confines.inside parse.item parse.cursor.window confined
  have kept := confines.kept parse.item parse.cursor.window confined
  have endless := confines.endless parse.item parse.cursor.window
  have shown := parse.cursor.window_length
  unfold SequenceOfParse.receive Cursor.invoke
  cases decoded : type.codec.berDecoder 0 parse.item parse.cursor.window with
  | done item consumed =>
    rw [decoded] at inside kept
    have onward := accounts.onward consumed inside
    have added : SequenceOfParse.Turn.Sound type size parse (.again
        { cursor := (parse.cursor.advance consumed).step 0, item := .absent,
          list := parse.list ++ [item] }) := by
      refine ⟨onward.accounts, rfl, onward.behind, fun started => ?_⟩
      rw [started] at decoded
      have positive := productive _ _ _ decoded
      simp only [Outcome.consumed] at inside
      simp only [Cursor.step, Cursor.advance, List.length_drop]
      omega
    cases item with
    | absent => exact ⟨accounts, absent, fun same => by cases same⟩
    | _ => exact added
  | more item consumed =>
    rw [decoded] at inside kept
    have onward := accounts.onward consumed inside
    dsimp only
    by_cases violated : parse.cursor.sizeViolation
    · rw [if_pos violated]
      exact ⟨accounts, absent, fun same => by cases same⟩
    · rw [if_neg violated]
      exact ⟨onward.accounts, kept, fun same => by cases same⟩
  | failed item consumed => exact ⟨accounts, absent, fun same => by cases same⟩
  | stuck item =>
    rw [decoded] at kept
    exact ⟨accounts, kept, fun _ =>
      (endless item confined decoded).around parse.cursor.window_inside⟩

theorem itemTurn_sound {parse : SequenceOfParse} (accounts : parse.cursor.Accounts size)
    (confined : ResumableDecoders.Confined (type.codec.berDecoder 0) Unterminated parse.item) :
    (parse.turn type).Sound type size parse := by
  have stopped : ∀ (code : RvalCode),
      (SequenceOfParse.Turn.returned (some code) parse).Sound type size parse :=
    fun code => ⟨accounts, confined, nofun⟩
  unfold SequenceOfParse.turn
  split
  · exact receive_sound type absent productive accounts confined
  · split
    · exact ⟨accounts, confined, nofun⟩
    · cases berFetchTag parse.cursor.window with
      | wantMore => exact stopped _
      | failed => exact stopped _
      | fetched tlvTag tagLen =>
        dsimp only
        split
        · exact stopped _
        · split
          · exact ⟨accounts, confined⟩
          · split
            · exact stopped _
            · have moved : ({ parse with
                  cursor := parse.cursor.step (parse.cursor.ctx.step + 1) } :
                    SequenceOfParse).cursor.Accounts size := accounts
              exact receive_sound type absent productive moved confined

omit absent productive in
theorem itemTerminators_sound (awaited : Nat) (cursor : Cursor) (accounts : cursor.Accounts size) :
    (SequenceOfParse.terminators awaited cursor).2.Accounts size := by
  induction awaited generalizing cursor with
  | zero => exact accounts
  | succ awaited inductionHypothesis =>
    unfold SequenceOfParse.terminators
    split
    · split <;> exact accounts
    · next two =>
      split
      · have onward := accounts.onward 2 (by omega)
        exact inductionHypothesis ((cursor.advance 2).left (cursor.ctx.left + 1)) onward.accounts
      · exact accounts

/-- What the items of a call leave. -/
structure ItemsSound (type : SequenceOfType) (size : Nat) (given : List UInt8)
    (result : Option RvalCode × SequenceOfParse) : Prop where
  accounts : result.2.cursor.Accounts size
  confined : ResumableDecoders.Confined (type.codec.berDecoder 0) Unterminated result.2.item
  endless : result.1 = none → Unterminated given

/-- Items are decoded inside the given bytes. As each item that is started takes some of them,
there is always fuel for another turn. -/
theorem items_sound (fuel : Nat) (parse : SequenceOfParse)
    (accounts : parse.cursor.Accounts size)
    (confined : ResumableDecoders.Confined (type.codec.berDecoder 0) Unterminated parse.item)
    (enough : parse.cursor.rest.length + 1 < fuel ∨
      parse.item = .absent ∧ parse.cursor.rest.length < fuel) :
    ItemsSound type size parse.cursor.rest (parse.items type fuel) := by
  induction fuel generalizing parse with
  | zero => omega
  | succ fuel inductionHypothesis =>
    have sound := itemTurn_sound type absent productive accounts confined
    unfold SequenceOfParse.items
    cases turned : parse.turn type with
    | returned code after =>
      rw [turned] at sound
      exact ⟨sound.1, sound.2.1, sound.2.2⟩
    | again after =>
      rw [turned] at sound
      obtain ⟨kept, started, behind, fewer⟩ := sound
      have shorter := behind.length_le
      have room : after.cursor.rest.length < fuel := by
        rcases enough with more | ⟨vacant, most⟩
        · omega
        · have less := fewer vacant
          omega
      have ended := inductionHypothesis after kept (by rw [started]; exact absent)
        (Or.inr ⟨started, room⟩)
      exact ⟨ended.accounts, ended.confined, fun none => (ended.endless none).around behind⟩
    | ended after =>
      rw [turned] at sound
      exact ⟨itemTerminators_sound _ after.cursor.nextPhase sound.1, sound.2, nofun⟩

end Sound

/-- The memory of a sequence between two calls. -/
def SequenceOfFormed (type : SequenceOfType) (struct : Struct) : Prop :=
  ResumableDecoders.Confined (type.codec.berDecoder 0) Unterminated
    (SequenceOfParse.load struct []).item

/-- What the decoder of a sequence returns, and when it does not. -/
structure SequenceOfReturns (type : SequenceOfType) (given : List UInt8)
    (outcome : Outcome Struct) : Prop where
  inside : outcome.consumed ≤ given.length
  formed : SequenceOfFormed type outcome.state
  endless : ∀ next, outcome = .stuck next → Unterminated given

theorem ItemsSound.returns {type : SequenceOfType} {given : List UInt8}
    {result : Option RvalCode × SequenceOfParse}
    (sound : ItemsSound type given.length given result) :
    SequenceOfReturns type given (result.2.returned result.1) := by
  obtain ⟨code, after⟩ := result
  rcases code with _ | code | code | code
  · exact ⟨Nat.zero_le _, sound.confined, fun _ _ => sound.endless rfl⟩
  · exact ⟨sound.accounts.inside, sound.confined, nofun⟩
  · exact ⟨sound.accounts.inside, sound.confined, nofun⟩
  · exact ⟨sound.accounts.inside, sound.confined, nofun⟩

/-- Whatever the bytes, the decoder stays inside them, as that of its items does. -/
theorem sequenceOf_confined (type : SequenceOfType) (tagMode : Int)
    (absent : type.codec.Confined 0) (productive : type.codec.Productive 0) :
    (sequenceOf type).Confined tagMode := by
  have returns : ∀ struct given, SequenceOfFormed type struct →
      SequenceOfReturns type given (setOfDecodeBer type tagMode struct given) := by
    intro struct given formed
    have held : ResumableDecoders.Confined (type.codec.berDecoder 0) Unterminated
        (SequenceOfParse.load struct given).item := by
      cases struct <;> exact formed
    have shown : (SequenceOfParse.load struct given).cursor =
        ⟨given, 0, (SequenceOfParse.load struct given).cursor.ctx⟩ := by
      cases struct <;> rfl
    have start : (SequenceOfParse.load struct given).cursor.Accounts given.length := by
      rw [shown]
      exact Nat.zero_add _
    have rest : (SequenceOfParse.load struct given).cursor.rest = given := by rw [shown]
    unfold setOfDecodeBer
    dsimp only
    split
    · obtain ⟨code, opened, checked, inside, _, accepted⟩ := Cursor.header_sound type.tags tagMode
        (some true) (SequenceOfParse.load struct given).cursor.ctx given
      rw [shown, checked]
      cases code with
      | ok =>
        obtain ⟨accounts, behind, _⟩ := accepted rfl
        have sound := items_sound type absent productive _
          { SequenceOfParse.load struct given with cursor := opened } accounts held
          (Or.inl (Nat.lt_succ_self _))
        have whole : ItemsSound type given.length given _ :=
          ⟨sound.accounts, sound.confined, fun none => (sound.endless none).around behind⟩
        exact whole.returns
      | wmore => exact ⟨inside, held, nofun⟩
      | fail => exact ⟨inside, held, nofun⟩
    · have sound := items_sound type absent productive (SequenceOfParse.load struct given).fuel
        (SequenceOfParse.load struct given) start held (Or.inl (Nat.lt_succ_self _))
      rw [rest] at sound
      exact sound.returns
    · have sound : ItemsSound type given.length given (SequenceOfParse.load struct given).finish :=
        ⟨itemTerminators_sound _ _ start, held, nofun⟩
      exact sound.returns
    · exact ⟨start.inside, held, nofun⟩
  exact ⟨SequenceOfFormed type, ⟨fun struct given formed => (returns struct given formed).inside,
    fun struct given formed => (returns struct given formed).formed,
    fun struct given next formed => (returns struct given formed).endless next⟩, absent⟩

end NetVirt.Ber
