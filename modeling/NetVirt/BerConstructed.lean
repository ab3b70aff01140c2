import NetVirt.BerStructs

/-!
# The position in a constructed value

The decoders of SEQUENCE, CHOICE and SEQUENCE OF share the macros LEFT, SIZE_VIOLATION,
ADVANCE, NEXT_PHASE and RETURN, the check of the header with which each of them starts, and
the way they call the decoder of a member: it is shown no more than the length of the value
leaves, and when it wants more than that, the value is refused.
-/

namespace NetVirt.Ber

open OnlineParsers ResumableDecoders

/-- `ptr` with the bytes behind it, `consumed_myself` and the context. -/
structure Cursor where
  rest : List UInt8
  consumed : Nat
  ctx : Ctx

namespace Cursor

/-- LEFT: the bytes that belong to the value. A negative length is a huge size_t. -/
def window (cursor : Cursor) : List UInt8 :=
  if cursor.ctx.left < 0 then cursor.rest else cursor.rest.take cursor.ctx.left.toNat

/-- SIZE_VIOLATION -/
def sizeViolation (cursor : Cursor) : Prop :=
  0 ≤ cursor.ctx.left ∧ cursor.ctx.left ≤ cursor.rest.length

instance (cursor : Cursor) : Decidable cursor.sizeViolation :=
  inferInstanceAs (Decidable (_ ∧ _))

/-- ADVANCE -/
def advance (cursor : Cursor) (num : Nat) : Cursor where
  rest := cursor.rest.drop num
  consumed := cursor.consumed + num
  ctx := { cursor.ctx with
    left := if 0 ≤ cursor.ctx.left then cursor.ctx.left - num else cursor.ctx.left }

def phase (cursor : Cursor) (phase : Nat) : Cursor :=
  { cursor with ctx := { cursor.ctx with phase := phase } }

def step (cursor : Cursor) (step : Nat) : Cursor :=
  { cursor with ctx := { cursor.ctx with step := step } }

def left (cursor : Cursor) (left : Int) : Cursor :=
  { cursor with ctx := { cursor.ctx with left := left } }

/-- NEXT_PHASE -/
def nextPhase (cursor : Cursor) : Cursor := (cursor.phase (cursor.ctx.phase + 1)).step 0

/-- RETURN. Without a code there is no return. -/
def returned (cursor : Cursor) (struct : Struct) : Option RvalCode → Outcome Struct
  | some .ok => .done struct cursor.consumed
  | some .wmore => .more struct cursor.consumed
  | some .fail => .failed struct cursor.consumed
  | none => .stuck struct

/-- The code when what is left is not enough. -/
def wanting (cursor : Cursor) : RvalCode := if cursor.sizeViolation then .fail else .wmore

/-- Phase 0: the header is checked, and the length of the contents becomes what is left. -/
def header (tags : List Tag) (tagMode : Int) (lastTagForm : Option Bool) (cursor : Cursor) :
    RvalCode × Cursor :=
  let checked := berCheckTags tags (some cursor.ctx.step) tagMode lastTagForm cursor.rest
  let stepped := cursor.step checked.step
  match checked.code with
  | .ok =>
    let left := if 0 ≤ checked.lastLength then checked.lastLength + checked.consumed
      else checked.lastLength
    (.ok, ((stepped.left left).advance checked.consumed).nextPhase)
  | code => (code, { stepped with consumed := checked.consumed })

/-- A member's decoder is called for the bytes that are left. What it consumed counts unless
the value is refused. -/
def invoke (cursor : Cursor) (codec : Codec) (tagMode : Int) (member : Struct) :
    Option RvalCode × Struct × Cursor :=
  match codec.berDecoder tagMode member cursor.window with
  | .done member consumed => (some .ok, member, cursor.advance consumed)
  | .more member consumed =>
    if cursor.sizeViolation then (some .fail, member, cursor)
    else (some .wmore, member, cursor.advance consumed)
  | .failed member _ => (some .fail, member, cursor)
  | .stuck member => (none, member, cursor)

/-- What stands where a value of indefinite length may end: its terminator, the first half
of one, or anything else. -/
inductive EndMark where
  | here
  | part
  | other
deriving DecidableEq

def endMark (cursor : Cursor) : EndMark :=
  if 0 ≤ cursor.ctx.left then .other
  else if cursor.rest.head? ≠ some 0 then .other
  else if cursor.rest.length < 2 then .part
  else if cursor.rest.take 2 = [0, 0] then .here
  else .other

/-! ## A value of known length -/

/-- The cursor stands in a value of which `remaining` is still to come: it is all there, with
other bytes behind it, or the end of it is missing. -/
structure Whole (remaining later : List UInt8) (cursor : Cursor) : Prop where
  left : cursor.ctx.left = remaining.length
  rest : cursor.rest = remaining ++ later

structure Part (given missing : List UInt8) (cursor : Cursor) : Prop where
  left : cursor.ctx.left = (given ++ missing).length
  rest : cursor.rest = given
  lacking : missing ≠ []

theorem Whole.window {remaining later : List UInt8} {cursor : Cursor}
    (whole : cursor.Whole remaining later) : cursor.window = remaining := by
  unfold Cursor.window
  rw [if_neg (by have left := whole.left; omega), whole.left, whole.rest, Int.toNat_natCast,
    List.take_left]

theorem Part.window {given missing : List UInt8} {cursor : Cursor}
    (part : cursor.Part given missing) : cursor.window = given := by
  unfold Cursor.window
  rw [if_neg (by have left := part.left; omega), part.left, part.rest, Int.toNat_natCast,
    List.take_of_length_le (by rw [List.length_append]; omega)]

theorem Part.admitted {given missing : List UInt8} {cursor : Cursor}
    (part : cursor.Part given missing) : ¬cursor.sizeViolation := by
  have positive := List.length_pos_iff.mpr part.lacking
  rintro ⟨_, violated⟩
  rw [part.left, part.rest, List.length_append] at violated
  omega

theorem Part.wanting {given missing : List UInt8} {cursor : Cursor}
    (part : cursor.Part given missing) : cursor.wanting = .wmore := if_neg part.admitted

theorem Whole.advance {first remaining later : List UInt8} {cursor : Cursor}
    (whole : cursor.Whole (first ++ remaining) later) :
    (cursor.advance first.length).Whole remaining later where
  left := by
    have left := whole.left
    rw [List.length_append] at left
    simp only [Cursor.advance]
    rw [if_pos (by omega)]
    omega
  rest := by
    simp only [Cursor.advance, whole.rest, List.append_assoc, List.drop_left]

theorem Part.advance {given missing : List UInt8} {cursor : Cursor}
    (part : cursor.Part given missing) (num : Nat) (inside : num ≤ given.length) :
    (cursor.advance num).Part (given.drop num) missing where
  left := by
    have left := part.left
    simp only [List.length_append] at left
    simp only [Cursor.advance, List.length_append, List.length_drop]
    rw [if_pos (by omega)]
    omega
  rest := by simp only [Cursor.advance, part.rest]
  lacking := part.lacking

/-- The header of a value is accepted, and its length is what is left. -/
theorem header_whole {tags : List Tag} {tagMode : Int} {tag : Nat}
    (single : SingleTag tags tagMode tag) (bound : tag < 2 ^ 32) (lastTagForm : Option Bool)
    (form : ∀ expected, lastTagForm = some expected → expected = true)
    (contents given : List UInt8) (fits : contents.length + 1024 < 2 ^ 63) (cursor : Cursor)
    (fresh : cursor.ctx.step = 0)
    (rest : cursor.rest = derWriteTL tag contents.length true ++ given) :
    ∃ opened, cursor.header tags tagMode lastTagForm = (.ok, opened) ∧
      opened.consumed = cursor.consumed + (derWriteTL tag contents.length true).length ∧
      opened.ctx = { cursor.ctx with
        phase := cursor.ctx.phase + 1, step := 0, left := (contents.length : Int) } ∧
      opened.rest = given := by
  have checked := berCheckTags_header single contents.length true lastTagForm
    (some cursor.ctx.step) fresh bound form fits given
  refine ⟨_, by rw [header, rest, checked], ?_, ?_, ?_⟩
  · simp [nextPhase, advance, phase, step, left]
  · simp only [nextPhase, advance, phase, step, left, Int.natCast_nonneg, if_true, Ctx.mk.injEq,
      true_and]
    rw [if_pos (by omega)]
    omega
  · simp only [nextPhase, advance, phase, step, left, rest, List.drop_left]

/-- A header of indefinite length is accepted, and nothing tells how much is left. -/
theorem header_indefinite {tags : List Tag} {tagMode : Int} {tag : Nat}
    (single : SingleTag tags tagMode tag) (bound : tag < 2 ^ 32) (lastTagForm : Option Bool)
    (form : ∀ expected, lastTagForm = some expected → expected = true) (given : List UInt8) :
    Cursor.header tags tagMode lastTagForm
        ⟨markForm true (berTlvTagSerialize tag) ++ 0x80 :: given, 0, .zero⟩ =
      (.ok, ⟨given, (berTlvTagSerialize tag).length + 1,
        { phase := 1, step := 0, context := 0, left := -1 }⟩) := by
  have checked := berCheckTags_indefinite single lastTagForm (some 0) rfl bound form given
  have behind : (markForm true (berTlvTagSerialize tag) ++ 0x80 :: given).drop
      ((berTlvTagSerialize tag).length + 1) = given := by
    rw [← List.drop_drop, List.drop_left' (markForm_length true _), List.drop_succ_cons,
      List.drop_zero]
  simp only [header, Ctx.zero, checked]
  simp [nextPhase, advance, phase, step, left, behind]

/-- A header of which the end is missing is waited with. -/
theorem header_part {tags : List Tag} {tagMode : Int} {tag : Nat}
    (single : SingleTag tags tagMode tag) (bound : tag < 2 ^ 32) (lastTagForm : Option Bool)
    (form : ∀ expected, lastTagForm = some expected → expected = true) (len : Nat)
    (fits : len + 1024 < 2 ^ 63) (cursor : Cursor) (fresh : cursor.ctx.step = 0)
    (missing : List UInt8) (split : derWriteTL tag len true = cursor.rest ++ missing)
    (unfinished : missing ≠ []) :
    cursor.header tags tagMode lastTagForm = (.wmore, { cursor with consumed := 0 }) := by
  obtain ⟨code, consumed, step⟩ := berCheckTags_part single len true lastTagForm
    (some cursor.ctx.step) fresh bound form fits cursor.rest missing split unfinished
  rw [header, code, consumed, step]
  rw [← fresh]
  rfl

/-- What is still to come is `remaining`, as far as the cursor knows. -/
def Spans (remaining : List UInt8) (cursor : Cursor) : Prop :=
  cursor.ctx.left = -1 ∨ cursor.ctx.left = remaining.length

theorem Spans.whole {remaining later : List UInt8} {cursor : Cursor}
    (spans : cursor.Spans remaining) (rest : cursor.rest = remaining ++ later) :
    ∃ extra, cursor.window = remaining ++ extra := by
  rcases spans with endless | left
  · refine ⟨later, ?_⟩
    unfold Cursor.window
    rw [if_pos (by omega), rest]
  · refine ⟨[], ?_⟩
    rw [List.append_nil]
    exact Whole.window ⟨left, rest⟩

theorem Spans.part {given missing : List UInt8} {cursor : Cursor}
    (spans : cursor.Spans (given ++ missing)) (rest : cursor.rest = given)
    (lacking : missing ≠ []) : cursor.window = given ∧ ¬cursor.sizeViolation := by
  rcases spans with endless | left
  · constructor
    · unfold Cursor.window
      rw [if_pos (by omega), rest]
    · rintro ⟨definite, _⟩
      omega
  · have part : cursor.Part given missing := ⟨left, rest, lacking⟩
    exact ⟨part.window, part.admitted⟩

/-! ## Members -/

section Invoke
variable {codec : Codec} {tagMode : Int} {Final : Struct → Prop} {member : Struct}

/-- A member that is all there is completed. -/
theorem invoke_completes (cursor : Cursor) {encoding extra : List UInt8}
    (shown : cursor.window = encoding ++ extra) (some : encoding ≠ [])
    (awaits : Awaits (codec.berDecoder tagMode) Final member encoding) :
    ∃ final, cursor.invoke codec tagMode member =
        (Option.some .ok, final, cursor.advance encoding.length) ∧ Final final := by
  obtain ⟨final, decoded, settled⟩ := awaits.completes some extra
  exact ⟨final, by rw [invoke, shown, decoded], settled⟩

/-- A member of which the end is missing awaits what its decoder did not consume. -/
theorem invoke_waits (cursor : Cursor) {given missing : List UInt8}
    (shown : cursor.window = given) (admitted : ¬cursor.sizeViolation) (some : given ≠ [])
    (lacking : missing ≠ [])
    (awaits : Awaits (codec.berDecoder tagMode) Final member (given ++ missing)) :
    ∃ next consumed, cursor.invoke codec tagMode member =
        (Option.some .wmore, next, cursor.advance consumed) ∧ consumed ≤ given.length ∧
      Awaits (codec.berDecoder tagMode) Final next ((given ++ missing).drop consumed) := by
  obtain ⟨next, consumed, decoded, inside, kept⟩ := awaits.waits some lacking
  exact ⟨next, consumed, by rw [invoke, shown, decoded]; exact if_neg admitted, inside, kept⟩

end Invoke

/-! ## Any bytes -/

/-- What was consumed and what is left are the given bytes. -/
def Accounts (size : Nat) (cursor : Cursor) : Prop :=
  cursor.consumed + cursor.rest.length = size

theorem window_inside (cursor : Cursor) : cursor.window <:+: cursor.rest := by
  unfold window
  split
  · exact List.infix_rfl
  · exact (List.take_prefix _ _).isInfix

theorem window_length (cursor : Cursor) : cursor.window.length ≤ cursor.rest.length :=
  cursor.window_inside.length_le

theorem Accounts.advance {size : Nat} {cursor : Cursor} (accounts : cursor.Accounts size)
    (num : Nat) (inside : num ≤ cursor.window.length) : (cursor.advance num).Accounts size := by
  have shorter := cursor.window_length
  unfold Accounts at accounts ⊢
  simp only [Cursor.advance, List.length_drop]
  omega

theorem advance_inside (cursor : Cursor) (num : Nat) : (cursor.advance num).rest <:+: cursor.rest :=
  (List.drop_suffix num cursor.rest).isInfix

/-- A call leaves what it is shown, up to the bytes that it takes of it. -/
structure Onward (size : Nat) (before after : Cursor) : Prop where
  accounts : after.Accounts size
  behind : after.rest <:+: before.rest
  phase : after.ctx.phase = before.ctx.phase
  step : after.ctx.step = before.ctx.step

theorem Accounts.onward {size : Nat} {cursor : Cursor} (accounts : cursor.Accounts size)
    (num : Nat) (inside : num ≤ cursor.window.length) : Onward size cursor (cursor.advance num) :=
  ⟨accounts.advance num inside, cursor.advance_inside num, rfl, rfl⟩

theorem Accounts.invoke {size : Nat} {cursor : Cursor} (accounts : cursor.Accounts size)
    {codec : Codec} {tagMode : Int} {Formed : Struct → Prop}
    (confines : Confines (codec.berDecoder tagMode) Unterminated Formed) {member : Struct}
    (formed : Formed member) :
    ∃ code next after, cursor.invoke codec tagMode member = (code, next, after) ∧
      Formed next ∧ Onward size cursor after ∧ (code = none → Unterminated cursor.rest) := by
  have inside := confines.inside member cursor.window formed
  have kept := confines.kept member cursor.window formed
  have endless := confines.endless member cursor.window
  have same : Onward size cursor cursor := ⟨accounts, List.infix_rfl, rfl, rfl⟩
  unfold Cursor.invoke
  cases decoded : codec.berDecoder tagMode member cursor.window with
  | done next consumed =>
    rw [decoded] at inside kept
    exact ⟨_, _, _, rfl, kept, accounts.onward consumed inside, nofun⟩
  | more next consumed =>
    rw [decoded] at inside kept
    dsimp only
    split
    · exact ⟨_, _, _, rfl, kept, same, nofun⟩
    · exact ⟨_, _, _, rfl, kept, accounts.onward consumed inside, nofun⟩
  | failed next consumed =>
    rw [decoded] at kept
    exact ⟨_, _, _, rfl, kept, same, nofun⟩
  | stuck next =>
    rw [decoded] at kept
    exact ⟨_, _, _, rfl, kept, same, fun _ =>
      (endless next formed decoded).around cursor.window_inside⟩

/-- The check of the header stays inside what is given. -/
theorem header_sound (tags : List Tag) (tagMode : Int) (lastTagForm : Option Bool)
    (ctx : Ctx) (given : List UInt8) :
    ∃ code after, Cursor.header tags tagMode lastTagForm ⟨given, 0, ctx⟩ = (code, after) ∧
      after.consumed ≤ given.length ∧ (code ≠ .ok → after.ctx.phase = ctx.phase) ∧
      (code = .ok → after.Accounts given.length ∧ after.rest <:+: given ∧
        after.ctx.phase = ctx.phase + 1 ∧ after.ctx.step = 0) := by
  obtain ⟨inside, _⟩ := berCheckTags_sound tags (some ctx.step) tagMode lastTagForm given
  unfold header
  dsimp only
  cases (berCheckTags tags (some ctx.step) tagMode lastTagForm given).code with
  | ok =>
    refine ⟨.ok, _, rfl, ?_, nofun, fun _ => ⟨?_, ?_, rfl, rfl⟩⟩
    · simpa [nextPhase, Cursor.advance, phase, step, left] using inside
    · simp only [Accounts, nextPhase, Cursor.advance, phase, step, left, List.length_drop]
      omega
    · exact (List.drop_suffix _ _).isInfix
  | wmore => exact ⟨.wmore, _, rfl, inside, fun _ => rfl, nofun⟩
  | fail => exact ⟨.fail, _, rfl, inside, fun _ => rfl, nofun⟩

theorem header_positive {tags : List Tag} {tagMode : Int} {tag : Nat}
    (single : SingleTag tags tagMode tag) (lastTagForm : Option Bool) (given : List UInt8)
    {opened : Cursor}
    (accepted : Cursor.header tags tagMode lastTagForm ⟨given, 0, .zero⟩ = (.ok, opened)) :
    0 < opened.consumed := by
  have positive := berCheckTags_positive single lastTagForm (some 0) rfl given
  simp only [header, Ctx.zero] at accepted
  cases code : (berCheckTags tags (some 0) tagMode lastTagForm given).code with
  | ok =>
    rw [code] at accepted
    cases accepted
    simpa [nextPhase, Cursor.advance, phase, step, left] using positive code
  | wmore =>
    rw [code] at accepted
    cases accepted
  | fail =>
    rw [code] at accepted
    cases accepted

theorem wanting_ne_ok (cursor : Cursor) : cursor.wanting ≠ .ok := by
  unfold wanting
  split <;> decide

end Cursor

end NetVirt.Ber
