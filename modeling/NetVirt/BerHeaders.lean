import NetVirt.BerLengths

/-!
# Tags and lengths in front of a value

`ber_check_tags` of ber_decoder.c, which reads the chain of tags and lengths in front of a
value, and `der_write_tags` with `der_write_TL` of der_encoder.c, which write it. Every type
of the protocol is written behind a single tag. Such a header is accepted as soon as all of
it is there, and nothing is consumed before.
-/

namespace NetVirt.Ber

open OnlineParsers

/-- `enum asn_dec_rval_code_e` -/
inductive RvalCode where
  | ok
  | wmore
  | fail
deriving DecidableEq

/-- What `ber_check_tags` returns: the code and the consumed bytes, the step to be kept in
the context of the decoder, the length of the value, and whether its form is constructed. -/
structure CheckedTags where
  code : RvalCode
  consumed : Nat
  step : Nat
  lastLength : Int
  tlvForm : Bool
deriving DecidableEq

/-- The local variables of `ber_check_tags`, with the bytes from `ptr` on. -/
structure TagCheck where
  rest : List UInt8
  consumed : Nat
  step : Nat
  tlvConstr : Bool
  tlvLen : Int
  limitLen : Int
  terminators : Nat

def TagCheck.returned (check : TagCheck) (code : RvalCode) : CheckedTags :=
  { code := code, consumed := check.consumed, step := check.step,
    lastLength := if check.terminators = 0 then check.tlvLen else -(check.terminators : Int),
    tlvForm := check.tlvConstr }

/-- Past one tag and length, with the next tag to be checked. -/
def TagCheck.next (check : TagCheck) (constr : Bool) (len : Int) (size : Nat) : TagCheck :=
  { check with
    rest := check.rest.drop size
    consumed := check.consumed + size
    step := check.step + 1
    tlvConstr := constr
    tlvLen := len }

/-- The tail of the loop's body, once tag and length are known. Either all lengths of a
chain are indefinite, or each is what the one before it leaves. -/
def TagCheck.limit (check : TagCheck) (constr : Bool) (len : Int) (size : Nat) :
    Option TagCheck :=
  if len = -1 then
    if check.limitLen = -1 then
      some { check.next constr len size with terminators := check.terminators + 1 }
    else none
  else if check.terminators ≠ 0 then none
  else if check.limitLen ≠ -1 ∧ check.limitLen ≠ len + size then none
  else
    some { check.next constr len size with
      limitLen := len
      rest := (check.rest.drop size).take len.toNat }

/-- The loop of `ber_check_tags`, with the given number of tags left to check. The first tag
is not compared when the caller chose the tag, as it did unless `tagMode` is 0. A form of
the last tag is expected or any (-1). -/
def checkTagsLoop (tags : List Tag) (tagMode : Int) (lastTagForm : Option Bool) :
    Nat → TagCheck → CheckedTags
  | 0, check => check.returned .ok
  | remaining + 1, check =>
    match berFetchTag check.rest with
    | .failed => check.returned .fail
    | .wantMore => check.returned .wmore
    | .fetched tag tagLen =>
      let constr := berTlvConstructed (check.rest.headD 0)
      if (tagMode = 0 ∨ check.step ≠ 0) ∧ tags[tags.length - (remaining + 1)]? ≠ some tag then
        check.returned .fail
      else if remaining ≠ 0 ∧ constr = false then check.returned .fail
      else if remaining = 0 ∧ lastTagForm = some (!constr) then check.returned .fail
      else
        match berFetchLength constr (check.rest.drop tagLen) with
        | .failed => check.returned .fail
        | .wantMore => check.returned .wmore
        | .fetched len lenLen =>
          match check.limit constr len (tagLen + lenLen) with
          | none => check.returned .fail
          | some next => checkTagsLoop tags tagMode lastTagForm remaining next

/-- The value without a tag of its own, of which any tag and length are taken. -/
def checkAnyTag (check : TagCheck) : CheckedTags :=
  match berFetchTag check.rest with
  | .failed => check.returned .fail
  | .wantMore => check.returned .wmore
  | .fetched _ tagLen =>
    let constr := berTlvConstructed (check.rest.headD 0)
    match berFetchLength constr (check.rest.drop tagLen) with
    | .failed => check.returned .fail
    | .wantMore => check.returned .wmore
    | .fetched len lenLen =>
      { (check.next constr len (tagLen + lenLen)).returned .ok with step := check.step }

def TagCheck.start (given : List UInt8) (step : Nat) : TagCheck :=
  { rest := given, consumed := 0, step := step, tlvConstr := true, tlvLen := 0, limitLen := -1,
    terminators := 0 }

/-- `ber_check_tags`. Without a context the caller starts over, and nothing is consumed of
a header that is not complete. -/
def berCheckTags (tags : List Tag) (optStep : Option Nat) (tagMode : Int)
    (lastTagForm : Option Bool) (given : List UInt8) : CheckedTags :=
  let step := optStep.getD 0
  let checked :=
    if tagMode = 0 ∧ step = tags.length then checkAnyTag (.start given step)
    else checkTagsLoop tags tagMode lastTagForm
      (tags.length + (if tagMode = 1 then 1 else 0) - step) (.start given step)
  if optStep = none ∧ checked.code ≠ .ok then { checked with consumed := 0 } else checked

/-- `der_write_TL` -/
def derWriteTL (tag : Tag) (len : Nat) (constructed : Bool) : List UInt8 :=
  markForm constructed (berTlvTagSerialize tag) ++ derTlvLengthSerialize len

/-- The second loop of `der_write_tags`: every tag with the length of what comes behind. -/
def writeTagChain (lastTagForm : Bool) : List Tag → Nat → List UInt8
  | [], _ => []
  | tag :: inner, structLength =>
    let written := writeTagChain lastTagForm inner structLength
    derWriteTL tag (written.length + structLength) (lastTagForm || !inner.isEmpty) ++ written

/-- `der_write_tags`: a given tag replaces the first tag of the type (-1) or is put in front
of its tags (1). -/
def derWriteTags (tags : List Tag) (structLength : Nat) (tagMode : Int) (lastTagForm : Bool)
    (tag : Tag) : List UInt8 :=
  writeTagChain lastTagForm
    (if tagMode = 0 then tags else tag :: if tagMode = -1 then tags.tail else tags) structLength

/-! ## A single tag -/

/-- The only tag in front of a value: its own, one given instead of it, or one given to a
type without tags. -/
inductive SingleTag : List Tag → Int → Tag → Prop
  | own (tag : Tag) : SingleTag [tag] 0 tag
  | implicit (replaced tag : Tag) : SingleTag [replaced] (-1) tag
  | explicit (tag : Tag) : SingleTag [] 1 tag

theorem SingleTag.written {tags : List Tag} {tagMode : Int} {tag : Nat}
    (single : SingleTag tags tagMode tag) (given : Tag) (same : tagMode ≠ 0 → given = tag)
    (structLength : Nat) (lastTagForm : Bool) :
    derWriteTags tags structLength tagMode lastTagForm given =
      derWriteTL tag structLength lastTagForm := by
  cases single with
  | own tag => simp [derWriteTags, writeTagChain]
  | implicit replaced tag =>
    simp [derWriteTags, writeTagChain, same (by decide)]
  | explicit tag =>
    simp [derWriteTags, writeTagChain, same (by decide)]

/-- A single tag is given to a type without tags, or the type has one. -/
theorem SingleTag.around {tags : List Tag} {tagMode : Int} {tag : Nat}
    (single : SingleTag tags tagMode tag) : tagMode = 1 ∨ tags ≠ [] := by
  cases single with
  | own tag => exact Or.inr (List.cons_ne_nil _ _)
  | implicit replaced tag => exact Or.inr (List.cons_ne_nil _ _)
  | explicit tag => exact Or.inl rfl

/-- How a written tag is read, and how its form. -/
theorem reads_tag (tag : Nat) (constructed : Bool) (bound : tag < 2 ^ 32) :
    Reads berFetchTag (markForm constructed (berTlvTagSerialize tag)) tag :=
  online_berFetchTag.reads _ tag (by
    rw [markForm_length]
    exact berFetchTag_serialize tag constructed bound)

theorem reads_length (len : Nat) (constructed : Bool) (bound : len + 1024 < 2 ^ 63) :
    Reads (berFetchLength constructed) (derTlvLengthSerialize len) (len : Int) :=
  (online_berFetchLength constructed).reads _ _ (berFetchLength_serialize len constructed bound)

theorem form_of_tag (tag : Tag) (constructed : Bool) (later : List UInt8) :
    berTlvConstructed ((markForm constructed (berTlvTagSerialize tag) ++ later).headD 0) =
      constructed := by
  obtain ⟨first, rest, marked, form⟩ := constructed_serialize tag constructed
  rw [marked]
  exact form

section Header
variable {tags : List Tag} {tagMode : Int} {tag : Nat} (single : SingleTag tags tagMode tag)
  (len : Nat) (constructed : Bool) (lastTagForm : Option Bool) (optStep : Option Nat)
  (fresh : optStep.getD 0 = 0)
include single fresh

/-- One iteration of the loop decides a single tag. -/
theorem berCheckTags_single (given : List UInt8) :
    berCheckTags tags optStep tagMode lastTagForm given =
      if optStep = none ∧
          (checkTagsLoop tags tagMode lastTagForm 1 (.start given 0)).code ≠ .ok then
        { checkTagsLoop tags tagMode lastTagForm 1 (.start given 0) with consumed := 0 }
      else checkTagsLoop tags tagMode lastTagForm 1 (.start given 0) := by
  unfold berCheckTags
  rw [fresh]
  cases single with
  | own tag => simp
  | implicit replaced tag => simp
  | explicit tag => simp

variable (tagBound : tag < 2 ^ 32) (form : ∀ expected, lastTagForm = some expected →
  expected = constructed)
include tagBound form

omit fresh in
/-- A tag that is there is accepted, and the length behind it is read. -/
theorem single_tag_read (later : List UInt8) :
    checkTagsLoop tags tagMode lastTagForm 1
        (.start (markForm constructed (berTlvTagSerialize tag) ++ later) 0) =
      (match berFetchLength constructed later with
      | .failed => (TagCheck.start (markForm constructed (berTlvTagSerialize tag) ++ later)
          0).returned .fail
      | .wantMore => (TagCheck.start (markForm constructed (berTlvTagSerialize tag) ++ later)
          0).returned .wmore
      | .fetched value lenLen =>
        match (TagCheck.start (markForm constructed (berTlvTagSerialize tag) ++ later) 0).limit
            constructed value ((berTlvTagSerialize tag).length + lenLen) with
        | none => (TagCheck.start (markForm constructed (berTlvTagSerialize tag) ++ later)
            0).returned .fail
        | some next => next.returned .ok) := by
  have read := (reads_tag tag constructed tagBound).whole later
  have shape := form_of_tag tag constructed later
  have size := markForm_length constructed (berTlvTagSerialize tag)
  have rest : (markForm constructed (berTlvTagSerialize tag) ++ later).drop
      (berTlvTagSerialize tag).length = later := List.drop_left' size
  have compared : ¬((tagMode = 0 ∨ (0 : Nat) ≠ 0) ∧ tags[tags.length - (0 + 1)]? ≠ some tag) := by
    cases single <;> simp
  have shaped : ¬((0 : Nat) = 0 ∧ lastTagForm = some (!constructed)) := by
    rintro ⟨_, other⟩
    have same := form _ other
    cases constructed <;> cases same
  rw [size] at read
  unfold checkTagsLoop
  simp only [TagCheck.start] at *
  simp only [read, shape, rest]
  rw [if_neg compared, if_neg (by simp), if_neg shaped]
  rfl

/-- A whole header is accepted, and its bytes are consumed. -/
theorem berCheckTags_header (lenBound : len + 1024 < 2 ^ 63) (later : List UInt8) :
    berCheckTags tags optStep tagMode lastTagForm (derWriteTL tag len constructed ++ later) =
      { code := .ok, consumed := (derWriteTL tag len constructed).length, step := 1,
        lastLength := (len : Int), tlvForm := constructed } := by
  have read := (reads_length len constructed lenBound).whole later
  rw [berCheckTags_single single lastTagForm optStep fresh, derWriteTL, List.append_assoc,
    single_tag_read single constructed lastTagForm tagBound form, read]
  have definite : (len : Int) ≠ -1 := by omega
  simp [TagCheck.limit, TagCheck.start, TagCheck.next, TagCheck.returned, definite,
    markForm_length]

omit form in
/-- A header of indefinite length is accepted where the form may be constructed. -/
theorem berCheckTags_indefinite (formed : ∀ expected, lastTagForm = some expected →
    expected = true) (later : List UInt8) :
    berCheckTags tags optStep tagMode lastTagForm
        (markForm true (berTlvTagSerialize tag) ++ 0x80 :: later) =
      { code := .ok, consumed := (berTlvTagSerialize tag).length + 1, step := 1,
        lastLength := -1, tlvForm := true } := by
  have read : berFetchLength true (0x80 :: later) = .fetched (-1) 1 := rfl
  rw [berCheckTags_single single lastTagForm optStep fresh,
    single_tag_read single true lastTagForm tagBound formed, read]
  simp [TagCheck.limit, TagCheck.start, TagCheck.next, TagCheck.returned]

/-- A header of which the end is missing is waited with, and nothing of it is consumed. -/
theorem berCheckTags_part (lenBound : len + 1024 < 2 ^ 63) (given missing : List UInt8)
    (split : derWriteTL tag len constructed = given ++ missing) (unfinished : missing ≠ []) :
    (berCheckTags tags optStep tagMode lastTagForm given).code = .wmore ∧
      (berCheckTags tags optStep tagMode lastTagForm given).consumed = 0 ∧
      (berCheckTags tags optStep tagMode lastTagForm given).step = 0 := by
  have looped : checkTagsLoop tags tagMode lastTagForm 1 (.start given 0) =
      (TagCheck.start given 0).returned .wmore := by
    rcases List.append_eq_append_iff.mp split with ⟨behind, whole, lacking⟩ | ⟨behind, part, _⟩
    · rw [whole, single_tag_read single constructed lastTagForm tagBound form,
        (reads_length len constructed lenBound).part behind missing lacking unfinished]
    · by_cases exactly : behind = []
      · subst exactly
        rw [List.append_nil] at part
        have whole : given = markForm constructed (berTlvTagSerialize tag) ++ [] := by
          rw [part, List.append_nil]
        rw [whole, single_tag_read single constructed lastTagForm tagBound form]
        rfl
      · unfold checkTagsLoop
        simp only [TagCheck.start]
        rw [(reads_tag tag constructed tagBound).part given behind part exactly]
  rw [berCheckTags_single single lastTagForm optStep fresh, looped]
  split <;> simp [TagCheck.returned, TagCheck.start]

end Header

/-! ## Any bytes -/

/-- A primitive form comes with a definite length. -/
def TagCheck.Definite (check : TagCheck) : Prop :=
  check.tlvConstr = false → check.terminators = 0 ∧ 0 ≤ check.tlvLen

theorem TagCheck.limit_some {check next : TagCheck} {constr : Bool} {len : Int} {size : Nat}
    (fetched : len = -1 ∧ constr = true ∨ 0 ≤ len)
    (limited : check.limit constr len size = some next) :
    next.consumed = check.consumed + size ∧ next.rest.length ≤ check.rest.length - size ∧
      next.Definite := by
  unfold TagCheck.limit at limited
  by_cases indefinite : len = -1
  · rw [if_pos indefinite] at limited
    by_cases first : check.limitLen = -1
    · rw [if_pos first] at limited
      cases limited
      refine ⟨rfl, by simp [TagCheck.next], fun primitive => ?_⟩
      have formed : constr = true := by
        rcases fetched with ⟨_, formed⟩ | negative
        · exact formed
        · omega
      rw [show constr = false from primitive] at formed
      cases formed
    · rw [if_neg first] at limited
      cases limited
  · have definite : 0 ≤ len := by
      rcases fetched with ⟨other, _⟩ | definite
      · exact False.elim (indefinite other)
      · exact definite
    rw [if_neg indefinite] at limited
    by_cases mixed : check.terminators ≠ 0
    · rw [if_pos mixed] at limited
      cases limited
    · by_cases other : check.limitLen ≠ -1 ∧ check.limitLen ≠ len + size
      · rw [if_neg mixed, if_pos other] at limited
        cases limited
      · rw [if_neg mixed, if_neg other] at limited
        cases limited
        refine ⟨rfl, ?_, fun _ => ⟨Decidable.not_not.mp mixed, definite⟩⟩
        simp only [List.length_take, List.length_drop]
        omega

/-- What a check may return: it consumed no more than there was, and a value of primitive
form has a length. -/
def CheckedTags.Sound (checked : CheckedTags) (size : Nat) : Prop :=
  checked.consumed ≤ size ∧
    (checked.code = .ok → checked.tlvForm = false → 0 ≤ checked.lastLength)

theorem TagCheck.returned_sound (check : TagCheck) (code : RvalCode) (size : Nat)
    (inside : check.consumed ≤ size) (definite : code = .ok → check.Definite) :
    (check.returned code).Sound size := by
  refine ⟨inside, fun accepted primitive => ?_⟩
  obtain ⟨none, least⟩ := definite accepted primitive
  simpa [TagCheck.returned, none] using least

theorem checkTagsLoop_sound (tags : List Tag) (tagMode : Int) (lastTagForm : Option Bool)
    (remaining : Nat) (check : TagCheck) (size : Nat)
    (inside : check.consumed + check.rest.length ≤ size) (definite : check.Definite) :
    (checkTagsLoop tags tagMode lastTagForm remaining check).Sound size := by
  induction remaining generalizing check with
  | zero => exact check.returned_sound _ size (by omega) fun _ => definite
  | succ remaining inductionHypothesis =>
    have refused : ∀ code, code ≠ .ok → (check.returned code).Sound size := fun code other =>
      check.returned_sound code size (by omega) fun same => False.elim (other same)
    unfold checkTagsLoop
    cases tagged : berFetchTag check.rest with
    | wantMore => exact refused _ (by decide)
    | failed => exact refused _ (by decide)
    | fetched tag tagLen =>
      have tagBounds := online_berFetchTag.bounded check.rest tag tagLen tagged
      dsimp only
      split
      · exact refused _ (by decide)
      split
      · exact refused _ (by decide)
      split
      · exact refused _ (by decide)
      cases read : berFetchLength (berTlvConstructed (check.rest.headD 0))
          (check.rest.drop tagLen) with
      | wantMore => exact refused _ (by decide)
      | failed => exact refused _ (by decide)
      | fetched len lenLen =>
        obtain ⟨_, lenBound, forms, _⟩ := berFetchLength_fetched read
        rw [List.length_drop] at lenBound
        have fetched : len = -1 ∧ berTlvConstructed (check.rest.headD 0) = true ∨ 0 ≤ len :=
          forms.imp id And.left
        dsimp only
        cases limited : check.limit (berTlvConstructed (check.rest.headD 0)) len
            (tagLen + lenLen) with
        | none => exact refused _ (by decide)
        | some next =>
          obtain ⟨consumed, rest, known⟩ := TagCheck.limit_some fetched limited
          exact inductionHypothesis next (by omega) known

theorem checkAnyTag_sound (check : TagCheck) (size : Nat)
    (inside : check.consumed + check.rest.length ≤ size) (none : check.terminators = 0) :
    (checkAnyTag check).Sound size := by
  have refused : ∀ code, code ≠ .ok → (check.returned code).Sound size := fun code other =>
    check.returned_sound code size (by omega) fun same => False.elim (other same)
  unfold checkAnyTag
  cases tagged : berFetchTag check.rest with
  | wantMore => exact refused _ (by decide)
  | failed => exact refused _ (by decide)
  | fetched tag tagLen =>
    have tagBounds := online_berFetchTag.bounded check.rest tag tagLen tagged
    dsimp only
    cases read : berFetchLength (berTlvConstructed (check.rest.headD 0))
        (check.rest.drop tagLen) with
    | wantMore => exact refused _ (by decide)
    | failed => exact refused _ (by decide)
    | fetched len lenLen =>
      obtain ⟨_, lenBound, forms, _⟩ := berFetchLength_fetched read
      rw [List.length_drop] at lenBound
      refine ⟨?_, fun _ primitive => ?_⟩
      · show check.consumed + (tagLen + lenLen) ≤ size
        omega
      · rcases forms with ⟨_, formed⟩ | ⟨least, _⟩
        · rw [show berTlvConstructed (check.rest.headD 0) = false from primitive] at formed
          cases formed
        · simpa [TagCheck.returned, TagCheck.next, none] using least

theorem CheckedTags.Sound.contextFree {checked : CheckedTags} {size : Nat}
    (sound : checked.Sound size) (condition : Prop) [Decidable condition] :
    (if condition then { checked with consumed := 0 } else checked).Sound size := by
  split
  · exact ⟨Nat.zero_le _, sound.2⟩
  · exact sound

/-- Whatever the bytes, a check stays inside them, and finds a length for what it takes to be
primitive. -/
theorem berCheckTags_sound (tags : List Tag) (optStep : Option Nat) (tagMode : Int)
    (lastTagForm : Option Bool) (given : List UInt8) :
    (berCheckTags tags optStep tagMode lastTagForm given).Sound given.length := by
  unfold berCheckTags
  have checked : (if tagMode = 0 ∧ optStep.getD 0 = tags.length then
      checkAnyTag (.start given (optStep.getD 0))
    else checkTagsLoop tags tagMode lastTagForm
      (tags.length + (if tagMode = 1 then 1 else 0) - optStep.getD 0)
      (.start given (optStep.getD 0))).Sound given.length := by
    split
    · exact checkAnyTag_sound _ _ (by simp [TagCheck.start]) rfl
    · exact checkTagsLoop_sound _ _ _ _ _ _ (by simp [TagCheck.start])
        (fun primitive => by cases primitive)
  exact checked.contextFree _

/-- A header that is accepted has at least a tag and a length. -/
theorem berCheckTags_positive {tags : List Tag} {tagMode : Int} {tag : Nat}
    (single : SingleTag tags tagMode tag) (lastTagForm : Option Bool) (optStep : Option Nat)
    (fresh : optStep.getD 0 = 0) (given : List UInt8)
    (accepted : (berCheckTags tags optStep tagMode lastTagForm given).code = .ok) :
    0 < (berCheckTags tags optStep tagMode lastTagForm given).consumed := by
  have looped : (checkTagsLoop tags tagMode lastTagForm 1 (.start given 0)).code = .ok →
      0 < (checkTagsLoop tags tagMode lastTagForm 1 (.start given 0)).consumed := by
    unfold checkTagsLoop
    cases tagged : berFetchTag (TagCheck.start given 0).rest with
    | wantMore => exact nofun
    | failed => exact nofun
    | fetched found tagLen =>
      have tagBounds := online_berFetchTag.bounded _ _ _ tagged
      dsimp only
      split
      · exact nofun
      · split
        · exact nofun
        · split
          · exact nofun
          · cases read : berFetchLength (berTlvConstructed ((TagCheck.start given 0).rest.headD 0))
                ((TagCheck.start given 0).rest.drop tagLen) with
            | wantMore => exact nofun
            | failed => exact nofun
            | fetched value lenLen =>
              obtain ⟨_, _, forms, _⟩ := berFetchLength_fetched read
              dsimp only
              cases limited : (TagCheck.start given 0).limit
                  (berTlvConstructed ((TagCheck.start given 0).rest.headD 0)) value
                  (tagLen + lenLen) with
              | none => exact nofun
              | some next =>
                obtain ⟨total, _⟩ := TagCheck.limit_some (forms.imp id And.left) limited
                intro _
                show 0 < next.consumed
                omega
  rw [berCheckTags_single single lastTagForm optStep fresh] at accepted ⊢
  split at accepted
  · next refused => exact absurd accepted refused.2
  · next other =>
    rw [if_neg other]
    exact looped accepted

end NetVirt.Ber
