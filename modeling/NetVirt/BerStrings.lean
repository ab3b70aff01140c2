import NetVirt.BerStructs
import NetVirt.OctetStrings

/-!
# Strings

`OCTET_STRING_decode_ber` and `OCTET_STRING_encode_der` of OCTET_STRING.c, for the strings
of bytes and the BIT STRING. A primitive string is taken as it arrives. A constructed one is
a tree of strings whose leaves are joined: its decoder keeps a stack of what it expects of
each open part.
-/

namespace NetVirt.Ber

open OnlineParsers ResumableDecoders

/-- `enum asn_OS_Subvariant`, as far as the protocol has types of it. -/
inductive Subvariant where
  | str
  | bit
deriving DecidableEq

/-- The unused bits of the last octet are zeroed out: `0xff << bits_unused`. -/
def maskLast (bitsUnused : Nat) (buf : List UInt8) : List UInt8 :=
  buf.modifyLast (· &&& UInt8.ofNat (255 * 2 ^ bitsUnused))

/-- The local variables of OCTET_STRING_decode_ber with the structure, and the expectations
from `cur_ptr` on. -/
structure StringParse where
  rest : List UInt8
  consumed : Nat
  ctx : Ctx
  stack : List StackEl
  buf : List UInt8
  bitsUnused : Nat

namespace StringParse

/-- The structure is created if it does not exist. -/
def load (struct : Struct) (given : List UInt8) : StringParse :=
  match struct with
  | .string ctx stack buf bitsUnused =>
    { rest := given, consumed := 0, ctx := ctx, stack := stack, buf := buf,
      bitsUnused := bitsUnused }
  | _ =>
    { rest := given, consumed := 0, ctx := .zero, stack := [], buf := [], bitsUnused := 0 }

def struct (parse : StringParse) : Struct :=
  .string parse.ctx parse.stack parse.buf parse.bitsUnused

/-- ADVANCE -/
def advance (parse : StringParse) (num : Nat) : StringParse :=
  { parse with rest := parse.rest.drop num, consumed := parse.consumed + num }

/-- APPEND. The size of a string is an int, and so is that of its buffer. -/
def append (parse : StringParse) (chunk : List UInt8) : Option StringParse :=
  let expected := parse.buf.length + chunk.length
  if 2 ^ 31 ≤ expected then none
  else if 2 ^ 31 ≤ OctetStrings.grow expected parse.ctx.context then none
  else some
    { parse with
      ctx := { parse.ctx with context := OctetStrings.grow expected parse.ctx.context }
      buf := parse.buf ++ chunk }

/-- The buffer that is allocated for a string. -/
def Allocates (parse : StringParse) (octets : OctetStrings.Octets) : Prop :=
  parse.buf = octets.content ∧ parse.ctx.context = octets.allocated

/-- APPEND does to a string that is parsed what it does to a decoded one. -/
theorem append_octets {parse : StringParse} {octets : OctetStrings.Octets}
    (allocates : parse.Allocates octets) (chunk : List UInt8) :
    Option.Rel Allocates (parse.append chunk) (octets.append chunk) := by
  obtain ⟨content, allocated⟩ := allocates
  have size : octets.content.length = octets.size := rfl
  unfold append OctetStrings.Octets.append
  rw [content, allocated, size]
  dsimp only
  by_cases long : 2 ^ 31 ≤ octets.size + chunk.length
  · rw [if_pos long, if_pos (show 2147483648 ≤ _ from long)]
    exact .none
  rw [if_neg long, if_neg (show ¬2147483648 ≤ _ from long)]
  by_cases large : 2 ^ 31 ≤ OctetStrings.grow (octets.size + chunk.length) octets.allocated
  · rw [if_pos large, if_pos (show 2147483648 ≤ _ from large)]
    exact .none
  · rw [if_neg large, if_neg (show ¬2147483648 ≤ _ from large)]
    exact .some ⟨rfl, rfl⟩

/-- Of chunks that are appended one after the other, both have the same buffer. -/
theorem appends_octets (chunks : List (List UInt8)) {parse : StringParse}
    {octets : OctetStrings.Octets} (allocates : parse.Allocates octets) :
    Option.Rel Allocates (chunks.foldlM append parse)
      (chunks.foldlM OctetStrings.Octets.append octets) := by
  induction chunks generalizing parse octets with
  | nil => exact .some allocates
  | cons chunk rest inductionHypothesis =>
    rw [List.foldlM_cons, List.foldlM_cons]
    have first := append_octets allocates chunk
    generalize parse.append chunk = parsed at first ⊢
    generalize octets.append chunk = decoded at first ⊢
    cases first with
    | none => exact .none
    | some allocates => exact inductionHypothesis allocates

def phase (parse : StringParse) (phase : Nat) : StringParse :=
  { parse with ctx := { parse.ctx with phase := phase } }

def returned (parse : StringParse) : RvalCode → Outcome Struct
  | .ok => .done parse.struct parse.consumed
  | .wmore => .more parse.struct parse.consumed
  | .fail => .failed parse.struct parse.consumed

/-! ## The primitive form -/

/-- The octet that counts unused bits is put away before anything is appended. -/
def chopBits (variant : Subvariant) (parse : StringParse) : StringParse :=
  if variant = .bit ∧ parse.ctx.context = 0 ∧ parse.ctx.left ≠ 0 then
    { parse.advance 1 with
      bitsUnused := (parse.rest.headD 0).toNat
      ctx := { parse.ctx with left := parse.ctx.left - 1 } }
  else parse

/-- Phase 3. The length is not negative there, as is asserted. -/
def primitive (variant : Subvariant) (parse : StringParse) : Option RvalCode × StringParse :=
  if parse.rest.length < parse.ctx.left.toNat then
    if parse.rest = [] then (some .wmore, parse)
    else
      let chopped := parse.chopBits variant
      match chopped.append chopped.rest with
      | none => (some .fail, chopped)
      | some appended =>
        (some .wmore, { appended.advance appended.rest.length with
          ctx := { appended.ctx with left := appended.ctx.left - appended.rest.length } })
  else
    let chopped := parse.chopBits variant
    match chopped.append (chopped.rest.take chopped.ctx.left.toNat) with
    | none => (some .fail, chopped)
    | some appended =>
      (some .ok, { appended.advance appended.ctx.left.toNat with
        ctx := { appended.ctx with left := 0, phase := appended.ctx.phase + 1 } })

/-! ## The constructed form -/

/-- The bytes that the current expectation allows to look at. -/
def allowed (parse : StringParse) : List UInt8 :=
  match parse.stack with
  | [] => parse.rest
  | sel :: _ => if sel.left < 0 then parse.rest else parse.rest.take sel.left.toNat

/-- What one iteration over the expectations comes to: a code to return, another iteration,
contents to be read, or nothing left to wait for. -/
inductive Stacked where
  | returned (code : RvalCode) (parse : StringParse)
  | again (parse : StringParse)
  | contents (parse : StringParse)
  | finished (parse : StringParse)

/-- A part that is complete is accounted to the part around it. -/
def complete (parse : StringParse) (sel : StackEl) : List StackEl → Stacked
  | [] => .finished { parse with stack := [] }
  | prev :: below =>
    if prev.left ≠ -1 ∧ prev.left < sel.got then .returned .fail parse
    else .again
      { parse with
        stack := { prev with
          left := if prev.left ≠ -1 then prev.left - sel.got else prev.left
          got := prev.got + sel.got } :: below }

/-- Two zero octets end a part of indefinite length. -/
def eatNulls (parse : StringParse) (sel : StackEl) (below : List StackEl) : Stacked :=
  let after : StackEl :=
    { sel with
      got := sel.got + 2
      left := if sel.wantNulls = 1 then 0 else if sel.left ≠ -1 then sel.left - 2 else sel.left
      wantNulls := sel.wantNulls - 1 }
  let moved := { parse.advance 2 with stack := after :: below }
  if after.wantNulls = 0 then .again moved else .contents moved

/-- The tag of a part: of the whole string any, of those inside it the one that its depth
asks for. -/
def expectedTag (allTags : List Tag) (stack : List StackEl) (found : Tag) : Tag :=
  if stack = [] then found
  else (allTags[stack.length - 1]?).getD (allTags.getLastD found)

/-- What is left of the part around the next one; -1 when nothing limits it. -/
def parentLeft (parse : StringParse) : Int := (parse.stack.head?.map StackEl.left).getD (-1)

/-- The expectation of a part whose tag and length take `tlvl` octets. -/
def opening (parse : StringParse) (tlvLen : Int) (tlvl : Nat) : StackEl where
  left := if parse.parentLeft ≠ -1 ∧ tlvLen = -1 then parse.parentLeft - tlvl else tlvLen
  got := tlvl
  wantNulls := if tlvLen = -1 then 1 else 0
  bitsChopped := false

/-- The part around a new one is not big enough for it. -/
def tooBig (parse : StringParse) (tlvLen : Int) (tlvl : Nat) : Bool :=
  parse.parentLeft ≠ -1 ∧ parse.parentLeft < tlvl + (if tlvLen = -1 then 0 else tlvLen)

/-- A new expectation is put on the stack. -/
def expect (parse : StringParse) (tlvConstr : Bool) (tlvLen : Int) (tlvl : Nat) : Stacked :=
  let moved := { parse.advance tlvl with stack := parse.opening tlvLen tlvl :: parse.stack }
  if parse.tooBig tlvLen tlvl then .returned .fail parse
  else if tlvConstr then .again moved
  else .contents moved

/-- The tag and length of the next part, once what is complete was accounted for. -/
def nextPart (allTags : List Tag) (parse : StringParse) : Stacked :=
  match berFetchTag parse.allowed with
  | .failed => .returned .fail parse
  | .wantMore => .returned .wmore parse
  | .fetched tlvTag tl =>
    let tlvConstr := berTlvConstructed (parse.rest.headD 0)
    match berFetchLength tlvConstr (parse.allowed.drop tl) with
    | .failed => .returned .fail parse
    | .wantMore => .returned .wmore parse
    | .fetched tlvLen ll =>
      match parse.stack with
      | sel :: below =>
        if sel.wantNulls ≠ 0 ∧ parse.rest.take 2 = [0, 0] then parse.eatNulls sel below
        else if tlvTag ≠ expectedTag allTags parse.stack tlvTag then .returned .fail parse
        else parse.expect tlvConstr tlvLen (tl + ll)
      | [] => parse.expect tlvConstr tlvLen (tl + ll)

/-- One iteration of the loop of phase 1. -/
def stackStep (allTags : List Tag) (parse : StringParse) : Stacked :=
  match parse.stack with
  | sel :: below =>
    if sel.left ≤ 0 ∧ sel.wantNulls = 0 then parse.complete sel below
    else parse.nextPart allTags
  | [] => parse.nextPart allTags

/-- Phase 2: contents of the current part, as far as they are there. -/
def contentsStep (variant : Subvariant) (parse : StringParse) : Stacked :=
  match parse.stack with
  | [] => .returned .fail parse
  | sel :: below =>
    let len := min parse.rest.length sel.left.toNat
    let chop := variant = .bit ∧ sel.bitsChopped = false
    let appended :=
      if len = 0 then some parse
      else if chop then
        ({ parse with bitsUnused := (parse.rest.headD 0).toNat }).append
          ((parse.rest.take len).drop 1)
      else parse.append (parse.rest.take len)
    match appended with
    | none => .returned .fail parse
    | some appended =>
      let after : StackEl :=
        { sel with
          left := sel.left - len
          got := sel.got + len
          bitsChopped := sel.bitsChopped || decide (chop ∧ len ≠ 0) }
      let moved := { appended.advance len with stack := after :: below }
      if after.left ≠ 0 then .returned .wmore moved else .again (moved.phase 1)

/-- Phases 1 and 2 in turn, from the given phase on, for a number of iterations. -/
def constructed (allTags : List Tag) (variant : Subvariant) :
    Nat → StringParse → Option RvalCode × StringParse
  | 0, parse => (none, parse)
  | fuel + 1, parse =>
    match (if parse.ctx.phase = 2 then parse.contentsStep variant else parse.stackStep allTags) with
    | .returned code after => (code, after)
    | .again after => constructed allTags variant fuel after
    | .contents after => constructed allTags variant fuel (after.phase 2)
    | .finished after => (some .ok, after.phase 4)

/-- Each iteration takes bytes or closes a part, so that these are enough. -/
def fuel (parse : StringParse) : Nat :=
  4 * parse.rest.length + 2 * parse.stack.length + (if parse.ctx.phase = 2 then 2 else 1)

/-- The BIT STRING-specific processing. -/
def finalize (variant : Subvariant) (parse : StringParse) : StringParse :=
  if variant = .bit then { parse with buf := maskLast parse.bitsUnused parse.buf } else parse

def finish (variant : Subvariant) : Option RvalCode × StringParse → Outcome Struct
  | (some .ok, parse) => (parse.finalize variant).returned .ok
  | (some code, parse) => parse.returned code
  | (none, parse) => .stuck parse.struct

end StringParse

/-- `OCTET_STRING_decode_ber` -/
def octetStringDecodeBer (tags allTags : List Tag) (variant : Subvariant) (tagMode : Int)
    (struct : Struct) (given : List UInt8) : Outcome Struct :=
  let parse := StringParse.load struct given
  match parse.ctx.phase with
  | 0 =>
    let checked := berCheckTags tags (some parse.ctx.step) tagMode none given
    let stepped := { parse with ctx := { parse.ctx with step := checked.step } }
    match checked.code with
    | .fail => .failed stepped.struct checked.consumed
    | .wmore => .more stepped.struct checked.consumed
    | .ok =>
      let measured := { stepped with
        ctx := { stepped.ctx with left := checked.lastLength, context := 0 } }
      if checked.tlvForm then
        let opened := { measured.phase 1 with stack := [] }
        (opened.constructed allTags variant opened.fuel) |> StringParse.finish variant
      else
        (((measured.advance checked.consumed).phase 3).primitive variant)
          |> StringParse.finish variant
  | 1 => (parse.constructed allTags variant parse.fuel) |> StringParse.finish variant
  | 2 => (parse.constructed allTags variant parse.fuel) |> StringParse.finish variant
  | 3 => (parse.primitive variant) |> StringParse.finish variant
  | _ => StringParse.finish variant (some .ok, parse)

/-- The contents that `OCTET_STRING_encode_der` writes: a BIT STRING starts with the octet
that counts its unused bits, and has these bits zeroed out if there are any. -/
def stringContents (variant : Subvariant) (buf : List UInt8) (bitsUnused : Nat) : List UInt8 :=
  match variant with
  | .str => buf
  | .bit =>
    UInt8.ofNat (bitsUnused % 8) ::
      if bitsUnused % 8 ≠ 0 then maskLast bitsUnused buf else buf

/-- `asn_DEF_OCTET_STRING`, `asn_DEF_BIT_STRING` and the types derived from them. -/
def octetString (tags allTags : List Tag) (variant : Subvariant) : Codec where
  tags := tags
  zeroed := .string [] 0
  berDecoder := octetStringDecodeBer tags allTags variant
  derEncoder value tagMode tag :=
    match value with
    | .string buf bitsUnused =>
      some (derWriteTags tags (stringContents variant buf bitsUnused).length tagMode false tag ++
        stringContents variant buf bitsUnused)
    | _ => none

/-! ## A string that is written is read back -/

/-- A buffer is at most twice what it has to hold. -/
theorem grow_le (expected allocated bound : Nat) (twice : 2 * expected ≤ bound)
    (first : 16 ≤ bound) (before : allocated ≤ bound) :
    OctetStrings.grow expected allocated ≤ bound := by
  fun_induction OctetStrings.grow expected allocated with
  | case1 allocated more inductionHypothesis =>
    apply inductionHypothesis
    split <;> omega
  | case2 allocated enough => exact before

/-- The buffer of a string of less than a gibibyte, after some of it was appended or none. -/
def StringParse.Roomy (parse : StringParse) : Prop := parse.ctx.context < 2 ^ 31

def StringParse.holding (parse : StringParse) (context : Nat) (chunk : List UInt8) :
    StringParse :=
  { parse with ctx := { parse.ctx with context := context }, buf := parse.buf ++ chunk }

theorem StringParse.append_roomy (parse : StringParse) (chunk : List UInt8)
    (roomy : parse.Roomy) (short : parse.buf.length + chunk.length < 2 ^ 30) :
    ∃ context, 0 < context ∧ context < 2 ^ 31 ∧
      parse.append chunk = some (parse.holding context chunk) := by
  have most := grow_le (parse.buf.length + chunk.length) parse.ctx.context (2 ^ 31 - 1)
    (by omega) (by omega) (by unfold Roomy at roomy; omega)
  have least := OctetStrings.grow_lt (parse.buf.length + chunk.length) parse.ctx.context
  refine ⟨_, Nat.lt_of_le_of_lt (Nat.zero_le _) least, by omega, ?_⟩
  unfold StringParse.append
  dsimp only
  rw [if_neg (by omega), if_neg (by omega)]
  rfl

/-- What a string of the given contents stands for: its bytes, and behind the first one of a
BIT STRING the octet that was put away. -/
def unpacked (variant : Subvariant) (contents : List UInt8) : List UInt8 × Nat :=
  match variant, contents with
  | .bit, first :: rest => (rest, first.toNat)
  | _, contents => (contents, 0)

theorem unpacked_append (variant : Subvariant) (taken piece : List UInt8)
    (opened : variant = .str ∨ taken ≠ []) :
    unpacked variant (taken ++ piece) =
      ((unpacked variant taken).1 ++ piece, (unpacked variant taken).2) := by
  cases variant with
  | str => rfl
  | bit =>
    cases taken with
    | nil => rcases opened with other | some
             · cases other
             · exact False.elim (some rfl)
    | cons first rest => rfl

/-- The structure is within the contents: it was left in phase 3 after some bytes of them. -/
structure Within (variant : Subvariant) (taken remaining : List UInt8) (parse : StringParse) :
    Prop where
  phase : parse.ctx.phase = 3
  left : parse.ctx.left = (remaining.length : Int)
  roomy : parse.Roomy
  opened : parse.ctx.context = 0 ↔ taken = []
  held : (parse.buf, parse.bitsUnused) = unpacked variant taken

/-- The next piece of the contents is appended, behind the octet that is put away. -/
structure Appended (variant : Subvariant) (parse : StringParse) (taken piece missing later :
    List UInt8) (chopped : Nat) (appended : StringParse) : Prop where
  few : chopped ≤ piece.length
  before : (parse.chopBits variant).rest = piece.drop chopped ++ later
  left : (parse.chopBits variant).ctx.left = ((piece ++ missing).length : Int) - chopped
  done : (parse.chopBits variant).append (piece.drop chopped) = some appended
  rest : appended.rest = piece.drop chopped ++ later
  consumed : appended.consumed = parse.consumed + chopped
  phase : appended.ctx.phase = 3
  behind : appended.ctx.left = ((piece ++ missing).length : Int) - chopped
  positive : 0 < appended.ctx.context
  roomy : appended.Roomy
  held : (appended.buf, appended.bitsUnused) = unpacked variant (taken ++ piece)

theorem Within.append {variant : Subvariant} {parse : StringParse}
    {taken piece missing : List UInt8} (within : Within variant taken (piece ++ missing) parse)
    (later : List UInt8) (rest : parse.rest = piece ++ later)
    (some : piece ≠ [] ∨ missing = [])
    (short : taken.length + piece.length < 2 ^ 30) :
    ∃ chopped appended, Appended variant parse taken piece missing later chopped appended := by
  have size : parse.buf.length ≤ taken.length := by
    have held := congrArg Prod.fst within.held
    dsimp only at held
    rw [held]
    cases variant with
    | str => exact Nat.le_refl _
    | bit => cases taken <;> simp [unpacked]
  by_cases chop : variant = .bit ∧ parse.ctx.context = 0 ∧ parse.ctx.left ≠ 0
  · obtain ⟨rfl, unopened, unfinished⟩ := chop
    have none : taken = [] := within.opened.mp unopened
    subst none
    obtain ⟨first, tail, rfl⟩ : ∃ first tail, piece = first :: tail := by
      cases piece with
      | nil =>
        rcases some with some | last
        · exact False.elim (some rfl)
        · exact False.elim (unfinished (by rw [within.left, last]; rfl))
      | cons first tail => exact ⟨first, tail, rfl⟩
    have chopped : parse.chopBits .bit =
        { parse with
          rest := tail ++ later
          consumed := parse.consumed + 1
          bitsUnused := first.toNat
          ctx := { parse.ctx with left := parse.ctx.left - 1 } } := by
      simp [StringParse.chopBits, unopened, unfinished, StringParse.advance, rest]
    have empty : parse.buf = [] := congrArg Prod.fst within.held
    obtain ⟨context, positive, bounded, appended⟩ :=
      (parse.chopBits .bit).append_roomy tail
        (by rw [chopped]; exact within.roomy)
        (by
          rw [chopped]
          simp only [empty, List.length_nil, List.length_cons] at short ⊢
          omega)
    exact
      ⟨1, (parse.chopBits .bit).holding context tail,
        { few := by simp
          before := by rw [chopped]; rfl
          left := by rw [chopped]; simp [within.left]
          done := appended
          rest := by rw [chopped]; rfl
          consumed := by rw [chopped]; rfl
          phase := by rw [chopped]; exact within.phase
          behind := by rw [chopped]; simp [StringParse.holding, within.left]
          positive := positive
          roomy := bounded
          held := by rw [chopped]; simp [StringParse.holding, empty, unpacked] }⟩
  · have kept : parse.chopBits variant = parse := if_neg chop
    have opened : variant = .str ∨ taken ≠ [] ∨ piece = [] := by
      cases variant with
      | str => exact Or.inl rfl
      | bit =>
        refine Or.inr ?_
        by_cases none : taken = []
        · refine Or.inr (List.eq_nil_of_length_eq_zero ?_)
          have zero : parse.ctx.left = 0 := by
            by_contra left
            exact chop ⟨rfl, within.opened.mpr none, left⟩
          rw [within.left, List.length_append] at zero
          omega
        · exact Or.inl none
    obtain ⟨context, positive, bounded, appended⟩ :=
      parse.append_roomy piece within.roomy (by omega)
    have held : (parse.buf ++ piece, parse.bitsUnused) = unpacked variant (taken ++ piece) := by
      have before := within.held
      rcases opened with str | open' | none
      · rw [unpacked_append variant taken piece (Or.inl str), ← before]
      · rw [unpacked_append variant taken piece (Or.inr open'), ← before]
      · rw [none, List.append_nil, List.append_nil, ← before]
    exact ⟨0, parse.holding context piece, Nat.zero_le _, by rw [kept, rest]; rfl,
      by rw [kept, within.left]; simp, by rw [kept]; exact appended, rest, rfl, within.phase,
      by simp [StringParse.holding, within.left], positive, bounded, held⟩

/-- Of contents that are not all there, every byte is taken. -/
theorem primitive_part {variant : Subvariant} {parse : StringParse}
    {taken given missing : List UInt8} (within : Within variant taken (given ++ missing) parse)
    (rest : parse.rest = given) (someGiven : given ≠ []) (someMissing : missing ≠ [])
    (short : taken.length + given.length < 2 ^ 30) :
    ∃ after, parse.primitive variant = (some .wmore, after) ∧
      after.consumed = parse.consumed + given.length ∧
      Within variant (taken ++ given) missing after := by
  obtain ⟨chopped, appended, moved⟩ := within.append [] (by simpa using rest) (Or.inl someGiven)
    short
  have positive := List.length_pos_iff.mpr someMissing
  have lacking : parse.rest.length < parse.ctx.left.toNat := by
    rw [rest, within.left, Int.toNat_natCast, List.length_append]
    omega
  have few := moved.few
  have whole := moved.before
  have behind := moved.rest
  rw [List.append_nil] at whole behind
  refine ⟨{ appended.advance appended.rest.length with
    ctx := { appended.ctx with left := appended.ctx.left - appended.rest.length } }, ?_, ?_, ?_⟩
  · unfold StringParse.primitive
    rw [if_pos lacking, if_neg (by rw [rest]; exact someGiven)]
    dsimp only
    rw [whole, moved.done]
  · simp only [StringParse.advance, moved.consumed, behind, List.length_drop]
    omega
  · refine ⟨moved.phase, ?_, moved.roomy, ?_, moved.held⟩
    · simp only [moved.behind, behind, List.length_drop, List.length_append]
      omega
    · have opened := moved.positive
      refine iff_of_false (Nat.ne_of_gt opened) ?_
      simp [someGiven]

/-- Contents that are all there complete the string. -/
theorem primitive_whole {variant : Subvariant} {parse : StringParse}
    {taken remaining : List UInt8} (within : Within variant taken remaining parse)
    (later : List UInt8) (rest : parse.rest = remaining ++ later)
    (short : taken.length + remaining.length < 2 ^ 30) :
    ∃ after, parse.primitive variant = (some .ok, after) ∧
      after.consumed = parse.consumed + remaining.length ∧
      (after.buf, after.bitsUnused) = unpacked variant (taken ++ remaining) := by
  have all : Within variant taken (remaining ++ []) parse := by
    rw [List.append_nil]
    exact within
  obtain ⟨chopped, appended, moved⟩ := all.append later rest (Or.inr rfl) short
  have enough : ¬parse.rest.length < parse.ctx.left.toNat := by
    rw [rest, within.left, Int.toNat_natCast, List.length_append]
    omega
  have few := moved.few
  have left := moved.left
  have behind := moved.behind
  rw [List.append_nil] at left behind
  have piece : (parse.chopBits variant).rest.take (parse.chopBits variant).ctx.left.toNat =
      remaining.drop chopped := by
    rw [moved.before, left, List.take_left']
    simp only [List.length_drop]
    omega
  refine ⟨{ appended.advance appended.ctx.left.toNat with
    ctx := { appended.ctx with left := 0, phase := appended.ctx.phase + 1 } }, ?_, ?_, moved.held⟩
  · unfold StringParse.primitive
    rw [if_neg enough]
    dsimp only
    rw [piece, moved.done]
  · simp only [StringParse.advance, moved.consumed, behind]
    omega

/-- The strings that come back from their encoding: shorter than a gibibyte, and a BIT STRING
with at most seven unused bits, all zero. -/
def StringValid (variant : Subvariant) : Value → Prop
  | .string buf bitsUnused =>
    match variant with
    | .str => bitsUnused = 0 ∧ buf.length < 2 ^ 30
    | .bit => bitsUnused < 8 ∧ maskLast bitsUnused buf = buf ∧ buf.length + 1 < 2 ^ 30
  | _ => False

theorem unpacked_contents {variant : Subvariant} {buf : List UInt8} {bitsUnused : Nat}
    (valid : StringValid variant (.string buf bitsUnused)) :
    unpacked variant (stringContents variant buf bitsUnused) = (buf, bitsUnused) ∧
      (stringContents variant buf bitsUnused).length < 2 ^ 30 ∧
      (variant = .bit → maskLast bitsUnused buf = buf) := by
  cases variant with
  | str =>
    obtain ⟨rfl, short⟩ := valid
    exact ⟨rfl, short, nofun⟩
  | bit =>
    obtain ⟨few, masked, short⟩ := valid
    have octet : (UInt8.ofNat (bitsUnused % 8)).toNat = bitsUnused := by
      rw [UInt8.toNat_ofNat']
      omega
    refine ⟨?_, ?_, fun _ => masked⟩
    · simp only [stringContents, unpacked, octet, masked, ite_self]
    · simp only [stringContents, masked, ite_self, List.length_cons]
      exact short

/-- Nothing was read of the string yet. -/
def Untouched (struct : Struct) : Prop := struct = .absent ∨ struct = .string .zero [] [] 0

theorem load_untouched {struct : Struct} (untouched : Untouched struct) (given : List UInt8) :
    StringParse.load struct given =
      { rest := given, consumed := 0, ctx := .zero, stack := [], buf := [], bitsUnused := 0 } := by
  rcases untouched with rfl | rfl <;> rfl

/-- How far the decoder of a string of the given contents got, and what it still needs. -/
def StringNeeds (variant : Subvariant) (header contents : List UInt8) (struct : Struct)
    (rest : List UInt8) : Prop :=
  Untouched struct ∧ rest = header ++ contents ∨
    ∃ taken parse, struct = parse.struct ∧ contents = taken ++ rest ∧
      Within variant taken rest parse

theorem Within.load {variant : Subvariant} {taken remaining : List UInt8} {parse : StringParse}
    (within : Within variant taken remaining parse) (given : List UInt8) :
    Within variant taken remaining (StringParse.load parse.struct given) :=
  ⟨within.phase, within.left, within.roomy, within.opened, within.held⟩

/-- Without a byte of the contents nothing changes. -/
theorem Within.idle {variant : Subvariant} {taken missing : List UInt8} {parse : StringParse}
    (within : Within variant taken missing parse)
    (rest : parse.rest = []) (someMissing : missing ≠ []) :
    StringParse.finish variant (parse.primitive variant) = .more parse.struct parse.consumed := by
  have positive := List.length_pos_iff.mpr someMissing
  have lacking : parse.rest.length < parse.ctx.left.toNat := by
    rw [rest, within.left, Int.toNat_natCast]
    exact positive
  rw [StringParse.primitive, if_pos lacking, if_pos rest]
  rfl

/-- In phase 3 the decoder goes on with the contents. -/
theorem octetString_within {parse : StringParse} (phase : parse.ctx.phase = 3)
    (tags allTags : List Tag) (variant : Subvariant) (tagMode : Int) (given : List UInt8) :
    octetStringDecodeBer tags allTags variant tagMode parse.struct given =
      StringParse.finish variant ((StringParse.load parse.struct given).primitive variant) := by
  have same : (StringParse.load parse.struct given).ctx.phase = 3 := phase
  unfold octetStringDecodeBer
  simp only [same]

section Contents
variable {variant : Subvariant} {buf : List UInt8} {bitsUnused : Nat}
  (valid : StringValid variant (.string buf bitsUnused)) {taken : List UInt8} {parse : StringParse}
include valid

/-- Completing the contents gives the string, from wherever its decoder stands. -/
theorem Within.completed {remaining later : List UInt8}
    (within : Within variant taken remaining parse) (rest : parse.rest = remaining ++ later)
    (split : stringContents variant buf bitsUnused = taken ++ remaining) :
    ∃ final, StringParse.finish variant (parse.primitive variant) =
      .done final (parse.consumed + remaining.length) ∧
        final.value = some (.string buf bitsUnused) := by
  obtain ⟨contents, short, masked⟩ := unpacked_contents valid
  rw [split, List.length_append] at short
  obtain ⟨after, decided, consumed, held⟩ := primitive_whole within later rest short
  rw [← split, contents] at held
  obtain ⟨same, bits⟩ := Prod.mk.inj held
  refine ⟨(after.finalize variant).struct, ?_, ?_⟩
  · rw [decided]
    simp only [StringParse.finish, StringParse.returned]
    rw [← consumed]
    congr 1
    unfold StringParse.finalize
    split <;> rfl
  · unfold StringParse.finalize
    split
    · next bit =>
      simp only [StringParse.struct, Struct.value, same, bits, masked bit]
    · simp only [StringParse.struct, Struct.value, same, bits]

/-- A part of the contents is taken whole. -/
theorem Within.parted {given missing : List UInt8}
    (within : Within variant taken (given ++ missing) parse) (rest : parse.rest = given)
    (someGiven : given ≠ []) (someMissing : missing ≠ [])
    (split : stringContents variant buf bitsUnused = taken ++ (given ++ missing)) :
    ∃ after, StringParse.finish variant (parse.primitive variant) =
      .more after.struct (parse.consumed + given.length) ∧
        Within variant (taken ++ given) missing after := by
  obtain ⟨_, short, _⟩ := unpacked_contents valid
  rw [split, List.length_append, List.length_append] at short
  obtain ⟨after, decided, consumed, kept⟩ :=
    primitive_part within rest someGiven someMissing (by omega)
  refine ⟨after, ?_, kept⟩
  rw [decided, ← consumed]
  rfl

end Contents

section Lawful
variable {tags : List Tag} {tagMode : Int} {tag : Nat} (single : SingleTag tags tagMode tag)
  (bound : tag < 2 ^ 32) (allTags : List Tag) (variant : Subvariant)
include single bound

/-- Behind a whole header the string is at the start of its contents. -/
theorem octetString_opened {struct : Struct} (untouched : Untouched struct)
    (contents later : List UInt8) (short : contents.length < 2 ^ 30) :
    ∃ parse, Within variant [] contents parse ∧ parse.rest = later ∧
      parse.consumed = (derWriteTL tag contents.length false).length ∧
      octetStringDecodeBer tags allTags variant tagMode struct
        (derWriteTL tag contents.length false ++ later) =
          StringParse.finish variant (parse.primitive variant) := by
  have checked := berCheckTags_header single contents.length false none (some 0) rfl bound nofun
    (by omega) later
  refine ⟨{ rest := later, consumed := (derWriteTL tag contents.length false).length,
            ctx := { phase := 3, step := 1, context := 0, left := contents.length },
            stack := [], buf := [], bitsUnused := 0 }, ?_, rfl, rfl, ?_⟩
  · have roomy : (0 : Nat) < 2 ^ 31 := by decide
    refine ⟨rfl, rfl, roomy, by simp, ?_⟩
    cases variant <;> rfl
  · unfold octetStringDecodeBer
    rw [load_untouched untouched]
    simp only [Ctx.zero, checked]
    simp [StringParse.advance, StringParse.phase]

/-- In a header that was cut, nothing is consumed. -/
theorem octetString_header_waits {struct : Struct} (untouched : Untouched struct)
    (length : Nat) (short : length < 2 ^ 30) (given lacking : List UInt8) (some : lacking ≠ [])
    (part : derWriteTL tag length false = given ++ lacking) :
    octetStringDecodeBer tags allTags variant tagMode struct given =
      .more (.string .zero [] [] 0) 0 := by
  obtain ⟨code, consumed, step⟩ := berCheckTags_part single length false none (Option.some 0) rfl
    bound nofun (by omega) given lacking part some
  unfold octetStringDecodeBer
  rw [load_untouched untouched]
  simp only [Ctx.zero, code, consumed, step, StringParse.struct]

/-- Behind a whole header, the part of the contents that is there is taken. -/
theorem octetString_start_waits {buf : List UInt8} {bitsUnused : Nat}
    (valid : StringValid variant (.string buf bitsUnused)) {struct : Struct}
    (untouched : Untouched struct) (behind missing : List UInt8) (someMissing : missing ≠ [])
    (split : stringContents variant buf bitsUnused = behind ++ missing) :
    ∃ after, octetStringDecodeBer tags allTags variant tagMode struct
        (derWriteTL tag (stringContents variant buf bitsUnused).length false ++ behind) =
      .more after.struct
        ((derWriteTL tag (stringContents variant buf bitsUnused).length false).length +
          behind.length) ∧
        Within variant behind missing after := by
  obtain ⟨parse, within, start, consumed, decoded⟩ :=
    octetString_opened single bound allTags variant untouched
      (stringContents variant buf bitsUnused) behind (unpacked_contents valid).2.1
  rw [split] at within
  rw [decoded, ← consumed]
  by_cases nothing : behind = []
  · subst nothing
    exact ⟨parse, within.idle start someMissing, within⟩
  · exact within.parted valid start nothing someMissing split

/-- Every way of cutting a string's encoding leads to the string.

Proof: the decoder has read nothing, or some of the contents behind a whole header. All the
bytes that it needs complete the contents from either point. Of fewer, it consumes none while
the header is cut, and the part of the contents otherwise, so that it needs what is left. -/
theorem octetString_resumes (buf : List UInt8) (bitsUnused : Nat)
    (valid : StringValid variant (.string buf bitsUnused)) :
    Resumes (octetStringDecodeBer tags allTags variant tagMode)
      (fun final => final.value = some (.string buf bitsUnused))
      (StringNeeds variant
        (derWriteTL tag (stringContents variant buf bitsUnused).length false)
        (stringContents variant buf bitsUnused)) := by
  have short := (unpacked_contents valid).2.1
  constructor
  · rintro struct rest later (⟨untouched, rfl⟩ | ⟨taken, parse, rfl, split, within⟩) some
    · obtain ⟨parse, within, behind, consumed, decoded⟩ :=
        octetString_opened single bound allTags variant untouched
          (stringContents variant buf bitsUnused)
          (stringContents variant buf bitsUnused ++ later) short
      obtain ⟨final, done, settled⟩ := within.completed valid behind rfl
      refine ⟨final, ?_, settled⟩
      rw [List.append_assoc, decoded, done, consumed, List.length_append]
    · obtain ⟨final, done, settled⟩ := (within.load (rest ++ later)).completed valid rfl split
      refine ⟨final, ?_, settled⟩
      rw [octetString_within within.phase, done]
      simp [StringParse.load, StringParse.struct]
  · rintro struct given missing (⟨untouched, split⟩ | ⟨taken, parse, rfl, split, within⟩)
      someGiven someMissing
    · rcases split_cases split with ⟨behind, rfl, rest⟩ | ⟨lacking, some, part, _⟩
      · obtain ⟨after, waited, kept⟩ := octetString_start_waits single bound allTags variant valid
          untouched behind missing someMissing rest
        refine ⟨after.struct, _, waited, by rw [List.length_append], ?_⟩
        rw [List.drop_left' (by rw [List.length_append])]
        exact Or.inr ⟨behind, after, rfl, rest, kept⟩
      · have waited := octetString_header_waits single bound allTags variant untouched _ short
          given lacking some part
        exact ⟨_, 0, waited, Nat.zero_le _, Or.inl ⟨Or.inr rfl, split⟩⟩
    · obtain ⟨after, waited, kept⟩ :=
        (within.load given).parted valid rfl someGiven someMissing split
      refine ⟨after.struct, given.length, ?_, Nat.le_refl _, Or.inr ⟨taken ++ given, after, rfl, ?_,
        ?_⟩⟩
      · rw [octetString_within within.phase, waited]
        simp [StringParse.load, StringParse.struct]
      · rw [List.drop_left, split, List.append_assoc]
      · rw [List.drop_left]
        exact kept

theorem octetString_carries :
    Lawful (octetString tags allTags variant) tagMode tag (StringValid variant) where
  encodes value valid := by
    cases value with
    | string buf bitsUnused => exact ⟨_, rfl⟩
    | _ => exact False.elim valid
  begins value encoding valid encoded := by
    cases value with
    | string buf bitsUnused =>
      obtain rfl := Option.some.inj encoded
      rw [single.written tag (fun _ => rfl)]
      exact ⟨tag, begins_header tag _ false _ bound, fun _ => rfl⟩
    | _ => exact False.elim valid
  resumes value encoding valid encoded fits := by
    cases value with
    | string buf bitsUnused =>
      obtain rfl := Option.some.inj encoded
      rw [single.written tag (fun _ => rfl)]
      exact ⟨_, octetString_resumes single bound allTags variant buf bitsUnused valid,
        Or.inl ⟨Or.inl rfl, rfl⟩⟩
    | _ => exact False.elim valid

/-- A string is read back as it was written, however the bytes are cut. -/
theorem octetString_lawful :
    Lawful (octetString tags allTags variant) tagMode tag (StringValid variant) :=
  octetString_carries single bound allTags variant

end Lawful

/-! ## Any bytes -/

namespace StringParse

/-- What was consumed and what is left are the given bytes. -/
def Accounts (size : Nat) (parse : StringParse) : Prop :=
  parse.consumed + parse.rest.length = size

theorem Accounts.advance {size : Nat} {parse : StringParse} (accounts : parse.Accounts size)
    (num : Nat) (inside : num ≤ parse.rest.length) : (parse.advance num).Accounts size := by
  unfold Accounts at accounts ⊢
  simp only [StringParse.advance, List.length_drop]
  omega

theorem Accounts.append {size : Nat} {parse appended : StringParse} {chunk : List UInt8}
    (accounts : parse.Accounts size) (done : parse.append chunk = some appended) :
    appended.Accounts size ∧ appended.rest = parse.rest ∧
      appended.ctx.left = parse.ctx.left ∧ appended.ctx.phase = parse.ctx.phase := by
  unfold StringParse.append at done
  dsimp only at done
  split at done
  · cases done
  · split at done
    · cases done
    · cases done
      exact ⟨accounts, rfl, rfl, rfl⟩

/-- The octet that is put away is one of the given ones. -/
theorem Accounts.chopBits {size : Nat} {parse : StringParse} (accounts : parse.Accounts size)
    (variant : Subvariant) (enough : parse.rest ≠ [] ∨ parse.ctx.left.toNat ≤ 0)
    (asserted : 0 ≤ parse.ctx.left) :
    (parse.chopBits variant).Accounts size ∧ 0 ≤ (parse.chopBits variant).ctx.left ∧
      (parse.ctx.left.toNat ≤ parse.rest.length →
        (parse.chopBits variant).ctx.left.toNat ≤ (parse.chopBits variant).rest.length) ∧
      (parse.rest.length < parse.ctx.left.toNat →
        (parse.chopBits variant).rest.length < (parse.chopBits variant).ctx.left.toNat) := by
  unfold StringParse.chopBits
  split
  · next chop =>
    have some : 1 ≤ parse.rest.length := by
      rcases enough with some | none
      · exact List.length_pos_iff.mpr some
      · omega
    refine ⟨accounts.advance 1 some, ?_, ?_, ?_⟩
    all_goals simp only [StringParse.advance, List.length_drop]
    all_goals omega
  · exact ⟨accounts, asserted, id, id⟩

theorem chopBits_phase (parse : StringParse) (variant : Subvariant) :
    (parse.chopBits variant).ctx.phase = parse.ctx.phase := by
  unfold StringParse.chopBits
  split <;> rfl

/-- Phase 3 stays inside the given bytes, and keeps what it asserts of its length. -/
theorem Accounts.primitive {size : Nat} {parse : StringParse} (accounts : parse.Accounts size)
    (variant : Subvariant) (asserted : 0 ≤ parse.ctx.left) :
    ∃ code after, parse.primitive variant = (some code, after) ∧ after.Accounts size ∧
      0 ≤ after.ctx.left ∧ parse.ctx.phase ≤ after.ctx.phase := by
  have phased := parse.chopBits_phase variant
  unfold StringParse.primitive
  by_cases lacking : parse.rest.length < parse.ctx.left.toNat
  · rw [if_pos lacking]
    by_cases vacant : parse.rest = []
    · rw [if_pos vacant]
      exact ⟨.wmore, parse, rfl, accounts, asserted, Nat.le_refl _⟩
    · obtain ⟨chopped, least, _, less⟩ := accounts.chopBits variant (Or.inl vacant) asserted
      rw [if_neg vacant]
      dsimp only
      cases done : (parse.chopBits variant).append (parse.chopBits variant).rest with
      | none => exact ⟨.fail, _, rfl, chopped, least, phased.ge⟩
      | some appended =>
        obtain ⟨kept, rest, left, phase⟩ := chopped.append done
        refine ⟨.wmore, _, rfl, kept.advance appended.rest.length (Nat.le_refl _), ?_,
          (phase.trans phased).ge⟩
        have behind := less lacking
        rw [← rest, ← left] at behind
        simp only
        omega
  · rw [if_neg lacking]
    have choppable : parse.rest ≠ [] ∨ parse.ctx.left.toNat ≤ 0 := by
      by_cases vacant : parse.rest = []
      · right
        rw [vacant] at lacking
        simpa using lacking
      · exact Or.inl vacant
    obtain ⟨chopped, least, within, _⟩ := accounts.chopBits variant choppable asserted
    dsimp only
    cases done : (parse.chopBits variant).append
        ((parse.chopBits variant).rest.take (parse.chopBits variant).ctx.left.toNat) with
    | none => exact ⟨.fail, _, rfl, chopped, least, phased.ge⟩
    | some appended =>
      obtain ⟨kept, rest, left, phase⟩ := chopped.append done
      have inside := within (by omega)
      rw [← rest, ← left] at inside
      exact ⟨.ok, _, rfl, kept.advance appended.ctx.left.toNat inside, Int.le_refl 0,
        Nat.le_succ_of_le (phase.trans phased).ge⟩

/-- Where the expectations stand between two calls: no part wants more than one terminator,
and the part whose contents are read has a length. -/
structure Expecting (parse : StringParse) : Prop where
  phased : parse.ctx.phase = 1 ∨ parse.ctx.phase = 2
  counted : ∀ sel ∈ parse.stack, sel.wantNulls ≤ 1
  measured : parse.ctx.phase = 2 → ∃ sel below, parse.stack = sel :: below ∧ 0 ≤ sel.left

/-- What an iteration over the expectations leaves. Another one is nearer to the end. -/
def Stacked.Sound (size fuel : Nat) : Stacked → Prop
  | .returned _ parse => parse.Accounts size ∧ parse.Expecting
  | .again parse => parse.Accounts size ∧ parse.Expecting ∧ parse.fuel < fuel
  | .contents parse =>
    parse.Accounts size ∧ (parse.phase 2).Expecting ∧ (parse.phase 2).fuel < fuel
  | .finished parse => parse.Accounts size

theorem allowed_length (parse : StringParse) : parse.allowed.length ≤ parse.rest.length := by
  unfold allowed
  split
  · exact Nat.le_refl _
  · split
    · exact Nat.le_refl _
    · rw [List.length_take]
      omega

section Steps
variable {size : Nat} {parse : StringParse} (accounts : parse.Accounts size)
  (expecting : parse.Expecting) (first : parse.ctx.phase = 1)
include accounts expecting first

/-- A primitive part has a definite length. -/
theorem expect_sound (tlvConstr : Bool) (tlvLen : Int) (tlvl : Nat)
    (some : 2 ≤ tlvl) (inside : tlvl ≤ parse.rest.length)
    (length : tlvLen = -1 ∧ tlvConstr = true ∨ 0 ≤ tlvLen) :
    (parse.expect tlvConstr tlvLen tlvl).Sound size parse.fuel := by
  have counted : ∀ sel ∈ parse.opening tlvLen tlvl :: parse.stack, sel.wantNulls ≤ 1 := by
    intro sel inside
    rcases List.mem_cons.mp inside with rfl | before
    · unfold opening
      dsimp only
      split <;> decide
    · exact expecting.counted sel before
  unfold expect
  dsimp only
  by_cases big : parse.tooBig tlvLen tlvl = true
  · rw [if_pos big]
    exact ⟨accounts, expecting⟩
  · rw [if_neg big]
    cases tlvConstr with
    | true =>
      refine ⟨accounts.advance tlvl inside, ⟨Or.inl first, counted,
        fun two => absurd (first.symm.trans two) (by decide)⟩, ?_⟩
      simp only [fuel, advance, List.length_drop, List.length_cons, first]
      omega
    | false =>
      have definite : tlvLen ≠ -1 ∧ 0 ≤ tlvLen := by
        rcases length with ⟨_, other⟩ | least
        · cases other
        · omega
      refine ⟨accounts.advance tlvl inside, ⟨Or.inr rfl, counted, fun _ => ⟨_, _, rfl, ?_⟩⟩, ?_⟩
      · simp only [opening, definite.1, and_false, if_false]
        exact definite.2
      · simp only [fuel, phase, advance, List.length_drop, List.length_cons, first,
          reduceIte, Nat.reduceEqDiff]
        omega

theorem eatNulls_sound (sel : StackEl) (below : List StackEl) (top : parse.stack = sel :: below)
    (two : 2 ≤ parse.rest.length) : (parse.eatNulls sel below).Sound size parse.fuel := by
  have single := expecting.counted sel (by rw [top]; exact List.mem_cons_self)
  unfold eatNulls
  dsimp only
  rw [if_pos (by omega)]
  refine ⟨accounts.advance 2 two, ⟨Or.inl first, fun other inside => ?_,
    fun phase => absurd (first.symm.trans phase) (by decide)⟩, ?_⟩
  · rcases List.mem_cons.mp inside with rfl | before
    · dsimp only
      omega
    · exact expecting.counted other (by rw [top]; exact List.mem_cons_of_mem sel before)
  · simp only [fuel, advance, List.length_drop, List.length_cons, first, top]
    omega

theorem complete_sound (sel : StackEl) (below : List StackEl) (top : parse.stack = sel :: below) :
    (parse.complete sel below).Sound size parse.fuel := by
  cases below with
  | nil => exact accounts
  | cons prev below =>
    simp only [complete]
    by_cases short : prev.left ≠ -1 ∧ prev.left < sel.got
    · rw [if_pos short]
      exact ⟨accounts, expecting⟩
    · rw [if_neg short]
      refine ⟨accounts, ⟨Or.inl first, fun other inside => ?_,
        fun phase => absurd (first.symm.trans phase) (by decide)⟩, ?_⟩
      · rcases List.mem_cons.mp inside with rfl | before
        · exact expecting.counted prev (by rw [top]; simp)
        · exact expecting.counted other (by rw [top]; simp [before])
      · simp only [fuel, List.length_cons, first, top]
        omega

theorem nextPart_sound (allTags : List Tag) : (parse.nextPart allTags).Sound size parse.fuel := by
  have shorter := parse.allowed_length
  unfold nextPart
  cases tagged : berFetchTag parse.allowed with
  | wantMore => exact ⟨accounts, expecting⟩
  | failed => exact ⟨accounts, expecting⟩
  | fetched tlvTag tl =>
    have tagBounds := online_berFetchTag.bounded _ _ _ tagged
    dsimp only
    cases read : berFetchLength (berTlvConstructed (parse.rest.headD 0))
        (parse.allowed.drop tl) with
    | wantMore => exact ⟨accounts, expecting⟩
    | failed => exact ⟨accounts, expecting⟩
    | fetched tlvLen ll =>
      obtain ⟨_, lenBounds, forms, _⟩ := berFetchLength_fetched read
      rw [List.length_drop] at lenBounds
      have sound := expect_sound accounts expecting first
        (berTlvConstructed (parse.rest.headD 0)) tlvLen (tl + ll) (by omega) (by omega)
        (forms.imp id And.left)
      dsimp only
      cases top : parse.stack with
      | nil => exact sound
      | cons sel below =>
        dsimp only
        split
        · next ended =>
          have two : 2 ≤ parse.rest.length := by
            have taken := congrArg List.length ended.2
            rw [List.length_take] at taken
            simp only [List.length_cons, List.length_nil] at taken
            omega
          exact eatNulls_sound accounts expecting first sel below top two
        · split
          · exact ⟨accounts, expecting⟩
          · exact sound

theorem stackStep_sound (allTags : List Tag) : (parse.stackStep allTags).Sound size parse.fuel := by
  unfold stackStep
  cases top : parse.stack with
  | nil => exact nextPart_sound accounts expecting first allTags
  | cons sel below =>
    dsimp only
    split
    · exact complete_sound accounts expecting first sel below top
    · exact nextPart_sound accounts expecting first allTags

end Steps

theorem contentsStep_sound {size : Nat} {parse : StringParse} (accounts : parse.Accounts size)
    (expecting : parse.Expecting) (second : parse.ctx.phase = 2) (variant : Subvariant) :
    (parse.contentsStep variant).Sound size parse.fuel := by
  obtain ⟨sel, below, top, least⟩ := expecting.measured second
  have few : min parse.rest.length sel.left.toNat ≤ parse.rest.length := Nat.min_le_left _ _
  have within : (min parse.rest.length sel.left.toNat : Int) ≤ sel.left := by omega
  -- What is appended leaves the bytes, the stack and the phase alone.
  have appends : ∀ (start appended : StringParse) (chunk : List UInt8),
      start.rest = parse.rest → start.consumed = parse.consumed → start.ctx = parse.ctx →
      start.append chunk = some appended →
        appended.Accounts size ∧ appended.rest = parse.rest ∧ appended.ctx.phase = 2 := by
    intro start appended chunk rest consumed ctx done
    have same : start.Accounts size := by
      unfold Accounts at accounts ⊢
      rw [rest, consumed]
      exact accounts
    unfold append at done
    dsimp only at done
    split at done
    · cases done
    · split at done
      · cases done
      · cases done
        exact ⟨same, rest, by rw [ctx]; exact second⟩
  unfold contentsStep
  rw [top]
  dsimp only
  split
  · exact ⟨accounts, expecting⟩
  · next appended done =>
    have moved : appended.Accounts size ∧ appended.rest = parse.rest ∧ appended.ctx.phase = 2 := by
      split at done
      · cases done
        exact ⟨accounts, rfl, second⟩
      · split at done
        · exact appends _ _ _ (by rfl) (by rfl) (by rfl) done
        · exact appends _ _ _ (by rfl) (by rfl) (by rfl) done
    obtain ⟨kept, rest, phase⟩ := moved
    have ahead := kept.advance (min parse.rest.length sel.left.toNat) (by rw [rest]; exact few)
    have counted : ∀ (after : StackEl), after.wantNulls = sel.wantNulls →
        ∀ other ∈ after :: below, other.wantNulls ≤ 1 := by
      intro after same other inside
      rcases List.mem_cons.mp inside with rfl | before
      · rw [same]
        exact expecting.counted sel (by rw [top]; exact List.mem_cons_self)
      · exact expecting.counted other (by rw [top]; exact List.mem_cons_of_mem sel before)
    split
    · exact ⟨ahead, Or.inr phase, counted _ rfl, fun _ => ⟨_, _, rfl, by
        simp only
        omega⟩⟩
    · refine ⟨ahead, ⟨Or.inl rfl, counted _ rfl, nofun⟩, ?_⟩
      simp only [fuel, StringParse.phase, advance, rest, List.length_drop, List.length_cons,
        second, top, reduceIte, Nat.reduceEqDiff]
      omega

/-- Expectations are met inside the given bytes, in as many iterations as there is fuel. -/
theorem constructed_sound {size : Nat} (allTags : List Tag) (variant : Subvariant) (fuel : Nat)
    (parse : StringParse) (accounts : parse.Accounts size) (expecting : parse.Expecting)
    (enough : parse.fuel ≤ fuel) :
    ∃ code after, parse.constructed allTags variant fuel = (some code, after) ∧
      after.Accounts size ∧ (code = .ok ∧ after.ctx.phase = 4 ∨ after.Expecting) := by
  induction fuel generalizing parse with
  | zero =>
    unfold StringParse.fuel at enough
    split at enough <;> omega
  | succ fuel inductionHypothesis =>
    have step : (if parse.ctx.phase = 2 then parse.contentsStep variant
        else parse.stackStep allTags).Sound size parse.fuel := by
      split
      · next second => exact contentsStep_sound accounts expecting second variant
      · next other =>
        exact stackStep_sound accounts expecting (expecting.phased.resolve_right other) allTags
    unfold constructed
    cases taken : (if parse.ctx.phase = 2 then parse.contentsStep variant
        else parse.stackStep allTags) with
    | returned code after =>
      rw [taken] at step
      exact ⟨code, after, rfl, step.1, Or.inr step.2⟩
    | again after =>
      rw [taken] at step
      exact inductionHypothesis after step.1 step.2.1
        (Nat.le_of_lt_succ (Nat.lt_of_lt_of_le step.2.2 enough))
    | contents after =>
      rw [taken] at step
      exact inductionHypothesis (after.phase 2) step.1 step.2.1
        (Nat.le_of_lt_succ (Nat.lt_of_lt_of_le step.2.2 enough))
    | finished after =>
      rw [taken] at step
      exact ⟨.ok, after.phase 4, rfl, step, Or.inl ⟨rfl, rfl⟩⟩

end StringParse

/-- What the assertions of the string decoder say of a structure between two calls. -/
structure StringFormed (struct : Struct) : Prop where
  measured : (StringParse.load struct []).ctx.phase = 3 →
    0 ≤ (StringParse.load struct []).ctx.left
  expecting : (StringParse.load struct []).ctx.phase = 1 ∨
    (StringParse.load struct []).ctx.phase = 2 → (StringParse.load struct []).Expecting

/-- The decoder returns a structure that meets its assertions, having stayed inside what it
was given. -/
structure StringReturns (size : Nat) (outcome : Outcome Struct) : Prop where
  inside : outcome.consumed ≤ size
  formed : StringFormed outcome.state
  ends : ∀ next, outcome ≠ .stuck next

theorem finish_returns {size : Nat} (variant : Subvariant) (code : RvalCode)
    (parse : StringParse) (accounts : parse.Accounts size)
    (measured : parse.ctx.phase = 3 → 0 ≤ parse.ctx.left)
    (expecting : parse.ctx.phase = 1 ∨ parse.ctx.phase = 2 → parse.Expecting) :
    StringReturns size (StringParse.finish variant (some code, parse)) := by
  have inside : parse.consumed ≤ size := by
    unfold StringParse.Accounts at accounts
    omega
  have formed : ∀ buf, StringFormed (.string parse.ctx parse.stack buf parse.bitsUnused) :=
    fun buf => ⟨measured, fun between =>
      ⟨(expecting between).phased, (expecting between).counted, (expecting between).measured⟩⟩
  cases code with
  | ok =>
    by_cases bits : variant = .bit
    · simp only [StringParse.finish, StringParse.finalize, if_pos bits]
      exact ⟨inside, formed _, nofun⟩
    · simp only [StringParse.finish, StringParse.finalize, if_neg bits]
      exact ⟨inside, formed _, nofun⟩
  | wmore => exact ⟨inside, formed _, nofun⟩
  | fail => exact ⟨inside, formed _, nofun⟩

theorem constructed_returns {size : Nat} (allTags : List Tag) (variant : Subvariant)
    (parse : StringParse) (accounts : parse.Accounts size) (expecting : parse.Expecting) :
    StringReturns size
      (StringParse.finish variant (parse.constructed allTags variant parse.fuel)) := by
  obtain ⟨code, after, done, kept, last⟩ :=
    parse.constructed_sound allTags variant parse.fuel accounts expecting (Nat.le_refl _)
  rw [done]
  rcases last with ⟨rfl, ended⟩ | still
  · exact finish_returns variant .ok after kept (by omega) (by omega)
  · exact finish_returns variant code after kept
      (fun three => by rcases still.phased with one | two <;> omega) (fun _ => still)

theorem primitive_returns {size : Nat} (variant : Subvariant) (parse : StringParse)
    (accounts : parse.Accounts size) (third : parse.ctx.phase = 3) (asserted : 0 ≤ parse.ctx.left) :
    StringReturns size (StringParse.finish variant (parse.primitive variant)) := by
  obtain ⟨code, after, done, kept, least, later⟩ := accounts.primitive variant asserted
  rw [done]
  exact finish_returns variant code after kept (fun _ => least) (by omega)

/-- Whatever the bytes, the decoder of strings returns, and its assertions hold.

Proof: a fresh state goes to the constructed or the primitive phase as the tag's form says,
and another state goes on in its phase. Each round of the constructed phase consumes bytes or
pops the stack, and keeps what the next round and the next call assert. -/
theorem octetString_answers (tags allTags : List Tag) (variant : Subvariant) (tagMode : Int)
    (struct : Struct) (formed : StringFormed struct) (given : List UInt8) :
    StringReturns given.length
      (octetStringDecodeBer tags allTags variant tagMode struct given) := by
  have same : (StringParse.load struct given).ctx = (StringParse.load struct []).ctx ∧
      (StringParse.load struct given).stack = (StringParse.load struct []).stack := by
    cases struct <;> exact ⟨rfl, rfl⟩
  have start : (StringParse.load struct given).Accounts given.length := by
    cases struct <;> exact Nat.zero_add _
  have expecting : (StringParse.load struct given).ctx.phase = 1 ∨
      (StringParse.load struct given).ctx.phase = 2 →
        (StringParse.load struct given).Expecting := by
    rw [same.1]
    intro between
    obtain ⟨phased, counted, measured⟩ := formed.expecting between
    exact ⟨by rwa [same.1], by rwa [same.2], by rwa [same.1, same.2]⟩
  obtain ⟨inside, definite⟩ := berCheckTags_sound tags
    (some (StringParse.load struct given).ctx.step) tagMode none given
  unfold octetStringDecodeBer
  dsimp only
  split
  · next zero =>
    have untouched : ∀ step, StringFormed (StringParse.struct { StringParse.load struct given with
        ctx := { (StringParse.load struct given).ctx with step := step } }) := fun step =>
      ⟨fun three => absurd (zero.symm.trans three) (by decide),
        fun between => by
          rcases between with one | two
          · exact absurd (zero.symm.trans one) (by decide)
          · exact absurd (zero.symm.trans two) (by decide)⟩
    split
    · exact ⟨inside, untouched _, nofun⟩
    · exact ⟨inside, untouched _, nofun⟩
    · next accepted =>
      split
      · exact constructed_returns allTags variant _ start
          ⟨Or.inl rfl, nofun, fun two => absurd two (show ¬(1 : Nat) = 2 by decide)⟩
      · next primitive =>
        exact primitive_returns variant _
          (StringParse.Accounts.advance start _ (by cases struct <;> exact inside)) rfl
          (definite accepted (by simpa using primitive))
  · next one => exact constructed_returns allTags variant _ start (expecting (Or.inl one))
  · next two => exact constructed_returns allTags variant _ start (expecting (Or.inr two))
  · next three =>
    exact primitive_returns variant _ start three (by
      rw [same.1] at three ⊢
      exact formed.measured three)
  · next zero one two three =>
    exact finish_returns variant .ok _ start (fun third => absurd third three)
      (fun between => by rcases between with first | second <;> contradiction)

/-- From every state in which its assertions hold, the decoder of strings returns, and they
hold again. -/
theorem octetString_returns (tags allTags : List Tag) (variant : Subvariant) (tagMode : Int)
    (struct : Struct) (formed : StringFormed struct) (given : List UInt8) :
    StringReturns given.length
      (octetStringDecodeBer tags allTags variant tagMode struct given) :=
  octetString_answers tags allTags variant tagMode struct formed given

/-- A constructed string, cut inside its first part. -/
def constructedStart : Outcome Struct :=
  octetStringDecodeBer [16] [16] .str 0 .absent [0x24, 0x80, 4, 3, 65]

/-- The decoder is midway in the string, and is given the rest with its terminator. -/
theorem constructed_start_returns :
    (StringParse.load constructedStart.state []).ctx.phase = 2 ∧
      StringReturns 4
        (octetStringDecodeBer [16] [16] .str 0 constructedStart.state [66, 67, 0, 0]) := by
  have formed : StringFormed constructedStart.state :=
    (octetString_answers [16] [16] .str 0 .absent
      ⟨fun three => absurd three (by decide), fun between => absurd between (by decide)⟩ _).formed
  exact ⟨by decide +kernel, octetString_returns [16] [16] .str 0 _ formed [66, 67, 0, 0]⟩

theorem octetString_confined (tags allTags : List Tag) (variant : Subvariant) (tagMode : Int) :
    (octetString tags allTags variant).Confined tagMode := by
  refine ⟨StringFormed, ⟨fun struct given formed => ?_, fun struct given formed => ?_,
    fun struct given next formed stuck => ?_⟩, ⟨nofun, fun between => by
      rcases between with one | two <;> contradiction⟩⟩
  · exact (octetString_answers tags allTags variant tagMode struct formed given).inside
  · exact (octetString_answers tags allTags variant tagMode struct formed given).formed
  · exact absurd stuck
      ((octetString_answers tags allTags variant tagMode struct formed given).ends next)

end NetVirt.Ber
