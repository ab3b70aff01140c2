import NetVirt.BerHeaders
import NetVirt.ResumableDecoders

/-!
# The structures that are decoded

A structure in memory holds its message fields and, between two calls of its decoder, how
far the decoder got: `asn_struct_ctx_t`, and for a constructed string the stack of what it
expects. Every type of the protocol has a decoder and an encoder of the same form, as
`asn_TYPE_descriptor_t` has pointers to them, so that the decoder of a SEQUENCE calls those
of its members through its table.
-/

namespace NetVirt.Ber

open OnlineParsers ResumableDecoders

/-- `asn_struct_ctx_t`; what its `ptr` refers to is a field of the structures that use it. -/
structure Ctx where
  phase : Nat
  step : Nat
  context : Nat
  left : Int
deriving DecidableEq

/-- Zeroed memory. -/
def Ctx.zero : Ctx := { phase := 0, step := 0, context := 0, left := 0 }

/-- `struct _stack_el`: what is left of a constructed string's part (-1 for an indefinite
length), what was taken of it, whether a terminator is wanted, and whether the octet that
counts unused bits was put away. -/
structure StackEl where
  left : Int
  got : Nat
  wantNulls : Nat
  bitsChopped : Bool
deriving DecidableEq

/-- A structure in memory. `absent` is a NULL pointer, or memory that is still zero. -/
inductive Struct where
  | absent
  | integer (native : BitVec 64)
  | boolean (value : UInt8)
  | string (ctx : Ctx) (stack : List StackEl) (buf : List UInt8) (bitsUnused : Nat)
  | sequence (ctx : Ctx) (members : List Struct)
  | choice (ctx : Ctx) (present : Nat) (member : Struct)
  | setOf (ctx : Ctx) (item : Struct) (list : List Struct)

/-- The message fields of a structure, which the encoders read. -/
inductive Value where
  | integer (native : BitVec 64)
  | boolean (value : UInt8)
  | string (buf : List UInt8) (bitsUnused : Nat)
  | sequence (members : List (Option Value))
  | choice (present : Nat) (member : Option Value)
  | setOf (list : List (Option Value))

mutual

/-- What a structure holds, apart from the contexts of its decoders. -/
def Struct.value : Struct → Option Value
  | .absent => none
  | .integer native => some (.integer native)
  | .boolean value => some (.boolean value)
  | .string _ _ buf bitsUnused => some (.string buf bitsUnused)
  | .sequence _ members => some (.sequence (memberValues members))
  | .choice _ present member => some (.choice present member.value)
  | .setOf _ _ list => some (.setOf (memberValues list))

def memberValues : List Struct → List (Option Value)
  | [] => []
  | member :: rest => member.value :: memberValues rest

end

theorem memberValues_eq_map (members : List Struct) :
    memberValues members = members.map Struct.value := by
  induction members with
  | nil => rfl
  | cons member rest inductionHypothesis => rw [memberValues, List.map_cons, inductionHypothesis]

/-- `asn_TYPE_descriptor_t`: the tags, the decoder called with a tag mode, and the encoder
called with a tag mode and a tag. An encoding that fails (-1) has no bytes. Memory that is
still zero is encoded too, as the value that it is of the type. -/
structure Codec where
  tags : List Tag
  zeroed : Value
  berDecoder : Int → Struct → List UInt8 → Outcome Struct
  derEncoder : Value → Int → Tag → Option (List UInt8)

/-- The encoding starts with a tag, which is read before anything else is looked at. -/
def Begins (tag : Tag) (encoding : List UInt8) : Prop :=
  ∃ lead rest, encoding = lead ++ rest ∧ Reads berFetchTag lead tag

/-- A type, with the tag it is given in its place, carries the valid values: they have an
encoding, and the decoder is led to the value by the encoding however it is cut. -/
structure Lawful (codec : Codec) (tagMode : Int) (tag : Tag) (Valid : Value → Prop) : Prop where
  encodes : ∀ value, Valid value → ∃ encoding, codec.derEncoder value tagMode tag = some encoding
  begins : ∀ value encoding, Valid value →
    codec.derEncoder value tagMode tag = some encoding →
      ∃ outmost, Begins outmost encoding ∧ (tagMode ≠ 0 → outmost = tag)
  resumes : ∀ value encoding, Valid value →
    codec.derEncoder value tagMode tag = some encoding → encoding.length + 1024 < 2 ^ 63 →
      Awaits (codec.berDecoder tagMode) (fun final => final.value = some value) .absent encoding

/-- A zero octet, and one behind it that is not zero. -/
def Unterminated (given : List UInt8) : Prop := ∃ octet, octet ≠ 0 ∧ [0, octet] <:+: given

/-- Whatever the bytes, the decoder stays inside them, and returns unless they hold the
start of a terminator without its end. -/
def Codec.Confined (codec : Codec) (tagMode : Int) : Prop :=
  ResumableDecoders.Confined (codec.berDecoder tagMode) Unterminated .absent

/-- A value that is complete took some bytes, if nothing of it had been read before. -/
def Codec.Productive (codec : Codec) (tagMode : Int) : Prop :=
  ∀ given final consumed, codec.berDecoder tagMode .absent given = .done final consumed →
    0 < consumed

theorem Unterminated.around {part given : List UInt8} (unterminated : Unterminated part)
    (inside : part <:+: given) : Unterminated given := by
  obtain ⟨octet, other, found⟩ := unterminated
  exact ⟨octet, other, found.trans inside⟩

theorem Begins.nonempty {tag : Tag} {encoding : List UInt8} (begins : Begins tag encoding) :
    encoding ≠ [] := by
  obtain ⟨lead, rest, rfl, reads⟩ := begins
  intro empty
  obtain ⟨noLead, _⟩ := List.append_eq_nil_iff.mp empty
  have read := reads.whole []
  rw [noLead] at read
  cases read

theorem Begins.append {tag : Tag} {encoding : List UInt8} (begins : Begins tag encoding)
    (later : List UInt8) : Begins tag (encoding ++ later) := by
  obtain ⟨lead, rest, rfl, reads⟩ := begins
  exact ⟨lead, rest ++ later, List.append_assoc lead rest later, reads⟩

/-- Of the part that is there, either the tag is read or more is wanted. -/
theorem Begins.part {tag : Tag} {given missing : List UInt8}
    (begins : Begins tag (given ++ missing)) :
    berFetchTag given = .wantMore ∨ ∃ length, berFetchTag given = .fetched tag length := by
  obtain ⟨lead, rest, split, reads⟩ := begins
  rcases split_cases split with ⟨later, whole, _⟩ | ⟨lacking, some, part, _⟩
  · exact Or.inr ⟨lead.length, by rw [whole, reads.whole]⟩
  · exact Or.inl (reads.part given lacking part some)

theorem Begins.whole {tag : Tag} {encoding : List UInt8} (begins : Begins tag encoding)
    (later : List UInt8) : ∃ length, berFetchTag (encoding ++ later) = .fetched tag length := by
  obtain ⟨lead, rest, rfl, reads⟩ := begins
  exact ⟨lead.length, by rw [List.append_assoc, reads.whole]⟩

theorem begins_header (tag : Nat) (len : Nat) (constructed : Bool) (contents : List UInt8)
    (bound : tag < 2 ^ 32) : Begins tag (derWriteTL tag len constructed ++ contents) :=
  ⟨markForm constructed (berTlvTagSerialize tag), derTlvLengthSerialize len ++ contents,
    by rw [derWriteTL, List.append_assoc], reads_tag tag constructed bound⟩

/-! ## Types that are always primitive -/

/-- `NativeInteger_decode_ber` and `BOOLEAN_decode_ber`: the header is checked, the contents
are waited with until all of them are there, and converted. They keep nothing else. -/
def decodePrimitive (tags : List Tag) (initial : Struct) (convert : List UInt8 → Option Struct)
    (tagMode : Int) (struct : Struct) (given : List UInt8) : Outcome Struct :=
  let struct := match struct with
    | .absent => initial
    | other => other
  let checked := berCheckTags tags none tagMode (some false) given
  match checked.code with
  | .fail => .failed struct checked.consumed
  | .wmore => .more struct checked.consumed
  | .ok =>
    if checked.lastLength > ((given.length - checked.consumed : Nat) : Int) then .more struct 0
    else
      match convert ((given.drop checked.consumed).take checked.lastLength.toNat) with
      | none => .failed struct 0
      | some result => .done result (checked.consumed + checked.lastLength.toNat)

theorem decodePrimitive_confined (tags : List Tag) (initial : Struct)
    (convert : List UInt8 → Option Struct) (tagMode : Int) :
    ResumableDecoders.Confined (decodePrimitive tags initial convert tagMode) Unterminated
      .absent := by
  refine ⟨fun _ => True, ⟨fun struct given _ => ?_, fun _ _ _ => trivial,
    fun struct given next _ stuck => ?_⟩, trivial⟩
  · obtain ⟨inside, _⟩ := berCheckTags_sound tags none tagMode (some false) given
    unfold decodePrimitive
    dsimp only
    split
    · exact inside
    · exact inside
    · split
      · exact Nat.zero_le _
      · next enough =>
        split
        · exact Nat.zero_le _
        · simp only [Outcome.consumed]
          omega
  · unfold decodePrimitive at stuck
    dsimp only at stuck
    split at stuck
    · cases stuck
    · cases stuck
    · split at stuck
      · cases stuck
      · split at stuck <;> cases stuck

/-- What a primitive type's decoder does with an encoding, whole or in part. -/
theorem decodePrimitive_awaits {tags : List Tag} {tagMode : Int} {tag : Nat}
    (single : SingleTag tags tagMode tag) (bound : tag < 2 ^ 32) (initial final : Struct)
    (present : initial ≠ .absent) (convert : List UInt8 → Option Struct)
    (contents : List UInt8) (converted : convert contents = some final)
    (fits : contents.length + 1024 < 2 ^ 63) (Final : Struct → Prop) (settled : Final final) :
    Awaits (decodePrimitive tags initial convert tagMode) Final .absent
      (derWriteTL tag contents.length false ++ contents) := by
  have header := berCheckTags_header single contents.length false (some false) none rfl bound
    (by intro expected same; exact (Option.some.inj same).symm) fits
  have headerPart := berCheckTags_part single contents.length false (some false) none rfl bound
    (by intro expected same; exact (Option.some.inj same).symm) fits
  refine awaits_of_restart ?_ (fun state => state = .absent ∨ state = initial) (Or.inl rfl) ?_ ?_
  · intro later
    refine ⟨final, ?_, settled⟩
    rw [List.append_assoc]
    simp only [decodePrimitive, header]
    rw [if_neg (by simp only [List.length_append]; omega), List.drop_left,
      Int.toNat_natCast, List.take_left, converted, List.length_append]
  · rintro state (rfl | rfl) given
    · rfl
    · unfold decodePrimitive
      cases state with
      | absent => exact False.elim (present rfl)
      | _ => rfl
  · intro given missing split _ lacking
    refine ⟨initial, ?_, Or.inr rfl⟩
    rcases split_cases split.symm with ⟨later, rfl, rest⟩ | ⟨behind, some, part, _⟩
    · have positive := List.length_pos_iff.mpr lacking
      rw [rest] at header ⊢
      simp only [decodePrimitive, header]
      rw [if_pos (by simp only [List.length_append]; omega)]
    · obtain ⟨code, consumed, _⟩ := headerPart given behind part some
      simp only [decodePrimitive, code, consumed]

end NetVirt.Ber
