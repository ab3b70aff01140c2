import NetVirt.BerStructs
import Mathlib.Algebra.Ring.Nat
import Mathlib.Tactic.Ring

/-!
# Native integers

`asn_INTEGER2long`, `asn_INTEGER2ulong` and `INTEGER_encode_der` of INTEGER.c with the
decoder and encoder of NativeInteger.c, and the NULL type. A native integer is written as a
signed number, without the leading octets that add nothing to it. One that is declared
unsigned is read as an unsigned number all the same: the largest 2^55 of these are written
as small negative numbers and come back as other ones.
-/

namespace NetVirt.Ber

open OnlineParsers ResumableDecoders

/-- The leading octet adds nothing: it is all zeroes or all ones, and so is the highest bit
behind it. -/
def superfluous (first second : UInt8) : Bool :=
  first = 0 ∧ second.toNat < 128 ∨ first = 255 ∧ 128 ≤ second.toNat

/-- The loop of `INTEGER_encode_der` and of `asn_INTEGER2long` that drops such octets. -/
def canonicalize : List UInt8 → List UInt8
  | first :: second :: rest =>
    if superfluous first second then canonicalize (second :: rest) else first :: second :: rest
  | short => short

/-- The conversion engines: `l = (l << 8) | *b` for every octet. -/
def accumulate (l : BitVec 64) (buf : List UInt8) : BitVec 64 :=
  buf.foldl (fun l b => l * 256#64 + BitVec.ofNat 64 b.toNat) l

/-- The sign initialization of `asn_INTEGER2long`. -/
def signStart (buf : List UInt8) : BitVec 64 :=
  if 128 ≤ (buf.headD 0).toNat then BitVec.ofNat 64 (2 ^ 64 - 1) else 0#64

/-- `asn_INTEGER2long` -/
def asnINTEGER2long (buf : List UInt8) : Option (BitVec 64) :=
  let b := if buf.length > 8 then canonicalize buf else buf
  if b.length > 8 then none else some (accumulate (signStart b) b)

/-- The loop of `asn_INTEGER2ulong` over leading octets, which must be zeroes. -/
def dropZeroes : List UInt8 → Option (List UInt8)
  | [] => some []
  | first :: rest =>
    if (first :: rest).length > 8 then if first ≠ 0 then none else dropZeroes rest
    else some (first :: rest)

/-- `asn_INTEGER2ulong` -/
def asnINTEGER2ulong (buf : List UInt8) : Option (BitVec 64) :=
  (dropZeroes buf).map (accumulate 0#64)

/-- The conversion of NativeInteger_decode_ber, by the `field_unsigned` of the specifics. -/
def nativeOf (fieldUnsigned : Bool) (buf : List UInt8) : Option (BitVec 64) :=
  if fieldUnsigned then asnINTEGER2ulong buf else asnINTEGER2long buf

/-- `NativeInteger_encode_der` up to the contents: the eight octets of the machine, of which
INTEGER_encode_der drops the superfluous ones. -/
def nativeContents (native : BitVec 64) : List UInt8 := canonicalize (octetsOf native.toNat 8)

/-- What NativeInteger_decode_ber stores. -/
def storeNative (fieldUnsigned : Bool) (buf : List UInt8) : Option Struct :=
  (nativeOf fieldUnsigned buf).map Struct.integer

/-- `asn_DEF_NativeInteger`, and the types derived from it. -/
def nativeInteger (tags : List Tag) (fieldUnsigned : Bool) : Codec where
  tags := tags
  zeroed := .integer 0#64
  berDecoder := decodePrimitive tags (.integer 0#64) (storeNative fieldUnsigned)
  derEncoder value tagMode tag :=
    match value with
    | .integer native =>
      some (derWriteTags tags (nativeContents native).length tagMode false tag ++
        nativeContents native)
    | _ => none

/-- The value of `BOOLEAN_decode_ber`: octets are taken until one of them is not zero. -/
def booleanOf : List UInt8 → UInt8
  | [] => 0
  | first :: rest => if first = 0 then booleanOf rest else first

/-- What BOOLEAN_decode_ber stores. -/
def storeBoolean (buf : List UInt8) : Option Struct := some (.boolean (booleanOf buf))

/-- `asn_DEF_NULL`, decoded as a BOOLEAN and encoded without contents. -/
def nullType (tags : List Tag) : Codec where
  tags := tags
  zeroed := .boolean 0
  berDecoder := decodePrimitive tags (.boolean 0) storeBoolean
  derEncoder value tagMode tag :=
    match value with
    | .boolean _ => some (derWriteTags tags 0 tagMode false tag)
    | _ => none

/-! ## What is written of a native integer -/

/-- The octets of a number, read behind a start that is pushed out of the word. -/
theorem accumulate_octets (start number count : Nat) :
    accumulate (BitVec.ofNat 64 start) (octetsOf number count) =
      BitVec.ofNat 64 (start * 2 ^ (8 * count) + number % 2 ^ (8 * count)) := by
  induction count generalizing start with
  | zero => simp [accumulate, octetsOf, Nat.mod_one]
  | succ count inductionHypothesis =>
    have octet : (UInt8.ofNat (number / 2 ^ (8 * count) % 256)).toNat =
        number / 2 ^ (8 * count) % 256 := by
      rw [UInt8.toNat_ofNat']
      exact Nat.mod_eq_of_lt (by omega)
    have shifted : BitVec.ofNat 64 start * 256#64 +
        BitVec.ofNat 64 (number / 2 ^ (8 * count) % 256) =
          BitVec.ofNat 64 (start * 256 + number / 2 ^ (8 * count) % 256) := by
      rw [BitVec.ofNat_add, BitVec.ofNat_mul]
    have split : number % 2 ^ (8 * (count + 1)) =
        number % 2 ^ (8 * count) + 2 ^ (8 * count) * (number / 2 ^ (8 * count) % 256) := by
      rw [show 2 ^ (8 * (count + 1)) = 2 ^ (8 * count) * 256 by
        rw [Nat.mul_add, Nat.pow_add]]
      exact Nat.mod_mul
    calc accumulate (BitVec.ofNat 64 start) (octetsOf number (count + 1))
        = accumulate (BitVec.ofNat 64 (start * 256 + number / 2 ^ (8 * count) % 256))
            (octetsOf number count) := by
          rw [octetsOf, accumulate, List.foldl_cons, octet, shifted]
          rfl
      _ = BitVec.ofNat 64 ((start * 256 + number / 2 ^ (8 * count) % 256) * 2 ^ (8 * count) +
            number % 2 ^ (8 * count)) := inductionHypothesis _
      _ = _ := by
          rw [split, show 2 ^ (8 * (count + 1)) = 2 ^ (8 * count) * 256 by
            rw [Nat.mul_add, Nat.pow_add]]
          congr 1
          ring

/-- A word of the machine is read back from its eight octets, whatever it is read behind. -/
theorem accumulate_word (start : Nat) (native : BitVec 64) :
    accumulate (BitVec.ofNat 64 start) (octetsOf native.toNat 8) = native := by
  rw [accumulate_octets]
  apply BitVec.eq_of_toNat_eq
  have bound := native.isLt
  rw [BitVec.toNat_ofNat]
  omega

/-- An octet that adds nothing is the sign that the rest is read behind. -/
theorem signStart_superfluous (first second : UInt8) (rest : List UInt8)
    (drop : superfluous first second = true) :
    signStart (first :: second :: rest) * 256#64 + BitVec.ofNat 64 first.toNat =
      signStart (second :: rest) := by
  simp only [superfluous, decide_eq_true_eq] at drop
  rcases drop with ⟨rfl, low⟩ | ⟨rfl, high⟩
  · have positive : ¬128 ≤ second.toNat := by omega
    simp [signStart, positive]
  · simp [signStart, high]

theorem canonicalize_signed (buf : List UInt8) :
    accumulate (signStart (canonicalize buf)) (canonicalize buf) =
      accumulate (signStart buf) buf := by
  fun_induction canonicalize buf with
  | case1 first second rest drop inductionHypothesis =>
    rw [inductionHypothesis, ← signStart_superfluous first second rest drop]
    simp only [accumulate, List.foldl_cons]
  | case2 first second rest kept => rfl
  | case3 short other => rfl

theorem canonicalize_length (buf : List UInt8) (some : buf ≠ []) :
    0 < (canonicalize buf).length ∧ (canonicalize buf).length ≤ buf.length := by
  fun_induction canonicalize buf with
  | case1 first second rest drop inductionHypothesis =>
    have shorter := inductionHypothesis (by simp)
    simp only [List.length_cons] at shorter ⊢
    omega
  | case2 first second rest kept => simp
  | case3 short other => exact ⟨List.length_pos_iff.mpr some, Nat.le_refl _⟩

theorem nativeContents_length (native : BitVec 64) :
    0 < (nativeContents native).length ∧ (nativeContents native).length ≤ 8 := by
  have bounds := canonicalize_length (octetsOf native.toNat 8) (by simp [octetsOf])
  rwa [octetsOf_length] at bounds

theorem asnINTEGER2long_contents (native : BitVec 64) :
    asnINTEGER2long (nativeContents native) = some native := by
  have short := (nativeContents_length native).2
  have fits : ¬(nativeContents native).length > 8 := by omega
  unfold asnINTEGER2long
  dsimp only
  rw [if_neg fits, if_neg fits]
  unfold nativeContents
  rw [canonicalize_signed]
  unfold signStart
  split
  · rw [accumulate_word]
  · rw [accumulate_word 0]

/-- Nothing but zeroes is dropped of a number that is not written as a small negative one. -/
theorem canonicalize_unsigned (buf : List UInt8)
    (plain : ∀ first second rest, buf = first :: second :: rest →
      ¬(first = 255 ∧ 128 ≤ second.toNat)) :
    accumulate 0#64 (canonicalize buf) = accumulate 0#64 buf := by
  fun_induction canonicalize buf with
  | case1 first second rest drop inductionHypothesis =>
    simp only [superfluous, decide_eq_true_eq] at drop
    rcases drop with ⟨rfl, low⟩ | negative
    · rw [inductionHypothesis]
      · simp [accumulate]
      · rintro first second rest ⟨rfl, rfl⟩ ⟨rfl, _⟩
        exact absurd low (by decide)
    · exact False.elim (plain first second rest rfl negative)
  | case2 first second rest kept => rfl
  | case3 short other => rfl

/-- The octets that a word starts with. -/
theorem octetsOf_word (native : BitVec 64) :
    ∃ first second rest, octetsOf native.toNat 8 = first :: second :: rest ∧
      first.toNat = native.toNat / 2 ^ 56 ∧ second.toNat = native.toNat / 2 ^ 48 % 256 := by
  have bound := native.isLt
  refine ⟨_, _, _, rfl, ?_, ?_⟩
  · rw [UInt8.toNat_ofNat', show 8 * 7 = 56 from rfl]
    omega
  · rw [UInt8.toNat_ofNat', show 8 * 6 = 48 from rfl]
    omega

theorem asnINTEGER2ulong_short (buf : List UInt8) (short : buf.length ≤ 8) :
    asnINTEGER2ulong buf = some (accumulate 0#64 buf) := by
  cases buf with
  | nil => rfl
  | cons first rest =>
    rw [asnINTEGER2ulong, dropZeroes, if_neg (by omega)]
    rfl

/-- A number of at most seven octets is below 2^56. -/
theorem accumulate_small (buf : List UInt8) (l : BitVec 64)
    (short : l.toNat * 256 ^ buf.length + 256 ^ buf.length ≤ 2 ^ 64) :
    (accumulate l buf).toNat < l.toNat * 256 ^ buf.length + 256 ^ buf.length := by
  induction buf generalizing l with
  | nil => simp [accumulate]
  | cons first rest inductionHypothesis =>
    have octet := first.toNat_lt
    have power : 0 < 256 ^ rest.length := Nat.pow_pos (by omega)
    rw [List.length_cons, Nat.pow_succ] at short ⊢
    have scaled : (l.toNat * 256 + first.toNat) * 256 ^ rest.length + 256 ^ rest.length ≤
        l.toNat * (256 ^ rest.length * 256) + 256 ^ rest.length * 256 := by
      calc (l.toNat * 256 + first.toNat) * 256 ^ rest.length + 256 ^ rest.length
          = (l.toNat * 256 + (first.toNat + 1)) * 256 ^ rest.length := by ring
        _ ≤ (l.toNat * 256 + 256) * 256 ^ rest.length :=
            Nat.mul_le_mul_right _ (by omega)
        _ = _ := by ring
    have fits : l.toNat * 256 + first.toNat < 2 ^ 64 := by
      have single : l.toNat * 256 + first.toNat + 1 ≤
          (l.toNat * 256 + first.toNat) * 256 ^ rest.length + 256 ^ rest.length := by
        calc l.toNat * 256 + first.toNat + 1
            = (l.toNat * 256 + first.toNat + 1) * 1 := by ring
          _ ≤ (l.toNat * 256 + first.toNat + 1) * 256 ^ rest.length :=
              Nat.mul_le_mul_left _ power
          _ = _ := by ring
      omega
    have next : (l * 256#64 + BitVec.ofNat 64 first.toNat).toNat =
        l.toNat * 256 + first.toNat := by
      rw [BitVec.toNat_add, BitVec.toNat_mul, BitVec.toNat_ofNat, BitVec.toNat_ofNat]
      omega
    have rested := inductionHypothesis (l * 256#64 + BitVec.ofNat 64 first.toNat) (by
      rw [next]
      omega)
    rw [next] at rested
    rw [accumulate, List.foldl_cons]
    exact Nat.lt_of_lt_of_le rested scaled

/-- An unsigned native comes back from its encoding exactly when it is not one of the largest
2^55 numbers of the word. The encoding of those is that of a negative number, without the
octet of zeroes that asn_ulong2INTEGER puts in front. -/
theorem ulong_contents_iff (native : BitVec 64) :
    asnINTEGER2ulong (nativeContents native) = some native ↔
      native.toNat < 2 ^ 64 - 2 ^ 55 := by
  obtain ⟨first, second, rest, octets, high, next⟩ := octetsOf_word native
  have bound := native.isLt
  rw [asnINTEGER2ulong_short _ (nativeContents_length native).2, Option.some.injEq]
  constructor
  · intro same
    by_cases negative : first = 255 ∧ 128 ≤ second.toNat
    · obtain ⟨rfl, top⟩ := negative
      have dropped : nativeContents native = canonicalize (second :: rest) := by
        rw [nativeContents, octets, canonicalize, if_pos]
        simp [superfluous, top]
      have short : (canonicalize (second :: rest)).length ≤ 7 := by
        have total := congrArg List.length octets
        rw [octetsOf_length] at total
        have shorter := (canonicalize_length (second :: rest) (by simp)).2
        simp only [List.length_cons] at total shorter
        omega
      have power : 256 ^ (canonicalize (second :: rest)).length ≤ 256 ^ 7 :=
        Nat.pow_le_pow_right (by omega) short
      have small := accumulate_small (canonicalize (second :: rest)) 0#64 (by
        simp only [BitVec.toNat_ofNat, Nat.zero_mod, Nat.zero_mul]
        omega)
      simp only [BitVec.toNat_ofNat, Nat.zero_mod, Nat.zero_mul] at small
      rw [← dropped] at small short power
      rw [same] at small
      have large : 255 = native.toNat / 2 ^ 56 := high
      omega
    · have octet := first.toNat_lt
      by_cases ones : first.toNat = 255
      · have full : first = 255 := UInt8.toNat_inj.mp ones
        have low : ¬128 ≤ second.toNat := fun top => negative ⟨full, top⟩
        omega
      · omega
  · intro below
    rw [nativeContents, canonicalize_unsigned]
    · exact accumulate_word 0 native
    · rintro one two more same ⟨ones, top⟩
      rw [octets] at same
      obtain ⟨leading, same⟩ := List.cons.inj same
      obtain ⟨behind, _⟩ := List.cons.inj same
      have large : 255 = native.toNat / 2 ^ 56 := by
        rw [← high, leading, ones]
        rfl
      rw [behind] at next
      omega

/-- Unsigned integers come back exactly below a bound. -/
theorem asnINTEGER2ulong_contents (native : BitVec 64) :
    asnINTEGER2ulong (nativeContents native) = some native ↔
      native.toNat < 2 ^ 64 - 2 ^ 55 :=
  ulong_contents_iff native

/-! ## The codecs -/

theorem nativeInteger_confined (tags : List Tag) (fieldUnsigned : Bool) (tagMode : Int) :
    (nativeInteger tags fieldUnsigned).Confined tagMode :=
  decodePrimitive_confined tags (.integer 0#64) (storeNative fieldUnsigned) tagMode

theorem nullType_confined (tags : List Tag) (tagMode : Int) : (nullType tags).Confined tagMode :=
  decodePrimitive_confined tags (.boolean 0) storeBoolean tagMode

/-- The natives that come back from their encoding. -/
def NativeValid (fieldUnsigned : Bool) : Value → Prop
  | .integer native => fieldUnsigned = true → native.toNat < 2 ^ 64 - 2 ^ 55
  | _ => False

theorem nativeOf_contents (fieldUnsigned : Bool) (native : BitVec 64)
    (valid : NativeValid fieldUnsigned (.integer native)) :
    nativeOf fieldUnsigned (nativeContents native) = some native := by
  cases fieldUnsigned with
  | false => exact asnINTEGER2long_contents native
  | true => exact (ulong_contents_iff native).mpr (valid rfl)

section Lawful
variable {tags : List Tag} {tagMode : Int} {tag : Nat} (single : SingleTag tags tagMode tag)
  (bound : tag < 2 ^ 32)
include single bound

theorem nativeInteger_lawful (fieldUnsigned : Bool) :
    Lawful (nativeInteger tags fieldUnsigned) tagMode tag (NativeValid fieldUnsigned) where
  encodes value valid := by
    cases value with
    | integer native => exact ⟨_, rfl⟩
    | _ => exact False.elim valid
  begins value encoding valid encoded := by
    cases value with
    | integer native =>
      obtain rfl := Option.some.inj encoded
      rw [single.written tag (fun _ => rfl)]
      exact ⟨tag, begins_header tag _ false _ bound, fun _ => rfl⟩
    | _ => exact False.elim valid
  resumes value encoding valid encoded fits := by
    cases value with
    | integer native =>
      obtain rfl := Option.some.inj encoded
      rw [single.written tag (fun _ => rfl)] at fits ⊢
      rw [List.length_append] at fits
      refine decodePrimitive_awaits single bound (.integer 0#64) (.integer native) nofun
        (storeNative fieldUnsigned) (nativeContents native) ?_ (by omega) _ rfl
      rw [storeNative, nativeOf_contents fieldUnsigned native valid]
      rfl
    | _ => exact False.elim valid

theorem nullType_lawful :
    Lawful (nullType tags) tagMode tag (fun value => value = .boolean 0) where
  encodes value valid := by
    subst valid
    exact ⟨_, rfl⟩
  begins value encoding valid encoded := by
    subst valid
    obtain rfl := Option.some.inj encoded
    rw [single.written tag (fun _ => rfl)]
    have begins := begins_header tag 0 false [] bound
    rw [List.append_nil] at begins
    exact ⟨tag, begins, fun _ => rfl⟩
  resumes value encoding valid encoded fits := by
    subst valid
    obtain rfl := Option.some.inj encoded
    rw [single.written tag (fun _ => rfl)]
    have awaits := decodePrimitive_awaits single bound (.boolean 0) (.boolean 0) nofun
      storeBoolean [] rfl (by simp)
      (fun final => final.value = some (.boolean 0)) rfl
    rwa [List.append_nil] at awaits

end Lawful

end NetVirt.Ber
