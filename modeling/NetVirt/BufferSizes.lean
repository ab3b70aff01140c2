import NetVirt.Runs
import Mathlib.Algebra.Order.Ring.Int
import Mathlib.Algebra.Ring.Nat

/-!
# The sizes of a connection's buffers

The fields of `netc_t` and `krypt_t` that say how long a buffer is and how much of it is
data, as the machine words that they are, and every way in which they are written. The
functions of netbus.c and crypto.c are followed with the results of recv, OpenSSL, the
decoder and the encoder as they come; what they store is recorded in order.

What is copied is not modelled, and a failed allocation is not: only the sizes are.
-/

namespace NetVirt.BufferSizes

open Runs

/-- A `size_t`. -/
abbrev Word := BitVec 64

/-- An int. -/
abbrev CInt := BitVec 32

/-- An int that is stored in a size_t. -/
def word (nbyte : CInt) : Word := nbyte.signExtend 64

structure Sizes where
  bufInSize : Word
  bufInOffset : Word
  bufInDataSize : Word
  bufEncSize : Word
  bufEncDataSize : Word
  bufEncryptSize : Word
  bufEncryptDataSize : Word
  bufDecryptSize : Word
  bufDecryptDataSize : Word
deriving DecidableEq

/-- The sizes that net_connection_new sets. -/
def Sizes.new : Sizes :=
  { bufInSize := 1000000#64, bufInOffset := 0#64, bufInDataSize := 0#64,
    bufEncSize := 1000000#64, bufEncDataSize := 0#64, bufEncryptSize := 1000000#64,
    bufEncryptDataSize := 0#64, bufDecryptSize := 1000000#64, bufDecryptDataSize := 0#64 }

/-- The data of each buffer lies inside the buffer. -/
structure InBounds (sizes : Sizes) : Prop where
  bufIn : sizes.bufInOffset.toNat + sizes.bufInDataSize.toNat ≤ sizes.bufInSize.toNat
  bufEnc : sizes.bufEncDataSize.toNat ≤ sizes.bufEncSize.toNat
  bufEncrypt : sizes.bufEncryptDataSize.toNat ≤ sizes.bufEncryptSize.toNat
  bufDecrypt : sizes.bufDecryptDataSize.toNat ≤ sizes.bufDecryptSize.toNat

/-! ## What is stored -/

/-- The stores to these fields: by the two serialize functions, by the cases of
net_decode_msg, when buf_enc is marked as empty, and of a number of bytes read. -/
inductive Update where
  | serializeBufIn (dataSize : Word)
  | consumed (bytes : Word)
  | decodeFailed
  | serializeBufEnc (dataSize : Word)
  | encEmptied
  | encryptStored (nbyte : CInt)
  | decryptStored (nbyte : CInt)
deriving DecidableEq

/-- The arithmetic of serialize_buf_in and serialize_buf_enc: the size of the buffer and of
its data. -/
def serialize (size dataSize added : Word) : Word × Word :=
  (if dataSize + added > size then (size + added) * 2#64 else size, dataSize + added)

def Sizes.apply (sizes : Sizes) : Update → Sizes
  | .serializeBufIn dataSize =>
    { sizes with
      bufInSize := (serialize sizes.bufInSize sizes.bufInDataSize dataSize).1
      bufInDataSize := (serialize sizes.bufInSize sizes.bufInDataSize dataSize).2 }
  | .consumed bytes =>
    { sizes with
      bufInDataSize := sizes.bufInDataSize - bytes
      bufInOffset :=
        if sizes.bufInDataSize - bytes = 0#64 then 0#64 else sizes.bufInOffset + bytes }
  | .decodeFailed => { sizes with
      bufInDataSize := 0#64
      bufInOffset := 0#64 }
  | .serializeBufEnc dataSize =>
    { sizes with
      bufEncSize := (serialize sizes.bufEncSize sizes.bufEncDataSize dataSize).1
      bufEncDataSize := (serialize sizes.bufEncSize sizes.bufEncDataSize dataSize).2 }
  | .encEmptied => { sizes with bufEncDataSize := 0#64 }
  | .encryptStored nbyte => { sizes with bufEncryptDataSize := word nbyte }
  | .decryptStored nbyte => { sizes with bufDecryptDataSize := word nbyte }

/-- A buffer has room for what is serialized, from an offset on: the sum wraps around; or
the test of the size fires, which does not look at the offset, and the doubled size has the
room; or the size has it as it is. -/
def Room (size offset dataSize added : Word) : Prop :=
  2 ^ 64 ≤ dataSize.toNat + added.toNat ∨
  if size.toNat < dataSize.toNat + added.toNat then
    offset.toNat + dataSize.toNat + added.toNat ≤ (size.toNat + added.toNat) * 2 % 2 ^ 64
  else offset.toNat + dataSize.toNat + added.toNat ≤ size.toNat

/-- No error is stored as a number of bytes, and no more bytes than a read was asked for. -/
def Count (nbyte : CInt) : Prop := 0 ≤ nbyte.toInt ∧ nbyte.toInt ≤ 1000000

/-- What is serialized has room, a decoder consumes bytes that it was given (or so many that
the offset wraps around), and what is stored is a number of bytes. -/
def Fits (sizes : Sizes) : Update → Prop
  | .serializeBufIn dataSize =>
    Room sizes.bufInSize sizes.bufInOffset sizes.bufInDataSize dataSize
  | .consumed bytes => bytes.toNat ≤ sizes.bufInDataSize.toNat ∨
      2 ^ 64 ≤ sizes.bufInOffset.toNat + bytes.toNat
  | .serializeBufEnc dataSize => Room sizes.bufEncSize 0#64 sizes.bufEncDataSize dataSize
  | .encryptStored nbyte => Count nbyte
  | .decryptStored nbyte => Count nbyte
  | _ => True

/-! ## One store -/

/-- Serialized data lies inside its buffer exactly when there is room. -/
theorem serialize_iff (size offset dataSize added : Word)
    (inside : offset.toNat + dataSize.toNat ≤ size.toNat) :
    offset.toNat + (serialize size dataSize added).2.toNat ≤
        (serialize size dataSize added).1.toNat ↔ Room size offset dataSize added := by
  have bounded := size.isLt
  have less := added.isLt
  unfold serialize Room
  simp only [gt_iff_lt, BitVec.lt_def, BitVec.toNat_add]
  by_cases wraps : 2 ^ 64 ≤ dataSize.toNat + added.toNat
  · have kept : ¬ size.toNat < (dataSize.toNat + added.toNat) % 2 ^ 64 := by omega
    rw [if_neg kept]
    omega
  · rw [Nat.mod_eq_of_lt (Nat.not_le.mp wraps)]
    by_cases fires : size.toNat < dataSize.toNat + added.toNat
    · rw [if_pos fires, if_pos fires, BitVec.toNat_mul, BitVec.toNat_add]
      simp only [BitVec.toNat_ofNat]
      omega
    · rw [if_neg fires, if_neg fires]
      omega

/-- An int as a machine word: a negative one is taken from 2^64. -/
theorem word_toNat (nbyte : CInt) :
    ((word nbyte).toNat : Int) = if 0 ≤ nbyte.toInt then nbyte.toInt else nbyte.toInt + 2 ^ 64 := by
  have same : (word nbyte).toInt = nbyte.toInt := BitVec.toInt_signExtend_of_le (by decide)
  have bounded := (word nbyte).isLt
  have low := BitVec.le_toInt nbyte
  have high : nbyte.toInt < 2 ^ 31 := BitVec.toInt_lt
  rw [BitVec.toInt_eq_toNat_cond] at same
  split at same <;> split <;> omega

section Serialize
variable (size offset dataSize : Word) (nbyte : CInt)
  (inside : offset.toNat + dataSize.toNat ≤ size.toNat) (small : size.toNat < 2 ^ 63)
  (some_room : 0 < size.toNat) (read : -1 ≤ nbyte.toInt)
  (few : (dataSize.toNat : Int) + nbyte.toInt < 2 ^ 61)
include inside small some_room read few

/-- Below the size of a machine word there is room where the number of bytes does not become
negative, and where the test of the size sees that the data goes beyond the end: it compares
the data without the offset. -/
theorem room_iff : Room size offset dataSize (word nbyte) ↔
    0 ≤ (dataSize.toNat : Int) + nbyte.toInt ∧
      ((dataSize.toNat : Int) + nbyte.toInt ≤ size.toNat →
        (offset.toNat : Int) + dataSize.toNat + nbyte.toInt ≤ size.toNat) := by
  have stored := word_toNat nbyte
  unfold Room
  split at stored <;> split <;> omega

/-- What is then stored. -/
theorem serialize_toNat (positive : 0 ≤ (dataSize.toNat : Int) + nbyte.toInt) :
    ((serialize size dataSize (word nbyte)).2.toNat : Int) = dataSize.toNat + nbyte.toInt ∧
      ((serialize size dataSize (word nbyte)).1.toNat : Int) =
        if (dataSize.toNat : Int) + nbyte.toInt ≤ size.toNat then (size.toNat : Int)
        else (size.toNat + nbyte.toInt) * 2 := by
  have stored := word_toNat nbyte
  have sum : ((dataSize + word nbyte).toNat : Int) = dataSize.toNat + nbyte.toInt := by
    rw [BitVec.toNat_add]
    split at stored <;> omega
  refine ⟨sum, ?_⟩
  simp only [serialize, gt_iff_lt, BitVec.lt_def]
  by_cases fires : size.toNat < (dataSize + word nbyte).toNat
  · rw [if_pos fires, if_neg (by omega), BitVec.toNat_mul, BitVec.toNat_add]
    simp only [BitVec.toNat_ofNat]
    split at stored <;> omega
  · rw [if_neg fires, if_pos (by omega)]

end Serialize

/-- What the decoder consumes leaves the data inside the buffer exactly when it was there, or
when the offset wraps around as the size of the data does. -/
theorem consumed_iff (size offset dataSize bytes : Word)
    (inside : offset.toNat + dataSize.toNat ≤ size.toNat) :
    (if dataSize - bytes = 0#64 then 0#64 else offset + bytes).toNat +
        (dataSize - bytes).toNat ≤ size.toNat ↔
      bytes.toNat ≤ dataSize.toNat ∨ 2 ^ 64 ≤ offset.toNat + bytes.toNat := by
  have bounded := size.isLt
  have given := bytes.isLt
  by_cases within : bytes.toNat ≤ dataSize.toNat
  · have left : (dataSize - bytes).toNat = dataSize.toNat - bytes.toNat :=
      BitVec.toNat_sub_of_le within
    refine iff_of_true ?_ (Or.inl within)
    split
    · rw [left]
      simp only [BitVec.toNat_ofNat]
      omega
    · rw [left, BitVec.toNat_add]
      omega
  · have left : (dataSize - bytes).toNat = 2 ^ 64 + dataSize.toNat - bytes.toNat := by
      rw [BitVec.toNat_sub]
      omega
    have kept : dataSize - bytes ≠ 0#64 := by
      intro none
      rw [none] at left
      simp only [BitVec.toNat_ofNat] at left
      omega
    rw [if_neg kept, left, BitVec.toNat_add]
    omega

/-- An int is stored in bounds exactly when it is a number of bytes. -/
theorem word_iff (nbyte : CInt) (size : Word) (million : size = 1000000#64) :
    (word nbyte).toNat ≤ size.toNat ↔ Count nbyte := by
  subst million
  have same : (word nbyte).toInt = nbyte.toInt :=
    BitVec.toInt_signExtend_of_le (by decide)
  have low := BitVec.le_toInt nbyte
  have high : nbyte.toInt < 2 ^ 31 := BitVec.toInt_lt
  rw [BitVec.toInt_eq_toNat_cond] at same
  have bounded := (word nbyte).isLt
  unfold Count
  rw [← same]
  simp only [BitVec.toNat_ofNat]
  omega

/-- The sizes of the two buffers of the security layer are never written. -/
def Fixed (sizes : Sizes) : Prop :=
  sizes.bufEncryptSize = 1000000#64 ∧ sizes.bufDecryptSize = 1000000#64

theorem apply_fixed (sizes : Sizes) (update : Update) (fixed : Fixed sizes) :
    Fixed (sizes.apply update) := by
  cases update <;> exact fixed

/-- From sizes in bounds, a store leads to sizes in bounds exactly when it fits. -/
theorem apply_iff (sizes : Sizes) (update : Update) (fixed : Fixed sizes)
    (inside : InBounds sizes) : InBounds (sizes.apply update) ↔ Fits sizes update := by
  have ⟨bufIn, bufEnc, bufEncrypt, bufDecrypt⟩ := inside
  cases update with
  | serializeBufIn dataSize =>
    rw [Fits, ← serialize_iff _ _ _ _ bufIn]
    exact ⟨InBounds.bufIn, fun room => ⟨room, bufEnc, bufEncrypt, bufDecrypt⟩⟩
  | consumed bytes =>
    rw [Fits, ← consumed_iff _ _ _ _ bufIn]
    exact ⟨InBounds.bufIn, fun room => ⟨room, bufEnc, bufEncrypt, bufDecrypt⟩⟩
  | decodeFailed =>
    exact iff_of_true ⟨by simp [Sizes.apply], bufEnc, bufEncrypt, bufDecrypt⟩ trivial
  | serializeBufEnc dataSize =>
    rw [Fits, ← serialize_iff _ _ _ _ (by simpa using bufEnc)]
    simp only [BitVec.toNat_ofNat, Nat.zero_mod, Nat.zero_add]
    exact ⟨InBounds.bufEnc, fun room => ⟨bufIn, room, bufEncrypt, bufDecrypt⟩⟩
  | encEmptied => exact iff_of_true ⟨bufIn, by simp [Sizes.apply], bufEncrypt, bufDecrypt⟩ trivial
  | encryptStored nbyte =>
    rw [Fits, ← word_iff nbyte sizes.bufEncryptSize fixed.1]
    exact ⟨InBounds.bufEncrypt, fun room => ⟨bufIn, bufEnc, room, bufDecrypt⟩⟩
  | decryptStored nbyte =>
    rw [Fits, ← word_iff nbyte sizes.bufDecryptSize fixed.2]
    exact ⟨InBounds.bufDecrypt, fun room => ⟨bufIn, bufEnc, bufEncrypt, room⟩⟩

/-! ## All stores -/

theorem new_fixed : Fixed .new := ⟨rfl, rfl⟩

theorem new_inBounds : InBounds .new := by
  constructor <;> decide

theorem stores_fixed (updates : List Update) : Fixed (updates.foldl Sizes.apply .new) := by
  induction updates using List.reverseRecOn with
  | nil => exact new_fixed
  | append_singleton past update inductionHypothesis =>
    rw [List.foldl_append]
    exact apply_fixed _ _ inductionHypothesis

/-- The data lies inside the buffers after each of the stores exactly when every one fits
the sizes that it finds. -/
theorem stores_iff (updates : List Update) :
    (∀ past, past <+: updates → InBounds (past.foldl Sizes.apply .new)) ↔
      Guarded Sizes.apply .new Fits updates := by
  induction updates using List.reverseRecOn with
  | nil =>
    refine iff_of_true ?_ (guarded_nil _ _ _)
    intro past within
    rw [List.prefix_nil.mp within]
    exact new_inBounds
  | append_singleton past update inductionHypothesis =>
    have last : (past ++ [update]).foldl Sizes.apply .new =
        (past.foldl Sizes.apply .new).apply update := by
      rw [List.foldl_append]
      rfl
    rw [guarded_snoc, ← inductionHypothesis]
    constructor
    · intro always
      have before := fun earlier within =>
        always earlier (List.IsPrefix.trans within (List.prefix_append past [update]))
      refine ⟨before, (apply_iff _ update (stores_fixed past) (before past ⟨[], by simp⟩)).mp ?_⟩
      exact last ▸ always (past ++ [update]) ⟨[], by simp⟩
    · rintro ⟨before, fits⟩ earlier within
      rcases List.prefix_concat_iff.mp within with rfl | within
      · rw [last]
        exact (apply_iff _ update (stores_fixed past) (before past ⟨[], by simp⟩)).mpr fits
      · exact before earlier within

end NetVirt.BufferSizes
