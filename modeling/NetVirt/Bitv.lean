import NetVirt.Bitmaps
import Mathlib.Algebra.Ring.Nat

/-!
# Bit pools

The functions of bitv.c. A pool of `nbits` bits hands out the indexes of its clear bits;
only its whole bytes are searched.
-/

namespace NetVirt.Bitv

open Bitmaps

/-- `bitpool_new`: the pool, and whether there is one. The number of bytes is an int, and no
block of a negative size is allocated. -/
def bitpoolNew (nbits : Nat) : List (BitVec 8) × Int :=
  let nbyte := (BitVec.ofNat 32 ((nbits + 7) % 2 ^ 64 / 8)).toInt
  (List.replicate nbyte.toNat 0, if nbyte < 0 then 0 else 1)

/-- `bitpool_release_bit` -/
def bitpoolReleaseBit (bitpool : List (BitVec 8)) (nbits : Nat) (bit : BitVec 32) :
    List (BitVec 8) × Int :=
  if bit.toNat < nbits then (clearBit bitpool bit.toNat, 0) else (bitpool, -1)

/-- `bitpool_allocate_bit`: the pool and the bit it hands out, none when it is full. -/
def bitpoolAllocateBit (bitpool : List (BitVec 8)) (nbits : Nat) :
    List (BitVec 8) × Option (BitVec 32) :=
  let nbyte := nbits / 8 % 2 ^ 32
  let i := fullBytes (bitpool.take nbyte)
  if i = nbyte then (bitpool, none)
  else
    let bit := BitVec.ofNat 32 (i * 8 + fullBits (bitpool.getD i 0))
    (setBit bitpool bit.toNat, some bit)

/-! ## Accesses

The bytes of the pool that the calls read or write, in their order.
-/

/-- The accesses of `bitpool_allocate_bit`: the bytes searched, the bits of the byte found, and
the bit that is set. -/
def allocateAccesses (bitpool : List (BitVec 8)) (nbits : Nat) : List Nat :=
  let nbyte := nbits / 8 % 2 ^ 32
  let i := fullBytes (bitpool.take nbyte)
  let j := fullBits (bitpool.getD i 0)
  List.range (min (i + 1) nbyte) ++
    if i = nbyte then []
    else (List.range (j + 1)).map (fun tested => i + tested / 8) ++
      [(BitVec.ofNat 32 (i * 8 + j)).toNat / 8]

/-- The accesses of `bitpool_release_bit`. -/
def releaseAccesses (nbits : Nat) (bit : BitVec 32) : List Nat :=
  if bit.toNat < nbits then [bit.toNat / 8] else []

/-! ## Numbers of 32 bits -/

theorem toNat_succ (number : BitVec 32) (room : number.toNat < 4294967295) :
    (number + 1).toNat = number.toNat + 1 := by
  have one : (1 : BitVec 32).toNat = 1 := rfl
  rw [BitVec.toNat_add, one]
  omega

theorem toNat_pred (number : BitVec 32) (positive : 0 < number.toNat) :
    (number - 1).toNat = number.toNat - 1 := by
  have one : (1 : BitVec 32).toNat = 1 := rfl
  have wide := number.isLt
  rw [BitVec.toNat_sub, one]
  omega

/-! ## Pools of whole bytes -/

theorem bitpoolNew_whole (nbits : Nat) (whole : nbits % 8 = 0) (few : nbits ≤ 2 ^ 32) :
    bitpoolNew nbits = (List.replicate (nbits / 8) 0, 1) := by
  have nbyte : (BitVec.ofNat 32 ((nbits + 7) % 2 ^ 64 / 8)).toInt = (nbits / 8 : Nat) := by
    rw [BitVec.toInt_eq_toNat_of_lt, BitVec.toNat_ofNat]
    · omega
    · rw [BitVec.toNat_ofNat]
      omega
  simp only [bitpoolNew, nbyte, Int.toNat_natCast]
  rw [if_neg (by omega)]

/-- A pool of whole bytes is full, or hands out its first clear bit and sets it. -/
theorem bitpoolAllocateBit_spec (bitpool : List (BitVec 8)) (nbits : Nat) (whole : nbits % 8 = 0)
    (few : nbits ≤ 2 ^ 32) (stored : bitpool.length = nbits / 8) :
    ((∀ bit, bit < nbits → getBit bitpool bit = true) ∧
      bitpoolAllocateBit bitpool nbits = (bitpool, none)) ∨
    ∃ bit, bit < nbits ∧ getBit bitpool bit = false ∧
      (∀ earlier, earlier < bit → getBit bitpool earlier = true) ∧
      bitpoolAllocateBit bitpool nbits = (setBit bitpool bit, some (BitVec.ofNat 32 bit)) := by
  have bytes : nbits / 8 % 2 ^ 32 = nbits / 8 := Nat.mod_eq_of_lt (by omega)
  by_cases full : fullBytes (bitpool.take (nbits / 8)) = nbits / 8
  · left
    refine ⟨fun bit inside => allSet bitpool (nbits / 8) full bit (by omega), ?_⟩
    simp only [bitpoolAllocateBit, bytes, full, if_true]
  · right
    obtain ⟨inside, small, clear, set⟩ :=
      firstClear bitpool (nbits / 8) (Nat.le_of_eq stored.symm) full
    refine ⟨_, by omega, clear, set, ?_⟩
    simp only [bitpoolAllocateBit, bytes, full, if_false, BitVec.toNat_ofNat]
    rw [Nat.mod_eq_of_lt (by omega)]

/-- The calls stay within the bytes of such a pool. -/
theorem accesses_stored (bitpool : List (BitVec 8)) (nbits : Nat) (whole : nbits % 8 = 0)
    (few : nbits ≤ 2 ^ 32) (stored : bitpool.length = nbits / 8) :
    (∀ byte ∈ allocateAccesses bitpool nbits, byte < bitpool.length) ∧
      ∀ bit, ∀ byte ∈ releaseAccesses nbits bit, byte < bitpool.length := by
  have bytes : nbits / 8 % 2 ^ 32 = nbits / 8 := Nat.mod_eq_of_lt (by omega)
  constructor
  · intro byte accessed
    simp only [allocateAccesses, bytes, List.mem_append, List.mem_range] at accessed
    rcases accessed with searched | found
    · omega
    · split at found
      · cases found
      · next short =>
        obtain ⟨inside, small, _⟩ := firstClear bitpool _ (Nat.le_of_eq stored.symm) short
        rcases List.mem_append.mp found with tested | written
        · obtain ⟨bit, within, rfl⟩ := List.mem_map.mp tested
          have early := List.mem_range.mp within
          omega
        · rw [List.mem_singleton.mp written, BitVec.toNat_ofNat]
          omega
  · intro bit byte accessed
    unfold releaseAccesses at accessed
    split at accessed
    · next inside =>
      rw [List.mem_singleton.mp accessed]
      omega
    · cases accessed

end NetVirt.Bitv
