import NetVirt.Bitv

/-!
# The law of bit pools

What a pool promises about the indexes that were allocated and not released since. It keeps
the promise exactly when its bits fill whole bytes, of which every index fits 32 bits: the
last bits of a pool that ends within a byte are never allocated, and no index stands for a
bit past the first 2^32.
-/

namespace NetVirt.Bitv

open Bitmaps

inductive PoolCall where
  | allocateBit
  | releaseBit (bit : BitVec 32)
deriving DecidableEq

/-- A pool, and the indexes that were allocated from it and not released since. -/
structure Ledger where
  bitpool : List (BitVec 8)
  allocated : List Nat

def poolStep (nbits : Nat) (ledger : Ledger) : PoolCall → Ledger
  | .allocateBit =>
    let (bitpool, bit) := bitpoolAllocateBit ledger.bitpool nbits
    { bitpool := bitpool, allocated := (bit.map BitVec.toNat).toList ++ ledger.allocated }
  | .releaseBit bit =>
    { bitpool := (bitpoolReleaseBit ledger.bitpool nbits bit).1
      allocated := if bit.toNat < nbits then ledger.allocated.filter (· ≠ bit.toNat)
        else ledger.allocated }

/-- What a pool promises about the next call. -/
structure Lawful (nbits : Nat) (ledger : Ledger) : Prop where
  marks : ∀ index, index < nbits →
    (index ∈ ledger.allocated ↔ getBit ledger.bitpool index = true)
  lowest : ∀ bit, (bitpoolAllocateBit ledger.bitpool nbits).2 = some bit →
    bit.toNat < nbits ∧ bit.toNat ∉ ledger.allocated ∧
      (∀ lower, lower < bit.toNat → lower ∈ ledger.allocated) ∧
      ∀ tested, getBit (bitpoolAllocateBit ledger.bitpool nbits).1 tested =
        (getBit ledger.bitpool tested || decide (tested = bit.toNat))
  exhausted : (bitpoolAllocateBit ledger.bitpool nbits).2 = none ↔
    ∀ index, index < nbits → index ∈ ledger.allocated
  refused : (bitpoolAllocateBit ledger.bitpool nbits).2 = none →
    (bitpoolAllocateBit ledger.bitpool nbits).1 = ledger.bitpool
  freed : ∀ bit, bit.toNat < nbits → ∀ tested,
    getBit (bitpoolReleaseBit ledger.bitpool nbits bit).1 tested =
      (getBit ledger.bitpool tested && decide (tested ≠ bit.toNat))
  foreign : ∀ bit, nbits ≤ bit.toNat →
    (bitpoolReleaseBit ledger.bitpool nbits bit).1 = ledger.bitpool
  allocateInside : ∀ byte ∈ allocateAccesses ledger.bitpool nbits, byte < ledger.bitpool.length
  releaseInside : ∀ bit, ∀ byte ∈ releaseAccesses nbits bit, byte < ledger.bitpool.length

/-! ## Pools of whole bytes -/

/-- The bits that are set are those of the allocated indexes. -/
structure Booked (nbits : Nat) (ledger : Ledger) : Prop where
  stored : ledger.bitpool.length = nbits / 8
  bits : ∀ index, index ∈ ledger.allocated ↔ getBit ledger.bitpool index = true

theorem booked_new (nbits : Nat) :
    Booked nbits { bitpool := List.replicate (nbits / 8) 0, allocated := [] } where
  stored := by simp
  bits index := by simp

section Booked
variable {nbits : Nat} {ledger : Ledger} (whole : nbits % 8 = 0) (few : nbits ≤ 2 ^ 32)
  (booked : Booked nbits ledger)
include whole few booked

theorem allocateBit_booked : Booked nbits (poolStep nbits ledger .allocateBit) := by
  obtain ⟨stored, bits⟩ := booked
  rcases bitpoolAllocateBit_spec ledger.bitpool nbits whole few stored with
    ⟨_, taken⟩ | ⟨bit, inside, clear, _, taken⟩
  · simp only [poolStep, taken, Option.map_none, Option.toList_none, List.nil_append]
    exact ⟨stored, bits⟩
  · have index : (BitVec.ofNat 32 bit).toNat = bit := by
      rw [BitVec.toNat_ofNat]
      exact Nat.mod_eq_of_lt (by omega)
    simp only [poolStep, taken, Option.map_some, Option.toList_some, index, List.cons_append,
      List.nil_append]
    refine ⟨by rw [setBit_length, stored], fun tested => ?_⟩
    rw [getBit_setBit _ _ _ (by omega), List.mem_cons, bits, Bool.or_eq_true, decide_eq_true_eq,
      or_comm]

omit whole few in
theorem releaseBit_booked (bit : BitVec 32) :
    Booked nbits (poolStep nbits ledger (.releaseBit bit)) := by
  obtain ⟨stored, bits⟩ := booked
  simp only [poolStep, bitpoolReleaseBit]
  by_cases inside : bit.toNat < nbits
  · simp only [inside, if_true]
    refine ⟨by rw [clearBit_length, stored], fun tested => ?_⟩
    rw [List.mem_filter, bits, getBit_clearBit, Bool.and_eq_true]
  · simp only [inside, if_false]
    exact ⟨stored, bits⟩

/-- A booked pool keeps its promise. -/
theorem Booked.lawful : Lawful nbits ledger := by
  have ⟨allocateInside, releaseInside⟩ :=
    accesses_stored ledger.bitpool nbits whole few booked.stored
  have bits := booked.bits
  have outcome := bitpoolAllocateBit_spec ledger.bitpool nbits whole few booked.stored
  constructor
  case marks => exact fun index _ => bits index
  case lowest =>
    intro bit got
    rcases outcome with ⟨_, taken⟩ | ⟨found, inside, clear, set, taken⟩
    · rw [taken] at got
      cases got
    · rw [taken, Option.some.injEq] at got
      have index : bit.toNat = found := by
        rw [← got, BitVec.toNat_ofNat]
        exact Nat.mod_eq_of_lt (by omega)
      have stored := booked.stored
      rw [index, taken]
      refine ⟨inside, ?_, fun lower less => (bits lower).mpr (set lower less), fun tested => ?_⟩
      · rw [bits]
        simp [clear]
      · exact getBit_setBit _ _ _ (by omega)
  case exhausted =>
    rcases outcome with ⟨full, taken⟩ | ⟨found, inside, clear, _, taken⟩
    · exact iff_of_true (by rw [taken]) fun index inside => (bits index).mpr (full index inside)
    · refine iff_of_false (by rw [taken]; simp) fun all => ?_
      have set := (bits found).mp (all found inside)
      simp [clear] at set
  case refused =>
    intro nothing
    rcases outcome with ⟨_, taken⟩ | ⟨_, _, _, _, taken⟩
    · rw [taken]
    · rw [taken] at nothing
      cases nothing
  case freed =>
    intro bit inside tested
    rw [bitpoolReleaseBit, if_pos inside, getBit_clearBit]
  case foreign =>
    intro bit outside
    rw [bitpoolReleaseBit, if_neg (Nat.not_lt.mpr outside)]
  case allocateInside => exact allocateInside
  case releaseInside => exact releaseInside

/-- Every call keeps the pool booked, so every run of calls does. -/
theorem calls_booked (calls : List PoolCall) :
    Booked nbits (calls.foldl (poolStep nbits) ledger) := by
  induction calls generalizing ledger with
  | nil => exact booked
  | cons call rest inductionHypothesis =>
    cases call with
    | allocateBit => exact inductionHypothesis (allocateBit_booked whole few booked)
    | releaseBit bit => exact inductionHypothesis (releaseBit_booked booked bit)

end Booked

/-! ## Other pools -/

/-- A pool that keeps its promise allocates the indexes in order. -/
theorem lawful_allocations (nbits : Nat) (start : Ledger) (empty : start.allocated = [])
    (lawful : ∀ calls : List PoolCall, Lawful nbits (calls.foldl (poolStep nbits) start))
    (count : Nat) (enough : count ≤ nbits) (index : Nat) :
    index ∈ ((List.replicate count .allocateBit).foldl (poolStep nbits) start).allocated ↔
      index < count := by
  induction count generalizing index with
  | zero => simp [empty]
  | succ count inductionHypothesis =>
    have before := inductionHypothesis (Nat.le_of_succ_le enough)
    have promise := lawful (List.replicate count .allocateBit)
    rw [List.replicate_succ', List.foldl_append, List.foldl_cons, List.foldl_nil]
    generalize (List.replicate count PoolCall.allocateBit).foldl (poolStep nbits) start =
      ledger at *
    -- The pool is not exhausted, so that it allocates the first index behind the others.
    cases got : (bitpoolAllocateBit ledger.bitpool nbits).2 with
    | none =>
      have all := promise.exhausted.mp got count enough
      rw [before] at all
      omega
    | some bit =>
      obtain ⟨_, fresh, below, _⟩ := promise.lowest bit got
      have next : bit.toNat = count := by
        have least : ¬ bit.toNat < count := fun less => fresh ((before _).mpr less)
        have most : ¬ count < bit.toNat := by
          intro less
          have allocated := below count less
          rw [before] at allocated
          omega
        omega
      simp only [poolStep, got, Option.map_some, Option.toList_some, next, List.cons_append,
        List.nil_append, List.mem_cons, before]
      omega

/-- A search in bytes whose bits are all set finds no byte. -/
theorem fullBytes_of_set (bitmap : List (BitVec 8)) (bytes : Nat)
    (set : ∀ bit, bit < bytes * 8 → getBit bitmap bit = true) :
    fullBytes (bitmap.take bytes) = bytes := by
  by_contra short
  have stored : bytes ≤ bitmap.length := by
    by_contra longer
    have last := set ((bytes - 1) * 8) (by omega)
    rw [getBit_outside bitmap _ (by omega)] at last
    cases last
  obtain ⟨inside, small, clear, _⟩ := firstClear bitmap bytes stored short
  rw [set _ (by omega)] at clear
  cases clear

/-- A pool keeps its promise in every run exactly if its bits fill whole bytes, and are no more
than there are indexes of 32 bits.

Proof: when the bits fill whole bytes the marks are those of a ledger in every run. Otherwise
enough allocations set every bit of the whole bytes, and the pool reports exhaustion with a
bit behind them free; and an index of 32 bits cannot name more bits than there are. -/
theorem bit_pool_law_iff (nbits : Nat) (bitpool : List (BitVec 8))
    (made : bitpoolNew nbits = (bitpool, 1)) :
    (∀ calls : List PoolCall, Lawful nbits
      (calls.foldl (poolStep nbits) { bitpool := bitpool, allocated := [] })) ↔
      nbits % 8 = 0 ∧ nbits ≤ 2 ^ 32 := by
  constructor
  · intro lawful
    have allocations := lawful_allocations nbits _ rfl lawful
    have few : nbits ≤ 2 ^ 32 := by
      by_contra many
      have all := allocations (2 ^ 32) (by omega)
      have promise := lawful (List.replicate (2 ^ 32) .allocateBit)
      generalize (List.replicate (2 ^ 32) PoolCall.allocateBit).foldl (poolStep nbits) _ =
        ledger at *
      cases got : (bitpoolAllocateBit ledger.bitpool nbits).2 with
      | none =>
        have last := promise.exhausted.mp got (2 ^ 32) (by omega)
        rw [all] at last
        omega
      | some bit =>
        have fresh := (promise.lowest bit got).2.1
        rw [all] at fresh
        exact fresh bit.isLt
    refine ⟨by_contra fun part => ?_, few⟩
    -- All bits of the whole bytes are allocated, and one behind them is not.
    have all := allocations (nbits / 8 * 8) (by omega)
    have promise := lawful (List.replicate (nbits / 8 * 8) .allocateBit)
    generalize (List.replicate (nbits / 8 * 8) PoolCall.allocateBit).foldl (poolStep nbits) _ =
      ledger at *
    have set : ∀ bit, bit < nbits / 8 * 8 → getBit ledger.bitpool bit = true := by
      intro bit inside
      exact (promise.marks bit (by omega)).mp ((all bit).mpr inside)
    have bytes : nbits / 8 % 2 ^ 32 = nbits / 8 := Nat.mod_eq_of_lt (by omega)
    have nothing : (bitpoolAllocateBit ledger.bitpool nbits).2 = none := by
      simp only [bitpoolAllocateBit, bytes, fullBytes_of_set ledger.bitpool (nbits / 8) set,
        if_true]
    have last := promise.exhausted.mp nothing (nbits / 8 * 8) (by omega)
    rw [all] at last
    omega
  · rintro ⟨whole, few⟩ calls
    obtain rfl : List.replicate (nbits / 8) 0 = bitpool :=
      congrArg Prod.fst ((bitpoolNew_whole nbits whole few).symm.trans made)
    exact (calls_booked whole few (booked_new nbits) calls).lawful whole few

/-- The pool of the ids of a network. -/
theorem bit_pool_law_sessions : bitpoolNew 1024 = (List.replicate 128 0, 1) ∧
    ∀ calls : List PoolCall, Lawful 1024
      (calls.foldl (poolStep 1024) { bitpool := List.replicate 128 0, allocated := [] }) := by
  have made := bitpoolNew_whole 1024 (by decide) (by decide)
  exact ⟨made, (bit_pool_law_iff 1024 _ made).mpr ⟨by decide, by decide⟩⟩

/-- A pool of four bits has a byte, and allocates none of them. -/
theorem smallPool_exhausted : bitpoolNew 4 = ([0], 1) ∧
    (bitpoolAllocateBit [0] 4).2 = none ∧ ¬ Lawful 4 { bitpool := [0], allocated := [] } := by
  refine ⟨by decide, by decide, fun lawful => ?_⟩
  have all := lawful.exhausted.mp (by decide) 0 (by decide)
  cases all

end NetVirt.Bitv
