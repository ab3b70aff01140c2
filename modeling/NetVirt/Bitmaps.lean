import Mathlib.Data.List.TakeWhile

/-!
# Bitmaps

A bitmap is an array of bytes. Bit `n` is bit `n % 8` of byte `n / 8`, the least
significant one first. Setting or clearing a bit changes that bit only, and a search for
the first byte with a clear bit, and the first clear bit in it, finds the first clear bit
of the bitmap.
-/

namespace NetVirt.Bitmaps

/-- `(bitmap[bit/8] >> (bit % 8)) & 1` -/
def getBit (bitmap : List (BitVec 8)) (bit : Nat) : Bool :=
  (bitmap.getD (bit / 8) 0).getLsbD (bit % 8)

/-- `bitmap[bit/8] |= (1 << (bit % 8))` -/
def setBit (bitmap : List (BitVec 8)) (bit : Nat) : List (BitVec 8) :=
  bitmap.modify (bit / 8) fun byte => byte ||| (1#8 <<< (bit % 8))

/-- `bitmap[bit/8] &= ~(1 << (bit % 8))` -/
def clearBit (bitmap : List (BitVec 8)) (bit : Nat) : List (BitVec 8) :=
  bitmap.modify (bit / 8) fun byte => byte &&& ~~~(1#8 <<< (bit % 8))

/-- The bytes at the front without a clear bit. -/
def fullBytes (bitmap : List (BitVec 8)) : Nat :=
  (bitmap.takeWhile (· = 0xff)).length

/-- The set bits at the front of a byte. -/
def fullBits (byte : BitVec 8) : Nat :=
  ((List.range 8).takeWhile byte.getLsbD).length

/-! ## Single bits -/

@[simp]
theorem setBit_length (bitmap : List (BitVec 8)) (bit : Nat) :
    (setBit bitmap bit).length = bitmap.length := by
  simp [setBit]

@[simp]
theorem clearBit_length (bitmap : List (BitVec 8)) (bit : Nat) :
    (clearBit bitmap bit).length = bitmap.length := by
  simp [clearBit]

/-- Past its end, a bitmap reads as clear. -/
theorem getBit_outside (bitmap : List (BitVec 8)) (bit : Nat)
    (outside : bitmap.length ≤ bit / 8) : getBit bitmap bit = false := by
  have absent : bitmap[bit / 8]? = none := List.getElem?_eq_none outside
  simp [getBit, List.getD, absent]

/-- A new bitmap is clear. -/
@[simp]
theorem getBit_replicate (bytes bit : Nat) : getBit (List.replicate bytes 0#8) bit = false := by
  simp only [getBit, List.getD, List.getElem?_replicate]
  split <;> simp

/-- A full byte has every bit. -/
theorem full_bit : ∀ bit, bit < 8 → (0xff : BitVec 8).getLsbD bit = true := by decide

/-- The bit of a mask with one bit. -/
theorem mask_bit (bit tested : Nat) (bounded : bit < 8) :
    (1#8 <<< bit).getLsbD tested = decide (tested = bit) := by
  rw [← BitVec.twoPow_eq]
  simp [bounded, eq_comm]

/-- The byte of a bit after one byte was changed. -/
theorem getBit_modify (bitmap : List (BitVec 8)) (index tested : Nat)
    (change : BitVec 8 → BitVec 8) (stored : tested / 8 < bitmap.length) :
    getBit (bitmap.modify index change) tested =
      (if index = tested / 8 then change bitmap[tested / 8] else bitmap[tested / 8]).getLsbD
        (tested % 8) := by
  have byte : bitmap[tested / 8]? = some bitmap[tested / 8] := List.getElem?_eq_getElem stored
  simp only [getBit, List.getD, List.getElem?_modify, byte, Option.map_eq_map, Option.map_some,
    Option.getD_some]

/-- A stored bit is the only one that setting it changes. -/
theorem getBit_setBit (bitmap : List (BitVec 8)) (bit tested : Nat)
    (stored : bit / 8 < bitmap.length) :
    getBit (setBit bitmap bit) tested = (getBit bitmap tested || decide (tested = bit)) := by
  by_cases inside : tested / 8 < bitmap.length
  · have before : getBit bitmap tested = bitmap[tested / 8].getLsbD (tested % 8) := by
      simp [getBit, List.getD, inside]
    rw [setBit, getBit_modify _ _ _ _ inside, before]
    by_cases sameByte : bit / 8 = tested / 8
    · have sameBit : tested % 8 = bit % 8 ↔ tested = bit := by omega
      rw [if_pos sameByte, BitVec.getLsbD_or,
        mask_bit _ _ (Nat.mod_lt _ (by decide))]
      simp only [sameBit]
    · have distinct : tested ≠ bit := by
        rintro rfl
        exact sameByte rfl
      simp [sameByte, distinct]
  · have distinct : tested ≠ bit := by
      rintro rfl
      exact inside stored
    rw [getBit_outside _ _ (by simpa using inside), getBit_outside _ _ (by simpa using inside)]
    simp [distinct]

/-- A bit is the only one that clearing it changes. -/
theorem getBit_clearBit (bitmap : List (BitVec 8)) (bit tested : Nat) :
    getBit (clearBit bitmap bit) tested = (getBit bitmap tested && decide (tested ≠ bit)) := by
  by_cases inside : tested / 8 < bitmap.length
  · have before : getBit bitmap tested = bitmap[tested / 8].getLsbD (tested % 8) := by
      simp [getBit, List.getD, inside]
    rw [clearBit, getBit_modify _ _ _ _ inside, before]
    by_cases sameByte : bit / 8 = tested / 8
    · have sameBit : tested % 8 = bit % 8 ↔ tested = bit := by omega
      have bounded : tested % 8 < 8 := Nat.mod_lt _ (by decide)
      rw [if_pos sameByte, BitVec.getLsbD_and, BitVec.getLsbD_not,
        mask_bit _ _ (Nat.mod_lt _ (by decide))]
      simp only [sameBit, bounded, decide_true, Bool.true_and, decide_not]
    · have distinct : tested ≠ bit := by
        rintro rfl
        exact sameByte rfl
      simp [sameByte, distinct]
  · rw [getBit_outside _ _ (by simpa using inside), getBit_outside _ _ (by simpa using inside)]
    rfl

/-! ## The first clear bit -/

/-- A search stops at the first element without the property. -/
theorem takeWhile_stops {α : Type} (p : α → Bool) (list : List α) :
    (∀ k, k < (list.takeWhile p).length → ∃ item, list[k]? = some item ∧ p item = true) ∧
      ∀ item, list[(list.takeWhile p).length]? = some item → p item = false := by
  induction list with
  | nil => simp
  | cons first rest inductionHypothesis =>
    by_cases holds : p first = true
    · rw [List.takeWhile_cons_of_pos holds]
      constructor
      · intro k inside
        cases k with
        | zero => exact ⟨first, rfl, holds⟩
        | succ k => exact inductionHypothesis.1 k (Nat.lt_of_succ_lt_succ inside)
      · intro item found
        exact inductionHypothesis.2 item (by simpa using found)
    · rw [List.takeWhile_cons_of_neg holds]
      constructor
      · simp
      · intro item found
        obtain rfl := Option.some.inj found
        simpa using holds

/-- The first clear bit of a byte that has one. -/
theorem fullBits_spec (byte : BitVec 8) (clear : byte ≠ 0xff) :
    fullBits byte < 8 ∧ byte.getLsbD (fullBits byte) = false ∧
      ∀ bit, bit < fullBits byte → byte.getLsbD bit = true := by
  obtain ⟨before, stop⟩ := takeWhile_stops byte.getLsbD (List.range 8)
  have bounded : fullBits byte ≤ 8 := by
    have within : fullBits byte ≤ (List.range 8).length :=
      (List.takeWhile_prefix byte.getLsbD).length_le
    rwa [List.length_range] at within
  have filled : ∀ bit, bit < fullBits byte → byte.getLsbD bit = true := by
    intro bit inside
    obtain ⟨item, found, set⟩ := before bit inside
    rw [List.getElem?_range (Nat.lt_of_lt_of_le inside bounded), Option.some.injEq] at found
    exact found ▸ set
  have short : fullBits byte < 8 := by
    by_contra long
    apply clear
    apply BitVec.eq_of_getLsbD_eq
    intro bit inside
    rw [filled bit (by omega), full_bit bit inside]
  refine ⟨short, stop _ ?_, filled⟩
  exact List.getElem?_range short

/-- The search ends at the first clear bit of the bytes searched. -/
theorem firstClear (bitmap : List (BitVec 8)) (bytes : Nat) (stored : bytes ≤ bitmap.length)
    (short : fullBytes (bitmap.take bytes) ≠ bytes) :
    let index := fullBytes (bitmap.take bytes)
    let bit := index * 8 + fullBits (bitmap.getD index 0)
    index < bytes ∧ fullBits (bitmap.getD index 0) < 8 ∧ getBit bitmap bit = false ∧
      ∀ earlier, earlier < bit → getBit bitmap earlier = true := by
  intro index bit
  obtain ⟨before, stop⟩ := takeWhile_stops (fun byte => decide (byte = 0xff)) (bitmap.take bytes)
  have bounded : index ≤ bytes := by
    have within : index ≤ (bitmap.take bytes).length :=
      (List.takeWhile_prefix fun byte => decide (byte = 0xff)).length_le
    exact Nat.le_trans within (List.length_take_le _ _)
  have inside : index < bytes := Nat.lt_of_le_of_ne bounded short
  have full : ∀ k, k < index → bitmap.getD k 0 = 0xff := by
    intro k early
    obtain ⟨byte, found, ones⟩ := before k early
    rw [List.getElem?_take_of_lt (Nat.lt_trans early inside)] at found
    simp [List.getD, found, of_decide_eq_true ones]
  have notFull : bitmap.getD index 0 ≠ 0xff := by
    have there : (bitmap.take bytes)[index]? = some (bitmap.getD index 0) := by
      rw [List.getElem?_take_of_lt inside, List.getD_eq_getElem?_getD]
      rw [List.getElem?_eq_getElem (Nat.lt_of_lt_of_le inside stored)]
      rfl
    exact of_decide_eq_false (stop _ there)
  obtain ⟨small, clear, set⟩ := fullBits_spec _ notFull
  have quotient : bit / 8 = index := by omega
  have remainder : bit % 8 = fullBits (bitmap.getD index 0) := by omega
  refine ⟨inside, small, ?_, ?_⟩
  · rw [getBit, quotient, remainder]
    exact clear
  · intro earlier early
    by_cases sameByte : earlier / 8 = index
    · rw [getBit, sameByte]
      exact set _ (by omega)
    · rw [getBit, full (earlier / 8) (by omega)]
      exact full_bit _ (Nat.mod_lt _ (by decide))

/-- When the search finds no clear bit, every bit searched is set. -/
theorem allSet (bitmap : List (BitVec 8)) (bytes : Nat)
    (full : fullBytes (bitmap.take bytes) = bytes) (bit : Nat) (inside : bit < bytes * 8) :
    getBit bitmap bit = true := by
  obtain ⟨before, _⟩ := takeWhile_stops (fun byte => decide (byte = 0xff)) (bitmap.take bytes)
  have early : bit / 8 < bytes := by omega
  unfold fullBytes at full
  obtain ⟨byte, found, ones⟩ := before (bit / 8) (full.symm ▸ early)
  rw [List.getElem?_take_of_lt early] at found
  obtain rfl : byte = 0xff := of_decide_eq_true ones
  rw [getBit, List.getD, found]
  exact full_bit _ (Nat.mod_lt _ (by decide))

end NetVirt.Bitmaps
