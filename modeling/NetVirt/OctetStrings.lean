import Mathlib.Data.List.Induction

/-!
# Decoded strings

`OCTET_STRING_t` and `BIT_STRING_t` as OCTET_STRING_decode_ber leaves them. The decoder appends
what it finds in chunks, and allocates at least 16 bytes when it appends the first one, also
an empty one. A string in parts of which there is none has no buffer at all. No constraint on
the size is looked at.
-/

namespace NetVirt.OctetStrings

/-- The allocation of APPEND: doubled from 16 bytes on, until it has more than the expected
size. -/
def grow (expected allocated : Nat) : Nat :=
  if allocated ≤ expected then grow expected (if allocated = 0 then 16 else allocated * 2)
  else allocated
termination_by expected + 1 - allocated
decreasing_by split <;> omega

theorem grow_lt (expected allocated : Nat) : expected < grow expected allocated := by
  fun_induction grow expected allocated with
  | case1 allocated more inductionHypothesis => exact inductionHypothesis
  | case2 allocated enough => omega

theorem le_grow (expected allocated : Nat) (formed : allocated = 0 ∨ 16 ≤ allocated) :
    16 ≤ grow expected allocated := by
  fun_induction grow expected allocated with
  | case1 allocated more inductionHypothesis =>
    apply inductionHypothesis
    split <;> omega
  | case2 allocated enough => omega

/-- A decoded string: its bytes, how many are allocated for buf, which is NULL when there are
none, and what the allocation holds after the terminator. -/
structure Octets where
  content : List UInt8
  allocated : Nat
  stale : Nat → UInt8
  formed : allocated = 0 ∧ content = [] ∨ 16 ≤ allocated ∧ content.length < allocated

def Octets.size (octets : Octets) : Nat := octets.content.length

/-- The structure as it is before anything is appended. -/
def Octets.empty (stale : Nat → UInt8) : Octets where
  content := []
  allocated := 0
  stale := stale
  formed := Or.inl ⟨rfl, rfl⟩

/-- APPEND, of a chunk shorter than 2 GiB. -/
def Octets.append (octets : Octets) (chunk : List UInt8) : Option Octets :=
  if 2147483648 ≤ octets.size + chunk.length then none
  else if 2147483648 ≤ grow (octets.size + chunk.length) octets.allocated then none
  else some
    { content := octets.content ++ chunk
      allocated := grow (octets.size + chunk.length) octets.allocated
      stale := octets.stale
      formed := Or.inr ⟨le_grow _ _ (octets.formed.imp And.left And.left), by
        rw [List.length_append]
        exact grow_lt _ _⟩ }

/-- A string as it is decoded from its chunks. -/
def decode (stale : Nat → UInt8) (chunks : List (List UInt8)) : Option Octets :=
  chunks.foldlM Octets.append (Octets.empty stale)

theorem append_allocated (octets after : Octets) (chunk : List UInt8)
    (appended : octets.append chunk = some after) :
    after.content = octets.content ++ chunk ∧ after.allocated ≠ 0 := by
  unfold Octets.append at appended
  split at appended
  · cases appended
  · split at appended
    · cases appended
    · obtain rfl := Option.some.inj appended
      have room := le_grow (octets.size + chunk.length) octets.allocated
        (octets.formed.imp And.left And.left)
      refine ⟨rfl, ?_⟩
      dsimp only
      omega

/-- The chunks of a string are its bytes, and without a chunk there is no buffer. -/
theorem decode_content (stale : Nat → UInt8) (chunks : List (List UInt8)) (octets : Octets)
    (decoded : decode stale chunks = some octets) :
    octets.content = chunks.flatten ∧ (octets.allocated = 0 ↔ chunks = []) := by
  induction chunks using List.reverseRecOn generalizing octets with
  | nil =>
    obtain rfl := Option.some.inj decoded
    exact ⟨rfl, iff_of_true rfl rfl⟩
  | append_singleton earlier chunk inductionHypothesis =>
    rw [decode, List.foldlM_append] at decoded
    obtain ⟨middle, before, last⟩ := Option.bind_eq_some_iff.mp decoded
    obtain ⟨final, appended, same⟩ := Option.bind_eq_some_iff.mp last
    obtain rfl := Option.some.inj same
    obtain ⟨content, allocated⟩ := append_allocated middle final chunk appended
    refine ⟨?_, iff_of_false allocated (by simp)⟩
    rw [content, (inductionHypothesis middle before).1]
    simp

/-! ## Reading from buf -/

/-- A byte of the allocation: of the string, its terminator, or what the heap holds. -/
def Octets.memory (octets : Octets) (index : Nat) : Option UInt8 :=
  if index < octets.size then octets.content[index]?
  else if octets.allocated ≤ index then none
  else if index = octets.size then some 0
  else some (octets.stale index)

/-- The bytes that memmove, bcopy and inet_ntop take, if they lie in the allocation. -/
def Octets.copy (octets : Octets) : Nat → Nat → Option (List UInt8)
  | _, 0 => some []
  | offset, n + 1 => do
    let byte ← octets.memory offset
    let rest ← octets.copy (offset + 1) n
    return byte :: rest

/-- A copy from the string itself. -/
theorem copy_inside (octets : Octets) (offset n : Nat) (inside : offset + n ≤ octets.size) :
    octets.copy offset n = some ((octets.content.drop offset).take n) := by
  induction n generalizing offset with
  | zero => rfl
  | succ n inductionHypothesis =>
    have less : offset < octets.size := by omega
    have first : octets.memory offset = some (octets.content.get ⟨offset, less⟩) := by
      rw [Octets.memory, if_pos less]
      exact List.getElem?_eq_getElem less
    rw [Octets.copy, first, inductionHypothesis (offset + 1) (by omega),
      List.drop_eq_getElem_cons less]
    rfl

/-- A copy of up to 16 bytes of a buffer lies in the allocation, whatever the string. -/
theorem copy_allocated (octets : Octets) (offset n : Nat) (allocated : octets.allocated ≠ 0)
    (few : offset + n ≤ 16) : (octets.copy offset n).isSome = true := by
  induction n generalizing offset with
  | zero => rfl
  | succ n inductionHypothesis =>
    have room : 16 ≤ octets.allocated := by
      rcases octets.formed with ⟨none, _⟩ | ⟨room, _⟩
      · exact absurd none allocated
      · exact room
    have first : (octets.memory offset).isSome = true := by
      unfold Octets.memory
      split
      · next less =>
        exact Option.isSome_iff_exists.mpr ⟨_, List.getElem?_eq_getElem less⟩
      · rw [if_neg (by omega)]
        split <;> rfl
    obtain ⟨byte, here⟩ := Option.isSome_iff_exists.mp first
    obtain ⟨rest, there⟩ := Option.isSome_iff_exists.mp
      (inductionHypothesis (offset + 1) (by omega))
    rw [Octets.copy, here, there]
    rfl

/-- Nothing is copied through a NULL pointer. -/
theorem copy_null (octets : Octets) (offset n : Nat) (null : octets.allocated = 0) :
    octets.copy offset (n + 1) = none := by
  have empty : octets.size = 0 := by
    rcases octets.formed with ⟨_, empty⟩ | ⟨room, _⟩
    · rw [Octets.size, empty]
      rfl
    · omega
  have first : octets.memory offset = none := by
    rw [Octets.memory, if_neg (by omega), if_pos (by omega)]
  rw [Octets.copy, first]
  rfl

/-- What is allocated for the string. -/
def Octets.block (octets : Octets) : List UInt8 :=
  (List.range octets.allocated).map fun index => (octets.memory index).getD 0

theorem memory_block (octets : Octets) (index : Nat) :
    octets.memory index = octets.block[index]? := by
  rw [Octets.block, List.getElem?_map]
  by_cases inside : index < octets.allocated
  · rw [List.getElem?_range inside, Option.map_some]
    unfold Octets.memory
    split
    · next less =>
      rw [List.getElem?_eq_getElem less]
      rfl
    · rw [if_neg (Nat.not_le_of_lt inside)]
      split <;> rfl
  · rw [List.getElem?_eq_none (by simpa using Nat.le_of_not_lt inside)]
    have beyond : ¬ index < octets.size := by
      rcases octets.formed with ⟨_, empty⟩ | ⟨_, shorter⟩
      · rw [Octets.size, empty]
        exact Nat.not_lt_zero _
      · unfold Octets.size
        omega
    rw [Octets.memory, if_neg beyond, if_pos (Nat.le_of_not_lt inside)]
    rfl

/-- A copy is what there is of the allocation, or is not defined. -/
theorem copy_block (octets : Octets) (offset n : Nat) : octets.copy offset (n + 1) =
    if offset + n < octets.block.length then some ((octets.block.drop offset).take (n + 1))
    else none := by
  induction n generalizing offset with
  | zero =>
    rw [Octets.copy, memory_block]
    by_cases inside : offset < octets.block.length
    · rw [List.getElem?_eq_getElem inside, if_pos (by omega), List.drop_eq_getElem_cons inside]
      rfl
    · rw [List.getElem?_eq_none (Nat.le_of_not_lt inside), if_neg (by omega)]
      rfl
  | succ n inductionHypothesis =>
    rw [Octets.copy, memory_block, inductionHypothesis (offset + 1)]
    by_cases inside : offset < octets.block.length
    · rw [List.getElem?_eq_getElem inside, List.drop_eq_getElem_cons inside]
      by_cases further : offset + (n + 1) < octets.block.length
      · rw [if_pos (by omega), if_pos further]
        rfl
      · rw [if_neg (by omega), if_neg further]
        rfl
    · rw [List.getElem?_eq_none (Nat.le_of_not_lt inside), if_neg (by omega), if_neg (by omega)]
      rfl

end NetVirt.OctetStrings
