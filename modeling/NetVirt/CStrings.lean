import Mathlib.Data.List.Basic

/-!
# C strings and the blocks they are copied into

A string in memory with what follows it, a block with named regions, and the functions of
the C library that read the one and write the other. Every access is recorded as it is
made, also one that lies outside. A string is ended by its terminator, so what a copy leaves
in a region is a part of the text, as long as the copy starts no later than there.
-/

namespace NetVirt.CStrings

/-- A string, with the bytes that follow its terminator. -/
structure CString where
  memory : Nat → UInt8
  length : Nat
  ended : memory length = 0
  inside : ∀ index < length, memory index ≠ 0

def CString.text (s : CString) : List UInt8 := (List.range s.length).map s.memory

@[simp] theorem CString.text_length (s : CString) : s.text.length = s.length := by
  simp [CString.text]

theorem nonzero_of_all (text : List UInt8) (all : (text.all fun byte => byte != 0) = true) :
    ∀ byte ∈ text, byte ≠ 0 := by
  simpa using all

/-- A text as a string, with zeros after it. -/
def CString.ofText (text : List UInt8) (nonzero : ∀ byte ∈ text, byte ≠ 0) : CString where
  memory := fun index => text.getD index 0
  length := text.length
  ended := by simp
  inside := by
    intro index less
    rw [List.getD_eq_getElem?_getD, List.getElem?_eq_getElem less]
    exact nonzero _ (List.getElem_mem less)

theorem CString.ofText_text (text : List UInt8) (nonzero : ∀ byte ∈ text, byte ≠ 0) :
    (CString.ofText text nonzero).text = text := by
  apply List.ext_getElem
  · simp [CString.ofText]
  · intro index left right
    simp [CString.text, CString.ofText, right]

/-- A part of a block. -/
structure Region where
  offset : Nat
  size : Nat
deriving DecidableEq

/-- A block, with the places of the string that were read and of the regions that were
written. -/
structure Machine where
  block : Nat → UInt8
  reads : List Nat
  writes : List (Region × Nat)

def Machine.start : Machine := { block := fun _ => 0, reads := [], writes := [] }

def Machine.read (index : Nat) (machine : Machine) : Machine :=
  { machine with reads := machine.reads ++ [index] }

def Machine.store (region : Region) (index : Nat) (byte : UInt8) (machine : Machine) : Machine :=
  { machine with
    block := fun address =>
      if address = region.offset + index then byte else machine.block address
    writes := machine.writes ++ [(region, index)] }

/-- What a region holds as a string. -/
def Machine.text (region : Region) (machine : Machine) : List UInt8 :=
  ((List.range region.size).map fun index => machine.block (region.offset + index)).takeWhile
    (· ≠ 0)

/-! ## The C library -/

/-- strncmp with a literal of n bytes: whether the string begins with it. -/
def strncmp (s : CString) : List UInt8 → Nat → Machine → Bool × Machine
  | [], _, machine => (true, machine)
  | byte :: rest, index, machine =>
    if s.memory index = byte then strncmp s rest (index + 1) (machine.read index)
    else (false, machine.read index)

/-- strlen. -/
def strlen (s : CString) (machine : Machine) : Nat × Machine :=
  (s.length, { machine with reads := machine.reads ++ List.range (s.length + 1) })

/-- strncpy of a literal of n bytes. -/
def copyLiteral (region : Region) : List UInt8 → Nat → Machine → Machine
  | [], _, machine => machine
  | byte :: rest, index, machine =>
    copyLiteral region rest (index + 1) (machine.store region index byte)

/-- The loop of strncpy: bytes of the string up to its terminator, and zeros after it. -/
def copyLoop (s : CString) (region : Region) (src : Nat) : Nat → Nat → Bool → Machine → Machine
  | 0, _, _, machine => machine
  | n + 1, index, true, machine =>
    copyLoop s region src n (index + 1) true (machine.store region index 0)
  | n + 1, index, false, machine =>
    let byte := s.memory (src + index)
    copyLoop s region src n (index + 1) (byte = 0)
      ((machine.read (src + index)).store region index byte)

/-- strncpy from the given place of the string. -/
def strncpy (s : CString) (region : Region) (src n : Nat) (machine : Machine) : Machine :=
  copyLoop s region src n 0 false machine

/-- snprintf of a text, into a buffer of so many bytes. -/
def snprintf (size : Nat) (text : List UInt8) : List UInt8 := text.take (size - 1)

/-! ## Accesses inside -/

/-- No byte is read after the terminator, and none is written outside its region. -/
structure Within (s : CString) (machine : Machine) : Prop where
  reads : ∀ index ∈ machine.reads, index ≤ s.length
  writes : ∀ write ∈ machine.writes, write.2 < write.1.size

theorem within_start (s : CString) : Within s .start := by
  constructor <;> simp [Machine.start]

theorem within_read (s : CString) (index : Nat) (machine : Machine) :
    Within s (machine.read index) ↔ Within s machine ∧ index ≤ s.length := by
  constructor
  · rintro ⟨reads, writes⟩
    refine ⟨⟨fun other inside => reads other (List.mem_append_left _ inside), writes⟩, ?_⟩
    exact reads index (List.mem_append_right _ (List.mem_singleton_self index))
  · rintro ⟨⟨reads, writes⟩, last⟩
    refine ⟨fun other inside => ?_, writes⟩
    rcases List.mem_append.mp inside with early | late
    · exact reads other early
    · exact List.mem_singleton.mp late ▸ last

theorem within_store (s : CString) (region : Region) (index : Nat) (byte : UInt8)
    (machine : Machine) :
    Within s (machine.store region index byte) ↔ Within s machine ∧ index < region.size := by
  constructor
  · rintro ⟨reads, writes⟩
    refine ⟨⟨reads, fun other inside => writes other (List.mem_append_left _ inside)⟩, ?_⟩
    exact writes (region, index) (List.mem_append_right _ (List.mem_singleton_self _))
  · rintro ⟨⟨reads, writes⟩, last⟩
    refine ⟨reads, fun other inside => ?_⟩
    rcases List.mem_append.mp inside with early | late
    · exact writes other early
    · exact List.mem_singleton.mp late ▸ last

/-- A comparison stops at the terminator at the latest. -/
theorem within_strncmp (s : CString) (literal : List UInt8) (index : Nat) (machine : Machine)
    (nonzero : ∀ byte ∈ literal, byte ≠ 0) (started : index ≤ s.length) :
    Within s (strncmp s literal index machine).2 ↔ Within s machine := by
  induction literal generalizing index machine with
  | nil => exact Iff.rfl
  | cons byte rest inductionHypothesis =>
    rw [strncmp]
    split
    · next same =>
      have before : index ≠ s.length := by
        rintro rfl
        exact nonzero byte List.mem_cons_self (same.symm.trans s.ended)
      rw [inductionHypothesis (index + 1) _
        (fun other inside => nonzero other (List.mem_cons_of_mem byte inside)) (by omega),
        within_read]
      exact and_iff_left started
    · rw [within_read]
      exact and_iff_left started

theorem within_strlen (s : CString) (machine : Machine) :
    Within s (strlen s machine).2 ↔ Within s machine := by
  constructor
  · rintro ⟨reads, writes⟩
    exact ⟨fun index inside => reads index (List.mem_append_left _ inside), writes⟩
  · rintro ⟨reads, writes⟩
    refine ⟨fun index inside => ?_, writes⟩
    rcases List.mem_append.mp inside with early | late
    · exact reads index early
    · exact Nat.lt_succ_iff.mp (List.mem_range.mp late)

theorem within_copyLiteral (s : CString) (region : Region) (literal : List UInt8) (index : Nat)
    (machine : Machine) : Within s (copyLiteral region literal index machine) ↔
      Within s machine ∧ (literal = [] ∨ index + literal.length ≤ region.size) := by
  induction literal generalizing index machine with
  | nil => simp [copyLiteral]
  | cons byte rest inductionHypothesis =>
    rw [copyLiteral, inductionHypothesis, within_store, and_assoc]
    apply and_congr_right
    intro _
    cases rest with
    | nil =>
      simp only [List.length_singleton, true_or, and_true, reduceCtorEq, false_or]
      omega
    | cons next rest =>
      simp only [List.length_cons, reduceCtorEq, false_or]
      omega

/-- The zeros after the terminator are only written. -/
theorem within_padding (s : CString) (region : Region) (src n index : Nat) (machine : Machine) :
    Within s (copyLoop s region src n index true machine) ↔
      Within s machine ∧ (n = 0 ∨ index + n ≤ region.size) := by
  induction n generalizing index machine with
  | zero => simp [copyLoop]
  | succ n inductionHypothesis =>
    rw [copyLoop, inductionHypothesis, within_store, and_assoc]
    apply and_congr_right
    intro _
    omega

theorem within_copyLoop (s : CString) (region : Region) (src n index : Nat) (machine : Machine) :
    Within s (copyLoop s region src n index false machine) ↔
      Within s machine ∧ (n = 0 ∨ src + index ≤ s.length ∧ index + n ≤ region.size) := by
  induction n generalizing index machine with
  | zero => simp [copyLoop]
  | succ n inductionHypothesis =>
    rw [copyLoop]
    by_cases stops : s.memory (src + index) = 0
    · rw [decide_eq_true stops, within_padding, within_store, within_read, and_assoc, and_assoc]
      apply and_congr_right
      intro _
      omega
    · rw [decide_eq_false stops, inductionHypothesis, within_store, within_read, and_assoc,
        and_assoc]
      apply and_congr_right
      intro _
      have before : src + index ≠ s.length := fun same => stops (same ▸ s.ended)
      omega

/-- A copy stays inside exactly when it starts no later than at the terminator and its
region has the bytes, if there is anything to copy. -/
theorem within_strncpy (s : CString) (region : Region) (src n : Nat) (machine : Machine) :
    Within s (strncpy s region src n machine) ↔
      Within s machine ∧ (n = 0 ∨ src ≤ s.length ∧ n ≤ region.size) := by
  rw [strncpy, within_copyLoop, Nat.add_zero, Nat.zero_add]

/-! ## What a copy leaves -/

theorem store_block (region : Region) (index : Nat) (byte : UInt8) (machine : Machine)
    (address : Nat) : (machine.store region index byte).block address =
      if address = region.offset + index then byte else machine.block address := rfl

theorem strncmp_block (s : CString) (literal : List UInt8) (index : Nat) (machine : Machine) :
    (strncmp s literal index machine).2.block = machine.block := by
  induction literal generalizing index machine with
  | nil => rfl
  | cons byte rest inductionHypothesis =>
    rw [strncmp]
    split
    · exact inductionHypothesis (index + 1) (machine.read index)
    · rfl

/-- A comparison finds what the text begins with. -/
theorem strncmp_iff (s : CString) (literal : List UInt8) (machine : Machine)
    (nonzero : ∀ byte ∈ literal, byte ≠ 0) (index : Nat) (started : index ≤ s.length) :
    (strncmp s literal index machine).1 = true ↔
      (s.text.drop index).take literal.length = literal := by
  induction literal generalizing index machine with
  | nil => simp [strncmp]
  | cons byte rest inductionHypothesis =>
    rw [strncmp]
    by_cases before : index < s.length
    · have next : s.text.drop index = s.memory index :: s.text.drop (index + 1) := by
        rw [List.drop_eq_getElem_cons (by simpa using before)]
        simp [CString.text]
      rw [next, List.length_cons, List.take_succ_cons, List.cons.injEq]
      split
      · next same =>
        rw [inductionHypothesis _ (fun other inside => nonzero other
          (List.mem_cons_of_mem byte inside)) (index + 1) before]
        exact (and_iff_right same).symm
      · next different => simp [different]
    · have last : index = s.length := by omega
      have different : s.memory index ≠ byte := by
        rw [last, s.ended]
        exact (nonzero byte List.mem_cons_self).symm
      rw [if_neg different, List.drop_eq_nil_of_le (by simp; omega)]
      simp

theorem padding_block (s : CString) (region : Region) (src n index : Nat) (machine : Machine)
    (address : Nat) : (copyLoop s region src n index true machine).block address =
      if region.offset + index ≤ address ∧ address < region.offset + index + n then 0
      else machine.block address := by
  induction n generalizing index machine with
  | zero =>
    rw [copyLoop, if_neg (by omega)]
  | succ n inductionHypothesis =>
    rw [copyLoop, inductionHypothesis, store_block]
    by_cases here : address = region.offset + index
    · rw [if_pos here, ite_self, if_pos (by omega)]
    · rw [if_neg here]
      apply if_congr _ rfl rfl
      omega

/-- The byte of the text at a place, or zero where it has ended. -/
def CString.byte (s : CString) (index : Nat) : UInt8 :=
  if index < s.length then s.memory index else 0

theorem copyLoop_block (s : CString) (region : Region) (src n index : Nat) (machine : Machine)
    (started : src + index ≤ s.length) (address : Nat) :
    (copyLoop s region src n index false machine).block address =
      if region.offset + index ≤ address ∧ address < region.offset + index + n then
        s.byte (src + (address - region.offset))
      else machine.block address := by
  induction n generalizing index machine with
  | zero => rw [copyLoop, if_neg (by omega)]
  | succ n inductionHypothesis =>
    rw [copyLoop]
    by_cases stops : s.memory (src + index) = 0
    · have last : src + index = s.length := by
        by_contra other
        exact s.inside (src + index) (by omega) stops
      rw [decide_eq_true stops, padding_block, store_block]
      by_cases copied : region.offset + index ≤ address ∧
          address < region.offset + index + (n + 1)
      · have zero : s.byte (src + (address - region.offset)) = 0 := if_neg (by omega)
        rw [if_pos copied, zero]
        split
        · rfl
        · rw [if_pos (by omega), stops]
      · rw [if_neg copied, if_neg (by omega), if_neg (by omega)]
        rfl
    · have before : src + index < s.length := by
        refine Nat.lt_of_le_of_ne started ?_
        intro same
        exact stops (same ▸ s.ended)
      rw [decide_eq_false stops, inductionHypothesis (index + 1) _ before, store_block]
      by_cases here : address = region.offset + index
      · have byte : s.byte (src + (address - region.offset)) = s.memory (src + index) := by
          rw [here, Nat.add_sub_cancel_left]
          exact if_pos before
        rw [if_neg (by omega), if_pos here, if_pos (by omega), byte]
      · rw [if_neg here]
        apply if_congr _ rfl rfl
        omega

/-- A copy leaves the text from its start on, then zeros, and nothing else. -/
theorem strncpy_block (s : CString) (region : Region) (src n : Nat) (machine : Machine)
    (started : src ≤ s.length) (address : Nat) :
    (strncpy s region src n machine).block address =
      if region.offset ≤ address ∧ address < region.offset + n then
        s.byte (src + (address - region.offset))
      else machine.block address :=
  copyLoop_block s region src n 0 machine started address

/-- A string ends at its first zero. -/
theorem takeWhile_range (bytes : Nat → UInt8) (size stop : Nat) (less : stop < size)
    (before : ∀ index < stop, bytes index ≠ 0) (ended : bytes stop = 0) :
    ((List.range size).map bytes).takeWhile (· ≠ 0) = (List.range stop).map bytes := by
  obtain ⟨rest, rfl⟩ : ∃ rest, size = stop + (rest + 1) := ⟨size - stop - 1, by omega⟩
  have first : ∀ byte ∈ (List.range stop).map bytes, (decide (byte ≠ 0)) = true := by
    intro byte inside
    obtain ⟨index, within, rfl⟩ := List.mem_map.mp inside
    simpa using before index (List.mem_range.mp within)
  rw [List.range_add, List.map_append, List.takeWhile_append_of_pos first,
    List.range_succ_eq_map]
  simp [ended]

/-- A region holds the bytes of the text from a place on, so many and then a zero. -/
structure Holds (s : CString) (region : Region) (src n : Nat) (machine : Machine) : Prop where
  started : src ≤ s.length
  room : n < region.size
  held : ∀ index < n, machine.block (region.offset + index) = s.byte (src + index)
  stopped : machine.block (region.offset + n) = 0

/-- A region that begins with a zero holds none of the text. -/
theorem Holds.none (s : CString) (region : Region) (machine : Machine) (room : 0 < region.size)
    (zero : machine.block region.offset = 0) : Holds s region 0 0 machine :=
  ⟨Nat.zero_le _, room, fun _ less => absurd less (Nat.not_lt_zero _), zero⟩

/-- A region that holds a part of the text is that part as a string. -/
theorem Holds.text {s : CString} {region : Region} {src n : Nat} {machine : Machine}
    (holds : Holds s region src n machine) : machine.text region = (s.text.drop src).take n := by
  have ⟨started, room, held, stopped⟩ := holds
  have stop : min n (s.length - src) < region.size := by omega
  rw [Machine.text, takeWhile_range _ region.size (min n (s.length - src)) stop]
  · apply List.ext_getElem
    · simp
    · intro index left right
      have less : index < min n (s.length - src) := by simpa using left
      simp only [List.getElem_map, List.getElem_range, List.getElem_take, List.getElem_drop,
        CString.text]
      rw [held index (by omega), CString.byte, if_pos (by omega)]
  · intro index less
    rw [held index (by omega), CString.byte, if_pos (by omega)]
    exact s.inside _ (by omega)
  · by_cases short : s.length - src < n
    · rw [Nat.min_eq_right (by omega), held _ short, CString.byte, if_neg (by omega)]
    · rw [Nat.min_eq_left (by omega)]
      exact stopped

/-- A region is ended by a zero of its own. -/
def Terminated (region : Region) (machine : Machine) : Prop :=
  ∃ index < region.size, machine.block (region.offset + index) = 0

theorem Holds.terminated {s : CString} {region : Region} {src n : Nat} {machine : Machine}
    (holds : Holds s region src n machine) : Terminated region machine :=
  ⟨n, holds.room, holds.stopped⟩

end NetVirt.CStrings
