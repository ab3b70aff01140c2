import Mathlib.Data.List.Basic

/-!
# Lines in a stream of bytes

A stream of lines carries each line with a newline after it, and says nothing about how it
is cut on the way. Lines without a newline of their own are read back from it in one way
only, so that what has arrived is always a number of whole lines and the beginning of one.
-/

namespace NetVirt.LineStreams

universe u
variable {Byte : Type u} (newline : Byte)

/-- Each line with a newline after it. -/
def framed : List (List Byte) → List Byte
  | [] => []
  | line :: rest => line ++ newline :: framed rest

/-- No line has a newline of its own. -/
def Plain (lines : List (List Byte)) : Prop := ∀ line ∈ lines, newline ∉ line

theorem framed_append (early late : List (List Byte)) :
    framed newline (early ++ late) = framed newline early ++ framed newline late := by
  induction early with
  | nil => rfl
  | cons line rest inductionHypothesis => simp [framed, inductionHypothesis]

variable [DecidableEq Byte]

/-- The first complete line, without its newline, and what follows it. -/
def readln : List Byte → Option (List Byte × List Byte)
  | [] => none
  | byte :: rest =>
    if byte = newline then some ([], rest)
    else (readln rest).map fun (line, after) => (byte :: line, after)

/-- A line at the beginning of a buffer is read, and no more than it. -/
theorem readln_line (line rest : List Byte) (plain : newline ∉ line) :
    readln newline (line ++ newline :: rest) = some (line, rest) := by
  induction line with
  | nil => simp [readln]
  | cons byte line inductionHypothesis =>
    obtain ⟨apart, later⟩ := not_or.mp (List.mem_cons.not.mp plain)
    simp [readln, Ne.symm apart, inductionHypothesis later]

/-- There is no line to read before a newline has arrived. -/
theorem readln_unfinished (buffer : List Byte) (plain : newline ∉ buffer) :
    readln newline buffer = none := by
  induction buffer with
  | nil => rfl
  | cons byte buffer inductionHypothesis =>
    obtain ⟨apart, later⟩ := not_or.mp (List.mem_cons.not.mp plain)
    simp [readln, Ne.symm apart, inductionHypothesis later]

/-- Reading a line leaves less than there was. -/
theorem readln_shorter (buffer line rest : List Byte)
    (read : readln newline buffer = some (line, rest)) : rest.length < buffer.length := by
  induction buffer generalizing line with
  | nil => cases read
  | cons byte buffer inductionHypothesis =>
    simp only [readln] at read
    split at read
    · obtain ⟨rfl, rfl⟩ := Prod.mk.inj (Option.some.inj read)
      exact Nat.lt_succ_self _
    · obtain ⟨⟨shorter, after⟩, found, same⟩ := Option.map_eq_some_iff.mp read
      obtain ⟨rfl, rfl⟩ := Prod.mk.inj same
      exact Nat.lt_succ_of_lt (inductionHypothesis shorter found)

/-- Lines and the beginning of one are found in a stream in one way only. -/
theorem framed_unique (early late : List (List Byte)) (front back : List Byte)
    (plainEarly : Plain newline early) (plainLate : Plain newline late)
    (partialFront : newline ∉ front) (partialBack : newline ∉ back)
    (same : framed newline early ++ front = framed newline late ++ back) :
    early = late ∧ front = back := by
  have read := congrArg (readln newline) same
  induction early generalizing late with
  | nil =>
    cases late with
    | nil => exact ⟨rfl, same⟩
    | cons line rest =>
      simp only [framed, List.nil_append, List.append_assoc, List.cons_append] at read
      rw [readln_unfinished newline front partialFront,
        readln_line newline line _ (plainLate line List.mem_cons_self)] at read
      cases read
  | cons line rest inductionHypothesis =>
    have plain := plainEarly line List.mem_cons_self
    simp only [framed, List.append_assoc, List.cons_append] at read
    rw [readln_line newline line _ plain] at read
    cases late with
    | nil =>
      rw [framed, List.nil_append, readln_unfinished newline back partialBack] at read
      cases read
    | cons other others =>
      simp only [framed, List.append_assoc, List.cons_append] at read
      rw [readln_line newline other _ (plainLate other List.mem_cons_self)] at read
      obtain ⟨rfl, remaining⟩ := Prod.mk.inj (Option.some.inj read)
      obtain ⟨rfl, rest⟩ := inductionHypothesis others
        (fun late inside => plainEarly late (List.mem_cons_of_mem line inside))
        (fun late inside => plainLate late (List.mem_cons_of_mem line inside))
        remaining (congrArg (readln newline) remaining)
      exact ⟨rfl, rest⟩

/-- Any bytes are a number of whole lines and the beginning of one. -/
theorem framed_exists (bytes : List Byte) : ∃ lines rest, Plain newline lines ∧
    newline ∉ rest ∧ bytes = framed newline lines ++ rest := by
  induction bytes with
  | nil => exact ⟨[], [], by simp [Plain], by simp, rfl⟩
  | cons byte bytes inductionHypothesis =>
    obtain ⟨lines, rest, plain, unfinished, rfl⟩ := inductionHypothesis
    by_cases ends : byte = newline
    · refine ⟨[] :: lines, rest, ?_, unfinished, by simp [framed, ends]⟩
      intro line inside
      rcases List.mem_cons.mp inside with rfl | later
      · simp
      · exact plain line later
    · cases lines with
      | nil => exact ⟨[], byte :: rest, plain, by simp [Ne.symm ends, unfinished], rfl⟩
      | cons line lines =>
        refine ⟨(byte :: line) :: lines, rest, ?_, unfinished, by simp [framed]⟩
        intro other inside
        rcases List.mem_cons.mp inside with rfl | later
        · simp [Ne.symm ends, plain line List.mem_cons_self]
        · exact plain other (List.mem_cons_of_mem line later)

/-- Bytes that begin a stream of lines are its first lines and the beginning of the next. -/
theorem framed_prefix (lines : List (List Byte)) (early late : List Byte)
    (plain : Plain newline lines) (cut : early ++ late = framed newline lines) :
    ∃ whole rest, whole <+: lines ∧ newline ∉ rest ∧ early = framed newline whole ++ rest := by
  obtain ⟨whole, rest, plainWhole, unfinished, rfl⟩ := framed_exists newline early
  obtain ⟨more, last, plainMore, ending, after⟩ := framed_exists newline (rest ++ late)
  have same : framed newline (whole ++ more) ++ last = framed newline lines ++ [] := by
    rw [List.append_nil, ← cut, framed_append, List.append_assoc, List.append_assoc, after]
  have plainBoth : Plain newline (whole ++ more) := by
    intro line inside
    exact (List.mem_append.mp inside).elim (plainWhole line) (plainMore line)
  obtain ⟨rfl, _⟩ := framed_unique newline (whole ++ more) lines last [] plainBoth plain
    ending (by simp) same
  exact ⟨whole, rest, List.prefix_append whole more, unfinished, rfl⟩

/-- The newlines of a stream are those after its lines. -/
theorem count_framed (lines : List (List Byte)) (plain : Plain newline lines) :
    (framed newline lines).count newline = lines.length := by
  induction lines with
  | nil => rfl
  | cons line rest inductionHypothesis =>
    have own := List.count_eq_zero.mpr (plain line List.mem_cons_self)
    have later := inductionHypothesis
      fun other inside => plain other (List.mem_cons_of_mem line inside)
    simp [framed, own, later]

end NetVirt.LineStreams
