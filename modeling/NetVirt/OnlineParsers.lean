import Mathlib.Data.List.Basic

/-!
# Parsers of a growing buffer

A parser is given the bytes that have arrived so far. It wants more of them, rejects them,
or fetches a value from the first of them and says how many it took. An online parser
decides by the bytes it takes and by no others, and waits for the last of them.
-/

namespace NetVirt.OnlineParsers

universe u v
variable {Symbol : Type u} {Value : Type v}

inductive Fetched (Value : Type v) where
  | wantMore
  | failed
  | fetched (value : Value) (length : Nat)
deriving DecidableEq

structure Online (fetch : List Symbol → Fetched Value) : Prop where
  bounded : ∀ given value length, fetch given = .fetched value length →
    0 < length ∧ length ≤ given.length
  exact : ∀ given value length later, fetch given = .fetched value length →
    fetch (given.take length ++ later) = .fetched value length
  starved : ∀ given value length taken, fetch given = .fetched value length →
    taken < length → fetch (given.take taken) = .wantMore

/-- The encoding is the first thing that is read of any buffer starting with it, and every
part of it that lacks the end is waited with. -/
structure Reads (fetch : List Symbol → Fetched Value) (encoding : List Symbol)
    (value : Value) : Prop where
  whole : ∀ later, fetch (encoding ++ later) = .fetched value encoding.length
  part : ∀ given missing, encoding = given ++ missing → missing ≠ [] → fetch given = .wantMore

/-- For an online parser it is enough to try the encoding by itself. -/
theorem Online.reads {fetch : List Symbol → Fetched Value} (online : Online fetch)
    (encoding : List Symbol) (value : Value)
    (alone : fetch encoding = .fetched value encoding.length) : Reads fetch encoding value where
  whole later := by
    have decided := online.exact encoding value encoding.length later alone
    rwa [List.take_length] at decided
  part given missing split unfinished := by
    have short : given.length < encoding.length := by
      have positive := List.length_pos_iff.mpr unfinished
      rw [split, List.length_append]
      omega
    have waited := online.starved encoding value encoding.length given.length alone short
    rwa [split, List.take_left] at waited

end NetVirt.OnlineParsers
