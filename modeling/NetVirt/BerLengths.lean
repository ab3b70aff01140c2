import NetVirt.BerTags

/-!
# BER lengths

`ber_fetch_length`, `der_tlv_length_serialize` and `ber_skip_length` of ber_tlv_length.c. A
length is an ssize_t, and -1 stands for the indefinite length. What is written of a length
is read back up to 1024 below the largest ssize_t: the reader refuses those above, so that
the small quantities which decoders add to a length cannot wrap.
-/

namespace NetVirt.Ber

open OnlineParsers

/-- The loop of `ber_fetch_length` over the octets of a long length, and the check behind
it. The first argument is how many octets are left. -/
def berFetchLengthRest : Nat → Nat → Nat → List UInt8 → Fetched Int
  | 0, len, skipped, _ =>
    if 2 ^ 63 ≤ len + 1024 then .failed else .fetched (len : Int) skipped
  | _ + 1, _, _, [] => .wantMore
  | oct + 1, len, skipped, first :: rest =>
    if 2 ^ 63 ≤ len * 256 + first.toNat ∨ (len * 256 + first.toNat) / 2 ^ 56 ≠ 0 ∧ 0 < oct then
      .failed
    else berFetchLengthRest oct (len * 256 + first.toNat) (skipped + 1) rest

/-- `ber_fetch_length` -/
def berFetchLength (constructed : Bool) : List UInt8 → Fetched Int
  | [] => .wantMore
  | first :: rest =>
    if first.toNat < 128 then .fetched (first.toNat : Int) 1
    else if constructed ∧ first.toNat = 128 then .fetched (-1) 1
    else if first.toNat = 255 then .failed
    else berFetchLengthRest (first.toNat - 128) 0 1 rest

/-- The low octets of a number, as many as given, the highest of them first. -/
def octetsOf (number : Nat) : Nat → List UInt8
  | 0 => []
  | left + 1 => UInt8.ofNat (number / 2 ^ (8 * left) % 256) :: octetsOf number left

/-- `der_tlv_length_serialize`: the octets that are written into a buffer with room for
them. -/
def derTlvLengthSerialize (len : Nat) : List UInt8 :=
  if len ≤ 127 then [UInt8.ofNat len]
  else UInt8.ofNat (128 + requiredSize 8 len 7 8) :: octetsOf len (requiredSize 8 len 7 8)

/-- The loop of `ber_skip_length` over the contents of an indefinite length, up to the
terminator. As many iterations as there are bytes are enough, since each skips some. -/
def skipContents (skip : Bool → List UInt8 → Fetched Unit) : Nat → Nat → List UInt8 → Fetched Unit
  | 0, _, _ => .wantMore
  | fuel + 1, skipped, given =>
    match berFetchTag given with
    | .wantMore => .wantMore
    | .failed => .failed
    | .fetched _ tl =>
      match skip (berTlvConstructed (given.headD 0)) (given.drop tl) with
      | .wantMore => .wantMore
      | .failed => .failed
      | .fetched _ ll =>
        if given.take 2 = [0, 0] then .fetched () (skipped + (tl + ll))
        else skipContents skip fuel (skipped + (tl + ll)) (given.drop (tl + ll))

/-- `ber_skip_length`. The first argument is how many calls the stack still has room for;
`_ASN_STACK_OVERFLOW_CHECK` refuses the next one. -/
def berSkipLength : Nat → Bool → List UInt8 → Fetched Unit
  | 0, _, _ => .failed
  | calls + 1, constructed, given =>
    match berFetchLength constructed given with
    | .wantMore => .wantMore
    | .failed => .failed
    | .fetched vlen ll =>
      if 0 ≤ vlen then
        if ll + vlen.toNat > given.length then .wantMore else .fetched () (ll + vlen.toNat)
      else skipContents (berSkipLength calls) given.length ll (given.drop ll)

/-! ## Reading takes the length and nothing else -/

theorem berFetchLengthRest_fetched {oct len skipped : Nat} {given : List UInt8} {value : Int}
    {length : Nat} (taken : berFetchLengthRest oct len skipped given = .fetched value length) :
    length = skipped + oct ∧ oct ≤ given.length ∧ 0 ≤ value ∧ value + 1024 < 2 ^ 63 ∧
      (∀ later, berFetchLengthRest oct len skipped (given.take oct ++ later) =
        .fetched value length) ∧
      ∀ short, short < oct → berFetchLengthRest oct len skipped (given.take short) = .wantMore := by
  induction oct generalizing len skipped given with
  | zero =>
    unfold berFetchLengthRest at taken
    by_cases large : 2 ^ 63 ≤ len + 1024
    · rw [if_pos large] at taken
      cases taken
    · rw [if_neg large] at taken
      simp only [Fetched.fetched.injEq] at taken
      obtain ⟨rfl, rfl⟩ := taken
      refine ⟨rfl, Nat.zero_le _, by omega, by omega, fun later => ?_, fun short lacking => ?_⟩
      · rw [berFetchLengthRest, if_neg large]
      · omega
  | succ oct inductionHypothesis =>
    cases given with
    | nil => cases taken
    | cons first rest =>
      unfold berFetchLengthRest at taken
      by_cases large : 2 ^ 63 ≤ len * 256 + first.toNat ∨
          (len * 256 + first.toNat) / 2 ^ 56 ≠ 0 ∧ 0 < oct
      · rw [if_pos large] at taken
        cases taken
      · rw [if_neg large] at taken
        obtain ⟨total, enough, least, most, exact, starved⟩ := inductionHypothesis taken
        refine ⟨by omega, by simp only [List.length_cons]; omega, least, most, fun later => ?_,
          fun short lacking => ?_⟩
        · rw [List.take_succ_cons, List.cons_append, berFetchLengthRest, if_neg large]
          exact exact later
        · cases short with
          | zero => rfl
          | succ short =>
            rw [List.take_succ_cons, berFetchLengthRest, if_neg large]
            exact starved short (by omega)

/-- What is fetched is the indefinite length, of a constructed form, or no more than a
decoder can add to. -/
theorem berFetchLength_fetched {constructed : Bool} {given : List UInt8} {value : Int}
    {length : Nat} (taken : berFetchLength constructed given = .fetched value length) :
    0 < length ∧ length ≤ given.length ∧
      (value = -1 ∧ constructed = true ∨ 0 ≤ value ∧ value + 1024 < 2 ^ 63) ∧
      (∀ later, berFetchLength constructed (given.take length ++ later) =
        .fetched value length) ∧
      ∀ short, short < length → berFetchLength constructed (given.take short) = .wantMore := by
  cases given with
  | nil => cases taken
  | cons first rest =>
    have none : ∀ short, short < 1 →
        berFetchLength constructed ((first :: rest).take short) = .wantMore := by
      intro short lacking
      obtain rfl : short = 0 := by omega
      rfl
    unfold berFetchLength at taken
    by_cases definite : first.toNat < 128
    · simp only [if_pos definite, Fetched.fetched.injEq] at taken
      obtain ⟨rfl, rfl⟩ := taken
      exact ⟨by omega, by simp, Or.inr ⟨by omega, by omega⟩,
        fun later => by simp [berFetchLength, definite], none⟩
    · by_cases indefinite : constructed = true ∧ first.toNat = 128
      · simp only [if_neg definite, if_pos indefinite, Fetched.fetched.injEq] at taken
        obtain ⟨rfl, rfl⟩ := taken
        exact ⟨by omega, by simp, Or.inl ⟨rfl, indefinite.1⟩,
          fun later => by simp [berFetchLength, indefinite], none⟩
      · by_cases reserved : first.toNat = 255
        · simp only [if_neg definite, if_neg indefinite, if_pos reserved] at taken
          cases taken
        · simp only [if_neg definite, if_neg indefinite, if_neg reserved] at taken
          obtain ⟨total, enough, least, most, exact, starved⟩ := berFetchLengthRest_fetched taken
          have one : length = first.toNat - 128 + 1 := by omega
          refine ⟨by omega, by simp only [List.length_cons]; omega, Or.inr ⟨least, most⟩,
            fun later => ?_, fun short lacking => ?_⟩
          · rw [one, List.take_succ_cons, List.cons_append]
            simp only [berFetchLength, if_neg definite, if_neg indefinite, if_neg reserved, ← one]
            exact exact later
          · cases short with
            | zero => rfl
            | succ short =>
              rw [List.take_succ_cons]
              simp only [berFetchLength, if_neg definite, if_neg indefinite, if_neg reserved]
              exact starved short (by omega)

/-- Every fetched length is decided by its own octets. -/
theorem online_berFetchLength (constructed : Bool) : Online (berFetchLength constructed) where
  bounded _ _ _ taken :=
    ⟨(berFetchLength_fetched taken).1, (berFetchLength_fetched taken).2.1⟩
  exact _ _ _ later taken := (berFetchLength_fetched taken).2.2.2.1 later
  starved _ _ _ short taken lacking :=
    (berFetchLength_fetched taken).2.2.2.2 short lacking

/-! ## What is written is read back -/

theorem octetsOf_length (number left : Nat) : (octetsOf number left).length = left := by
  induction left with
  | zero => rfl
  | succ left inductionHypothesis => simp [octetsOf, inductionHypothesis]

/-- The octets left are read to the whole length, once those before have been. -/
theorem berFetchLengthRest_octets (len left skipped : Nat) (bound : len + 1024 < 2 ^ 63)
    (short : left ≤ 8) :
    berFetchLengthRest left (len / 2 ^ (8 * left)) skipped (octetsOf len left) =
      .fetched (len : Int) (skipped + left) := by
  induction left generalizing skipped with
  | zero =>
    rw [berFetchLengthRest, Nat.mul_zero, Nat.pow_zero, Nat.div_one, if_neg (by omega)]
    rfl
  | succ left inductionHypothesis =>
    have octet : (UInt8.ofNat (len / 2 ^ (8 * left) % 256)).toNat = len / 2 ^ (8 * left) % 256 := by
      rw [UInt8.toNat_ofNat']
      exact Nat.mod_eq_of_lt (by omega)
    have grouped := shift_group len 8 left
    rw [show (2 : Nat) ^ 8 = 256 from rfl] at grouped
    have small : len / 2 ^ (8 * left) < 2 ^ 63 :=
      Nat.lt_of_le_of_lt (Nat.div_le_self _ _) (by omega)
    have spare : 0 < left → len / 2 ^ (8 * left) / 2 ^ 56 = 0 := by
      intro more
      rw [Nat.div_div_eq_div_mul, ← Nat.pow_add]
      apply Nat.div_eq_of_lt
      exact Nat.lt_of_lt_of_le (show len < 2 ^ 64 by omega)
        (Nat.pow_le_pow_right (by omega) (by omega))
    rw [octetsOf, berFetchLengthRest, octet, grouped, if_neg]
    · rw [inductionHypothesis (skipped + 1) (by omega)]
      congr 1
      omega
    · rintro (negative | ⟨wide, more⟩)
      · omega
      · exact wide (spare more)

/-- Every length that leaves the decoders their margin is read back, for either form. -/
theorem berFetchLength_serialize (len : Nat) (constructed : Bool) (bound : len + 1024 < 2 ^ 63) :
    berFetchLength constructed (derTlvLengthSerialize len) =
      .fetched (len : Int) (derTlvLengthSerialize len).length := by
  unfold derTlvLengthSerialize
  by_cases short : len ≤ 127
  · have octet : (UInt8.ofNat len).toNat = len := by
      rw [UInt8.toNat_ofNat']
      exact Nat.mod_eq_of_lt (by omega)
    rw [if_pos short, berFetchLength, octet, if_pos (by omega)]
    rfl
  · obtain ⟨covered, atLeast, atMost⟩ := requiredSize_covers 8 len 7 8 (by omega)
    have octet : (UInt8.ofNat (128 + requiredSize 8 len 7 8)).toNat =
        128 + requiredSize 8 len 7 8 := by
      rw [UInt8.toNat_ofNat']
      exact Nat.mod_eq_of_lt (by omega)
    have start : len / 2 ^ (8 * requiredSize 8 len 7 8) = 0 := by
      apply Nat.div_eq_of_lt
      rwa [show 8 * requiredSize 8 len 7 8 = 8 + 8 * (requiredSize 8 len 7 8 - 1) by omega]
    have octets := berFetchLengthRest_octets len (requiredSize 8 len 7 8) 1 bound (by omega)
    rw [start] at octets
    rw [if_neg short, berFetchLength, octet, if_neg (by omega), if_neg (by omega),
      if_neg (by omega), Nat.add_sub_cancel_left, octets, List.length_cons, octetsOf_length,
      Nat.add_comm]

/-! ## Skipping stays inside the buffer -/

theorem skipContents_bounded (skip : Bool → List UInt8 → Fetched Unit)
    (inside : ∀ constructed given length, skip constructed given = .fetched () length →
      length ≤ given.length) (fuel skipped : Nat) (given : List UInt8) (length : Nat)
    (taken : skipContents skip fuel skipped given = .fetched () length) :
    skipped ≤ length ∧ length ≤ skipped + given.length := by
  induction fuel generalizing skipped given with
  | zero => cases taken
  | succ fuel inductionHypothesis =>
    unfold skipContents at taken
    cases tagged : berFetchTag given with
    | wantMore => simp [tagged] at taken
    | failed => simp [tagged] at taken
    | fetched tag tl =>
      have tagBounds := online_berFetchTag.bounded given tag tl tagged
      cases value : skip (berTlvConstructed (given.headD 0)) (given.drop tl) with
      | wantMore =>
        simp only [tagged, value] at taken
        cases taken
      | failed =>
        simp only [tagged, value] at taken
        cases taken
      | fetched _ ll =>
        have valueBounds := inside _ _ ll value
        rw [List.length_drop] at valueBounds
        simp only [tagged, value] at taken
        by_cases ended : given.take 2 = [0, 0]
        · rw [if_pos ended] at taken
          simp only [Fetched.fetched.injEq, true_and] at taken
          omega
        · rw [if_neg ended] at taken
          have rest := inductionHypothesis _ _ taken
          rw [List.length_drop] at rest
          omega

/-- What is skipped is in the buffer, whatever the stack has room for. -/
theorem berSkipLength_bounded (calls : Nat) (constructed : Bool) (given : List UInt8)
    (length : Nat) (taken : berSkipLength calls constructed given = .fetched () length) :
    0 < length ∧ length ≤ given.length := by
  induction calls generalizing constructed given length with
  | zero => cases taken
  | succ calls inductionHypothesis =>
    unfold berSkipLength at taken
    cases read : berFetchLength constructed given with
    | wantMore => simp [read] at taken
    | failed => simp [read] at taken
    | fetched vlen ll =>
      have bounds := (online_berFetchLength constructed).bounded given vlen ll read
      simp only [read] at taken
      by_cases definite : 0 ≤ vlen
      · rw [if_pos definite] at taken
        by_cases lacking : ll + vlen.toNat > given.length
        · rw [if_pos lacking] at taken
          cases taken
        · rw [if_neg lacking] at taken
          simp only [Fetched.fetched.injEq, true_and] at taken
          omega
      · rw [if_neg definite] at taken
        have contents := skipContents_bounded _
          (fun form rest more value => (inductionHypothesis form rest more value).2)
          _ _ _ _ taken
        rw [List.length_drop] at contents
        omega

end NetVirt.Ber
