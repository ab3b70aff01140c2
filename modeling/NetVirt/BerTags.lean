import NetVirt.OnlineParsers
import Mathlib.Algebra.Ring.Nat
import Mathlib.Tactic.Ring

/-!
# BER tags

`ber_fetch_tag` and `ber_tlv_tag_serialize` of ber_tlv_tag.c. A tag is an unsigned of 32
bits with its class in the two low bits; no value that is kept here leaves these bits, so
that it is a natural number. Every tag is read back from what is written of it, and reading
takes the bytes of the tag only.
-/

namespace NetVirt.Ber

open OnlineParsers

/-- `ber_tlv_tag_t` -/
abbrev Tag := Nat

/-- BER_TAG_CLASS -/
def berTagClass (tag : Tag) : Nat := tag % 4

/-- BER_TAG_VALUE -/
def berTagValue (tag : Tag) : Nat := tag / 4

/-- BER_TLV_CONSTRUCTED -/
def berTlvConstructed (octet : UInt8) : Bool := octet &&& 0x20 ≠ 0

/-- The loop of `ber_fetch_tag` over the octets after the first: seven bits each, the last
with the high bit clear. A value that the next octet could push out of 32 bits is refused. -/
def berFetchTagRest (tclass : Nat) : Nat → Nat → List UInt8 → Fetched Tag
  | _, _, [] => .wantMore
  | val, skipped, oct :: rest =>
    if oct.toNat / 128 = 1 then
      if (val * 128 + oct.toNat % 128) / 2 ^ 23 ≠ 0 then .failed
      else berFetchTagRest tclass (val * 128 + oct.toNat % 128) (skipped + 1) rest
    else .fetched ((val * 128 + oct.toNat) * 4 + tclass) skipped

/-- `ber_fetch_tag` -/
def berFetchTag : List UInt8 → Fetched Tag
  | [] => .wantMore
  | first :: rest =>
    if first.toNat % 32 ≠ 31 then .fetched (first.toNat % 32 * 4 + first.toNat / 64) 1
    else berFetchTagRest (first.toNat / 64) 0 2 rest

/-- The loops that count the octets of a value: one, and one more as long as the value has
bits from the next position on. -/
def requiredSize (width value : Nat) : Nat → Nat → Nat
  | 0, _ => 1
  | iterations + 1, i =>
    if value / 2 ^ i ≠ 0 then requiredSize width value iterations (i + width) + 1 else 1

/-- The octets of a long tag, from the given one before the last on. -/
def tagOctets (tval : Nat) : Nat → List UInt8
  | 0 => [UInt8.ofNat (tval % 128)]
  | before + 1 => UInt8.ofNat (128 + tval / 2 ^ (7 * (before + 1)) % 128) :: tagOctets tval before

/-- `ber_tlv_tag_serialize`: the octets that are written into a buffer with room for them. -/
def berTlvTagSerialize (tag : Tag) : List UInt8 :=
  if berTagValue tag ≤ 30 then [UInt8.ofNat (berTagClass tag * 64 + berTagValue tag)]
  else
    UInt8.ofNat (berTagClass tag * 64 + 31) ::
      tagOctets (berTagValue tag) (requiredSize 7 (berTagValue tag) 4 7 - 1)

/-- `*buf |= 0x20` of `der_write_TL`: the form of the contents is marked in the tag. -/
def markForm (constructed : Bool) : List UInt8 → List UInt8
  | [] => []
  | first :: rest => (if constructed then first ||| 0x20 else first) :: rest

/-! ## Reading takes the tag and nothing else -/

theorem berFetchTagRest_fetched {tclass val skipped : Nat} {given : List UInt8} {tag : Tag}
    {length : Nat} (taken : berFetchTagRest tclass val skipped given = .fetched tag length) :
    skipped ≤ length ∧ length < skipped + given.length ∧
      (∀ later, berFetchTagRest tclass val skipped (given.take (length + 1 - skipped) ++ later) =
        .fetched tag length) ∧
      ∀ short, short < length + 1 - skipped →
        berFetchTagRest tclass val skipped (given.take short) = .wantMore := by
  induction given generalizing val skipped with
  | nil => simp [berFetchTagRest] at taken
  | cons oct rest inductionHypothesis =>
    unfold berFetchTagRest at taken
    by_cases continued : oct.toNat / 128 = 1
    · rw [if_pos continued] at taken
      by_cases large : (val * 128 + oct.toNat % 128) / 2 ^ 23 ≠ 0
      · rw [if_pos large] at taken
        cases taken
      · rw [if_neg large] at taken
        obtain ⟨atLeast, atMost, exact, starved⟩ := inductionHypothesis taken
        have one : length + 1 - skipped = length + 1 - (skipped + 1) + 1 := by omega
        refine ⟨by omega, by simp only [List.length_cons]; omega, fun later => ?_,
          fun short lacking => ?_⟩
        · rw [one, List.take_succ_cons, List.cons_append, berFetchTagRest, if_pos continued,
            if_neg large]
          exact exact later
        · cases short with
          | zero => rfl
          | succ short =>
            rw [List.take_succ_cons, berFetchTagRest, if_pos continued, if_neg large]
            exact starved short (by omega)
    · rw [if_neg continued] at taken
      simp only [Fetched.fetched.injEq] at taken
      obtain ⟨rfl, rfl⟩ := taken
      refine ⟨by omega, by simp only [List.length_cons]; omega, fun later => ?_,
        fun short lacking => ?_⟩
      · simp [berFetchTagRest, continued]
      · obtain rfl : short = 0 := by omega
        rfl

/-- Every fetched tag is decided by its own octets. -/
theorem online_berFetchTag : Online berFetchTag := by
  have cases : ∀ given tag length, berFetchTag given = .fetched tag length →
      0 < length ∧ length ≤ given.length ∧
        (∀ later, berFetchTag (given.take length ++ later) = .fetched tag length) ∧
        ∀ short, short < length → berFetchTag (given.take short) = .wantMore := by
    intro given tag length taken
    cases given with
    | nil => simp [berFetchTag] at taken
    | cons first rest =>
      by_cases simple : first.toNat % 32 ≠ 31
      · rw [berFetchTag, if_pos simple] at taken
        simp only [Fetched.fetched.injEq] at taken
        obtain ⟨rfl, rfl⟩ := taken
        refine ⟨by omega, by simp, fun later => by simp [berFetchTag, simple],
          fun short lacking => ?_⟩
        obtain rfl : short = 0 := by omega
        rfl
      · rw [berFetchTag, if_neg simple] at taken
        obtain ⟨atLeast, atMost, exact, starved⟩ := berFetchTagRest_fetched taken
        have one : length = length + 1 - 2 + 1 := by omega
        refine ⟨by omega, by simp only [List.length_cons]; omega, fun later => ?_,
          fun short lacking => ?_⟩
        · rw [one, List.take_succ_cons, List.cons_append, berFetchTag, if_neg simple, ← one]
          exact exact later
        · cases short with
          | zero => rfl
          | succ short =>
            rw [List.take_succ_cons, berFetchTag, if_neg simple]
            exact starved short (by omega)
  exact
    { bounded := fun given tag length taken =>
        ⟨(cases given tag length taken).1, (cases given tag length taken).2.1⟩
      exact := fun given tag length later taken => (cases given tag length taken).2.2.1 later
      starved := fun given tag length short taken => (cases given tag length taken).2.2.2 short }

/-! ## What is written is read back -/

/-- Enough octets are counted for the value, and no more than there are positions. -/
theorem requiredSize_covers (width value iterations i : Nat)
    (bound : value < 2 ^ (i + width * iterations)) :
    value < 2 ^ (i + width * (requiredSize width value iterations i - 1)) ∧
      1 ≤ requiredSize width value iterations i ∧
      requiredSize width value iterations i ≤ iterations + 1 := by
  induction iterations generalizing i with
  | zero => simpa [requiredSize] using bound
  | succ iterations inductionHypothesis =>
    unfold requiredSize
    by_cases more : value / 2 ^ i ≠ 0
    · have rest := inductionHypothesis (i + width) (by
        rw [show i + width + width * iterations = i + width * (iterations + 1) by ring]
        exact bound)
      rw [if_pos more]
      refine ⟨?_, by omega, by omega⟩
      obtain ⟨covered, atLeast, _⟩ := rest
      obtain ⟨count, counted⟩ := Nat.exists_eq_add_of_le' atLeast
      rw [counted] at covered ⊢
      rw [show i + width + width * (count + 1 - 1) = i + width * (count + 1 + 1 - 1) by
        simp only [Nat.add_sub_cancel]; ring] at covered
      exact covered
    · rw [if_neg more]
      have small : value < 2 ^ i := by
        have zero : value / 2 ^ i = 0 := by omega
        exact (Nat.div_eq_zero_iff_lt (Nat.pow_pos (by omega))).mp zero
      refine ⟨by simpa using small, by omega, by omega⟩

/-- Bits of a value from one group on, from those of the group before. -/
theorem shift_group (value width count : Nat) :
    value / 2 ^ (width * (count + 1)) * 2 ^ width + value / 2 ^ (width * count) % 2 ^ width =
      value / 2 ^ (width * count) := by
  have split : value / 2 ^ (width * (count + 1)) = value / 2 ^ (width * count) / 2 ^ width := by
    rw [Nat.div_div_eq_div_mul, ← Nat.pow_add]
    congr 2
  rw [split]
  exact Nat.div_add_mod' _ _

/-- The octets left are read to the whole value, once those before have been. -/
theorem berFetchTagRest_octets (tclass tval before skipped : Nat) (bound : tval < 2 ^ 30)
    (short : before ≤ 4) :
    berFetchTagRest tclass (tval / 2 ^ (7 * (before + 1))) skipped (tagOctets tval before) =
      .fetched (tval * 4 + tclass) (skipped + before) := by
  induction before generalizing skipped with
  | zero =>
    have octet : (UInt8.ofNat (tval % 128)).toNat = tval % 128 := by
      rw [UInt8.toNat_ofNat']
      exact Nat.mod_eq_of_lt (by omega)
    rw [tagOctets, berFetchTagRest, octet, if_neg (by omega)]
    have grouped : tval / 2 ^ (7 * (0 + 1)) * 128 + tval % 128 = tval := by
      simpa using shift_group tval 7 0
    rw [grouped, Nat.add_zero]
  | succ before inductionHypothesis =>
    have octet : (UInt8.ofNat (128 + tval / 2 ^ (7 * (before + 1)) % 128)).toNat =
        128 + tval / 2 ^ (7 * (before + 1)) % 128 := by
      rw [UInt8.toNat_ofNat']
      exact Nat.mod_eq_of_lt (by omega)
    have grouped := shift_group tval 7 (before + 1)
    rw [show (2 : Nat) ^ 7 = 128 from rfl] at grouped
    have spare : tval / 2 ^ (7 * (before + 1)) < 2 ^ 23 := by
      have lowered : tval / 2 ^ (7 * (before + 1)) ≤ tval / 2 ^ 7 :=
        Nat.div_le_div_left (Nat.pow_le_pow_right (by omega) (by omega)) (by omega)
      omega
    rw [tagOctets, berFetchTagRest, octet, if_pos (by omega),
      show (128 + tval / 2 ^ (7 * (before + 1)) % 128) % 128 =
        tval / 2 ^ (7 * (before + 1)) % 128 by omega, grouped,
      if_neg (by rw [Nat.div_eq_of_lt spare]; omega)]
    rw [inductionHypothesis (skipped + 1) (by omega)]
    congr 1
    omega

theorem tagOctets_length (tval before : Nat) : (tagOctets tval before).length = before + 1 := by
  induction before with
  | zero => rfl
  | succ before inductionHypothesis => simp [tagOctets, inductionHypothesis]

/-- The octet that a tag starts with, and the same octet with its form marked. -/
theorem leading_octet : ∀ (tclass : Fin 4) (low : Fin 32),
    (UInt8.ofNat (tclass.val * 64 + low.val)).toNat = tclass.val * 64 + low.val ∧
      (UInt8.ofNat (tclass.val * 64 + low.val) ||| 0x20).toNat =
        tclass.val * 64 + 32 + low.val ∧
      berTlvConstructed (UInt8.ofNat (tclass.val * 64 + low.val)) = false ∧
      berTlvConstructed (UInt8.ofNat (tclass.val * 64 + low.val) ||| 0x20) = true := by
  decide

/-- Class and low bits are read from the leading octet whether or not the form is marked. -/
theorem marked_octet (constructed : Bool) (tclass low : Nat) (classes : tclass < 4)
    (lows : low < 32) (first : UInt8) (marked : first = if constructed then
      UInt8.ofNat (tclass * 64 + low) ||| 0x20 else UInt8.ofNat (tclass * 64 + low)) :
    first.toNat % 32 = low ∧ first.toNat / 64 = tclass ∧
      berTlvConstructed first = constructed := by
  obtain ⟨plain, formed, unset, set⟩ := leading_octet ⟨tclass, classes⟩ ⟨low, lows⟩
  dsimp only at plain formed unset set
  cases constructed with
  | false =>
    subst marked
    simp only [Bool.false_eq_true, if_false]
    exact ⟨by rw [plain]; omega, by rw [plain]; omega, unset⟩
  | true =>
    subst marked
    simp only [if_true]
    exact ⟨by rw [formed]; omega, by rw [formed]; omega, set⟩

theorem markForm_length (constructed : Bool) (octets : List UInt8) :
    (markForm constructed octets).length = octets.length := by
  cases octets <;> rfl

/-- Every tag of 32 bits is read back from what is written of it, in either form. -/
theorem berFetchTag_serialize (tag : Nat) (constructed : Bool) (bound : tag < 2 ^ 32) :
    berFetchTag (markForm constructed (berTlvTagSerialize tag)) =
      .fetched tag (berTlvTagSerialize tag).length := by
  have rejoined : berTagValue tag * 4 + berTagClass tag = tag := by
    unfold berTagValue berTagClass
    omega
  have classes : berTagClass tag < 4 := Nat.mod_lt _ (by omega)
  unfold berTlvTagSerialize
  by_cases short : berTagValue tag ≤ 30
  · obtain ⟨low, class', _⟩ := marked_octet constructed (berTagClass tag) (berTagValue tag)
      classes (by omega) _ rfl
    rw [if_pos short, markForm, berFetchTag, low, class', if_pos (by omega), rejoined]
    rfl
  · have value : berTagValue tag < 2 ^ 30 := by
      unfold berTagValue
      omega
    obtain ⟨covered, atLeast, atMost⟩ := requiredSize_covers 7 (berTagValue tag) 4 7
      (Nat.lt_trans value (by decide))
    obtain ⟨low, class', _⟩ := marked_octet constructed (berTagClass tag) 31 classes (by omega)
      _ rfl
    rw [if_neg short, markForm, berFetchTag, low, class', if_neg (by omega)]
    have start : berTagValue tag /
        2 ^ (7 * (requiredSize 7 (berTagValue tag) 4 7 - 1 + 1)) = 0 := by
      apply Nat.div_eq_of_lt
      rwa [show 7 * (requiredSize 7 (berTagValue tag) 4 7 - 1 + 1) =
        7 + 7 * (requiredSize 7 (berTagValue tag) 4 7 - 1) by ring]
    have octets := berFetchTagRest_octets (berTagClass tag) (berTagValue tag)
      (requiredSize 7 (berTagValue tag) 4 7 - 1) 2 value (by omega)
    rw [start] at octets
    rw [octets, rejoined, List.length_cons, tagOctets_length]
    congr 1
    omega

/-- The form is read from the first octet. -/
theorem constructed_serialize (tag : Tag) (constructed : Bool) :
    ∃ first rest, markForm constructed (berTlvTagSerialize tag) = first :: rest ∧
      berTlvConstructed first = constructed := by
  have classes : berTagClass tag < 4 := Nat.mod_lt _ (by omega)
  unfold berTlvTagSerialize
  by_cases short : berTagValue tag ≤ 30
  · rw [if_pos short]
    exact ⟨_, _, rfl, (marked_octet constructed _ _ classes (by omega) _ rfl).2.2⟩
  · rw [if_neg short]
    exact ⟨_, _, rfl, (marked_octet constructed _ 31 classes (by omega) _ rfl).2.2⟩

end NetVirt.Ber
