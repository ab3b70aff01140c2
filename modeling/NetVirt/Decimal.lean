import Mathlib.Data.List.TakeWhile

/-!
# Decimal texts of machine integers

The `%d` conversion of printf and the libc function `atoi`, as texts of characters.
Converting a number and reading the text back gives the number; reading a text that was
cut short gives a number of at most a tenth of the size, without a sign change.
-/

namespace NetVirt.Decimal

/-- The text of `%d`: the decimal digits, after a minus sign for a negative number. -/
def formatInt : Int → List Char
  | .ofNat value => Nat.toDigits 10 value
  | .negSucc value => '-' :: Nat.toDigits 10 (value + 1)

/-- The number at the front of a text of digits; the first other character ends it. -/
def digits (text : List Char) : Nat :=
  Nat.ofDigitChars 10 (text.takeWhile Char.isDigit) 0

/-- `atoi`: leading white space, an optional sign, and the digits that follow. -/
def atoi (text : List Char) : Int :=
  match text.dropWhile Char.isWhitespace with
  | '-' :: rest => -(digits rest : Int)
  | '+' :: rest => digits rest
  | rest => digits rest

theorem digit_not_whitespace (c : Char) (digit : c.isDigit = true) : c.isWhitespace = false := by
  apply Bool.eq_false_iff.mpr
  intro white
  simp only [Char.isWhitespace, Bool.or_eq_true, decide_eq_true_eq] at white
  rcases white with ((rfl | rfl) | rfl) | rfl <;> simp [Char.isDigit] at digit

theorem digits_of_digits (text : List Char) (all : ∀ c ∈ text, c.isDigit = true) :
    digits text = Nat.ofDigitChars 10 text 0 := by
  unfold digits
  rw [List.takeWhile_eq_self_iff.mpr all]

/-- A text of digits has neither white space nor a sign in front. -/
theorem atoi_of_digits (text : List Char) (all : ∀ c ∈ text, c.isDigit = true) :
    atoi text = Nat.ofDigitChars 10 text 0 := by
  cases text with
  | nil => rfl
  | cons first rest =>
    have digit : first.isDigit = true := all first List.mem_cons_self
    have kept : (first :: rest).dropWhile Char.isWhitespace = first :: rest := by
      rw [List.dropWhile_cons_of_neg (by simp [digit_not_whitespace first digit])]
    unfold atoi
    rw [kept]
    split
    · next same =>
      obtain ⟨rfl, _⟩ := List.cons.inj same
      simp [Char.isDigit] at digit
    · next same =>
      obtain ⟨rfl, _⟩ := List.cons.inj same
      simp [Char.isDigit] at digit
    · rw [digits_of_digits _ all]

theorem atoi_minus (text : List Char) (all : ∀ c ∈ text, c.isDigit = true) :
    atoi ('-' :: text) = -(Nat.ofDigitChars 10 text 0 : Int) := by
  have kept : ('-' :: text).dropWhile Char.isWhitespace = '-' :: text :=
    List.dropWhile_cons_of_neg (by decide)
  unfold atoi
  rw [kept]
  simp only [digits_of_digits text all]

theorem toDigits_isDigit (value : Nat) : ∀ c ∈ Nat.toDigits 10 value, c.isDigit = true :=
  fun _ inside => Nat.isDigit_of_mem_toDigits (by decide) (by decide) inside

/-- Reading back what `%d` wrote gives the number. -/
theorem atoi_formatInt (value : Int) : atoi (formatInt value) = value := by
  cases value with
  | ofNat value =>
    simp only [formatInt, atoi_of_digits _ (toDigits_isDigit value),
      Nat.ofDigitChars_ten_toDigits]
    rfl
  | negSucc value =>
    simp only [formatInt, atoi_minus _ (toDigits_isDigit (value + 1)),
      Nat.ofDigitChars_ten_toDigits]
    rfl

/-! ## Texts that are cut short -/

/-- Losing digits at the end divides by ten or more. -/
theorem ofDigitChars_take (text : List Char) (kept : Nat) (short : kept < text.length) :
    Nat.ofDigitChars 10 (text.take kept) 0 * 10 ≤ Nat.ofDigitChars 10 text 0 := by
  have lost : 10 ^ 1 ≤ 10 ^ (text.drop kept).length := by
    apply Nat.pow_le_pow_right (by decide)
    rw [List.length_drop]
    omega
  calc Nat.ofDigitChars 10 (text.take kept) 0 * 10
      _ ≤ 10 ^ (text.drop kept).length * Nat.ofDigitChars 10 (text.take kept) 0 := by
        rw [Nat.mul_comm]
        exact Nat.mul_le_mul_right _ lost
      _ ≤ Nat.ofDigitChars 10 (text.drop kept) (Nat.ofDigitChars 10 (text.take kept) 0) := by
        rw [Nat.ofDigitChars_eq_ofDigitChars_zero (l := text.drop kept)]
        exact Nat.le_add_right _ _
      _ = Nat.ofDigitChars 10 text 0 := by
        rw [← Nat.ofDigitChars_append, List.take_append_drop]

/-- A text of `%d` that is cut short after its first character reads as a number of the same
sign and at most a tenth of the size. -/
theorem atoi_take (value : Int) (kept : Nat) (short : kept + 1 < (formatInt value).length) :
    (0 ≤ value → 0 ≤ atoi ((formatInt value).take (kept + 1)) ∧
      atoi ((formatInt value).take (kept + 1)) * 10 ≤ value) ∧
    (value < 0 → atoi ((formatInt value).take (kept + 1)) ≤ 0 ∧
      value ≤ atoi ((formatInt value).take (kept + 1)) * 10) := by
  cases value with
  | ofNat value =>
    have digits : ∀ c ∈ (Nat.toDigits 10 value).take (kept + 1), c.isDigit = true :=
      fun c inside => toDigits_isDigit value c (List.mem_of_mem_take inside)
    have cut := ofDigitChars_take (Nat.toDigits 10 value) (kept + 1) short
    rw [Nat.ofDigitChars_ten_toDigits] at cut
    simp only [formatInt, atoi_of_digits _ digits, Int.ofNat_eq_natCast]
    omega
  | negSucc value =>
    have digits : ∀ c ∈ (Nat.toDigits 10 (value + 1)).take kept, c.isDigit = true :=
      fun c inside => toDigits_isDigit (value + 1) c (List.mem_of_mem_take inside)
    have cut := ofDigitChars_take (Nat.toDigits 10 (value + 1)) kept
      (by simpa [formatInt] using short)
    rw [Nat.ofDigitChars_ten_toDigits] at cut
    simp only [formatInt, List.take_succ_cons, atoi_minus _ digits]
    omega

end NetVirt.Decimal
