import NetVirt.Decimal
import Mathlib.Algebra.Ring.Nat
import Mathlib.Data.List.Basic
import Mathlib.Data.List.Induction

/-!
# IPv4 addresses

The libc functions on IPv4 addresses. An address in a program is a machine word that holds
the four octets in network order, so its value depends on the machine's byte order. Texts
are read as numbers and dots; what `inet_ntoa` writes, `inet_aton` reads back, and a text that
`inet_pton` reads is the one that is written for the address.
-/

namespace NetVirt.Inet

open Decimal

/-- A text of the controller: what a JSON string or a column of the database holds. -/
abbrev Text := List Char

inductive Endian where
  | little
  | big
deriving DecidableEq

/-- The bytes of a word in the other order. -/
def byteSwap (word : BitVec 32) : BitVec 32 :=
  word.extractLsb' 0 8 ++ word.extractLsb' 8 8 ++ word.extractLsb' 16 8 ++ word.extractLsb' 24 8

/-- `htonl`: the word that holds the octets of a number in network order. -/
def htonl (endian : Endian) (value : BitVec 32) : BitVec 32 :=
  match endian with
  | .little => byteSwap value
  | .big => value

/-- `ntohl` -/
def ntohl (endian : Endian) (word : BitVec 32) : BitVec 32 := htonl endian word

theorem byteSwap_byteSwap (word : BitVec 32) : byteSwap (byteSwap word) = word := by
  unfold byteSwap
  ext bit inside
  simp only [BitVec.getElem_append, BitVec.getElem_extractLsb', BitVec.getLsbD_append,
    BitVec.getLsbD_extractLsb']
  grind

@[simp]
theorem ntohl_htonl (endian : Endian) (value : BitVec 32) :
    ntohl endian (htonl endian value) = value := by
  cases endian with
  | little => exact byteSwap_byteSwap value
  | big => rfl

@[simp]
theorem htonl_ntohl (endian : Endian) (word : BitVec 32) :
    htonl endian (ntohl endian word) = word :=
  ntohl_htonl endian word

theorem byteSwap_not (word : BitVec 32) : byteSwap (~~~word) = ~~~byteSwap word := by
  unfold byteSwap
  ext bit inside
  simp only [BitVec.getElem_append, BitVec.getElem_extractLsb', BitVec.getElem_not,
    BitVec.getLsbD_not]
  grind

theorem byteSwap_or (x y : BitVec 32) : byteSwap (x ||| y) = byteSwap x ||| byteSwap y := by
  unfold byteSwap
  ext bit inside
  simp only [BitVec.getElem_append, BitVec.getElem_extractLsb', BitVec.getElem_or,
    BitVec.getLsbD_or]
  grind

theorem htonl_not (endian : Endian) (value : BitVec 32) :
    htonl endian (~~~value) = ~~~htonl endian value := by
  cases endian with
  | little => exact byteSwap_not value
  | big => rfl

theorem htonl_or (endian : Endian) (x y : BitVec 32) :
    htonl endian (x ||| y) = htonl endian x ||| htonl endian y := by
  cases endian with
  | little => exact byteSwap_or x y
  | big => rfl

theorem htonl_and (endian : Endian) (x y : BitVec 32) :
    htonl endian (x &&& y) = htonl endian x &&& htonl endian y := by
  have dual : ∀ x y : BitVec 32, x &&& y = ~~~(~~~x ||| ~~~y) := by
    intro x y
    rw [BitVec.not_or, BitVec.not_not, BitVec.not_not]
  rw [dual, htonl_not, htonl_or, htonl_not, htonl_not, ← dual]

theorem htonl_injective (endian : Endian) (x y : BitVec 32)
    (same : htonl endian x = htonl endian y) : x = y := by
  rw [← ntohl_htonl endian x, same, ntohl_htonl]

/-! ## Octets -/

/-- A swapped word has the octets in the other order. -/
theorem byteSwap_toNat (word : BitVec 32) : (byteSwap word).toNat =
    word.toNat % 256 * 2 ^ 24 + word.toNat / 2 ^ 8 % 256 * 2 ^ 16 +
      word.toNat / 2 ^ 16 % 256 * 2 ^ 8 + word.toNat / 2 ^ 24 := by
  have bounded := word.isLt
  have octet : ∀ start, (word.extractLsb' start 8).toNat = word.toNat / 2 ^ start % 256 := by
    intro start
    rw [BitVec.extractLsb'_toNat, Nat.shiftRight_eq_div_pow]
  have join : ∀ (w v : Nat) (high : BitVec w) (low : BitVec v),
      (high ++ low).toNat = high.toNat * 2 ^ v + low.toNat := by
    intro w v high low
    rw [BitVec.toNat_append, ← Nat.shiftLeft_add_eq_or_of_lt low.isLt, Nat.shiftLeft_eq]
  simp only [byteSwap, join, octet]
  omega

/-- The octets of a number. -/
theorem octets_split (n a b c d : Nat) (whole : n = a * 2 ^ 24 + b * 2 ^ 16 + c * 2 ^ 8 + d)
    (second : b < 256) (third : c < 256) (fourth : d < 256) :
    n / 2 ^ 24 = a ∧ n / 2 ^ 16 % 256 = b ∧ n / 2 ^ 8 % 256 = c ∧ n % 256 = d := by
  omega

/-- The number of the octets. -/
theorem octets_join (n : Nat) : n = n / 2 ^ 24 * 2 ^ 24 + n / 2 ^ 16 % 256 * 2 ^ 16 +
    n / 2 ^ 8 % 256 * 2 ^ 8 + n % 256 := by
  omega

/-- Numbers are ordered as their octets are. -/
theorem octets_le (a b c d a' b' c' d' : Nat) (first : a' ≤ a) (second : b' ≤ b)
    (third : c' ≤ c) (fourth : d' ≤ d) :
    a' * 2 ^ 24 + b' * 2 ^ 16 + c' * 2 ^ 8 + d' ≤ a * 2 ^ 24 + b * 2 ^ 16 + c * 2 ^ 8 + d := by
  omega

/-- Octets that do not borrow are subtracted one by one. -/
theorem octets_sub (a b c d a' b' c' d' : Nat) (first : a' ≤ a) (second : b' ≤ b)
    (third : c' ≤ c) (fourth : d' ≤ d) :
    (a * 2 ^ 24 + b * 2 ^ 16 + c * 2 ^ 8 + d) - (a' * 2 ^ 24 + b' * 2 ^ 16 + c' * 2 ^ 8 + d') =
      (a - a') * 2 ^ 24 + (b - b') * 2 ^ 16 + (c - c') * 2 ^ 8 + (d - d') := by
  omega

/-- No octet of the first word is smaller than that of the second. -/
structure Covers (x y : BitVec 32) : Prop where
  first : y.toNat / 2 ^ 24 ≤ x.toNat / 2 ^ 24
  second : y.toNat / 2 ^ 16 % 256 ≤ x.toNat / 2 ^ 16 % 256
  third : y.toNat / 2 ^ 8 % 256 ≤ x.toNat / 2 ^ 8 % 256
  fourth : y.toNat % 256 ≤ x.toNat % 256

/-- A word whose last octet is large enough covers a small number. -/
theorem covers_small (x y : BitVec 32) (small : y.toNat ≤ x.toNat % 256) : Covers x y := by
  constructor <;> omega

theorem Covers.le {x y : BitVec 32} (covers : Covers x y) : y.toNat ≤ x.toNat := by
  rw [octets_join x.toNat, octets_join y.toNat]
  exact octets_le _ _ _ _ _ _ _ _ covers.first covers.second covers.third covers.fourth

/-- A swapped word covers what the word covers. -/
theorem Covers.byteSwap {x y : BitVec 32} (covers : Covers x y) :
    Covers (byteSwap x) (byteSwap y) := by
  obtain ⟨first, second, third, fourth⟩ := covers
  have top : x.toNat / 2 ^ 24 < 256 := by omega
  have topOther : y.toNat / 2 ^ 24 < 256 := by omega
  have octet : ∀ n, n % 256 < 256 := fun n => Nat.mod_lt n (by decide)
  obtain ⟨a, b, c, d⟩ := octets_split _ _ _ _ _ (byteSwap_toNat x) (octet _) (octet _) top
  obtain ⟨a', b', c', d'⟩ := octets_split _ _ _ _ _ (byteSwap_toNat y) (octet _) (octet _)
    topOther
  constructor
  · rwa [a, a']
  · rwa [b, b']
  · rwa [c, c']
  · rwa [d, d']

theorem Covers.htonl (endian : Endian) {x y : BitVec 32} (covers : Covers x y) :
    Covers (htonl endian x) (htonl endian y) := by
  cases endian with
  | little => exact covers.byteSwap
  | big => exact covers

/-- Words may be subtracted in network order when no octet borrows. -/
theorem Covers.htonl_sub (endian : Endian) {x y : BitVec 32} (covers : Covers x y) :
    Inet.htonl endian x - Inet.htonl endian y = Inet.htonl endian (x - y) := by
  cases endian with
  | big => rfl
  | little =>
    have plain := octets_sub _ _ _ _ _ _ _ _ covers.first covers.second covers.third
      covers.fourth
    rw [← octets_join, ← octets_join] at plain
    have swapped := octets_sub _ _ _ _ _ _ _ _ covers.fourth covers.third covers.second
      covers.first
    rw [← byteSwap_toNat, ← byteSwap_toNat] at swapped
    have octet : ∀ n m, n % 256 - m < 256 := by omega
    have difference := (BitVec.toNat_sub_of_le covers.le).trans plain
    obtain ⟨a, b, c, d⟩ := octets_split _ _ _ _ _ difference (octet _ _) (octet _ _)
      (octet _ _)
    apply BitVec.eq_of_toNat_eq
    simp only [Inet.htonl]
    rw [BitVec.toNat_sub_of_le covers.byteSwap.le, swapped, byteSwap_toNat, a, b, c, d]

/-- The four octets of an address, given as a number. -/
def octets (value : BitVec 32) : List Nat :=
  [value.toNat / 2 ^ 24, value.toNat / 2 ^ 16 % 256, value.toNat / 2 ^ 8 % 256,
    value.toNat % 256]

/-- Numbers as a text with dots between them. -/
def dotted (numbers : List Nat) : Text := ['.'].intercalate (numbers.map (Nat.toDigits 10))

/-- `inet_ntoa` -/
def inetNtoa (endian : Endian) (word : BitVec 32) : Text := dotted (octets (ntohl endian word))

/-- `isspace` in the C locale. -/
def isSpace (c : Char) : Bool :=
  c = ' ' ∨ c = '\t' ∨ c = '\n' ∨ c = '\x0b' ∨ c = '\x0c' ∨ c = '\r'

/-- The value of a hexadecimal digit. -/
def hexDigit (c : Char) : Option Nat :=
  if c.isDigit then some (c.toNat - '0'.toNat)
  else if 'a' ≤ c ∧ c ≤ 'f' then some (c.toNat - 'a'.toNat + 10)
  else if 'A' ≤ c ∧ c ≤ 'F' then some (c.toNat - 'A'.toNat + 10)
  else none

/-- The value of a text of digits, at least one, that are all below the base. -/
def number (base : Nat) (text : Text) : Option Nat := do
  let values ← text.mapM hexDigit
  if values = [] ∨ ¬ values.all (· < base) then failure
  return values.foldl (fun value digit => value * base + digit) 0

/-- A number in the notation of C: hexadecimal after 0x, octal after 0, else decimal. -/
def cNumber (text : Text) : Option Nat :=
  match text with
  | '0' :: 'x' :: digits => number 16 digits
  | '0' :: 'X' :: digits => number 16 digits
  | '0' :: digit :: digits => number 8 (digit :: digits)
  | digits => number 10 digits

/-- The address of one to four numbers: the last one fills the octets that are left. -/
def address : List Nat → Option Nat
  | [a] => if a < 2 ^ 32 then some a else none
  | [a, b] => if a < 256 ∧ b < 2 ^ 24 then some (a * 2 ^ 24 + b) else none
  | [a, b, c] =>
    if a < 256 ∧ b < 256 ∧ c < 2 ^ 16 then some (a * 2 ^ 24 + b * 2 ^ 16 + c) else none
  | [a, b, c, d] =>
    if a < 256 ∧ b < 256 ∧ c < 256 ∧ d < 256 then
      some (a * 2 ^ 24 + b * 2 ^ 16 + c * 2 ^ 8 + d)
    else none
  | _ => none

/-- `inet_aton`. What follows a white space is not looked at. -/
def inetAton (endian : Endian) (text : Text) : Option (BitVec 32) := do
  let numbers ← ((text.takeWhile fun c => !isSpace c).splitOn '.').mapM cNumber
  let value ← address numbers
  return htonl endian (BitVec.ofNat 32 value)

/-- A decimal octet without a leading zero. -/
def decimalOctet (text : Text) : Option Nat := do
  let value ← number 10 text
  if value ≥ 256 ∨ (text.head? = some '0' ∧ text.length > 1) then failure
  return value

/-- `inet_pton` for AF_INET: exactly four decimal octets. -/
def inetPton (endian : Endian) (text : Text) : Option (BitVec 32) := do
  let numbers ← (text.splitOn '.').mapM decimalOctet
  if numbers.length ≠ 4 then failure
  let value ← address numbers
  return htonl endian (BitVec.ofNat 32 value)

/-! ## Round trip -/

theorem octets_bounded (value : BitVec 32) : ∀ octet ∈ octets value, octet < 256 := by
  have bounded := value.isLt
  simp only [octets, List.mem_cons, List.not_mem_nil, or_false, forall_eq_or_imp, forall_eq]
  omega

/-- The octets of a number make up the number. -/
theorem address_octets (value : BitVec 32) : address (octets value) = some value.toNat := by
  have bounded := value.isLt
  simp only [octets, address]
  rw [if_pos (by omega), Option.some.injEq]
  omega

theorem octet_text : ∀ octet, octet < 256 → cNumber (Nat.toDigits 10 octet) = some octet ∧
    decimalOctet (Nat.toDigits 10 octet) = some octet := by
  decide +kernel

/-- The text of octets is the texts of the octets. -/
theorem splitOn_dotted (numbers : List Nat) (some : numbers ≠ []) :
    (dotted numbers).splitOn '.' = numbers.map (Nat.toDigits 10) := by
  apply List.splitOn_intercalate
  · intro text inside dot
    obtain ⟨number, _, rfl⟩ := List.mem_map.mp inside
    have digit := toDigits_isDigit number '.' dot
    simp [Char.isDigit] at digit
  · simpa using some

/-- Such a text has no white space. -/
theorem dotted_no_space (numbers : List Nat) : ∀ c ∈ dotted numbers, isSpace c = false := by
  have digit : ∀ n c, c ∈ Nat.toDigits 10 n → isSpace c = false := by
    intro n c inside
    have digit := toDigits_isDigit n c inside
    by_contra white
    simp only [Bool.not_eq_false, isSpace, decide_eq_true_eq] at white
    rcases white with rfl | rfl | rfl | rfl | rfl | rfl <;> simp [Char.isDigit] at digit
  intro c inside
  induction numbers with
  | nil => cases inside
  | cons first rest inductionHypothesis =>
    cases rest with
    | nil =>
      simp only [dotted, List.map_cons, List.map_nil, List.intercalate_singleton] at inside
      exact digit first c inside
    | cons second rest =>
      simp only [dotted, List.map_cons, List.intercalate_cons_cons, List.mem_append] at inside
      rcases inside with (here | dot) | later
      · exact digit first c here
      · rw [List.mem_singleton.mp dot]
        decide
      · exact inductionHypothesis later

theorem mapM_texts (read : Text → Option Nat) (numbers : List Nat)
    (reads : ∀ n ∈ numbers, read (Nat.toDigits 10 n) = some n) :
    (numbers.map (Nat.toDigits 10)).mapM read = some numbers := by
  induction numbers with
  | nil => rfl
  | cons first rest inductionHypothesis =>
    have later := inductionHypothesis fun n inside => reads n (List.mem_cons_of_mem first inside)
    simp [reads first List.mem_cons_self, later]

/-- `inet_aton` reads what `inet_ntoa` wrote. -/
theorem inetAton_inetNtoa (endian : Endian) (word : BitVec 32) :
    inetAton endian (inetNtoa endian word) = some word := by
  have whole : (inetNtoa endian word).takeWhile (fun c => !isSpace c) = inetNtoa endian word := by
    rw [List.takeWhile_eq_self_iff]
    intro c inside
    simp [dotted_no_space _ c inside]
  have read := mapM_texts cNumber (octets (ntohl endian word)) fun n inside =>
    (octet_text n (octets_bounded _ n inside)).1
  unfold inetAton
  rw [whole, inetNtoa, splitOn_dotted _ (by simp [octets]), read, Option.bind_eq_bind,
    Option.bind_some, address_octets]
  simp

/-! ## Texts of addresses -/

/-- A decimal digit is the character of its value. -/
theorem digitChar_hexDigit (c : Char) (value : Nat) (read : hexDigit c = some value)
    (small : value < 10) : Nat.digitChar value = c := by
  have digit : c.isDigit = true ∧ c.toNat - '0'.toNat = value := by
    unfold hexDigit at read
    split at read
    case isTrue digit => exact ⟨digit, Option.some.inj read⟩
    case isFalse =>
      split at read
      · have := Option.some.inj read
        omega
      · split at read
        · have := Option.some.inj read
          omega
        · cases read
  obtain ⟨digit, same⟩ := digit
  simp only [Char.isDigit, ge_iff_le, Bool.and_eq_true, decide_eq_true_eq] at digit
  have least : 48 ≤ c.toNat := digit.1
  have zero : '0'.toNat = 48 := rfl
  rw [zero] at same
  apply Char.toNat_inj.mp
  rw [Nat.toNat_digitChar_of_lt_ten small]
  omega

/-- Digits without a leading zero are those of their number. -/
theorem toDigits_foldl (values : List Nat) (more : values ≠ [])
    (small : ∀ value ∈ values, value < 10) (leads : values.length = 1 ∨ values.head? ≠ some 0) :
    Nat.toDigits 10 (values.foldl (fun value digit => value * 10 + digit) 0) =
      values.map Nat.digitChar := by
  induction values using List.reverseRecOn with
  | nil => exact absurd rfl more
  | append_singleton front last inductionHypothesis =>
    have digit := small last (by simp)
    have single := Nat.toDigits_of_lt_base digit
    rw [List.foldl_append, List.foldl_cons, List.foldl_nil, List.map_append, List.map_cons,
      List.map_nil]
    cases front with
    | nil => simpa using single
    | cons first rest =>
      have lead : first ≠ 0 := by simpa using leads
      have before := inductionHypothesis (List.cons_ne_nil first rest)
        (fun value inside => small value (List.mem_append_left _ inside)) (by simp [lead])
      have positive : 0 < (first :: rest).foldl (fun value digit => value * 10 + digit) 0 := by
        apply Nat.pos_of_ne_zero
        intro zero
        rw [zero, Nat.toDigits_zero, List.map_cons, List.cons.injEq] at before
        exact lead (Nat.digitChar_eq_zero.mp before.1.symm)
      rw [Nat.mul_comm, ← Nat.toDigits_append_toDigits (by decide) positive digit, before, single]

theorem mapM_hexDigit (text : Text) (values : List Nat) (read : text.mapM hexDigit = some values)
    (small : ∀ value ∈ values, value < 10) : values.map Nat.digitChar = text := by
  induction text generalizing values with
  | nil =>
    simp only [List.mapM_nil, Option.pure_def, Option.some.injEq] at read
    rw [← read, List.map_nil]
  | cons c rest inductionHypothesis =>
    simp only [List.mapM_cons, Option.bind_eq_bind, Option.bind_eq_some_iff, Option.pure_def,
      Option.some.injEq] at read
    obtain ⟨value, digit, others, remaining, rfl⟩ := read
    rw [List.map_cons, digitChar_hexDigit c value digit (small value List.mem_cons_self),
      inductionHypothesis others remaining
        fun other inside => small other (List.mem_cons_of_mem value inside)]

/-- An octet is written in one way only. -/
theorem toDigits_decimalOctet (text : Text) (value : Nat) (read : decimalOctet text = some value) :
    Nat.toDigits 10 value = text ∧ value < 256 := by
  simp only [decimalOctet, number, Option.bind_eq_bind, Option.bind_eq_some_iff,
    Option.pure_def] at read
  obtain ⟨number, ⟨values, digits, guarded⟩, bounded⟩ := read
  split at guarded
  · cases guarded
  case isFalse proper =>
    split at bounded
    · cases bounded
    case isFalse plain =>
      obtain rfl := Option.some.inj bounded
      obtain rfl := Option.some.inj guarded
      simp only [not_or, not_not, List.all_eq_true, decide_eq_true_eq] at proper
      have text := mapM_hexDigit text values digits proper.2
      refine ⟨?_, by omega⟩
      rw [toDigits_foldl values proper.1 proper.2 ?_, text]
      subst text
      cases values with
      | nil => exact absurd rfl proper.1
      | cons first rest =>
        cases rest with
        | nil => exact Or.inl rfl
        | cons second rest =>
          refine Or.inr fun zero => plain (Or.inr ⟨?_, ?_⟩)
          · obtain rfl := Option.some.inj zero
            rfl
          · simp

theorem mapM_decimalOctet (texts : List Text) (numbers : List Nat)
    (read : texts.mapM decimalOctet = some numbers) :
    numbers.map (Nat.toDigits 10) = texts ∧ ∀ number ∈ numbers, number < 256 := by
  induction texts generalizing numbers with
  | nil =>
    simp only [List.mapM_nil, Option.pure_def, Option.some.injEq] at read
    simp [← read]
  | cons text rest inductionHypothesis =>
    simp only [List.mapM_cons, Option.bind_eq_bind, Option.bind_eq_some_iff, Option.pure_def,
      Option.some.injEq] at read
    obtain ⟨number, octet, others, remaining, rfl⟩ := read
    obtain ⟨first, small⟩ := toDigits_decimalOctet text number octet
    obtain ⟨same, bounded⟩ := inductionHypothesis others remaining
    exact ⟨by rw [List.map_cons, first, same], List.forall_mem_cons.mpr ⟨small, bounded⟩⟩

/-- The octets of four numbers are the numbers. -/
theorem octets_address (numbers : List Nat) (value : Nat) (four : numbers.length = 4)
    (small : ∀ number ∈ numbers, number < 256) (read : address numbers = some value) :
    octets (BitVec.ofNat 32 value) = numbers := by
  match numbers, four with
  | [a, b, c, d], _ =>
    simp only [List.mem_cons, List.not_mem_nil, or_false, forall_eq_or_imp, forall_eq] at small
    obtain ⟨first, second, third, fourth⟩ := small
    simp only [address, first, second, third, fourth, and_self, if_true, Option.some.injEq] at read
    have whole : (BitVec.ofNat 32 value).toNat = a * 2 ^ 24 + b * 2 ^ 16 + c * 2 ^ 8 + d := by
      rw [BitVec.toNat_ofNat]
      omega
    obtain ⟨one, two, three, last⟩ := octets_split _ a b c d whole second third fourth
    rw [octets, one, two, three, last]

/-- An address that inet_pton reads is written as it was. -/
theorem inetNtoa_inetPton (endian : Endian) (text : Text) (word : BitVec 32)
    (read : inetPton endian text = some word) : inetNtoa endian word = text := by
  simp only [inetPton, Option.bind_eq_bind, Option.bind_eq_some_iff, Option.pure_def] at read
  obtain ⟨numbers, texts, rest⟩ := read
  split at rest
  · cases rest
  case isFalse four =>
    obtain ⟨value, made, same⟩ := Option.bind_eq_some_iff.mp rest
    obtain rfl := Option.some.inj same
    obtain ⟨digits, small⟩ := mapM_decimalOctet _ numbers texts
    rw [inetNtoa, ntohl_htonl, octets_address numbers value (not_not.mp four) small made, dotted,
      digits, List.intercalate_splitOn]

end NetVirt.Inet
