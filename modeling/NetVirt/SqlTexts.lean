import Mathlib.Data.List.Basic

/-!
# Reading the text of an SQL statement

A reader of SQL texts takes one byte at a time: a mode says what the bytes so far have begun,
and a byte may end some tokens and begin another. Quotes inside of a standard literal are
doubled, and a literal goes on in a new pair of quotes after a newline. Backslashes stand for
themselves in standard literals. Text in escape literals is kept as it is written.

Bytes are what a literal costs: its value and another byte for each quote in it. A text too
short for a literal therefore does not contain it, whatever else is in the text.
-/

namespace NetVirt.SqlTexts

/-! ## Tokens -/

inductive Token where
  | word (text : List UInt8)
  | number (digits : List UInt8)
  /-- A string constant and its value. -/
  | literal (value : List UInt8)
  /-- A string constant with escapes, as it is written. -/
  | escaped (text : List UInt8)
  | quoted (name : List UInt8)
  | symbol (byte : UInt8)
deriving DecidableEq

/-- A string constant between quotes, without escapes or with them. -/
inductive Kind where
  | standard
  | escape
deriving DecidableEq

def Kind.token : Kind → List UInt8 → Token
  | standard, value => .literal value
  | escape, text => .escaped text

def quote : UInt8 := 0x27
def doubleQuote : UInt8 := 0x22
def backslash : UInt8 := 0x5C
def minus : UInt8 := 0x2D
def slash : UInt8 := 0x2F
def star : UInt8 := 0x2A
def dollarSign : UInt8 := 0x24

def isNewline (byte : UInt8) : Bool := byte == 0x0A || byte == 0x0D

def isSpace (byte : UInt8) : Bool :=
  byte == 0x20 || byte == 0x09 || byte == 0x0C || isNewline byte

def isDigit (byte : UInt8) : Bool := 0x30 ≤ byte && byte ≤ 0x39

/-- Letters, underscores and the bytes outside of ASCII. -/
def isNameStart (byte : UInt8) : Bool :=
  (0x41 ≤ byte && byte ≤ 0x5A) || (0x61 ≤ byte && byte ≤ 0x7A) || byte == 0x5F || 0x80 ≤ byte

/-! ## Modes -/

/-- What the bytes so far have begun. -/
inductive Mode where
  | between
  | word (text : List UInt8)
  | number (digits : List UInt8)
  | string (kind : Kind) (value : List UInt8)
  /-- After a backslash of an escape constant. -/
  | escaping (text : List UInt8)
  /-- After a quote, which ends the constant or is the first of a pair. -/
  | closing (kind : Kind) (value : List UInt8)
  /-- Between two parts of a constant, which go together after a newline. -/
  | gap (kind : Kind) (value : List UInt8) (newline : Bool)
  | gapDash (kind : Kind) (value : List UInt8)
  | gapComment (kind : Kind) (value : List UInt8)
  | quoted (name : List UInt8)
  | quotedClosing (name : List UInt8)
  | dash
  | lineComment
  | slash
  /-- Inside of comments, and of how many more than one. -/
  | blockComment (depth : Nat)
  | blockStar (depth : Nat)
  | blockSlash (depth : Nat)
  /-- After a dollar sign, in what may be a tag. -/
  | tag (text : List UInt8)
  | dollar (tag text : List UInt8)
deriving DecidableEq

/-- Read a byte between two tokens. -/
def start (byte : UInt8) : List Token × Mode :=
  if isSpace byte then ([], .between)
  else if isNameStart byte then ([], .word [byte])
  else if isDigit byte then ([], .number [byte])
  else if byte = quote then ([], .string .standard [])
  else if byte = doubleQuote then ([], .quoted [])
  else if byte = minus then ([], .dash)
  else if byte = slash then ([], .slash)
  else if byte = dollarSign then ([], .tag [])
  else ([.symbol byte], .between)

/-- Read a byte that is not part of the tokens before it. -/
def after (tokens : List Token) (byte : UInt8) : List Token × Mode :=
  (tokens ++ (start byte).1, (start byte).2)

def wordStep (text : List UInt8) (byte : UInt8) : List Token × Mode :=
  if isNameStart byte || isDigit byte || byte = dollarSign then ([], .word (text ++ [byte]))
  else if byte = quote ∧ (text = [0x45] ∨ text = [0x65]) then ([], .string .escape [])
  else after [.word text] byte

def gapStep (kind : Kind) (value : List UInt8) (newline : Bool) (byte : UInt8) :
    List Token × Mode :=
  if isSpace byte then ([], .gap kind value (newline || isNewline byte))
  else if byte = minus then ([], .gapDash kind value)
  else after [kind.token value] byte

/-- Read a byte of a tag. A dollar sign without a tag is a symbol. -/
def tagStep (text : List UInt8) (byte : UInt8) : List Token × Mode :=
  if byte = dollarSign then ([], .dollar text [])
  else if isNameStart byte || (isDigit byte && text ≠ []) then ([], .tag (text ++ [byte]))
  else if text = [] then after [.symbol dollarSign] byte
  else (.symbol dollarSign :: (wordStep text byte).1, (wordStep text byte).2)

/-- Read a byte of a dollar-quoted constant, which its tag ends. -/
def dollarStep (tag text : List UInt8) (byte : UInt8) : List Token × Mode :=
  let delimiter := dollarSign :: tag ++ [dollarSign]
  let text := text ++ [byte]
  if delimiter.isSuffixOf text then
    ([.literal (text.take (text.length - delimiter.length))], .between)
  else ([], .dollar tag text)

/-- Read a byte: the tokens that end with it, and what is begun after it. -/
def step : Mode → UInt8 → List Token × Mode
  | .between, byte => start byte
  | .word text, byte => wordStep text byte
  | .number digits, byte =>
    if isDigit byte then ([], .number (digits ++ [byte])) else after [.number digits] byte
  | .string kind value, byte =>
    if byte = quote then ([], .closing kind value)
    else if kind = .escape ∧ byte = backslash then ([], .escaping value)
    else ([], .string kind (value ++ [byte]))
  | .escaping text, byte => ([], .string .escape (text ++ [backslash, byte]))
  | .closing kind value, byte =>
    if byte = quote then ([], .string kind (value ++ [quote]))
    else gapStep kind value false byte
  | .gap kind value newline, byte =>
    if byte = quote ∧ newline then ([], .string kind value)
    else gapStep kind value newline byte
  | .gapDash kind value, byte =>
    if byte = minus then ([], .gapComment kind value)
    else after [kind.token value, .symbol minus] byte
  | .gapComment kind value, byte =>
    if isNewline byte then ([], .gap kind value true) else ([], .gapComment kind value)
  | .quoted name, byte =>
    if byte = doubleQuote then ([], .quotedClosing name) else ([], .quoted (name ++ [byte]))
  | .quotedClosing name, byte =>
    if byte = doubleQuote then ([], .quoted (name ++ [byte])) else after [.quoted name] byte
  | .dash, byte => if byte = minus then ([], .lineComment) else after [.symbol minus] byte
  | .lineComment, byte => if isNewline byte then ([], .between) else ([], .lineComment)
  | .slash, byte =>
    if byte = star then ([], .blockComment 0) else after [.symbol SqlTexts.slash] byte
  | .blockComment depth, byte =>
    if byte = star then ([], .blockStar depth)
    else if byte = SqlTexts.slash then ([], .blockSlash depth)
    else ([], .blockComment depth)
  | .blockStar depth, byte =>
    if byte = SqlTexts.slash then
      ([], if depth = 0 then .between else .blockComment (depth - 1))
    else if byte = star then ([], .blockStar depth)
    else ([], .blockComment depth)
  | .blockSlash depth, byte =>
    if byte = star then ([], .blockComment (depth + 1))
    else if byte = SqlTexts.slash then ([], .blockSlash depth)
    else ([], .blockComment depth)
  | .tag text, byte => tagStep text byte
  | .dollar tag text, byte => dollarStep tag text byte

/-- The tokens that end with the text. What has to be closed has not been. -/
def finish : Mode → Option (List Token)
  | .between | .lineComment => some []
  | .word text => some [.word text]
  | .number digits => some [.number digits]
  | .closing kind value | .gap kind value _ | .gapComment kind value => some [kind.token value]
  | .gapDash kind value => some [kind.token value, .symbol minus]
  | .quotedClosing name => some [.quoted name]
  | .dash => some [.symbol minus]
  | .slash => some [.symbol slash]
  | .tag text => some (.symbol dollarSign :: if text = [] then [] else [.word text])
  | .string _ _ | .escaping _ | .quoted _ | .blockComment _ | .blockStar _ | .blockSlash _
  | .dollar _ _ => none

/-! ## Texts -/

/-- Read bytes one after another. -/
def run (mode : Mode) : List UInt8 → List Token × Mode
  | [] => ([], mode)
  | byte :: bytes =>
    ((step mode byte).1 ++ (run (step mode byte).2 bytes).1, (run (step mode byte).2 bytes).2)

/-- The tokens of a text whose beginning has been read. -/
def lexFrom (mode : Mode) (bytes : List UInt8) : Option (List Token) :=
  (finish (run mode bytes).2).map ((run mode bytes).1 ++ ·)

/-- The tokens of a text, if everything in it is closed. -/
def lex (bytes : List UInt8) : Option (List Token) := lexFrom .between bytes

theorem run_append (mode : Mode) (early late : List UInt8) :
    run mode (early ++ late) =
      ((run mode early).1 ++ (run (run mode early).2 late).1, (run (run mode early).2 late).2) := by
  induction early generalizing mode with
  | nil => rfl
  | cons byte early inductionHypothesis => simp [run, inductionHypothesis]

theorem lexFrom_append (mode : Mode) (early late : List UInt8) :
    lexFrom mode (early ++ late) =
      (lexFrom (run mode early).2 late).map ((run mode early).1 ++ ·) := by
  simp [lexFrom, run_append, Function.comp_def]

theorem lexFrom_cons (mode : Mode) (byte : UInt8) (bytes : List UInt8) :
    lexFrom mode (byte :: bytes) =
      (lexFrom (step mode byte).2 bytes).map ((step mode byte).1 ++ ·) := by
  simp [lexFrom, run, Function.comp_def]

/-- Without a quote a standard literal goes on. -/
theorem run_string (value bytes : List UInt8) (plain : quote ∉ bytes) :
    run (.string .standard value) bytes = ([], .string .standard (value ++ bytes)) := by
  induction bytes generalizing value with
  | nil => simp [run]
  | cons byte bytes inductionHypothesis =>
    obtain ⟨other, later⟩ := not_or.mp (List.mem_cons.not.mp plain)
    simp [run, step, Ne.symm other, inductionHypothesis _ later]

theorem lexFrom_string (value bytes : List UInt8) (plain : quote ∉ bytes) :
    lexFrom (.string .standard value) bytes = none := by
  simp [lexFrom, run_string value bytes plain, finish]

/-! ## What a literal costs -/

/-- The bytes of a literal between its quotes. -/
def cost (value : List UInt8) : Nat := value.length + value.count quote

/-- A standard literal may have ended here. -/
inductive Ended : Mode → List UInt8 → Prop where
  | closing (value) : Ended (.closing .standard value) value
  | gap (value newline) : Ended (.gap .standard value newline) value
  | gapDash (value) : Ended (.gapDash .standard value) value
  | gapComment (value) : Ended (.gapComment .standard value) value

/-- A standard literal is being read, and took this many bytes. -/
inductive Held : Mode → List UInt8 → Nat → Prop where
  | string (value) : Held (.string .standard value) value (cost value)
  | ended {mode value} (past : Ended mode value) : Held mode value (cost value + 1)

theorem cost_snoc (value : List UInt8) (byte : UInt8) :
    cost (value ++ [byte]) = cost value + 1 + if byte = quote then 1 else 0 := by
  by_cases same : byte = quote
  · simp [cost, same]
    omega
  · simp [cost, same]
    omega

/-- A value with a quote in it costs more than its length. -/
theorem length_lt_cost (value : List UInt8) (quoted : quote ∈ value) :
    value.length < cost value :=
  Nat.lt_add_of_pos_right (List.count_pos_iff.mpr quoted)

/-- A byte in the gap after a literal leaves it as it is or shows that it is over. -/
theorem gapStep_ended (value : List UInt8) (newline : Bool) (byte : UInt8) :
    ((gapStep .standard value newline byte).1 = [] ∧
        Ended (gapStep .standard value newline byte).2 value) ∨
      ∃ tokens, (gapStep .standard value newline byte).1 = .literal value :: tokens := by
  unfold gapStep
  split
  · exact .inl ⟨rfl, .gap _ _⟩
  · split
    · exact .inl ⟨rfl, .gapDash _⟩
    · exact .inr ⟨(start byte).1, rfl⟩

/-- Without a quote an ended literal is not opened again. -/
theorem step_ended (mode : Mode) (byte : UInt8) (value : List UInt8) (plain : byte ≠ quote)
    (past : Ended mode value) :
    ((step mode byte).1 = [] ∧ Ended (step mode byte).2 value) ∨
      ∃ tokens, (step mode byte).1 = .literal value :: tokens := by
  cases past with
  | closing => simpa [step, plain] using gapStep_ended value false byte
  | gap _ newline => simpa [step, plain] using gapStep_ended value newline byte
  | gapDash =>
    by_cases same : byte = minus
    · exact .inl (by simp [step, same, Ended.gapComment])
    · exact .inr (by simp [step, same, after, Kind.token])
  | gapComment =>
    by_cases newline : isNewline byte
    · exact .inl (by simp [step, newline, Ended.gap])
    · exact .inl (by simp [step, newline, Ended.gapComment])

/-- A quote after a literal opens it again, is in a comment, or is not part of it. -/
theorem step_ended_quote (mode : Mode) (value : List UInt8) (past : Ended mode value) :
    ((step mode quote).1 = [] ∧ ((step mode quote).2 = .string .standard (value ++ [quote]) ∨
        (step mode quote).2 = .string .standard value ∨ Ended (step mode quote).2 value)) ∨
      ∃ tokens, (step mode quote).1 = .literal value :: tokens := by
  cases past with
  | closing => exact .inl (by simp [step])
  | gap _ newline =>
    cases newline with
    | false => exact .inr ⟨_, by simp [step, gapStep, after, Kind.token]; rfl⟩
    | true => exact .inl (by simp [step])
  | gapDash => exact .inr ⟨_, by simp [step, after, Kind.token]; rfl⟩
  | gapComment =>
    have other : isNewline quote = false := by decide
    exact .inl ⟨by simp [step, other], .inr (.inr (by simpa [step, other] using .gapComment _))⟩

/-- A literal that is read goes on after a byte, and took that byte, or it is over. -/
theorem step_held (mode : Mode) (byte : UInt8) (value : List UInt8) (taken : Nat)
    (held : Held mode value taken) :
    ((step mode byte).1 = [] ∧ ∃ grown more, Held (step mode byte).2 grown more ∧
        more ≤ taken + 1) ∨
      cost value < taken ∧ ∃ tokens, (step mode byte).1 = .literal value :: tokens := by
  cases held with
  | string =>
    by_cases same : byte = quote
    · exact .inl ⟨by simp [step, same], value, cost value + 1,
        by simpa [step, same] using .ended (.closing value), Nat.le_refl _⟩
    · exact .inl ⟨by simp [step, same], value ++ [byte], cost (value ++ [byte]),
        by simpa [step, same] using .string (value ++ [byte]), by simp [cost_snoc, same]⟩
  | ended past =>
    by_cases same : byte = quote
    · subst same
      obtain ⟨silent, opened | opened | past⟩ | ends := step_ended_quote mode value past
      · exact .inl ⟨silent, _, _, opened.symm ▸ Held.string (value ++ [quote]),
          by simp [cost_snoc]⟩
      · exact .inl ⟨silent, _, _, opened.symm ▸ Held.string value, by omega⟩
      · exact .inl ⟨silent, _, _, .ended past, by omega⟩
      · exact .inr ⟨by omega, ends⟩
    · obtain ⟨silent, past⟩ | ends := step_ended mode byte value same past
      · exact .inl ⟨silent, _, _, .ended past, by omega⟩
      · exact .inr ⟨by omega, ends⟩

/-- Reading on, a literal takes no more bytes than are read, or it is over and took fewer. -/
theorem run_held (mode : Mode) (bytes value : List UInt8) (taken : Nat)
    (held : Held mode value taken) :
    ((run mode bytes).1 = [] ∧ ∃ grown more, Held (run mode bytes).2 grown more ∧
        more ≤ taken + bytes.length) ∨
      ∃ whole tokens, (run mode bytes).1 = .literal whole :: tokens ∧
        cost whole < taken + bytes.length := by
  induction bytes generalizing mode value taken with
  | nil => exact .inl ⟨rfl, value, taken, held, Nat.le_refl _⟩
  | cons byte bytes inductionHypothesis =>
    obtain ⟨silent, grown, more, held, bound⟩ | ⟨bound, tokens, ends⟩ :=
      step_held mode byte value taken held
    · obtain ⟨still, last, most, held, within⟩ | ⟨whole, tokens, ends, within⟩ :=
        inductionHypothesis _ grown more held
      · refine .inl ⟨by simp [run, silent, still], last, most, held, ?_⟩
        simp only [List.length_cons]
        omega
      · refine .inr ⟨whole, tokens, by simp [run, silent, ends], ?_⟩
        simp only [List.length_cons]
        omega
    · refine .inr ⟨value, _, by simp [run, ends]; rfl, ?_⟩
      simp only [List.length_cons]
      omega

/-- A text that ends after a literal has it. -/
theorem finish_ended (mode : Mode) (value : List UInt8) (past : Ended mode value) :
    ∃ tokens, finish mode = some (.literal value :: tokens) := by
  cases past <;> exact ⟨_, rfl⟩

/-- The only literal that a text can end in is the one that is being read. -/
theorem finish_held (mode : Mode) (value : List UInt8) (taken : Nat) (tokens : List Token)
    (held : Held mode value taken) (finished : finish mode = some tokens) :
    cost value < taken ∧ ∃ rest, tokens = .literal value :: rest := by
  cases held with
  | string => simp [finish] at finished
  | ended past =>
    obtain ⟨rest, finishes⟩ := finish_ended mode value past
    exact ⟨Nat.lt_succ_self _, rest, Option.some.inj (finished.symm.trans finishes)⟩

/-- Without a quote in what follows, an ended literal is over. -/
theorem lexFrom_ended (mode : Mode) (bytes value : List UInt8) (plain : quote ∉ bytes)
    (past : Ended mode value) (tokens : List Token) (read : lexFrom mode bytes = some tokens) :
    ∃ rest, tokens = .literal value :: rest := by
  induction bytes generalizing mode tokens with
  | nil =>
    obtain ⟨rest, finished⟩ := finish_ended mode value past
    exact ⟨rest, by simpa [lexFrom, run, finished] using read.symm⟩
  | cons byte bytes inductionHypothesis =>
    obtain ⟨other, later⟩ := not_or.mp (List.mem_cons.not.mp plain)
    rw [lexFrom_cons, Option.map_eq_some_iff] at read
    obtain ⟨rest, read, rfl⟩ := read
    obtain ⟨silent, past⟩ | ⟨first, ends⟩ := step_ended mode byte value (Ne.symm other) past
    · obtain ⟨last, rfl⟩ := inductionHypothesis _ later past rest read
      exact ⟨last, by simp [silent]⟩
    · exact ⟨first ++ rest, by simp [ends]⟩

/-- A literal is shorter than the text it is in. -/
theorem lexFrom_held (mode : Mode) (bytes value whole : List UInt8) (taken : Nat)
    (tokens : List Token) (held : Held mode value taken)
    (read : lexFrom mode bytes = some (.literal whole :: tokens)) :
    cost whole < taken + bytes.length := by
  rw [lexFrom, Option.map_eq_some_iff] at read
  obtain ⟨last, finished, read⟩ := read
  obtain ⟨silent, grown, more, held, bound⟩ | ⟨found, rest, ends, bound⟩ :=
    run_held mode bytes value taken held
  · obtain ⟨spent, rest, rfl⟩ := finish_held _ grown more last held finished
    obtain ⟨rfl, -⟩ : grown = whole ∧ rest = tokens := by simpa [silent] using read
    exact Nat.lt_of_lt_of_le spent bound
  · obtain ⟨rfl, -⟩ : found = whole ∧ rest ++ last = tokens := by simpa [ends] using read
    exact bound

/-- At the last quote of a text a literal is over, and no longer than what was read of it. -/
theorem lexFrom_held_quote (mode : Mode) (tail value : List UInt8) (taken : Nat)
    (tokens : List Token) (plain : quote ∉ tail) (held : Held mode value taken)
    (read : lexFrom mode (quote :: tail) = some tokens) :
    ∃ whole rest, tokens = .literal whole :: rest ∧ cost whole ≤ taken := by
  rw [lexFrom_cons, Option.map_eq_some_iff] at read
  obtain ⟨last, read, rfl⟩ := read
  cases held with
  | string =>
    obtain ⟨rest, rfl⟩ := lexFrom_ended _ tail value plain (.closing value) last
      (by simpa [step] using read)
    exact ⟨value, rest, by simp [step], Nat.le_refl _⟩
  | ended past =>
    obtain ⟨silent, opened | opened | past⟩ | ⟨first, ends⟩ := step_ended_quote mode value past
    · simp [opened, lexFrom_string _ tail plain] at read
    · simp [opened, lexFrom_string _ tail plain] at read
    · obtain ⟨rest, rfl⟩ := lexFrom_ended _ tail value plain past last read
      exact ⟨value, rest, by simp [silent], Nat.le_succ _⟩
    · exact ⟨value, first ++ last, by simp [ends], Nat.le_succ _⟩

/-! ## Quoting a value -/

/-- A value put between quotes is read as a literal with that value only if it has no quote
in it and is there to its end. -/
theorem plain_of_lexFrom (value tail : List UInt8) (size : Nat) (tokens : List Token)
    (plain : quote ∉ tail)
    (read : lexFrom (.string .standard []) ((value ++ quote :: tail).take size) =
      some (.literal value :: tokens)) :
    quote ∉ value ∧ value.length < size := by
  have priced : value.length ≤ cost value := Nat.le_add_right _ _
  have inside : value.length < size := by
    have spent := lexFrom_held _ _ _ value _ tokens (.string []) read
    have short := List.length_take_le size (value ++ quote :: tail)
    simp only [cost, List.length_nil, List.count_nil] at spent
    omega
  refine ⟨fun quoted => ?_, inside⟩
  have dear := length_lt_cost value quoted
  obtain ⟨rest, rfl⟩ : ∃ rest, size = value.length + (rest + 1) :=
    ⟨size - value.length - 1, by omega⟩
  rw [List.take_length_add_append, List.take_succ_cons, lexFrom_append,
    Option.map_eq_some_iff] at read
  obtain ⟨last, read, whole⟩ := read
  have later : quote ∉ tail.take rest := fun found => plain (List.mem_of_mem_take found)
  obtain ⟨silent, grown, more, held, bound⟩ | ⟨found, _, ends, bound⟩ :=
    run_held _ value [] _ (.string [])
  · obtain ⟨first, remains, rfl, within⟩ :=
      lexFrom_held_quote _ _ grown more last later held read
    obtain ⟨rfl, -⟩ : first = value ∧ remains = tokens := by simpa [silent] using whole
    simp only [cost, List.length_nil, List.count_nil] at bound
    omega
  · obtain ⟨rfl, -⟩ : found = value ∧ _ ++ last = tokens := by simpa [ends] using whole
    simp only [cost, List.length_nil, List.count_nil] at bound dear
    omega

/-- A value without a quote is read as it is written. -/
theorem lexFrom_plain (value tail : List UInt8) (plain : quote ∉ value) :
    lexFrom (.string .standard []) (value ++ quote :: tail) =
      lexFrom (.closing .standard value) tail := by
  simp [lexFrom_append, run_string [] value plain, lexFrom_cons, step]

end NetVirt.SqlTexts
