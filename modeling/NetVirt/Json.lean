/-!
# Strings in JSON documents

The strings that `json_string` accepts are the valid UTF-8 texts: no stray or missing
continuation byte, no overlong form, no surrogate and nothing past U+10FFFF. For any
other bytes it returns NULL, and `json_object_set_new` then fails.
-/

namespace NetVirt.Json

/-- The code point being read: how many bytes are missing, its bits so far, and the least
value that needs an encoding of this length. -/
structure CodePoint where
  missing : Nat
  value : Nat
  least : Nat
deriving DecidableEq

/-- Between two code points. -/
def CodePoint.none : CodePoint := { missing := 0, value := 0, least := 0 }

/-- The first byte of a code point decides how many follow. -/
def utf8CheckFirst (byte : UInt8) : Option CodePoint :=
  if byte < 0x80 then some .none
  else if byte < 0xC2 then Option.none
  else if byte < 0xE0 then some { missing := 1, value := byte.toNat % 32, least := 0x80 }
  else if byte < 0xF0 then some { missing := 2, value := byte.toNat % 16, least := 0x800 }
  else if byte < 0xF5 then some { missing := 3, value := byte.toNat % 8, least := 0x10000 }
  else Option.none

/-- Read one byte: a continuation byte while some are missing, else a first byte. -/
def utf8Step (point : CodePoint) (byte : UInt8) : Option CodePoint :=
  match point.missing with
  | 0 => utf8CheckFirst byte
  | missing + 1 =>
    let value := point.value * 64 + byte.toNat % 64
    if byte < 0x80 ∨ 0xC0 ≤ byte then Option.none
    else if missing = 0 ∧ (value < point.least ∨ 0x10FFFF < value ∨
      (0xD800 ≤ value ∧ value ≤ 0xDFFF)) then Option.none
    else some { point with missing := missing, value := value }

/-- The bytes are a whole number of code points. -/
def utf8Check (bytes : List UInt8) : Bool :=
  match bytes.foldlM utf8Step .none with
  | some point => point.missing == 0
  | Option.none => false

/-- `json_string`: NULL unless the bytes are UTF-8. -/
def jsonString (bytes : List UInt8) : Option (List UInt8) :=
  if utf8Check bytes then some bytes else Option.none

end NetVirt.Json
