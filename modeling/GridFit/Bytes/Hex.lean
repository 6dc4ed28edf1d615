/-!
# Hexadecimal text

Bytes are written as pairs of hexadecimal digits. Reading ignores blanks,
wherever they stand, and accepts digits of either case.
-/

namespace GridFit.Hex

/-- Why a text is not a sequence of bytes. -/
inductive HexError where
  /-- A character is neither blank nor a digit. -/
  | notADigit (c : Char)
  /-- The last digit has no partner. -/
  | oddLength
deriving DecidableEq, Repr

/-- The text of a hexadecimal reading error. -/
def HexError.message : HexError → String
  | .notADigit c => s!"'{c}' is not a hex digit"
  | .oddLength => "odd number of digits"

/-- The blanks of the format: space, tab, line feed, form feed and carriage return. -/
def isBlank (c : Char) : Bool :=
  c == ' ' || c == '\t' || c == '\n' || c == '\x0c' || c == '\r'

/-- The value of a hexadecimal digit of either case. -/
def digit? (c : Char) : Option UInt8 :=
  if '0' ≤ c ∧ c ≤ '9' then some (UInt8.ofNat (c.toNat - '0'.toNat))
  else if 'a' ≤ c ∧ c ≤ 'f' then some (UInt8.ofNat (c.toNat - 'a'.toNat + 10))
  else if 'A' ≤ c ∧ c ≤ 'F' then some (UInt8.ofNat (c.toNat - 'A'.toNat + 10))
  else none

/-- The values of the characters, or the first of them that is not a digit. -/
def digits : List Char → Except HexError (List UInt8)
  | [] => .ok []
  | c :: rest =>
      match digit? c with
      | none => .error (.notADigit c)
      | some d =>
          match digits rest with
          | .ok ds => .ok (d :: ds)
          | .error e => .error e

/-- Joins digits to bytes, the high half of each byte first. -/
def pairs : List UInt8 → Except HexError (List UInt8)
  | [] => .ok []
  | [_] => .error .oddLength
  | high :: low :: rest =>
      match pairs rest with
      | .ok bytes => .ok ((high * 16 + low) :: bytes)
      | .error e => .error e

/-- Reads a text of hexadecimal digits and blanks. A character that does not
belong is reported before an odd number of digits. -/
def decode (text : String) : Except HexError (List UInt8) :=
  match digits (text.toList.filter fun c => !isBlank c) with
  | .ok ds => pairs ds
  | .error e => .error e

/-- The lower-case digit of a value below sixteen. -/
def digitChar (n : UInt8) : Char :=
  if n < 10 then Char.ofNat ('0'.toNat + n.toNat) else Char.ofNat ('a'.toNat + n.toNat - 10)

/-- The two lower-case digits of a byte. -/
def encodeByte (b : UInt8) : List Char :=
  [digitChar (b / 16), digitChar (b % 16)]

/-- The lower-case hexadecimal text of a byte sequence. -/
def encode (bytes : List UInt8) : String :=
  String.ofList (bytes.flatMap encodeByte)

end GridFit.Hex
