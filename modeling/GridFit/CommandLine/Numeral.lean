import GridFit.Value

/-!
# Numerals in arguments

An integer is written in decimal digits, with a sign in front if need be. Every type
of setting accepts the integers of its own range only.
-/

namespace GridFit.Numeral

/-- The number that one more decimal digit makes of a number. -/
def addDigit (n? : Option Nat) (c : Char) : Option Nat :=
  match n? with
  | none => none
  | some n => if '0' ≤ c ∧ c ≤ '9' then some (n * 10 + (c.toNat - '0'.toNat)) else none

/-- The number that a non-empty sequence of decimal digits spells. -/
def digits? (cs : List Char) : Option Nat :=
  if cs.isEmpty then none else cs.foldl addDigit (some 0)

/-- The integer that a text spells, with an optional sign of either kind. -/
def signed? (text : String) : Option Int :=
  match text.toList with
  | '-' :: cs => (digits? cs).map fun (n : Nat) => -(n : Int)
  | '+' :: cs => (digits? cs).map fun (n : Nat) => (n : Int)
  | cs => (digits? cs).map fun (n : Nat) => (n : Int)

/-- The number that a text spells without a minus sign. -/
def unsigned? (text : String) : Option Nat :=
  match text.toList with
  | '+' :: cs => digits? cs
  | cs => digits? cs

/-- The size that a text spells: a number of at most 64 bits without a minus sign. -/
def size? (text : String) : Option Nat := do
  let n ← unsigned? text
  if n < 18446744073709551616 then some n else none

/-- The value that a text spells. -/
def value? (text : String) : Option Value := do
  let n ← signed? text
  if -2147483648 ≤ n ∧ n ≤ 2147483647 then some (Int32.ofInt n) else none

/-- The 16-bit number that a text spells. -/
def uint16? (text : String) : Option UInt16 := do
  let n ← signed? text
  if 0 ≤ n ∧ n ≤ 65535 then some (UInt16.ofNat n.toNat) else none

end GridFit.Numeral
