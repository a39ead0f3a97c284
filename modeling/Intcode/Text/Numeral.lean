import Intcode.Word

/-!
# Numerals

Reading a signed numeral as a word. A numeral is an optional sign and then one or more digits of
the base; leading zeros do not matter. The digits are read from the left, so of two faults the
first one in the text is reported.
-/

namespace Intcode.Text.Numeral

open Intcode

/-- Why a text is no numeral of a word. -/
inductive Fault where
  /-- There is no character at all. -/
  | empty
  /-- A character that should be a digit is none, or a sign stands alone. -/
  | invalidDigit
  /-- The number is above the greatest word. -/
  | tooLarge
  /-- The number is below the least word. -/
  | tooSmall
  deriving DecidableEq, Repr

/-- What is said about a text that is no numeral. -/
def Fault.message : Fault → String
  | .empty => "cannot parse integer from empty string"
  | .invalidDigit => "invalid digit found in string"
  | .tooLarge => "number too large to fit in target type"
  | .tooSmall => "number too small to fit in target type"

/-- The value of an ASCII digit or, for bases above ten, of an ASCII letter of either case. -/
def digitValue? (base : Nat) (c : Char) : Option Nat :=
  let n := c.toNat
  let value :=
    if 0x30 ≤ n ∧ n ≤ 0x39 then some (n - 0x30)
    else if 0x41 ≤ n ∧ n ≤ 0x5A then some (n - 0x41 + 10)
    else if 0x61 ≤ n ∧ n ≤ 0x7A then some (n - 0x61 + 10)
    else none
  value.filter (· < base)

/-- Whether a numeral counts up or down from zero. -/
inductive Sign where
  | plus
  | minus
  deriving DecidableEq, Repr

/-- The signed value of a digit. -/
def Sign.apply : Sign → Nat → Int
  | .plus, n => n
  | .minus, n => -n

/-- The fault of a numeral of this sign that leaves the range of words. -/
def Sign.overflow : Sign → Fault
  | .plus => .tooLarge
  | .minus => .tooSmall

/-- Reads digits after those that denote `acc`. -/
def readDigits (base : Nat) (sign : Sign) (acc : Word) : List Char → Except Fault Word
  | [] => .ok acc
  | c :: cs =>
    match digitValue? base c with
    | none => .error .invalidDigit
    | some d =>
      match Word.ofInt? (acc.toInt * base + sign.apply d) with
      | none => .error sign.overflow
      | some next => readDigits base sign next cs

/-- Reads the digits of a numeral, of which there must be at least one. -/
def readUnsigned (base : Nat) (sign : Sign) : List Char → Except Fault Word
  | [] => .error .invalidDigit
  | cs => readDigits base sign 0 cs

/-- Reads a numeral with an optional sign. -/
def read (base : Nat) : List Char → Except Fault Word
  | [] => .error .empty
  | '+' :: cs => readUnsigned base .plus cs
  | '-' :: cs => readUnsigned base .minus cs
  | cs => readDigits base .plus 0 cs

/-- Reads a decimal numeral with an optional sign. -/
def readDecimal (cs : List Char) : Except Fault Word := read 10 cs

end Intcode.Text.Numeral
