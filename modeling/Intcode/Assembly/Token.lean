import Intcode.Instruction.Mode
import Intcode.Text.Blank
import Intcode.Text.Numeral
import Intcode.Text.Uppercase

/-!
# Tokens

The words of an assembly line. A word that starts like a number is an operand, with `#` in front
for immediate and `@` for relative mode; every other word is a name, which is read without regard
to case. Words are separated by blanks and commas, and a semicolon ends the line.
-/

namespace Intcode

open Text

/-- An operand as it is written: a number and how it is meant. -/
structure Operand where
  mode : Mode
  value : Word
  deriving DecidableEq, Repr

/-- The sign in front of an operand that tells its mode. -/
def Mode.sigil : Mode → List Char
  | .position => []
  | .immediate => ['#']
  | .relative => ['@']

/-- The canonical text of an operand. -/
def Operand.chars (o : Operand) : List Char := o.mode.sigil ++ o.value.digits

namespace Assembly

/-- A word of an assembly line. -/
inductive Token where
  | operand (operand : Operand)
  /-- A name, in capitals. -/
  | name (name : String)
  deriving DecidableEq, Repr

namespace Token

/-- The canonical text of a token. -/
def render : Token → String
  | .operand o => String.ofList o.chars
  | .name text => text

/-- Reads the number of an operand. After `0x` it is hexadecimal, and a sign then follows. -/
def readNumber (cs : List Char) : Except Numeral.Fault Word :=
  match cs with
  | '0' :: 'x' :: rest => Numeral.read 16 rest
  | '0' :: 'X' :: rest => Numeral.read 16 rest
  | cs => Numeral.readDecimal cs

/-- Reads an operand of this mode, if the text is a number. -/
def readOperand? (mode : Mode) (cs : List Char) : Option Token :=
  match readNumber cs with
  | .ok value => some (.operand ⟨mode, value⟩)
  | .error _ => none

/-- Whether a word that starts with this character is a number without a sigil. -/
def startsNumber (c : Char) : Bool := c.isDigit || c == '-' || c == '+'

/-- A word that is a name. -/
def ofName (word : List Char) : Token := .name (String.ofList (upper word))

/-- Reads a word. There is no token for a word that starts like a number and is none. -/
def read? (word : List Char) : Option Token :=
  match word with
  | '#' :: rest => readOperand? .immediate rest
  | '@' :: rest => readOperand? .relative rest
  | c :: rest =>
    if startsNumber c then readOperand? .position (c :: rest) else some (ofName (c :: rest))
  | [] => some (ofName [])

end Token

/-- Whether a character stands between words. -/
def isSeparator (c : Char) : Bool := isBlank c || c == ','

/-- Whether a character ends the words of a line. -/
def isComment (c : Char) : Bool := c == ';'

/-- The words of a line, up to its comment. -/
def lineWords (line : List Char) : List (List Char) :=
  fields isSeparator (line.takeWhile fun c => !isComment c)

end Assembly

end Intcode
