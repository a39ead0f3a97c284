import Intcode.Text.Blank
import Intcode.Text.Numeral
import Intcode.Text.Quoted

/-!
# Programs

A program is a list of words. As text it is a list of decimal numerals with commas between them;
blanks around a numeral do not matter. The text of the empty program is empty, and reading never
gives that program: an empty text is refused.
-/

namespace Intcode

open Text

/-- The words that a machine starts with. -/
structure Program where
  words : List Word
  deriving DecidableEq, Repr, Inhabited

/-- Why a text is no program. -/
inductive ParseError where
  /-- There is nothing but blanks. -/
  | empty
  /-- The piece at this index, counted from zero, is not the numeral of a word. -/
  | invalidWord (index : Nat) (token : String)
  deriving DecidableEq, Repr

/-- The text of a program reading error. -/
def ParseError.message : ParseError → String
  | .empty => "empty program source"
  | .invalidWord index token => s!"invalid word {quote token} at index {index}"

namespace Program

/-- Reads a piece of program text, the one at `index`. -/
def readPiece (index : Nat) (piece : List Char) : Except ParseError Word :=
  match Numeral.readDecimal (trim piece) with
  | .ok word => .ok word
  | .error _ => .error (.invalidWord index (String.ofList (trim piece)))

/-- Reads pieces of program text, the first of which has this index. -/
def readPieces (index : Nat) : List (List Char) → Except ParseError (List Word)
  | [] => .ok []
  | piece :: pieces => do
    let word ← readPiece index piece
    let words ← readPieces (index + 1) pieces
    return word :: words

/-- Reads a program. -/
def parse (source : String) : Except ParseError Program :=
  match trim source.toList with
  | [] => .error .empty
  | body => Program.mk <$> readPieces 0 (body.splitOn ',')

/-- The text of a program: its words with commas between them. -/
def render (p : Program) : String :=
  String.ofList ([','].intercalate (p.words.map Word.digits))

end Program

end Intcode
