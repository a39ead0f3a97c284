import Intcode.Assembly.Statement
import Intcode.Program

/-!
# Assembly source

A text is assembled line by line: the program is the words of its statements in order. The first
line with a fault decides the error.
-/

namespace Intcode

/-- A fault and the line it is on, counted from one. -/
structure AssemblyError where
  line : Nat
  fault : Assembly.Fault
  deriving DecidableEq, Repr

/-- The text of an assembly error. -/
def AssemblyError.message (e : AssemblyError) : String := s!"line {e.line}: {e.fault.message}"

namespace Assembly

/-- The words of a line that may be empty. -/
def statementWords : Option Statement → List Word
  | none => []
  | some s => s.words

/-- Assembles lines, the first of which has this number. -/
def assembleLines (number : Nat) : List (List Char) → Except AssemblyError (List Word)
  | [] => .ok []
  | line :: lines =>
    match Statement.ofLine line with
    | .error fault => .error ⟨number, fault⟩
    | .ok statement => do
      let words ← assembleLines (number + 1) lines
      return statementWords statement ++ words

/-- Assembles a text. -/
def assemble (text : String) : Except AssemblyError Program :=
  Program.mk <$> assembleLines 1 (Text.lines text.toList)

end Assembly

end Intcode
