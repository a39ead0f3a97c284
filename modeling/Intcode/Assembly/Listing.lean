import Intcode.Assembly.Statement
import Intcode.Program

/-!
# Listings

The canonical assembly text of a program. From the first word on, words are shown as an instruction
if the line for it assembles to just these words; a word where that is not so is shown as data, and
the search goes on behind it. Neighbouring data make one line.
-/

namespace Intcode.Assembly

/-- The operands of an instruction from the one at `index` on, if every one has a mode that it may
have. -/
def shownOperands? (i : Instruction) (index : Nat) : List Word → Option (List Operand)
  | [] => some []
  | value :: values =>
    match i.mode index with
    | .error _ => none
    | .ok mode =>
      if i.opcode.admits index mode then
        (shownOperands? i (index + 1) values).map (⟨mode, value⟩ :: ·)
      else
        none

/-- Whether the operands that an instruction does not have are left at mode zero, and its word has
no digit in front of the modes. -/
def isCanonical (i : Instruction) (word : Word) : Bool :=
  i.encode == word && (i.modes.toList.drop i.opcode.operandCount).all (· == 0)

/-- The instruction that stands at the head of a row of words, if there is one that can be shown. -/
def instructionAhead? : List Word → Option (Opcode × List Operand)
  | [] => none
  | word :: rest =>
    match Instruction.decode word with
    | .error _ => none
    | .ok i =>
      if isCanonical i word && i.opcode.operandCount ≤ rest.length then
        (shownOperands? i 0 (rest.take i.opcode.operandCount)).map (i.opcode, ·)
      else
        none

/-- Goes through a row of words, the first `skip` of which belong to an instruction already shown.
Each word that is no part of an instruction makes a statement of its own. -/
def sweep (skip : Nat) : List Word → List Statement
  | [] => []
  | word :: rest =>
    match skip with
    | skip + 1 => sweep skip rest
    | 0 =>
      match instructionAhead? (word :: rest) with
      | some (op, operands) => .instruction op operands :: sweep op.operandCount rest
      | none => .data [word] :: sweep 0 rest

/-- Puts a statement in front of others, joined to the first one if both are data. -/
def joinData : Statement → List Statement → List Statement
  | .data a, .data b :: rest => .data (a ++ b) :: rest
  | s, rest => s :: rest

/-- Joining data loses no word. -/
theorem words_joinData (s : Statement) (ss : List Statement) :
    (joinData s ss).flatMap Statement.words = s.words ++ ss.flatMap Statement.words := by
  unfold joinData
  split
  · simp [Statement.words]
  · rfl

/-- The statements that a row of words is shown as. -/
def statements (words : List Word) : List Statement := (sweep 0 words).foldr joinData []

/-- The text of statements, one on each line. -/
def renderStatements (ss : List Statement) : List Char := ss.flatMap fun s => s.chars ++ ['\n']

/-- The canonical text of a program. -/
def disassemble (p : Program) : String := String.ofList (renderStatements (statements p.words))

end Intcode.Assembly
