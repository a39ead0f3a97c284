import Intcode.Instruction.Opcode
import Intcode.Instruction.Mode

/-!
# Instructions

The contents of an instruction word: from the right, two decimal digits for the opcode and one
digit for the mode of each of three operands. The digits are kept as they are read, whether or not
they denote modes, since an instruction may ignore the digits of operands that it does not have.
-/

namespace Intcode

/-- Whether the operand at `index` may have this mode. An operand that is written to cannot be
immediate: its own cell is no place for a result. -/
def Opcode.admits (op : Opcode) (index : Nat) (mode : Mode) : Bool :=
  !(mode == .immediate && op.writeOperand? == some index)

/-- An opcode and the three mode digits beside it. -/
structure Instruction where
  opcode : Opcode
  modes : Vector Word 3
  deriving DecidableEq, Repr

namespace Instruction

/-- The number of operands whose modes fit into an instruction word. -/
def maxOperands : Nat := 3

/-- The digit for the mode at `index` in a list of modes. -/
def modeDigit (modes : List Mode) (index : Nat) : Word := (modes.getD index .fallback).code

/-- An instruction whose operands have these modes. Operands without a mode get the fallback, and
modes after the third are ignored. -/
def ofModes (opcode : Opcode) (modes : List Mode) : Instruction :=
  ⟨opcode, #v[modeDigit modes 0, modeDigit modes 1, modeDigit modes 2]⟩

/-- Takes an instruction word apart. -/
def decode (word : Word) : Except DecodeError Instruction := do
  let opcode ← Opcode.decode (word % 100)
  return ⟨opcode, #v[word / 100 % 10, word / 1000 % 10, word / 10000 % 10]⟩

/-- The word of an instruction. -/
def encode (i : Instruction) : Word :=
  i.opcode.code + i.modes[0] * (100 : Word) + i.modes[1] * (1000 : Word) +
    i.modes[2] * (10000 : Word)

/-- The mode of the operand at `index`. -/
def mode (i : Instruction) (index : Nat) : Except DecodeError Mode :=
  match i.modes[index]? with
  | some digit => Mode.decode digit
  | none => .error (.noSuchParameter index)

theorem mode_eq_ok_iff {i : Instruction} {index : Nat} (h : index < 3) {mode : Mode} :
    i.mode index = .ok mode ↔ i.modes[index] = mode.code := by
  unfold Instruction.mode
  rw [Vector.getElem?_eq_getElem h]
  exact Mode.decode_eq_ok_iff.trans eq_comm

end Instruction

end Intcode
