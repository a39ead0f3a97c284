import Intcode.Instruction.Basic
import Intcode.Machine.Basic

/-!
# Fetching

The part of an instruction's execution that only looks: the word at the instruction pointer is
decoded, every operand is turned into the address of the cell it stands for, and the address of
the instruction behind is computed. A fault in this part leaves the machine as it is.
-/

namespace Intcode.Machine

/-- The value at an address, on behalf of the instruction at `m.ip`. -/
def load (m : Machine) (address : Word) : Except RuntimeError Word :=
  match m.memory.read address with
  | .ok value => .ok value
  | .error e => .error (.invalidAddress m.ip e.address)

/-- Demands that an exact result is a word, on behalf of the instruction at `m.ip`. -/
def exactly (m : Machine) : Option Word → Except RuntimeError Word
  | some value => .ok value
  | none => .error (.overflow m.ip)

/-- The word at the instruction pointer. -/
def fetch (m : Machine) : Except RuntimeError Word := m.load m.ip

/-- Takes a fetched word apart. -/
def decode (m : Machine) (word : Word) : Except RuntimeError Instruction :=
  match Instruction.decode word with
  | .ok i => .ok i
  | .error e => .error (e.atInstruction m.ip)

/-- Whether the next instruction takes an input value and none waits. -/
def wantsInput (m : Machine) : Bool :=
  m.input.isEmpty && !m.halted &&
    match m.fetch with
    | .error _ => false
    | .ok word =>
      match m.decode word with
      | .error _ => false
      | .ok i => i.opcode == .input

/-- The mode of an operand. -/
def operandMode (m : Machine) (i : Instruction) (index : Nat) : Except RuntimeError Mode :=
  match i.mode index with
  | .ok mode => .ok mode
  | .error e => .error (e.atInstruction m.ip)

/-- The address of the word `distance` cells behind the instruction pointer. -/
def ahead (m : Machine) (distance : Nat) : Except RuntimeError Word :=
  m.exactly (Word.add? m.ip (Int64.ofNat distance))

/-- The address of the cell that an operand stands for. -/
def operandAddress (m : Machine) (i : Instruction) (index : Nat) : Except RuntimeError Word := do
  let mode ← m.operandMode i index
  let cell ← m.ahead (index + 1)
  match mode with
  | .immediate =>
    if i.opcode.admits index .immediate then .ok cell
    else .error (.invalidMode m.ip Mode.immediate.code)
  | .position => m.load cell
  | .relative => do
    let distance ← m.load cell
    m.exactly (Word.add? m.relativeBase distance)

/-- The addresses of the operands of an instruction. An operand that the opcode does not have is
zero. -/
structure Operands where
  first : Word
  second : Word
  third : Word
  deriving DecidableEq, Repr

/-- The address for an operand, or zero if the opcode has no operand at this index. -/
def operandOrZero (m : Machine) (i : Instruction) (index : Nat) : Except RuntimeError Word :=
  if index < i.opcode.operandCount then m.operandAddress i index else .ok 0

/-- The addresses of all operands, found in their order. -/
def operands (m : Machine) (i : Instruction) : Except RuntimeError Operands := do
  let first ← m.operandOrZero i 0
  let second ← m.operandOrZero i 1
  let third ← m.operandOrZero i 2
  return ⟨first, second, third⟩

end Intcode.Machine
