import Intcode.Machine.Operand

/-!
# Effects

What an instruction is about to do once its operands are known. The values it needs are read
before anything changes, so an effect says all about the change in store; `Machine.apply` carries
it out.

What an instruction makes known while it runs is a list of notices, in the order of the events.
-/

namespace Intcode

/-! ### What comes of an instruction -/

/-- What a machine tells whoever drives it. -/
inductive Event where
  /-- The next instruction needs an input value and none waits. -/
  | awaitInput
  /-- A value is emitted. -/
  | output (value : Word)
  /-- The machine has stopped for good. -/
  | halted
  deriving DecidableEq, Repr

/-- What can be watched while an instruction runs. -/
inductive Notice where
  /-- The word at `ip` is an instruction with this opcode. -/
  | decode (ip word : Word) (opcode : Opcode)
  /-- A value is about to be written, whether or not the address admits it. -/
  | store (address value : Word)
  /-- The instruction at `ip` finds no input. -/
  | awaitingInput (ip : Word)
  /-- The instruction at `ip` emits a value. -/
  | output (ip value : Word)
  /-- The instruction at `ip` stops the machine. -/
  | halt (ip : Word)
  deriving DecidableEq, Repr

/-- The outcome of one instruction: the machine after it, what it ended in, and what could be
watched. An instruction that completes without an event ends in `none`. -/
structure Step where
  machine : Machine
  result : Except RuntimeError (Option Event)
  notices : List Notice

/-! ### Effects -/

/-- What an instruction is about to do. -/
inductive Effect where
  /-- Write a value. -/
  | write (address value : Word)
  /-- Write the next input value. -/
  | receive (address : Word)
  /-- Emit a value. -/
  | emit (value : Word)
  /-- Go on somewhere else. -/
  | jump (target : Word)
  /-- Go on behind the instruction. -/
  | pass
  /-- Move the relative base. -/
  | rebase (base : Word)
  /-- Stop. -/
  | halt
  deriving DecidableEq, Repr

namespace Machine

/-! ### Finding the effect

Everything here only looks at the machine. The looks of an operation are made in a fixed order,
which shows in the error when two of them would fail. -/

/-- Reads what the instruction at `m.ip` needs and finds its effect. -/
def evaluate (m : Machine) (operands : Operands) : Opcode → Except RuntimeError Effect
  | .add => do
    let a ← m.load operands.first
    let b ← m.load operands.second
    let sum ← m.exactly (Word.add? a b)
    return .write operands.third sum
  | .mul => do
    let a ← m.load operands.first
    let b ← m.load operands.second
    let product ← m.exactly (Word.mul? a b)
    return .write operands.third product
  | .input => return .receive operands.first
  | .output => do
    let value ← m.load operands.first
    return .emit value
  | .jumpIfTrue => do
    let test ← m.load operands.first
    if test ≠ 0 then
      let target ← m.load operands.second
      return .jump target
    else
      return .pass
  | .jumpIfFalse => do
    let test ← m.load operands.first
    if test = 0 then
      let target ← m.load operands.second
      return .jump target
    else
      return .pass
  | .lessThan => do
    let a ← m.load operands.first
    let b ← m.load operands.second
    return .write operands.third (.ofBool (a < b))
  | .equals => do
    let a ← m.load operands.first
    let b ← m.load operands.second
    return .write operands.third (.ofBool (a = b))
  | .adjustBase => do
    let distance ← m.load operands.first
    let base ← m.exactly (Word.add? m.relativeBase distance)
    return .rebase base
  | .halt => return .halt

/-! ### Carrying it out

From here on the allocator matters: a value for an address in range is stored only if there is room.
A rejected store leaves the counter behind the instruction, and an input value that was taken for it
stays taken. -/

variable [Allocator]

/-- Writes a value on behalf of the instruction at `ip`, after which the machine stands behind
that instruction. -/
def store (m : Machine) (ip address value : Word) : Step :=
  if m.memory.accepts address then
    { machine := { m with memory := m.memory.store address.toNatClampNeg value }
      result := .ok none
      notices := [.store address value] }
  else
    { machine := m
      result := .error (.invalidAddress ip address)
      notices := [.store address value] }

/-- Carries out the effect of the instruction at `m.ip`, behind which the next instruction is at
`next`. -/
def apply (m : Machine) (next : Word) : Effect → Step
  | .write address value => { m with ip := next }.store m.ip address value
  | .receive address =>
    match m.input with
    | [] => ⟨m, .ok (some .awaitInput), [.awaitingInput m.ip]⟩
    | value :: rest => { m with ip := next, input := rest }.store m.ip address value
  | .emit value => ⟨{ m with ip := next }, .ok (some (.output value)), [.output m.ip value]⟩
  | .jump target => ⟨{ m with ip := target }, .ok none, []⟩
  | .pass => ⟨{ m with ip := next }, .ok none, []⟩
  | .rebase base => ⟨{ m with ip := next, relativeBase := base }, .ok none, []⟩
  | .halt => ⟨{ m with halted := true }, .ok (some .halted), [.halt m.ip]⟩

end Machine

end Intcode
