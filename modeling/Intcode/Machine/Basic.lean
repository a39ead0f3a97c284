import Intcode.Machine.Error

/-!
# Machines

The state of a machine, and how a machine is made from a program. Overrides are values that are
written into memory, one after the other, before the machine starts.
-/

namespace Intcode

/-- The state of a machine. -/
structure Machine where
  /-- The address of the next instruction. -/
  ip : Word
  /-- The address from which relative operands are counted. -/
  relativeBase : Word
  memory : Memory
  /-- The input values that wait to be read, the next one first. -/
  input : List Word
  /-- Whether the machine has stopped for good. -/
  halted : Bool
  deriving DecidableEq, Repr, Inhabited

/-- An address and the value to be written there. -/
abbrev Override := Word × Word

namespace Machine

/-- A machine at the start of a program. -/
def ofProgram (p : Program) : Machine :=
  { ip := 0, relativeBase := 0, memory := .load p.words, input := [], halted := false }

section Overrides

variable [Allocator]

/-- Writes overrides into memory, up to the first one that is refused. -/
def patch (memory : Memory) : List Override → Except AddressError Memory
  | [] => .ok memory
  | (address, value) :: rest => do
    let memory ← memory.write address value
    patch memory rest

/-- A machine at the start of a program with overrides. -/
def withOverrides (p : Program) (overrides : List Override) : Except AddressError Machine := do
  let memory ← patch (ofProgram p).memory overrides
  return { ofProgram p with memory }

/-- A machine at the start of a program given as text, with overrides. -/
def ofSource (source : String) (overrides : List Override) : Except LoadError Machine :=
  match Program.parse source with
  | .error e => .error (.parse e)
  | .ok p =>
    match withOverrides p overrides with
    | .error e => .error (.override e)
    | .ok m => .ok m

end Overrides

/-- Puts values behind the input that waits. -/
def extendInput (m : Machine) (values : List Word) : Machine :=
  { m with input := m.input ++ values }

/-- Puts one value behind the input that waits. -/
def pushInput (m : Machine) (value : Word) : Machine := m.extendInput [value]

end Machine

end Intcode
