import Intcode.Iteration
import Intcode.Machine.Effect

/-!
# Stepping

`Machine.execute` runs one instruction. It goes through four phases: the word is fetched and
decoded, the operands are addressed, the effect is found, and the effect is carried out. A fault in
the first two leaves the machine as it is; a fault in the third finds it behind the instruction
already.

`Machine.step` runs instructions up to the next event or error.
-/

namespace Intcode.Machine

variable [Allocator]

/-- Runs the decoded instruction at `m.ip`. -/
def executeDecoded (m : Machine) (i : Instruction) : Step :=
  match m.operands i with
  | .error e => ⟨m, .error e, []⟩
  | .ok operands =>
    match m.ahead (1 + i.opcode.operandCount) with
    | .error e => ⟨m, .error e, []⟩
    | .ok next =>
      match m.evaluate operands i.opcode with
      | .error e => ⟨{ m with ip := next }, .error e, []⟩
      | .ok effect => m.apply next effect

/-- Runs the instruction whose word has been fetched. -/
def executeWord (m : Machine) (word : Word) : Step :=
  match m.decode word with
  | .error e => ⟨m, .error e, []⟩
  | .ok i =>
    let decoded := Notice.decode m.ip word i.opcode
    let s := m.executeDecoded i
    ⟨s.machine, s.result, decoded :: s.notices⟩

/-- Runs one instruction. A machine that has halted stays as it is. -/
def execute (m : Machine) : Step :=
  if m.halted then
    ⟨m, .ok (some .halted), []⟩
  else
    match m.fetch with
    | .error e => ⟨m, .error e, []⟩
    | .ok word => m.executeWord word

/-- What a machine stops for: an event or an error. -/
abbrev Stop := Except RuntimeError Event

/-- Runs one instruction of a machine that is to be run up to its next event. -/
def advance (m : Machine) : Machine ⊕ Machine × Stop :=
  match m.execute with
  | ⟨m, .ok none, _⟩ => .inl m
  | ⟨m, .ok (some event), _⟩ => .inr (m, .ok event)
  | ⟨m, .error e, _⟩ => .inr (m, .error e)

/-- Runs instructions until one ends in an event or an error. -/
def step (fuel : Nat) (m : Machine) : Option (Machine × Stop) := iterate advance fuel m

end Intcode.Machine
