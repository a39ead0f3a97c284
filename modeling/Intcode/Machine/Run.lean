import Intcode.Machine.Step

/-!
# Running

`Machine.run` drives a machine to its end. It collects what the machine emits, and whenever the
machine waits for input it takes one value from a source; a source without values leaves the
machine waiting. `runProgram` runs a program on inputs that are all known in advance.
-/

namespace Intcode

variable [Allocator]

namespace Machine

/-- A run in progress. -/
structure Run where
  machine : Machine
  /-- The values that have not been asked for yet, the next one first. -/
  source : List Word
  /-- The values emitted so far. -/
  outputs : Array Word
  /-- How many times the source has been asked. -/
  polls : Nat
  deriving DecidableEq, Repr

/-- The start of a run. -/
def Run.start (m : Machine) (source : List Word) : Run := ⟨m, source, #[], 0⟩

/-- Hands the next value of the source to a machine that waits for input. -/
def Run.supply : Run → Run ⊕ Run × Stop
  | ⟨m, [], outputs, polls⟩ => .inr (⟨m, [], outputs, polls + 1⟩, .ok .awaitInput)
  | ⟨m, value :: source, outputs, polls⟩ => .inl ⟨m.pushInput value, source, outputs, polls + 1⟩

/-- Runs one instruction. A run ends when the machine halts, fails, or waits for input that the
source does not have. -/
def Run.advance : Run → Run ⊕ Run × Stop
  | ⟨m, source, outputs, polls⟩ =>
    match m.execute with
    | ⟨m, .ok none, _⟩ => .inl ⟨m, source, outputs, polls⟩
    | ⟨m, .ok (some (.output value)), _⟩ => .inl ⟨m, source, outputs.push value, polls⟩
    | ⟨m, .ok (some .awaitInput), _⟩ => Run.supply ⟨m, source, outputs, polls⟩
    | ⟨m, .ok (some .halted), _⟩ => .inr (⟨m, source, outputs, polls⟩, .ok .halted)
    | ⟨m, .error e, _⟩ => .inr (⟨m, source, outputs, polls⟩, .error e)

/-- Drives a machine until it halts, fails, or waits for input that the source does not have. -/
def run (fuel : Nat) (m : Machine) (source : List Word) : Option (Run × Stop) :=
  iterate Run.advance fuel (.start m source)

end Machine

/-- The values that a program emits on given inputs. To run out of inputs is an error. -/
def runProgram (fuel : Nat) (p : Program) (inputs : List Word) :
    Option (Except RuntimeError (List Word)) :=
  (((Machine.ofProgram p).extendInput inputs).run fuel []).map fun
    | (r, .ok .awaitInput) => .error (.inputExhausted r.machine.ip)
    | (r, .ok _) => .ok r.outputs.toList
    | (_, .error e) => .error e

end Intcode
