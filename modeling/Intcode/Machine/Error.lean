import Intcode.Instruction.Error
import Intcode.Memory
import Intcode.Program

/-!
# Machine errors

What can go wrong when a machine is made and when it runs. An error of a running machine names the
address of the instruction that failed.
-/

namespace Intcode

/-- Why no machine can be made from a program text and a list of overrides. -/
inductive LoadError where
  /-- The text is no program. -/
  | parse (error : ParseError)
  /-- An override names an address that cannot be written. -/
  | override (error : AddressError)
  deriving DecidableEq, Repr

/-- The text of a loading error. -/
def LoadError.message : LoadError → String
  | .parse error => error.message
  | .override error => s!"override rejected: {error.message}"

/-- Why a running machine cannot go on. -/
inductive RuntimeError where
  /-- The instruction at `ip` reaches for a cell that does not exist or cannot be written. -/
  | invalidAddress (ip address : Word)
  /-- An operand of the instruction at `ip` has a mode that is unknown or not allowed there. -/
  | invalidMode (ip mode : Word)
  /-- The word at `ip` is no instruction. -/
  | invalidOpcode (ip code : Word)
  /-- The instruction at `ip` has a result that is not a word. -/
  | overflow (ip : Word)
  /-- The instruction at `ip` needs an input value and there are no more. -/
  | inputExhausted (ip : Word)
  /-- Every machine of a ring waits for another one. -/
  | deadlock
  deriving DecidableEq, Repr

/-- The text of a runtime error. -/
def RuntimeError.message : RuntimeError → String
  | .invalidAddress ip address =>
    s!"invalid memory address {address.render} at instruction {ip.render}"
  | .invalidMode ip mode => s!"invalid parameter mode {mode.render} at instruction {ip.render}"
  | .invalidOpcode ip code => s!"invalid opcode {code.render} at instruction {ip.render}"
  | .overflow ip => s!"arithmetic overflow at instruction {ip.render}"
  | .inputExhausted ip => s!"input exhausted at instruction {ip.render}"
  | .deadlock => "all machines blocked on input"

/-- The error of the instruction at `ip` whose word or mode digit is not understood. An operand
without room for its mode counts as having its index for a mode. -/
def DecodeError.atInstruction (ip : Word) : DecodeError → RuntimeError
  | .invalidOpcode code => .invalidOpcode ip code
  | .invalidMode code => .invalidMode ip code
  | .noSuchParameter index => .invalidMode ip (Int64.ofNat index)

end Intcode
