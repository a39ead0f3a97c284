import Intcode.Word

/-!
# Decoding errors

Why a word, a mode number or an operand index does not name what it should.
-/

namespace Intcode

/-- Why something about an instruction word cannot be read off. -/
inductive DecodeError where
  /-- No instruction has this code. -/
  | invalidOpcode (code : Word)
  /-- No addressing mode has this code. -/
  | invalidMode (code : Word)
  /-- An instruction word has no room for a mode at this index. -/
  | noSuchParameter (index : Nat)
  deriving DecidableEq, Repr

/-- The text of a decoding error. -/
def DecodeError.message : DecodeError → String
  | .invalidOpcode code => s!"invalid opcode: {code.render}"
  | .invalidMode code => s!"invalid parameter mode: {code.render}"
  | .noSuchParameter index => s!"no parameter {index}: instructions take at most 3"

end Intcode
