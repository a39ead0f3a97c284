import Intcode.Instruction.Error

/-!
# Opcodes

The ten instructions: their codes, their mnemonics, how many operands each takes and which of
them it writes to. `Opcode.decode_eq_ok_iff` says that decoding a code inverts `Opcode.code`.
-/

namespace Intcode

/-- What an instruction does. -/
inductive Opcode where
  /-- Writes the sum of two values. -/
  | add
  /-- Writes the product of two values. -/
  | mul
  /-- Writes the next input value. -/
  | input
  /-- Emits a value. -/
  | output
  /-- Jumps if a value is not zero. -/
  | jumpIfTrue
  /-- Jumps if a value is zero. -/
  | jumpIfFalse
  /-- Writes whether one value is below another. -/
  | lessThan
  /-- Writes whether two values are equal. -/
  | equals
  /-- Moves the relative base. -/
  | adjustBase
  /-- Stops the machine. -/
  | halt
  deriving DecidableEq, Repr

namespace Opcode

/-- Every opcode, in the order of their codes. -/
def all : List Opcode :=
  [.add, .mul, .input, .output, .jumpIfTrue, .jumpIfFalse, .lessThan, .equals, .adjustBase, .halt]

/-- The number that stands for an opcode in the last two decimal digits of an instruction word. -/
def code : Opcode → Word
  | .add => 1
  | .mul => 2
  | .input => 3
  | .output => 4
  | .jumpIfTrue => 5
  | .jumpIfFalse => 6
  | .lessThan => 7
  | .equals => 8
  | .adjustBase => 9
  | .halt => 99

/-- The name of an opcode in assembly text. -/
def mnemonic : Opcode → String
  | .add => "ADD"
  | .mul => "MUL"
  | .input => "IN"
  | .output => "OUT"
  | .jumpIfTrue => "JNZ"
  | .jumpIfFalse => "JZ"
  | .lessThan => "LT"
  | .equals => "EQ"
  | .adjustBase => "ARB"
  | .halt => "HALT"

/-- The number of operands, which are the words after the instruction word. -/
def operandCount : Opcode → Nat
  | .add | .mul | .lessThan | .equals => 3
  | .jumpIfTrue | .jumpIfFalse => 2
  | .input | .output | .adjustBase => 1
  | .halt => 0

/-- The index of the operand that names the cell to write, for an opcode that writes one. -/
def writeOperand? : Opcode → Option Nat
  | .add | .mul | .lessThan | .equals => some 2
  | .input => some 0
  | .output | .jumpIfTrue | .jumpIfFalse | .adjustBase | .halt => none

/-- The opcode with this code. -/
def decode (code : Word) : Except DecodeError Opcode :=
  match all.find? (·.code == code) with
  | some op => .ok op
  | none => .error (.invalidOpcode code)

/-- The opcode with this mnemonic, which is written in capitals. -/
def ofMnemonic? (name : String) : Option Opcode := all.find? (·.mnemonic == name)

theorem mem_all (op : Opcode) : op ∈ all := by
  cases op <;> decide

theorem operandCount_le (op : Opcode) : op.operandCount ≤ 3 := by
  cases op <;> decide

theorem code_injective {a b : Opcode} (h : a.code = b.code) : a = b := by
  revert h
  cases a <;> cases b <;> decide

theorem decode_eq_ok_iff {w : Word} {op : Opcode} : decode w = .ok op ↔ op.code = w := by
  unfold decode
  constructor
  · intro h
    split at h
    · next found heq =>
      cases h
      simpa using List.find?_some heq
    · contradiction
  · rintro rfl
    cases op <;> rfl

@[simp] theorem decode_code (op : Opcode) : decode op.code = .ok op :=
  decode_eq_ok_iff.mpr rfl

theorem mnemonic_injective {a b : Opcode} (h : a.mnemonic = b.mnemonic) : a = b := by
  revert h
  cases a <;> cases b <;> decide

theorem ofMnemonic?_eq_some_iff {name : String} {op : Opcode} :
    ofMnemonic? name = some op ↔ op.mnemonic = name := by
  unfold ofMnemonic?
  constructor
  · intro h
    simpa using List.find?_some h
  · rintro rfl
    cases op <;> rfl

end Opcode

end Intcode
