import Intcode.Assembly.Token
import Intcode.Instruction.Basic

/-!
# Statements

A line of assembly text is empty or a statement: an instruction with its operands, or a row of
words as data. A statement has two views, the words that it stands for (`Statement.words`) and its
canonical text (`Statement.chars`). `Statement.ofLine` reads a line.
-/

namespace Intcode.Assembly

/-- What a line stands for. -/
inductive Statement where
  | instruction (opcode : Opcode) (operands : List Operand)
  | data (words : List Word)
  deriving DecidableEq, Repr

/-! ### Faults -/

/-- Why a line is no statement. -/
inductive Fault where
  /-- The name is neither a mnemonic nor the name of the data statement. -/
  | unknownOpcode (name : String)
  /-- There are fewer operands than the statement needs. -/
  | missingArgument (mnemonic : String) (expected : Nat)
  /-- The word starts like a number and is none. -/
  | invalidNumber (word : String)
  /-- The token cannot stand where it does. -/
  | unexpectedToken (token : Token)
  /-- The operand that an instruction writes to is immediate. -/
  | immediateWrite (mnemonic : String)
  deriving DecidableEq, Repr

/-- The text of a fault, without the line. -/
def Fault.message : Fault → String
  | .unknownOpcode name => s!"unknown opcode '{name}'"
  | .missingArgument mnemonic expected => s!"{mnemonic} expects {expected} operand(s)"
  | .invalidNumber word => s!"invalid number '{word}'"
  | .unexpectedToken token => s!"unexpected token '{token.render}'"
  | .immediateWrite mnemonic => s!"{mnemonic} cannot write to an immediate operand"

/-- Reads the words of a line, up to the first one that is no token. -/
def readTokens : List (List Char) → Except Fault (List Token)
  | [] => .ok []
  | word :: words =>
    match Token.read? word with
    | none => .error (.invalidNumber (String.ofList word))
    | some token => do
      let tokens ← readTokens words
      return token :: tokens

namespace Statement

/-! ### The two views

The words are what a statement is assembled to, the characters are what it is listed as. -/

/-- The name of the data statement. -/
def dataName : String := "DATA"

/-- The words that a statement stands for. -/
def words : Statement → List Word
  | .instruction op operands =>
    (Instruction.ofModes op (operands.map Operand.mode)).encode :: operands.map Operand.value
  | .data words => words

/-- A name and the arguments behind it, with one space in front of each. -/
def spaced (name : String) (arguments : List (List Char)) : List Char :=
  name.toList ++ arguments.flatMap (' ' :: ·)

/-- The canonical text of a statement. -/
def chars : Statement → List Char
  | .instruction op operands => spaced op.mnemonic (operands.map Operand.chars)
  | .data words => spaced dataName (words.map Word.digits)

/-! ### Reading

A statement is read by its name first, then by the number of its arguments, then by each argument;
the first of these that is wrong is the fault. -/

/-- Reads the operands of an instruction from the one at `index` on. -/
def readOperands (op : Opcode) (index : Nat) : List Token → Except Fault (List Operand)
  | [] => .ok []
  | .name name :: _ => .error (.unexpectedToken (.name name))
  | .operand o :: rest =>
    if op.admits index o.mode then do
      let operands ← readOperands op (index + 1) rest
      return o :: operands
    else
      .error (.immediateWrite op.mnemonic)

/-- Reads the arguments of an instruction, which must be as many as it has operands. -/
def readArguments (op : Opcode) (arguments : List Token) : Except Fault Statement :=
  if arguments.length < op.operandCount then
    .error (.missingArgument op.mnemonic op.operandCount)
  else
    match arguments[op.operandCount]? with
    | some extra => .error (.unexpectedToken extra)
    | none => .instruction op <$> readOperands op 0 arguments

/-- Reads bare numbers. -/
def readData : List Token → Except Fault (List Word)
  | [] => .ok []
  | .operand ⟨.position, value⟩ :: rest => do
    let values ← readData rest
    return value :: values
  | token :: _ => .error (.unexpectedToken token)

/-- Reads the arguments of a data statement, of which there must be one at least. -/
def readDataArguments : List Token → Except Fault Statement
  | [] => .error (.missingArgument dataName 1)
  | arguments => .data <$> readData arguments

/-- Reads the tokens of a line that is not empty, of which the first must be a name. -/
def read (first : Token) (arguments : List Token) : Except Fault Statement :=
  match first with
  | .operand o => .error (.unexpectedToken (.operand o))
  | .name name =>
    if name = dataName then
      readDataArguments arguments
    else
      match Opcode.ofMnemonic? name with
      | none => .error (.unknownOpcode name)
      | some op => readArguments op arguments

/-- Reads the tokens of a line. A line without tokens is no statement and no fault. -/
def ofTokens : List Token → Except Fault (Option Statement)
  | [] => .ok none
  | first :: arguments => some <$> read first arguments

/-- Reads a line. -/
def ofLine (line : List Char) : Except Fault (Option Statement) := do
  let tokens ← readTokens (lineWords line)
  ofTokens tokens

end Statement

end Intcode.Assembly
