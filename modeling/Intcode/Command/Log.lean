import Intcode.Command.Arguments
import Intcode.Machine.Effect
import Intcode.Text.Terminal

/-!
# Log

The records on the error stream. Some are messages, which always appear; most are log entries,
each of which has a level and appears if the verbosity admits that level. When the program breaks off
in the middle, it is the runtime that tells of it, and what it writes around the message is not part
of the program.
-/

namespace Intcode.Command

/-- How important a log entry is. -/
inductive Level where
  | info
  | debug
  | trace
  deriving DecidableEq, Repr

/-- The name of a level, in five columns. -/
def Level.render : Level → String
  | .info => " INFO"
  | .debug => "DEBUG"
  | .trace => "TRACE"

/-- Whether entries of a level appear. -/
def Verbosity.admits : Verbosity → Level → Bool
  | .quiet, _ => false
  | .verbose, level => level != .trace
  | .trace, _ => true

/-- What is logged. -/
inductive LogEntry where
  /-- A program of so many words has been read from a file. -/
  | loaded (file : String) (words : Nat)
  /-- What is watched while an instruction runs. -/
  | notice (n : Notice)
  /-- The machine stopped at the instruction at `ip`. -/
  | programHalted (ip : Word)
  /-- Nobody reads the output any more; the next instruction would have been at `ip`. -/
  | outputClosed (ip : Word)
  deriving DecidableEq, Repr

namespace LogEntry

/-- The level of an entry. -/
def level : LogEntry → Level
  | .loaded _ _ => .info
  | .notice (.decode _ _ _) | .notice (.store _ _) => .trace
  | .notice (.awaitingInput _) | .notice (.output _ _) | .notice (.halt _) => .debug
  | .programHalted _ | .outputClosed _ => .debug

/-- The message of an entry. -/
def message : LogEntry → String
  | .loaded file _ => "loaded " ++ Text.disarm file
  | .notice (.decode _ _ _) => "decode"
  | .notice (.store _ _) => "store"
  | .notice (.awaitingInput _) => "awaiting input"
  | .notice (.output _ _) => "output"
  | .notice (.halt _) => "halt"
  | .programHalted _ => "program halted"
  | .outputClosed _ => "output closed, stopping"

/-- The fields of an entry: their names and their values. -/
def fields : LogEntry → List (String × String)
  | .loaded _ words => [("words", toString words)]
  | .notice (.decode ip word op) =>
    [("ip", ip.render), ("word", word.render), ("opcode", Text.quote op.mnemonic)]
  | .notice (.store address value) => [("addr", address.render), ("value", value.render)]
  | .notice (.awaitingInput ip) | .notice (.halt ip) => [("ip", ip.render)]
  | .notice (.output ip value) => [("ip", ip.render), ("value", value.render)]
  | .programHalted ip | .outputClosed ip => [("ip", ip.render)]

/-- The line of an entry. -/
def render (e : LogEntry) : String :=
  e.level.render ++ " " ++ e.message ++
    String.join (e.fields.map fun (name, value) => s!" {name}={value}")

end LogEntry

/-! ### The error stream -/

/-- What runs the program. It may write more than the message that the program breaks off with, such
as where that was. -/
class Runtime where
  /-- The text that tells that the program breaks off with a message. -/
  breakdown (message : String) : String

/-- The runtime that only writes the message. -/
instance (priority := low) Runtime.terse : Runtime := ⟨id⟩

/-- A record on the error stream. -/
inductive ErrorLine where
  | message (text : String)
  | log (entry : LogEntry)
  /-- The program breaks off. -/
  | breakdown (text : String)
  deriving DecidableEq, Repr

section Texts

variable [Runtime]

/-- The text of a record on the error stream. -/
def ErrorLine.render : ErrorLine → String
  | .message text => text
  | .log entry => entry.render
  | .breakdown text => Runtime.breakdown text

/-- The text of records on the error stream. -/
def ErrorLine.renderAll (lines : List ErrorLine) : String :=
  String.join (lines.map (·.render ++ "\n"))

end Texts

end Intcode.Command
