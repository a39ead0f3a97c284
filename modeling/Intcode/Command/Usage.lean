import Intcode.Machine.Basic
import Intcode.Text.Terminal

/-!
# Usage

The commands of the program with their flags and options, and the ways in which a command line can
be wrong.
-/

namespace Intcode.Command

/-! ### Flags, options and commands -/

/-- A switch without a value. -/
inductive Flag where
  | help
  | version
  | verbose
  | trace
  | stdin
  deriving DecidableEq, Repr

/-- The name of a flag behind two dashes. -/
def Flag.long : Flag → String
  | .help => "help"
  | .version => "version"
  | .verbose => "verbose"
  | .trace => "trace"
  | .stdin => "stdin"

/-- The letter of a flag behind one dash. -/
def Flag.short? : Flag → Option Char
  | .help => some 'h'
  | .version => some 'V'
  | .verbose => some 'v'
  | .trace | .stdin => none

/-- The way a flag is shown. -/
def Flag.render (f : Flag) : String := "--" ++ f.long

/-- An option with a value. -/
inductive Setting where
  | input
  | override
  | output
  deriving DecidableEq, Repr

/-- The name of an option behind two dashes. -/
def Setting.long : Setting → String
  | .input => "input"
  | .override => "set"
  | .output => "output"

/-- The letter of an option behind one dash. -/
def Setting.short : Setting → Char
  | .input => 'i'
  | .override => 's'
  | .output => 'o'

/-- Whether the value of an option may start with a dash when it stands apart. -/
def Setting.takesDashes : Setting → Bool
  | .input => true
  | .override | .output => false

/-- Something that takes a value: an option, or the file that a command is about. -/
inductive Slot where
  | file
  | setting (s : Setting)
  deriving DecidableEq, Repr

/-- The way a slot is shown. -/
def Slot.render : Slot → String
  | .file => "<FILE>"
  | .setting .input => "--input <N>"
  | .setting .override => "--set <ADDR=VALUE>"
  | .setting .output => "--output <OUT>"

/-- The commands. -/
inductive Verb where
  | run
  | disassemble
  | assemble
  deriving DecidableEq, Repr

/-- The name of a command. -/
def Verb.name : Verb → String
  | .run => "run"
  | .disassemble => "disassemble"
  | .assemble => "assemble"

/-- Every command. -/
def Verb.all : List Verb := [.run, .disassemble, .assemble]

/-- The command with this name. -/
def Verb.ofName? (name : String) : Option Verb := all.find? (·.name == name)

/-- The flags that may stand behind a command, or in front of all commands. -/
def flags : Option Verb → List Flag
  | none => [.help, .version, .verbose, .trace]
  | some .run => [.help, .verbose, .trace, .stdin]
  | some .disassemble | some .assemble => [.help, .verbose, .trace]

/-- The options that may stand behind a command. -/
def settings : Option Verb → List Setting
  | some .run => [.input, .override]
  | some .assemble => [.output]
  | none | some .disassemble => []

/-! ### Errors -/

/-- Why the value of an option is refused. -/
inductive ValueFault where
  /-- The value is no numeral of a word. -/
  | numeral (fault : Text.Numeral.Fault)
  /-- An override has no equals sign. -/
  | noEquals (text : String)
  /-- The address of an override is no numeral of a word. -/
  | overrideAddress (text : String)
  /-- The value of an override is no numeral of a word. -/
  | overrideValue (text : String)
  deriving DecidableEq, Repr

/-- The text of a fault in a value. -/
def ValueFault.message : ValueFault → String
  | .numeral fault => fault.message
  | .noEquals text => s!"expected ADDR=VALUE, got '{text}'"
  | .overrideAddress text => s!"invalid address '{text}'"
  | .overrideValue text => s!"invalid value '{text}'"

/-- Why a command line is refused. -/
inductive UsageError where
  /-- There is nothing on it. -/
  | nothing
  /-- There are flags and no command. -/
  | noCommand
  /-- A word stands where a command is expected and names none. -/
  | unknownCommand (name : String)
  /-- An argument has no place. -/
  | unexpectedArgument (argument : String)
  /-- A flag is given a value. -/
  | unexpectedValue (value : String) (flag : Flag)
  /-- The command is not told its file. -/
  | noFile
  /-- A slot is left without a value, or with an empty one where that is no value. -/
  | noValue (slot : Slot)
  /-- The value of an option cannot be read. -/
  | invalidValue (value : String) (setting : Setting) (fault : ValueFault)
  /-- A flag is repeated. -/
  | repeatedFlag (flag : Flag)
  /-- An option that takes one value is repeated. -/
  | repeatedSetting (setting : Setting)
  deriving DecidableEq, Repr

/-- The text of a usage error. -/
def UsageError.message : UsageError → String
  | .nothing => "Command-line runner, assembler and disassembler for intvm programs"
  | .noCommand => "error: 'intvm' requires a subcommand but one was not provided"
  | .unknownCommand name => s!"error: unrecognized subcommand '{name}'"
  | .unexpectedArgument argument => s!"error: unexpected argument '{argument}' found"
  | .unexpectedValue value flag =>
    s!"error: unexpected value '{value}' for '{flag.render}' found; no more were expected"
  | .noFile => "error: the following required arguments were not provided:"
  | .noValue slot => s!"error: a value is required for '{slot.render}' but none was supplied"
  | .invalidValue value setting fault =>
    s!"error: invalid value '{value}' for '{(Slot.setting setting).render}': {fault.message}"
  | .repeatedFlag flag => s!"error: the argument '{flag.render}' cannot be used multiple times"
  | .repeatedSetting setting =>
    s!"error: the argument '{(Slot.setting setting).render}' cannot be used multiple times"

/-- The first line of the text of a usage error, without the terminal commands that may have come
in with a value. A value may hold line feeds, too. -/
def UsageError.headline (e : UsageError) : String :=
  String.ofList ((Text.silence e.message).toList.takeWhile (· != '\n'))

end Intcode.Command
