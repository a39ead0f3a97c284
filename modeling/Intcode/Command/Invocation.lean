import Intcode.Assembly.Listing
import Intcode.Assembly.Source
import Intcode.Command.FileTree
import Intcode.Command.Session

/-!
# Invocations

One invocation of the program from its arguments to its exit code. An order is first turned into a
plan by looking at its file; a plan says all that is left to do, and only carrying it out touches
the surroundings. `invoke` carries plans out on a described surrounding.
-/

namespace Intcode.Command

/-! ### Fixed texts and messages -/

/-- What is printed for the version flag. -/
def versionLine : String := "intvm 0.1.0"

/-- What is printed for the help flag. -/
def helpLines : List String := [
  "Resumable integer-program virtual machine",
  "",
  "Usage: intvm [OPTIONS] <COMMAND>",
  "",
  "Commands:",
  "  run          Execute a comma-separated program, printing one output per line",
  "  disassemble  Print a program as mnemonic assembly text",
  "  assemble     Translate mnemonic assembly text to comma-separated source",
  "",
  "Options:",
  "  -v, --verbose  Log decoded events at debug level",
  "      --trace    Log every instruction",
  "  -h, --help     Print help",
  "  -V, --version  Print version"]

/-- The message about a file that cannot be read. -/
def unreadable (file : String) (e : FileError) : String :=
  s!"error: cannot read '{file}': {e.message}"

/-- What is said after an assembled program has been written. -/
def savedMessage (path : String) (p : Program) : String :=
  s!"assembled {p.words.length} words -> {path}"

/-- The message about a file that cannot be written. -/
def unwritable (path : String) (e : FileError) : String :=
  s!"error: cannot write '{path}': {e.message}"

/-- The message that a listing breaks off with. -/
def unprinted (fault : WriteFault) : String := s!"failed printing to stdout: {fault.message}"

/-! ### Plans

A plan depends on the arguments and on the text of one file. It fixes the message of every failure
that comes before the run. -/

/-- What is left to do for an order once its file has been looked at. -/
inductive Plan where
  /-- Give up with a message. -/
  | giveUp (message : String)
  /-- Run a machine made from a program of so many words. -/
  | run (machine : Machine) (words : Nat)
  /-- Print the lines of a listing. -/
  | print (lines : List String)
  /-- Write an assembled program to a file. -/
  | save (path : String) (program : Program)
  deriving DecidableEq, Repr

/-- The program in the text of a file, or what is to be said if there is none. -/
def programOf (file : String) (text : Except FileError String) : Except String Program :=
  match text with
  | .error e => .error (unreadable file e)
  | .ok text =>
    match Program.parse text with
    | .error e => .error s!"error: invalid program '{file}': {e.message}"
    | .ok p => .ok p

variable [Allocator]

/-- The plan for running a program. -/
def planRun (options : RunOptions) (text : Except FileError String) : Plan :=
  match programOf options.file text with
  | .error message => .giveUp message
  | .ok p =>
    match Machine.withOverrides p options.overrides with
    | .error e => .giveUp s!"error: {e.message}"
    | .ok m => .run m p.words.length

/-- The lines of the canonical assembly text of a program. -/
def listing (p : Program) : List String :=
  (Assembly.statements p.words).map fun s => String.ofList s.chars

/-- The plan for showing a program. -/
def planDisassemble (file : String) (text : Except FileError String) : Plan :=
  match programOf file text with
  | .error message => .giveUp message
  | .ok p => .print (listing p)

/-- The file that an assembled program goes to. -/
def outputPath (file : String) (output : Option String) : String :=
  output.getD (Path.withExtension file "int")

/-- The plan for assembling a text. A text is not replaced by its own program, as far as the
spelling of the paths tells. -/
def planAssemble (file : String) (output : Option String) (text : Except FileError String) : Plan :=
  let path := outputPath file output
  if Path.alike path file then
    .giveUp s!"error: refusing to overwrite input '{file}'; pass -o"
  else
    match text with
    | .error e => .giveUp (unreadable file e)
    | .ok text =>
      match Assembly.assemble text with
      | .error e => .giveUp s!"error: {e.message}"
      | .ok p => .save path p

/-- The plan for an order, given the text of its file. -/
def Order.plan (order : Order) (text : Except FileError String) : Plan :=
  match order with
  | .run options => planRun options text
  | .disassemble file => planDisassemble file text
  | .assemble file output => planAssemble file output text

/-! ### Carrying out plans

Each plan touches one thing outside: a run reads standard input and writes its outputs, a listing is
printed, a program is saved. All of it is in the report. -/

/-- Whether an order takes input values from standard input. -/
def Order.readsStdin : Order → Bool
  | .run options => options.stdin
  | .disassemble _ | .assemble _ _ => false

/-- The input values on the command line. -/
def Order.inputs : Order → List Word
  | .run options => options.inputs
  | .disassemble _ | .assemble _ _ => []

/-- Where the input values of an order come from, given the lines of standard input. -/
def Order.source (order : Order) (lines : List RawLine) : InputSource :=
  ⟨order.inputs, if order.readsStdin then lines else [], none⟩

/-- What an assembled program is written as. -/
def savedText (p : Program) : String := p.render ++ "\n"

/-- The session that runs a machine. -/
def startSession (request : Request) (m : Machine) (words : Nat) (source : InputSource)
    (output : Output) : Session :=
  ⟨m, source, output, (Journal.start request.verbosity).log (.loaded request.order.file words)⟩

/-- What an invocation finds around it. -/
structure Surroundings where
  files : FileTree
  stdin : ByteArray
  output : Output

/-- What an invocation leaves behind. -/
structure Report where
  status : Status
  output : Output
  /-- What has been said on the error stream. -/
  errors : List ErrorLine
  files : FileTree
  /-- Why the command line was refused, if it was. -/
  refusal : Option UsageError

/-- The text on the error stream. Of the refusal of a command line it is the first line, without a
line feed. -/
def Report.errorText [Runtime] (r : Report) : String :=
  match r.refusal with
  | some e => e.headline
  | none => ErrorLine.renderAll r.errors

/-- The report of an order that changes no file. -/
def Surroundings.report (around : Surroundings) (status : Status) (output : Output)
    (journal : Journal) : Report :=
  ⟨status, output, journal.lines.toList, around.files, none⟩

/-- Carries out a plan. -/
def Plan.perform (fuel : Nat) (request : Request) (around : Surroundings) : Plan → Option Report
  | .giveUp message =>
    some (around.report .refused around.output ((Journal.start request.verbosity).say message))
  | .run m words =>
    let source := request.order.source (rawLines around.stdin)
    let session := startSession request m words source around.output
    (session.run fuel).map fun (s, status) => around.report status s.output s.journal
  | .print lines =>
    match around.output.pushAll lines with
    | (output, none) => some (around.report .success output (.start request.verbosity))
    | (output, some fault) =>
      let journal := (Journal.start request.verbosity).breakOff (unprinted fault)
      some (around.report .aborted output journal)
  | .save path p =>
    match around.files.write path (savedText p).toUTF8 with
    | .error e =>
      let journal := (Journal.start request.verbosity).say (unwritable path e)
      some (around.report .refused around.output journal)
    | .ok files =>
      let journal := (Journal.start request.verbosity).say (savedMessage path p)
      some { around.report .success around.output journal with files }

/-- Carries out a request. -/
def Request.perform (fuel : Nat) (request : Request) (around : Surroundings) : Option Report :=
  (request.order.plan (around.files.readText request.order.file)).perform fuel request around

/-- The report of an invocation that only prints something about the program, written or not. -/
def Surroundings.inform (around : Surroundings) (lines : List String) : Report :=
  around.report .success (around.output.pushAll lines).1 (.start .quiet)

/-- The report of a refused command line. -/
def Surroundings.refuse (around : Surroundings) (e : UsageError) : Report :=
  ⟨.refused, around.output, [], around.files, some e⟩

/-- Invokes the program. A program that it runs gets at most `fuel` instructions. -/
def invoke (fuel : Nat) (arguments : List String) (around : Surroundings) : Option Report :=
  match readArguments arguments with
  | .ok request => request.perform fuel around
  | .error .version => some (around.inform [versionLine])
  | .error .help => some (around.inform helpLines)
  | .error (.usage e) => some (around.refuse e)

end Intcode.Command
