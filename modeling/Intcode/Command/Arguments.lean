import Intcode.Command.Usage

/-!
# Arguments

Reading a command line from the left. An option may have its value attached (`--input=5`, `-i5`,
`-i=5`) or as the next argument; flags of one letter may share a dash; behind `--` every argument
is plain.

A value that stands apart, and the file of a command, are looked at late: only when the next flag,
option or plain argument finds its place, or at the end. So an argument that has no place is
reported before a bad value in front of it.
-/

namespace Intcode.Command

/-! ### Values -/

/-- What the arguments behind a command, or those in front of it, have said so far. -/
structure Collected where
  flags : List Flag
  inputs : List Word
  overrides : List Override
  output : Option String
  file : Option String
  deriving DecidableEq, Repr

/-- Nothing has been said. -/
def Collected.none : Collected := ⟨[], [], [], .none, .none⟩

/-- Why the reading of a command line ends early. -/
inductive Interruption where
  | usage (error : UsageError)
  | help
  | version
  deriving DecidableEq, Repr

/-- Refuses a command line. -/
def refuse {α : Type} (e : UsageError) : Except Interruption α := .error (.usage e)

/-- Reads an override: an address and a value around the first equals sign, with blanks allowed
around both. -/
def readOverride (text : String) : Except ValueFault Override :=
  let cs := text.toList
  match cs.dropWhile (· != '=') with
  | [] => .error (.noEquals text)
  | _equals :: value =>
    let address := cs.takeWhile (· != '=')
    match Text.Numeral.readDecimal (Text.trim address) with
    | .error _ => .error (.overrideAddress (String.ofList address))
    | .ok a =>
      match Text.Numeral.readDecimal (Text.trim value) with
      | .error _ => .error (.overrideValue (String.ofList value))
      | .ok v => .ok (a, v)

/-- Takes the value of a slot. -/
def Collected.store (c : Collected) (value : String) : Slot → Except Interruption Collected
  | .file =>
    if value.isEmpty then refuse (.noValue .file) else .ok { c with file := some value }
  | .setting .output =>
    if c.output.isSome then refuse (.repeatedSetting .output)
    else if value.isEmpty then refuse (.noValue (.setting .output))
    else .ok { c with output := some value }
  | .setting .input =>
    match Text.Numeral.readDecimal value.toList with
    | .ok word => .ok { c with inputs := c.inputs ++ [word] }
    | .error fault => refuse (.invalidValue value .input (.numeral fault))
  | .setting .override =>
    match readOverride value with
    | .ok override => .ok { c with overrides := c.overrides ++ [override] }
    | .error fault => refuse (.invalidValue value .override fault)

/-- Takes a flag. -/
def Collected.raise (c : Collected) : Flag → Except Interruption Collected
  | .help => .error .help
  | .version => .error .version
  | flag =>
    if flag ∈ c.flags then refuse (.repeatedFlag flag) else .ok { c with flags := flag :: c.flags }

/-! ### Reading the arguments of one command

The reading goes on argument by argument with at most one value pending. -/

/-- A slot whose value has not been looked at. -/
structure Pending where
  slot : Slot
  /-- The value, unless it is still awaited. -/
  value : Option String
  deriving DecidableEq, Repr

/-- The reading of the arguments behind a command, or of those in front of it. -/
structure Reading where
  verb : Option Verb
  collected : Collected
  pending : Option Pending
  /-- Whether `--` has been read. -/
  plain : Bool
  deriving DecidableEq, Repr

namespace Reading

/-- The start of a reading. -/
def start (verb : Option Verb) : Reading := ⟨verb, .none, none, false⟩

/-- Looks at the value that is pending. -/
def settle (r : Reading) : Except Interruption Reading :=
  match r.pending with
  | none => .ok r
  | some ⟨slot, none⟩ => refuse (.noValue slot)
  | some ⟨slot, some value⟩ => do
    let collected ← r.collected.store value slot
    return { r with collected, pending := none }

/-- The option that awaits its value. -/
def awaiting? (r : Reading) : Option Setting :=
  match r.pending with
  | some ⟨.setting s, none⟩ => if r.plain then none else some s
  | _ => none

/-- Whether the command has its file. -/
def hasFile (r : Reading) : Bool :=
  r.collected.file.isSome || (r.pending.map Pending.slot) == some .file

/-- Takes a flag. -/
def takeFlag (r : Reading) (flag : Flag) : Except Interruption Reading := do
  let r ← r.settle
  let collected ← r.collected.raise flag
  return { r with collected }

/-- Takes an option with the value attached to it, if there is one. -/
def takeSetting (r : Reading) (s : Setting) (attached : Option String) :
    Except Interruption Reading := do
  let r ← r.settle
  match attached with
  | some value =>
    let collected ← r.collected.store value (.setting s)
    return { r with collected }
  | none => return { r with pending := some ⟨.setting s, none⟩ }

/-- Takes an argument with two dashes, given its name and the value attached to it. -/
def takeLong (r : Reading) (name : String) (attached : Option String) :
    Except Interruption Reading :=
  match (flags r.verb).find? (·.long == name) with
  | some flag =>
    match attached with
    | some value => refuse (.unexpectedValue value flag)
    | none => r.takeFlag flag
  | none =>
    match (settings r.verb).find? (·.long == name) with
    | some s => r.takeSetting s attached
    | none => refuse (.unexpectedArgument ("--" ++ name))

/-- The value attached to the letter of an option: what follows the letter, without the equals
sign that may stand between. -/
def attachedTo : List Char → Option String
  | [] => none
  | '=' :: value => some (String.ofList value)
  | value => some (String.ofList value)

/-- Takes letters that share a dash. -/
def takeLetters (r : Reading) : List Char → Except Interruption Reading
  | [] => .ok r
  | c :: rest =>
    match (flags r.verb).find? (·.short? == some c) with
    | some flag => do
      let r ← r.takeFlag flag
      r.takeLetters rest
    | none =>
      match (settings r.verb).find? (·.short == c) with
      | some s => r.takeSetting s (attachedTo rest)
      | none => refuse (.unexpectedArgument (String.ofList ['-', c]))

/-- Whether an argument is more than a dash and starts with one. -/
def isDashed (argument : String) : Bool :=
  match argument.toList with
  | '-' :: _ :: _ => true
  | _ => false

/-- Takes an argument that starts with a dash. -/
def takeDashed (r : Reading) (argument : String) : Except Interruption Reading :=
  match argument.toList with
  | ['-', '-'] => .ok { r with plain := true }
  | '-' :: '-' :: rest =>
    match rest.dropWhile (· != '=') with
    | [] => r.takeLong (String.ofList rest) none
    | _equals :: value =>
      r.takeLong (String.ofList (rest.takeWhile (· != '='))) (some (String.ofList value))
  | _dash :: letters => r.takeLetters letters
  | [] => .ok r

/-- Takes the file of a command. -/
def takeFile (r : Reading) (argument : String) : Except Interruption Reading := do
  if r.hasFile then
    refuse (.unexpectedArgument argument)
  else
    let r ← r.settle
    return { r with pending := some ⟨.file, some argument⟩ }

/-- Takes an argument behind a command. -/
def take (r : Reading) (argument : String) : Except Interruption Reading :=
  match r.awaiting? with
  | some s =>
    if s.takesDashes || !isDashed argument then
      .ok { r with pending := some ⟨.setting s, some argument⟩ }
    else
      r.takeDashed argument
  | none => if isDashed argument && !r.plain then r.takeDashed argument else r.takeFile argument

/-- Takes all arguments behind a command. -/
def takeAll (r : Reading) : List String → Except Interruption Reading
  | [] => r.settle
  | argument :: rest => do
    let r ← r.take argument
    r.takeAll rest

end Reading

/-! ### Command lines

Flags may stand in front of the command, too, and count as if they stood behind it. -/

/-- What is asked of a run. -/
structure RunOptions where
  file : String
  inputs : List Word
  overrides : List Override
  stdin : Bool
  deriving DecidableEq, Repr

/-- A command with all that it has been told. -/
inductive Order where
  | run (options : RunOptions)
  | disassemble (file : String)
  | assemble (file : String) (output : Option String)
  deriving DecidableEq, Repr

/-- The file that a command is about. -/
def Order.file : Order → String
  | .run options => options.file
  | .disassemble file => file
  | .assemble file _ => file

/-- How much is logged. -/
inductive Verbosity where
  | quiet
  | verbose
  | trace
  deriving DecidableEq, Repr

/-- The verbosity that flags ask for, of which tracing is the strongest. -/
def Verbosity.ofFlags (flags : List Flag) : Verbosity :=
  if .trace ∈ flags then .trace else if .verbose ∈ flags then .verbose else .quiet

/-- A command line that has been understood. -/
structure Request where
  verbosity : Verbosity
  order : Order
  deriving DecidableEq, Repr

/-- The order of a command that is given a file. -/
def orderOf (verb : Verb) (c : Collected) (file : String) : Order :=
  match verb with
  | .run => .run ⟨file, c.inputs, c.overrides, .stdin ∈ c.flags⟩
  | .disassemble => .disassemble file
  | .assemble => .assemble file c.output

/-- Reads the arguments behind a command. `before` are the flags in front of it. -/
def readOrder (verb : Verb) (before : List Flag) (arguments : List String) :
    Except Interruption Request := do
  let r ← (Reading.start (some verb)).takeAll arguments
  match r.collected.file with
  | none => refuse .noFile
  | some file => return ⟨.ofFlags (before ++ r.collected.flags), orderOf verb r.collected file⟩

/-- The name of the command that explains the others. -/
def helpName : String := "help"

/-- Whether a word names a command. -/
def isCommand (name : String) : Bool := (Verb.ofName? name).isSome || name == helpName

/-- Reads the arguments behind `help`, which name a command or nothing. -/
def readHelp : List String → Interruption
  | [] => .help
  | name :: rest =>
    if name == helpName then readHelp rest
    else if (Verb.ofName? name).isSome then
      match rest with
      | [] => .help
      | extra :: _ => .usage (.unknownCommand extra)
    else .usage (.unknownCommand name)

/-- Reads the arguments from a command on, or the flags in front of it. -/
def readFrom (r : Reading) : List String → Except Interruption Request
  | [] => if r.collected.flags.isEmpty then refuse .nothing else refuse .noCommand
  | argument :: rest =>
    if r.plain then
      refuse (if isCommand argument then .unexpectedArgument argument else .unknownCommand argument)
    else
      match Verb.ofName? argument with
      | some verb => readOrder verb r.collected.flags rest
      | none =>
        if argument == helpName then .error (readHelp rest)
        else if Reading.isDashed argument then do
          let r ← r.takeDashed argument
          readFrom r rest
        else
          refuse (.unknownCommand argument)

/-- Reads a command line. -/
def readArguments (arguments : List String) : Except Interruption Request :=
  readFrom (.start none) arguments

end Intcode.Command
