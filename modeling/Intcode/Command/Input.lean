import Intcode.Text.Blank
import Intcode.Text.Numeral

/-!
# Input values

Where a program that runs on the command line gets its input values from: first the values of the
command line, then the integers on standard input. Standard input is read a line at a time and only
when a value is needed.

Whatever cannot be read ends standard input. The values in front of it on the same line are queued,
but only the value that was asked for is still delivered.
-/

namespace Intcode.Command

/-- Why standard input cannot be read any further. -/
inductive InputFault where
  /-- A word is no numeral of a machine word. -/
  | invalidValue (token : String)
  /-- A line is not the UTF-8 form of a text. -/
  | notText
  deriving DecidableEq, Repr

/-- The text of a fault on standard input. -/
def InputFault.message : InputFault → String
  | .invalidValue token => s!"invalid input value '{token}'"
  | .notText => "cannot read stdin: stream did not contain valid UTF-8"

/-- The bytes of a line of standard input. -/
abbrev RawLine := List UInt8

/-- The lines of standard input. -/
def rawLines (bytes : ByteArray) : List RawLine := bytes.data.toList.splitOn 10

/-- What the input values come from. -/
structure InputSource where
  /-- The values that have been read, the next one first. -/
  queued : List Word
  /-- The lines of standard input that have not been read. There are none if standard input is not
  used, or not any more. -/
  unread : List RawLine
  fault : Option InputFault
  deriving DecidableEq, Repr

namespace InputSource

/-- The values up to the first word that is no numeral, and the fault of that word. -/
def readTokens : List (List Char) → List Word × Option InputFault
  | [] => ([], none)
  | token :: tokens =>
    match Text.Numeral.readDecimal token with
    | .error _ => ([], some (.invalidValue (String.ofList token)))
    | .ok value =>
      let (values, fault) := readTokens tokens
      (value :: values, fault)

/-- The values on a line of text. -/
def readText (text : String) : List Word × Option InputFault :=
  readTokens (Text.fields Text.isBlank text.toList)

/-- The values on a line. -/
def readLine (line : RawLine) : List Word × Option InputFault :=
  match String.fromUTF8? line.toByteArray with
  | some text => readText text
  | none => ([], some .notText)

/-- Reads lines until one has a value or cannot be read. -/
def refill : List RawLine → InputSource
  | [] => ⟨[], [], none⟩
  | line :: rest =>
    match readLine line with
    | (queued, some fault) => ⟨queued, [], some fault⟩
    | ([], none) => refill rest
    | (value :: values, none) => ⟨value :: values, rest, none⟩

/-- Takes the next value from the queue. -/
def pop : InputSource → Option Word × InputSource
  | ⟨[], unread, fault⟩ => (none, ⟨[], unread, fault⟩)
  | ⟨value :: queued, unread, fault⟩ => (some value, ⟨queued, unread, fault⟩)

/-- Takes the next value. After a fault there is none. -/
def next (s : InputSource) : Option Word × InputSource :=
  if s.fault.isSome then (none, s)
  else if s.queued.isEmpty then (refill s.unread).pop
  else s.pop

end InputSource

end Intcode.Command
