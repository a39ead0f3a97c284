import Intcode.Command.Input
import Intcode.Command.Log
import Intcode.Command.Output
import Intcode.Machine.Step

/-!
# Sessions

A program that runs on the command line: the machine, where its input comes from, where its output
goes, and what is said about the run. A session ends with a status, which is the exit code of the
program.
-/

namespace Intcode.Command

/-- How an invocation ends. -/
inductive Status where
  | success
  /-- The command line, a file or a value is not as it should be. -/
  | refused
  /-- The program waits for input that does not come. -/
  | starved
  /-- The machine has failed. -/
  | failed
  /-- The program has broken off, since the listing of a program could not be written. -/
  | aborted
  deriving DecidableEq, Repr

/-- The exit code of a status. -/
def Status.code : Status → Nat
  | .success => 0
  | .refused => 1
  | .starved => 2
  | .failed => 3
  | .aborted => 101

/-- What is said on the error stream, where log entries appear according to the verbosity. -/
structure Journal where
  verbosity : Verbosity
  lines : Array ErrorLine
  deriving DecidableEq, Repr

namespace Journal

/-- Nothing has been said. -/
def start (verbosity : Verbosity) : Journal := ⟨verbosity, #[]⟩

/-- Says a message. -/
def say (j : Journal) (text : String) : Journal := { j with lines := j.lines.push (.message text) }

/-- Says the last message, because the program breaks off. -/
def breakOff (j : Journal) (message : String) : Journal :=
  { j with lines := j.lines.push (.breakdown message) }

/-- Logs an entry, if the verbosity admits it. -/
def log (j : Journal) (entry : LogEntry) : Journal :=
  if j.verbosity.admits entry.level then { j with lines := j.lines.push (.log entry) } else j

/-- Logs what was watched while an instruction ran. -/
def watch (j : Journal) (notices : List Notice) : Journal :=
  notices.foldl (fun j n => j.log (.notice n)) j

end Journal

/-- A program that runs. -/
structure Session where
  machine : Machine
  source : InputSource
  output : Output
  journal : Journal
  deriving DecidableEq, Repr

namespace Session

/-- Hands an emitted value to the output, and ends the session if it is not taken. That nobody
reads any more is no failure. -/
def emit (s : Session) (value : Word) : Session ⊕ Session × Status :=
  match s.output.fault? with
  | none => .inl { s with output := s.output.push value.render }
  | some .closed =>
    .inr ({ s with journal := s.journal.log (.outputClosed s.machine.ip) }, .success)
  | some fault =>
    let complaint := s!"error: cannot write output: {fault.message}"
    .inr ({ s with journal := s.journal.say complaint }, .refused)

/-- What is said when no input value is left. -/
def complaint (s : Session) : String × Status :=
  match s.source.fault with
  | some fault => (s!"error: {fault.message}", .refused)
  | none =>
    (s!"error: program is waiting for input at instruction {s.machine.ip.render}", .starved)

/-- Hands the next input value to the machine, and ends the session if there is none. -/
def supply (s : Session) : Session ⊕ Session × Status :=
  match s.source.next with
  | (some value, source) => .inl { s with source, machine := s.machine.pushInput value }
  | (none, source) =>
    let s := { s with source }
    let (text, status) := s.complaint
    .inr ({ s with journal := s.journal.say text }, status)

/-- What is said when the machine fails. -/
def failureMessage (e : RuntimeError) : String := s!"runtime error: {e.message}"

variable [Allocator]

/-- Runs one instruction. -/
def advance : Session → Session ⊕ Session × Status
  | ⟨m, source, output, journal⟩ =>
    match m.execute with
    | ⟨m, result, notices⟩ =>
      let s : Session := ⟨m, source, output, journal.watch notices⟩
      match result with
      | .ok none => .inl s
      | .ok (some (.output value)) => s.emit value
      | .ok (some .awaitInput) => s.supply
      | .ok (some .halted) =>
        .inr ({ s with journal := s.journal.log (.programHalted s.machine.ip) }, .success)
      | .error e =>
        .inr ({ s with journal := s.journal.say (failureMessage e) }, .failed)

/-- Whether the next instruction can only go on if more input is read: it takes an input value, and
none has been read in advance. -/
def isStarving (s : Session) : Bool :=
  s.machine.wantsInput && s.source.queued.isEmpty && s.source.unread.isEmpty

/-- Runs a program until it ends, for at most `fuel` instructions. -/
def run (fuel : Nat) (s : Session) : Option (Session × Status) := iterate advance fuel s

end Session

end Intcode.Command
