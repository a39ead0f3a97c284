/-!
# Output

Standard output as far as a program can tell: it takes lines, perhaps only so many, and after that
every write fails.
-/

namespace Intcode.Command

/-- Why a line cannot be written. -/
inductive WriteFault where
  /-- Nobody reads any more. -/
  | closed
  /-- There is no space left. -/
  | full
  /-- The system has another reason. -/
  | refused (reason : String)
  deriving DecidableEq, Repr

/-- The text of a write fault. -/
def WriteFault.message : WriteFault → String
  | .closed => "Broken pipe (os error 32)"
  | .full => "No space left on device (os error 28)"
  | .refused reason => reason

/-- The state of standard output. -/
structure Output where
  /-- The lines that have been taken. -/
  lines : Array String
  /-- How many lines are taken before every write fails, and how it then fails; without a limit
  every line is taken. -/
  limit : Option (Nat × WriteFault)
  deriving DecidableEq, Repr

namespace Output

/-- Output that takes every line. -/
def unlimited : Output := ⟨#[], none⟩

/-- Output that takes so many lines and then fails. -/
def limited (room : Nat) (fault : WriteFault) : Output := ⟨#[], some (room, fault)⟩

/-- The fault that the next write meets. -/
def fault? (o : Output) : Option WriteFault :=
  match o.limit with
  | some (room, fault) => if o.lines.size < room then none else some fault
  | none => none

/-- Adds a line, which must not meet a fault. -/
def push (o : Output) (line : String) : Output := { o with lines := o.lines.push line }

/-- Writes lines up to the first fault. -/
def pushAll (o : Output) : List String → Output × Option WriteFault
  | [] => (o, none)
  | line :: rest =>
    match o.fault? with
    | some fault => (o, some fault)
    | none => (o.push line).pushAll rest

/-- Everything that has been written. -/
def text (o : Output) : String := String.join (o.lines.toList.map (· ++ "\n"))

end Output

end Intcode.Command
