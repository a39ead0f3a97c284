import Intcode.Command.Invocation

/-!
# The program

The outermost layer: orders are planned from the contents of real files, and plans are carried out
on the real file system and the standard streams. Standard input is read when a running program
needs it, and output is written as soon as it is emitted.
-/

namespace Intcode.Command

/-- What the system says about a file, in the words of the file tree. -/
def fileError : IO.Error → FileError
  | .noFileOrDirectory _ _ _ => .missing
  | .inappropriateType _ _ "not a directory" => .notDirectory
  | .inappropriateType _ _ "is a directory" => .isDirectory
  | .permissionDenied _ code _ => .refused s!"Permission denied (os error {code})"
  | e => .refused (toString e)

/-- What the system says about a write to a stream. -/
def writeFault : IO.Error → WriteFault
  | .resourceVanished _ _ => .closed
  | .resourceExhausted _ _ _ => .full
  | e => .refused (toString e)

/-- Reads the text of a real file. -/
def readRealText (path : String) : IO (Except FileError String) := do
  try
    let contents ← IO.FS.readBinFile path
    return textOf contents
  catch e =>
    return .error (fileError e)

/-- Reads the bytes of a line up to its line feed; `none` at the end of the stream. -/
partial def readRawLine (stream : IO.FS.Stream) (read : RawLine) : IO (Option RawLine) := do
  let bytes ← stream.read 1
  match bytes.data.toList with
  | [] => return if read.isEmpty then none else some read.reverse
  | 10 :: _ => return some read.reverse
  | byte :: _ => readRawLine stream (byte :: read)

/-- Reads lines until one has an input value or cannot be read. -/
partial def refillFrom (stream : IO.FS.Stream) : IO (Option InputSource) := do
  match ← readRawLine stream [] with
  | none => return none
  | some line =>
    let source := InputSource.refill [line]
    if source.queued.isEmpty && source.fault.isNone then refillFrom stream else return some source

/-- Writes what a session has said and forgets it. -/
def flush (s : Session) : IO Session := do
  for line in s.journal.lines do
    IO.eprintln line.render
  return { s with journal := .start s.journal.verbosity }

/-- Writes what a session has emitted and forgets it. A write that fails makes every later one
fail. -/
def flushOutput (s : Session) : IO Session := do
  for line in s.output.lines do
    IO.println line
  return { s with output := .unlimited }

/-- Runs a program on the standard streams. `stdin` is there as long as it may have more input. -/
partial def runReal (s : Session) (stdin : Option IO.FS.Stream) : IO Status := do
  match stdin with
  | some stream =>
    if s.isStarving then
      match ← refillFrom stream with
      | some source => runReal { s with source } (if source.fault.isSome then none else stdin)
      | none => runReal s none
    else
      advanceReal s stdin
  | none => advanceReal s none
where
  /-- Runs one instruction, and writes what comes of it. -/
  advanceReal (s : Session) (stdin : Option IO.FS.Stream) : IO Status := do
    match s.advance with
    | .inl s =>
      let s ← flush s
      match ← (flushOutput s).toBaseIO with
      | .ok s => runReal s stdin
      | .error e =>
        match writeFault e with
        | .closed =>
          let _ ← flush { s with journal := s.journal.log (.outputClosed s.machine.ip) }
          return .success
        | fault =>
          IO.eprintln s!"error: cannot write output: {fault.message}"
          return .refused
    | .inr (s, status) =>
      let _ ← flush s
      return status

/-- Prints lines one after the other. -/
def printAll (lines : List String) : IO Unit := lines.forM fun line => IO.println line

/-- Says why nothing is done. -/
def complain (message : String) : IO Status := do
  IO.eprintln message
  return .refused

/-- Carries out a plan for real. -/
def Plan.performReal (request : Request) : Plan → IO Status
  | .giveUp message => complain message
  | .run m words => do
    let s ← flush (startSession request m words (request.order.source []) .unlimited)
    let stream ← IO.getStdin
    runReal s (if request.order.readsStdin then some stream else none)
  | .print lines => do
    match ← (printAll lines).toBaseIO with
    | .ok _ => return .success
    | .error e =>
      IO.eprintln (ErrorLine.breakdown (unprinted (writeFault e))).render
      return .aborted
  | .save path p => do
    try
      IO.FS.writeBinFile path (savedText p).toUTF8
      IO.eprintln (savedMessage path p)
      return .success
    catch e =>
      complain (unwritable path (fileError e))

/-- Prints lines about the program, if anyone takes them. -/
def informReal (lines : List String) : IO Status := do
  let _ ← (printAll lines).toBaseIO
  return .success

/-- Carries out a command line for real. -/
def invokeReal (arguments : List String) : IO Status := do
  match readArguments arguments with
  | .ok request =>
    let text ← readRealText request.order.file
    (request.order.plan text).performReal request
  | .error .version => informReal [versionLine]
  | .error .help => informReal helpLines
  | .error (.usage e) => complain e.message

end Intcode.Command

/-- The program. -/
def main (arguments : List String) : IO UInt32 := do
  let status ← Intcode.Command.invokeReal arguments
  return status.code.toUInt32
