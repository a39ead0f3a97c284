import Intcode.Command.Invocation
import Intcode.Proofs.Session

/-!
# What an invocation can do

An invocation goes one of a few ways, and which one it is tells its whole report. Every fact about
all invocations is a case analysis over these ways.

* `Launches`, `Lists`, `Assembles` — a command line that comes to running a program, to printing
  one, to saving one;
* `Invokes`, `invoke_eq_some_iff` — the ways in which an invocation can go;
* `Launches.invoke_eq` — the report of a run is that of its session;
* `Session.Agrees.conclude_run` — sessions that get the same input have the same report.
-/

namespace Intcode.Command

variable [Allocator]

/-! ### Command lines that come to something

Each of the three structures says that everything has gone well up to the work of its command: the
arguments are understood, the file is read, and there is a program. What can go wrong after that is
told apart by the ways of the invocation. -/

/-- The lines of standard input that a run may read. -/
def RunOptions.lines (options : RunOptions) (stdin : ByteArray) : List RawLine :=
  if options.stdin then rawLines stdin else []

/-- A command line asks for a run, and the machine that is to be run can be made. -/
structure Launches (arguments : List String) (around : Surroundings) (request : Request)
    (options : RunOptions) (p : Program) (m : Machine) : Prop where
  understood : readArguments arguments = .ok request
  order : request.order = .run options
  program : ∃ text, around.files.readText options.file = .ok text ∧ Program.parse text = .ok p
  patched : Machine.withOverrides p options.overrides = .ok m

/-- A command line asks for the listing of a program, and the program can be read. -/
structure Lists (arguments : List String) (around : Surroundings) (request : Request)
    (file : String) (p : Program) : Prop where
  understood : readArguments arguments = .ok request
  order : request.order = .disassemble file
  program : ∃ text, around.files.readText file = .ok text ∧ Program.parse text = .ok p

/-- A command line asks for assembling a text to a path that is not spelt like its own, and the
text can be read and assembled. -/
structure Assembles (arguments : List String) (around : Surroundings) (request : Request)
    (file : String) (output : Option String) (p : Program) : Prop where
  understood : readArguments arguments = .ok request
  order : request.order = .assemble file output
  program : ∃ text, around.files.readText file = .ok text ∧ Assembly.assemble text = .ok p
  apart : Path.alike (outputPath file output) file = false

variable {arguments : List String} {around : Surroundings} {request : Request}
  {options : RunOptions} {p : Program} {m : Machine} {file : String} {output : Option String}

/-- The session that a command line comes to. -/
def Launches.session (_ : Launches arguments around request options p m) : Session :=
  startSession request m p.words.length ⟨options.inputs, options.lines around.stdin, none⟩
    around.output

/-! ### Plans

A request is planned from the text of its file alone. Either it gives up with a message, or it comes
to one of the three structures. -/

/-- A command line that launches a run plans this run. -/
theorem Launches.plan_eq (h : Launches arguments around request options p m) :
    request.order.plan (around.files.readText request.order.file) = .run m p.words.length := by
  obtain ⟨text, htext, hparse⟩ := h.program
  rw [h.order]
  unfold Order.plan Order.file planRun programOf
  simp only [htext, hparse, h.patched]

theorem Lists.plan_eq (h : Lists arguments around request file p) :
    request.order.plan (around.files.readText request.order.file) = .print (listing p) := by
  obtain ⟨text, htext, hparse⟩ := h.program
  rw [h.order]
  unfold Order.plan Order.file planDisassemble programOf
  simp only [htext, hparse]

theorem Assembles.plan_eq (h : Assembles arguments around request file output p) :
    request.order.plan (around.files.readText request.order.file) =
      .save (outputPath file output) p := by
  obtain ⟨text, htext, hassemble⟩ := h.program
  rw [h.order]
  unfold Order.plan Order.file planAssemble
  simp only [h.apart, htext, hassemble]
  rfl

/-- A request gives up, or comes to what its command is for. -/
theorem plan_cases (around : Surroundings) (h : readArguments arguments = .ok request) :
    (∃ message,
      request.order.plan (around.files.readText request.order.file) = .giveUp message) ∨
    (∃ options p m, Launches arguments around request options p m) ∨
    (∃ file p, Lists arguments around request file p) ∨
    ∃ file output p, Assembles arguments around request file output p := by
  -- each order is followed in the order of its checks, and every check that fails gives up with a
  -- message
  cases horder : request.order with
  | run options =>
    show (∃ message, planRun options (around.files.readText options.file) = .giveUp message) ∨ _
    unfold planRun programOf
    cases htext : around.files.readText options.file with
    | error e => exact Or.inl ⟨_, rfl⟩
    | ok text =>
      dsimp only
      cases hparse : Program.parse text with
      | error e => exact Or.inl ⟨_, rfl⟩
      | ok p =>
        dsimp only
        cases hpatched : Machine.withOverrides p options.overrides with
        | error e => exact Or.inl ⟨_, rfl⟩
        | ok m => exact Or.inr (Or.inl ⟨options, p, m, h, horder, ⟨text, htext, hparse⟩, hpatched⟩)
  | disassemble file =>
    show (∃ message, planDisassemble file (around.files.readText file) = .giveUp message) ∨ _
    unfold planDisassemble programOf
    cases htext : around.files.readText file with
    | error e => exact Or.inl ⟨_, rfl⟩
    | ok text =>
      dsimp only
      cases hparse : Program.parse text with
      | error e => exact Or.inl ⟨_, rfl⟩
      | ok p => exact Or.inr (Or.inr (Or.inl ⟨file, p, h, horder, text, htext, hparse⟩))
  | assemble file output =>
    show (∃ message, planAssemble file output (around.files.readText file) = .giveUp message) ∨ _
    unfold planAssemble
    dsimp only
    cases hapart : Path.alike (outputPath file output) file with
    | true => exact Or.inl ⟨_, rfl⟩
    | false =>
      cases htext : around.files.readText file with
      | error e => exact Or.inl ⟨_, rfl⟩
      | ok text =>
        dsimp only
        cases hassemble : Assembly.assemble text with
        | error e => exact Or.inl ⟨_, rfl⟩
        | ok p =>
          exact Or.inr (Or.inr (Or.inr
            ⟨file, output, p, h, horder, ⟨text, htext, hassemble⟩, hapart⟩))

/-! ### The ways of an invocation

There is one constructor for each way that an invocation can end, with its report. Later modules
split on them instead of unfolding `invoke`. -/

/-- The report of a session that has ended. -/
def Surroundings.conclude (around : Surroundings) (ending : Session × Status) : Report :=
  around.report ending.2 ending.1.output ending.1.journal

/-- What an invocation does, and the report that it leaves. -/
inductive Invokes (fuel : Nat) (arguments : List String) (around : Surroundings) :
    Report → Prop where
  | refused {e : UsageError} (misread : readArguments arguments = .error (.usage e)) :
      Invokes fuel arguments around (around.refuse e)
  | version (asked : readArguments arguments = .error .version) :
      Invokes fuel arguments around (around.inform [versionLine])
  | help (asked : readArguments arguments = .error .help) :
      Invokes fuel arguments around (around.inform helpLines)
  | gaveUp {request : Request} {message : String}
      (understood : readArguments arguments = .ok request)
      (plan : request.order.plan (around.files.readText request.order.file) = .giveUp message) :
      Invokes fuel arguments around
        (around.report .refused around.output ((Journal.start request.verbosity).say message))
  | ran {request : Request} {options : RunOptions} {p : Program} {m : Machine}
      {ending : Session × Status} (launches : Launches arguments around request options p m)
      (ended : launches.session.run fuel = some ending) :
      Invokes fuel arguments around (around.conclude ending)
  | printed {request : Request} {file : String} {p : Program} {printed : Output}
      (lists : Lists arguments around request file p)
      (taken : around.output.pushAll (listing p) = (printed, none)) :
      Invokes fuel arguments around (around.report .success printed (.start request.verbosity))
  | aborted {request : Request} {file : String} {p : Program} {printed : Output}
      {fault : WriteFault} (lists : Lists arguments around request file p)
      (met : around.output.pushAll (listing p) = (printed, some fault)) :
      Invokes fuel arguments around (around.report .aborted printed
        ((Journal.start request.verbosity).breakOff (unprinted fault)))
  | saved {request : Request} {file : String} {output : Option String} {p : Program}
      {files : FileTree} (assembles : Assembles arguments around request file output p)
      (written : around.files.write (outputPath file output) (savedText p).toUTF8 = .ok files) :
      Invokes fuel arguments around { around.report .success around.output
        ((Journal.start request.verbosity).say (savedMessage (outputPath file output) p)) with
          files }
  | unsaved {request : Request} {file : String} {output : Option String} {p : Program}
      {e : FileError} (assembles : Assembles arguments around request file output p)
      (unwritten : around.files.write (outputPath file output) (savedText p).toUTF8 = .error e) :
      Invokes fuel arguments around (around.report .refused around.output
        ((Journal.start request.verbosity).say (unwritable (outputPath file output) e)))

theorem invoke_of_understood (h : readArguments arguments = .ok request) (fuel : Nat) :
    invoke fuel arguments around = request.perform fuel around := by
  unfold invoke
  rw [h]

/-- The report of a run is that of its session. -/
theorem Launches.invoke_eq (h : Launches arguments around request options p m) (fuel : Nat) :
    invoke fuel arguments around = (h.session.run fuel).map around.conclude := by
  have hsource : request.order.source (rawLines around.stdin) =
      ⟨options.inputs, options.lines around.stdin, none⟩ := by
    rw [h.order]
    rfl
  rw [invoke_of_understood h.understood]
  unfold Request.perform
  rw [h.plan_eq]
  unfold Plan.perform
  dsimp only
  rw [hsource]
  rfl

/-- The report of a listing, by what standard output takes of it. -/
theorem Lists.invoke_eq (h : Lists arguments around request file p) (fuel : Nat) :
    invoke fuel arguments around =
      match around.output.pushAll (listing p) with
      | (printed, none) => some (around.report .success printed (.start request.verbosity))
      | (printed, some fault) => some (around.report .aborted printed
          ((Journal.start request.verbosity).breakOff (unprinted fault))) := by
  rw [invoke_of_understood h.understood]
  unfold Request.perform
  rw [h.plan_eq]
  rfl

/-- The report of an assembly, by what the file system makes of it. -/
theorem Assembles.invoke_eq (h : Assembles arguments around request file output p) (fuel : Nat) :
    invoke fuel arguments around =
      match around.files.write (outputPath file output) (savedText p).toUTF8 with
      | .error e => some (around.report .refused around.output
          ((Journal.start request.verbosity).say (unwritable (outputPath file output) e)))
      | .ok files => some { around.report .success around.output
          ((Journal.start request.verbosity).say (savedMessage (outputPath file output) p)) with
            files } := by
  rw [invoke_of_understood h.understood]
  unfold Request.perform
  rw [h.plan_eq]
  rfl

/-- **Inversion of an invocation.** It leaves a report if and only if it goes in a way that leaves
this report. -/
theorem invoke_eq_some_iff {fuel : Nat} {report : Report} :
    invoke fuel arguments around = some report ↔ Invokes fuel arguments around report := by
  constructor
  · intro h
    cases hread : readArguments arguments with
    | error interruption =>
      unfold invoke at h
      rw [hread] at h
      cases interruption with
      | usage e =>
        cases h
        exact .refused hread
      | help =>
        cases h
        exact .help hread
      | version =>
        cases h
        exact .version hread
    | ok request =>
      -- one case for each plan that the request can come to
      rcases plan_cases around hread with
        ⟨message, hplan⟩ | ⟨options, p, m, hlaunches⟩ | ⟨file, p, hlists⟩ |
          ⟨file, output, p, hassembles⟩
      · rw [invoke_of_understood hread] at h
        unfold Request.perform at h
        rw [hplan] at h
        cases h
        exact .gaveUp hread hplan
      · rw [hlaunches.invoke_eq] at h
        obtain ⟨ending, hending, rfl⟩ := Option.map_eq_some_iff.mp h
        exact .ran hlaunches hending
      · rw [hlists.invoke_eq] at h
        rcases hprinted : around.output.pushAll (listing p) with ⟨printed, _ | fault⟩ <;>
          rw [hprinted] at h <;> cases h
        · exact .printed hlists hprinted
        · exact .aborted hlists hprinted
      · rw [hassembles.invoke_eq] at h
        cases hwritten :
            around.files.write (outputPath file output) (savedText p).toUTF8 with
        | error e =>
          rw [hwritten] at h
          cases h
          exact .unsaved hassembles hwritten
        | ok files =>
          rw [hwritten] at h
          cases h
          exact .saved hassembles hwritten
  · intro h
    cases h with
    | refused hread | version hread | help hread =>
      unfold invoke
      rw [hread]
    | gaveUp hread hplan =>
      rw [invoke_of_understood hread]
      unfold Request.perform
      rw [hplan]
      rfl
    | ran launches ended =>
      rw [launches.invoke_eq, ended]
      rfl
    | printed lists hprinted | aborted lists hprinted =>
      rw [lists.invoke_eq, hprinted]
    | saved assembles hwritten | unsaved assembles hwritten =>
      rw [assembles.invoke_eq, hwritten]

/-! ### Runs with other input

Standard input takes no part in what is launched, but only in what the session gets. -/

/-- What a command line launches does not depend on standard input. -/
theorem Launches.withStdin (h : Launches arguments around request options p m)
    (stdin : ByteArray) :
    Launches arguments { around with stdin } request options p m :=
  ⟨h.understood, h.order, h.program, h.patched⟩

/-- Sessions that get the same input have the same report. -/
theorem Session.Agrees.conclude_run {s t : Session} (h : s.Agrees t) (around : Surroundings)
    (fuel : Nat) :
    (t.run fuel).map around.conclude = (s.run fuel).map around.conclude := by
  have hobserved := congrArg (Option.map fun (_, output, journal, status) =>
    around.report status output journal) (h.observed_run fuel)
  rw [Option.map_map, Option.map_map] at hobserved
  exact hobserved

end Intcode.Command
