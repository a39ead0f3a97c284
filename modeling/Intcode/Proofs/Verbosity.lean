import Mathlib.Data.List.Forall2
import Intcode.Proofs.RunCommand
import Intcode.Proofs.Traffic

/-!
# Verbosity only observes

How much is logged makes no difference to anything but the error stream, and there it only decides
which records appear. Two sessions with a different verbosity go in lockstep: they have the same
machine, the same source and the same output, and what the less talkative one has said is what the
other one has said, with some log records left out.

* `Sheds` — what appears at one verbosity is a part of what appears at another one;
* `Journal.Thinned`, `Session.Thinned` — journals and sessions side by side;
* `Session.Thinned.advance`, `Session.Thinned.run` — one step of both, and all of them;
* `Report.Thinned`, `perform_thinned` — the reports of a request at either verbosity;
* `Reading.Front`, `exists_verb_of_quiet` — what can stand in front of a command, and that nothing
  does if nothing is to be logged;
* `verbosity_observes` — the main statement.
-/

namespace Intcode

namespace Command

/-! ### Records that appear

The verbosities form a chain: with a flag less, fewer log records appear. It is enough to compare
two neighbours, and what is left out between them is told by the record alone. -/

namespace ErrorLine

/-- A log record. -/
def isLog : ErrorLine → Bool
  | .message _ | .breakdown _ => false
  | .log _ => true

/-- A log record of the level `TRACE`. -/
def isTrace : ErrorLine → Bool
  | .message _ | .breakdown _ => false
  | .log entry => entry.level == .trace

end ErrorLine

/-- Of the log records that appear at the first verbosity, those that are kept appear at the second
one, and all other records are kept. -/
structure Sheds (w v : Verbosity) (keep : ErrorLine → Bool) : Prop where
  other : ∀ line : ErrorLine, line.isLog = false → keep line
  log : ∀ entry : LogEntry, v.admits entry.level = (w.admits entry.level && keep (.log entry))

/-- With `-v` the log records appear that are not of the level `TRACE`. -/
theorem sheds_trace : Sheds .trace .verbose fun line => !line.isTrace where
  other
    | .message _, _ | .breakdown _, _ => rfl
  log := fun _ => (Bool.true_and _).symm

/-- Without flags no log record appears. -/
theorem sheds_log : Sheds .verbose .quiet fun line => !line.isLog where
  other
    | .message _, _ | .breakdown _, _ => rfl
  log := fun _ => (Bool.and_false _).symm

variable {w v : Verbosity} {keep : ErrorLine → Bool}

/-! ### Journals

The same is said and logged to both journals. What has been kept so far stays, and the record that
is new is kept on both sides or left out of the second one. -/

/-- Two journals of the same events, of which the second one holds the records that are kept. -/
structure Journal.Thinned (w v : Verbosity) (keep : ErrorLine → Bool) (j k : Journal) : Prop where
  first : j.verbosity = w
  second : k.verbosity = v
  lines : k.lines.toList = j.lines.toList.filter keep

namespace Journal

/-- An entry that is logged adds a record, or nothing. -/
theorem lines_log (j : Journal) (entry : LogEntry) : (j.log entry).lines.toList =
    j.lines.toList ++ if j.verbosity.admits entry.level then [.log entry] else [] := by
  unfold log
  split <;> simp

theorem verbosity_log (j : Journal) (entry : LogEntry) :
    (j.log entry).verbosity = j.verbosity := by
  unfold log
  split <;> rfl

theorem thinned_start (w v : Verbosity) (keep : ErrorLine → Bool) :
    Thinned w v keep (start w) (start v) :=
  ⟨rfl, rfl, rfl⟩

namespace Thinned

variable {j k : Journal} (h : Thinned w v keep j k) (hsheds : Sheds w v keep)
include h hsheds

/-- A record that is no log record is put behind both journals. -/
theorem push {line : ErrorLine} (hline : line.isLog = false) :
    Thinned w v keep { j with lines := j.lines.push line }
      { k with lines := k.lines.push line } := by
  refine ⟨h.first, h.second, ?_⟩
  rw [Array.toList_push, Array.toList_push, List.filter_append, h.lines,
    List.filter_cons_of_pos (hsheds.other line hline), List.filter_nil]

theorem say (text : String) : Thinned w v keep (j.say text) (k.say text) := h.push hsheds rfl

theorem breakOff (message : String) :
    Thinned w v keep (j.breakOff message) (k.breakOff message) := h.push hsheds rfl

/-- An entry is admitted by the second verbosity if it is admitted by the first one and kept. -/
theorem log (entry : LogEntry) : Thinned w v keep (j.log entry) (k.log entry) := by
  refine ⟨(j.verbosity_log entry).trans h.first, (k.verbosity_log entry).trans h.second, ?_⟩
  rw [lines_log, lines_log, List.filter_append, h.lines, h.first, h.second, hsheds.log]
  -- whether it is admitted at first, and whether it is kept, are two yes-or-no questions
  cases w.admits entry.level <;> cases hkeep : keep (.log entry) <;> simp [hkeep]

theorem watch (notices : List Notice) : Thinned w v keep (j.watch notices) (k.watch notices) := by
  unfold Journal.watch
  induction notices generalizing j k with
  | nil => exact h
  | cons n notices ih => exact ih (h.log hsheds (.notice n))

end Thinned

end Journal

/-! ### Sessions

A session looks at its machine, its source and its output, but never at its journal. So each step of
one session is also a step of the other one. -/

/-- Two sessions that differ in their journals only, of which the second one holds the records that
are kept. -/
structure Session.Thinned (w v : Verbosity) (keep : ErrorLine → Bool) (s t : Session) : Prop where
  machine : t.machine = s.machine
  source : t.source = s.source
  output : t.output = s.output
  journal : Journal.Thinned w v keep s.journal t.journal

namespace Session

/-- Two sessions that have ended alike. -/
def EndThinned (w v : Verbosity) (keep : ErrorLine → Bool) (a b : Session × Status) : Prop :=
  a.1.Thinned w v keep b.1 ∧ b.2 = a.2

namespace Thinned

variable {s t : Session} (h : s.Thinned w v keep t) (hsheds : Sheds w v keep)
include h hsheds

/-- What becomes of a value depends on the output, which is the same. -/
theorem emit (value : Word) :
    Sum.LiftRel (Session.Thinned w v keep) (EndThinned w v keep) (s.emit value) (t.emit value) := by
  unfold Session.emit
  rw [h.output, h.machine]
  rcases s.output.fault? with _ | _ | _ | _
  · exact .inl ⟨rfl, h.source, rfl, h.journal⟩
  · exact .inr ⟨⟨rfl, h.source, rfl, h.journal.log hsheds _⟩, rfl⟩
  · exact .inr ⟨⟨rfl, h.source, rfl, h.journal.say hsheds _⟩, rfl⟩
  · exact .inr ⟨⟨rfl, h.source, rfl, h.journal.say hsheds _⟩, rfl⟩

/-- What becomes of a machine that waits depends on the source, which is the same. -/
theorem supply :
    Sum.LiftRel (Session.Thinned w v keep) (EndThinned w v keep) s.supply t.supply := by
  unfold Session.supply complaint
  rw [h.source, h.machine]
  rcases s.source.next with ⟨_ | value, source⟩
  · dsimp only
    cases source.fault with
    | none => exact .inr ⟨⟨rfl, rfl, h.output, h.journal.say hsheds _⟩, rfl⟩
    | some fault => exact .inr ⟨⟨rfl, rfl, h.output, h.journal.say hsheds _⟩, rfl⟩
  · -- a value has come, and nothing is said
    exact .inl ⟨rfl, rfl, h.output, h.journal⟩

variable [Allocator]

theorem executed : s.executed.Thinned w v keep t.executed := by
  unfold Session.executed
  rw [h.machine]
  exact ⟨rfl, h.source, h.output, h.journal.watch hsheds _⟩

/-- **One step of both sessions.** No decision depends on what has been said. -/
theorem advance :
    Sum.LiftRel (Session.Thinned w v keep) (EndThinned w v keep) s.advance t.advance := by
  have hexecuted := h.executed hsheds
  rw [advance_eq, advance_eq, h.machine]
  rcases s.machine.execute.result with e | _ | _ | value | _
  · exact .inr ⟨⟨hexecuted.machine, hexecuted.source, hexecuted.output,
      hexecuted.journal.say hsheds _⟩, rfl⟩
  · exact .inl hexecuted
  · exact hexecuted.supply hsheds
  · exact hexecuted.emit hsheds value
  · unfold halted
    rw [hexecuted.machine]
    exact .inr ⟨⟨rfl, hexecuted.source, hexecuted.output, hexecuted.journal.log hsheds _⟩, rfl⟩

theorem run (fuel : Nat) : Option.Rel (EndThinned w v keep) (s.run fuel) (t.run fuel) :=
  iterate_liftRel (fun _ _ h => advance h hsheds) fuel h

theorem trail (fuel : Nat) : List.Forall₂ (Session.Thinned w v keep)
    (trail Session.advance fuel s) (trail Session.advance fuel t) :=
  forall₂_trail (fun _ _ h => advance h hsheds) fuel h

end Thinned

end Session

/-- Both sessions start in the same way, and what is said first is a log record. -/
theorem thinned_startSession (hsheds : Sheds w v keep) (order : Order) (m : Machine) (words : Nat)
    (source : InputSource) (output : Output) :
    (startSession ⟨w, order⟩ m words source output).Thinned w v keep
      (startSession ⟨v, order⟩ m words source output) :=
  ⟨rfl, rfl, rfl, (Journal.thinned_start w v keep).log hsheds _⟩

/-! ### Reports

A plan is made from files and arguments, so the verbosity has no part in it. Only the four kinds of
plans are left to look at, and a run is the only one that says more than one thing. -/

/-- Two reports that differ in what is on the error stream only, where the second one has the
records that are kept, in their order. -/
structure Report.Thinned (keep : ErrorLine → Bool) (a b : Report) : Prop where
  status : b.status = a.status
  output : b.output = a.output
  files : b.files = a.files
  errors : b.errors = a.errors.filter keep
  /-- Whatever the runtime makes of a program that breaks off. -/
  text : ∀ [Runtime],
    a.errorText = ErrorLine.renderAll a.errors ∧ b.errorText = ErrorLine.renderAll b.errors

/-- Reports made from such journals. -/
theorem thinned_report {j k : Journal} (h : Journal.Thinned w v keep j k) (around : Surroundings)
    (status : Status) (output : Output) (files : FileTree) :
    Report.Thinned keep { around.report status output j with files }
      { around.report status output k with files } :=
  ⟨rfl, rfl, rfl, h.lines, rfl, rfl⟩

/-- **A request at either verbosity** has the same effects, and leaves the same reports but for the
records that are not kept. -/
theorem perform_thinned [Allocator] (hsheds : Sheds w v keep) (fuel : Nat) (order : Order)
    (around : Surroundings) : Option.Rel (Report.Thinned keep)
      (Request.perform fuel ⟨w, order⟩ around) (Request.perform fuel ⟨v, order⟩ around) := by
  have hstart := Journal.thinned_start w v keep
  unfold Request.perform
  dsimp only
  cases order.plan (around.files.readText order.file) with
  | giveUp message =>
    exact .some (thinned_report (hstart.say hsheds message) around _ _ around.files)
  | run m words =>
    -- the sessions of both runs are in step, and their reports are made from their ends
    have hsession := thinned_startSession hsheds order m words
      (order.source (rawLines around.stdin)) around.output
    refine rel_map (fun a b hend => ?_) (hsession.run hsheds fuel)
    obtain ⟨t, _⟩ := b
    obtain ⟨hthinned, rfl⟩ := hend
    dsimp only
    rw [hthinned.output]
    exact thinned_report hthinned.journal around _ _ around.files
  | print lines =>
    unfold Plan.perform
    dsimp only
    generalize around.output.pushAll lines = pushed
    obtain ⟨output, _ | fault⟩ := pushed
    · -- the listing has been taken, or it breaks off with a message
      exact .some (thinned_report hstart around _ _ around.files)
    · exact .some (thinned_report (hstart.breakOff hsheds _) around _ _ around.files)
  | save path p =>
    unfold Plan.perform
    dsimp only
    cases around.files.write path (savedText p).toUTF8 with
    | error e => exact .some (thinned_report (hstart.say hsheds _) around _ _ around.files)
    | ok files => exact .some (thinned_report (hstart.say hsheds _) around _ _ files)

/-! ### Command lines

In front of a command there is room for flags only. Each of them asks for something to be logged, or
ends the reading of the command line, so a command line that asks for nothing to be logged starts
with its command. -/

open Verbosity (ofFlags)

namespace Reading

/-- A reading in front of a command, with the flags that have been read. -/
def front (flags : List Flag) (plain : Bool) : Reading :=
  ⟨none, { Collected.none with flags }, none, plain⟩

variable {flags : List Flag} {plain : Bool} {r : Reading}

theorem verb_front : (front flags plain).verb = none := rfl

theorem ofFlags_cons_ne_quiet {flag : Flag} (h : flag = .verbose ∨ flag = .trace) :
    ofFlags (flag :: flags) ≠ .quiet := by
  unfold ofFlags
  rcases h with rfl | rfl <;> split_ifs <;> simp_all

/-- A flag that is taken in front of a command asks for something to be logged, since help and the
version end the reading. -/
theorem takeFlag_front {flag : Flag} (hflag : flag ∈ Command.flags none)
    (h : (front flags plain).takeFlag flag = .ok r) :
    r = front (flag :: flags) plain ∧ ofFlags (flag :: flags) ≠ .quiet := by
  obtain ⟨_, hsettle, h⟩ := bind_eq_ok.mp h
  cases hsettle
  obtain ⟨collected, hcollected, h⟩ := bind_eq_ok.mp h
  cases h
  unfold Collected.raise at hcollected
  cases flag with
  | help | version => contradiction
  -- this flag belongs to a command
  | stdin => exact absurd hflag (by decide)
  | verbose | trace =>
    dsimp only at hcollected
    split at hcollected
    · contradiction
    · cases hcollected
      exact ⟨rfl, ofFlags_cons_ne_quiet (by decide)⟩

/-- Letters behind one dash are flags one by one. -/
theorem takeLetters_front {letters : List Char}
    (h : (front flags plain).takeLetters letters = .ok r) : ∃ flags', r = front flags' plain ∧
      (ofFlags flags ≠ .quiet ∨ letters ≠ [] → ofFlags flags' ≠ .quiet) := by
  induction letters generalizing flags with
  | nil =>
    cases h
    exact ⟨flags, rfl, fun hloud => hloud.resolve_right (by simp)⟩
  | cons c rest ih =>
    rw [takeLetters, verb_front] at h
    cases hfind : (Command.flags none).find? (·.short? == some c) with
    | none =>
      rw [hfind] at h
      contradiction
    | some flag =>
      rw [hfind] at h
      obtain ⟨r', hflag, h⟩ := bind_eq_ok.mp h
      obtain ⟨rfl, hloud⟩ := takeFlag_front (List.mem_of_find?_eq_some hfind) hflag
      obtain ⟨flags', rfl, hkept⟩ := ih h
      exact ⟨flags', rfl, fun _ => hkept (Or.inl hloud)⟩

/-- A name behind two dashes is a flag, which has no value in front of a command. -/
theorem takeLong_front {name : String} {attached : Option String}
    (h : (front flags plain).takeLong name attached = .ok r) :
    ∃ flags', r = front flags' plain ∧ ofFlags flags' ≠ .quiet := by
  rw [takeLong, verb_front] at h
  cases hfind : (Command.flags none).find? (·.long == name) with
  | none =>
    rw [hfind] at h
    contradiction
  | some flag =>
    rw [hfind] at h
    cases attached with
    | some value => contradiction
    | none =>
      obtain ⟨rfl, hloud⟩ := takeFlag_front (List.mem_of_find?_eq_some hfind) h
      exact ⟨_, rfl, hloud⟩

/-- An argument with a dash in front leaves a flag behind, or it is the mark that no more flags
follow. -/
theorem takeDashed_front {argument : String} (hdashed : isDashed argument)
    (h : (front flags plain).takeDashed argument = .ok r) :
    ∃ flags' plain', r = front flags' plain' ∧ (plain' = true ∨ ofFlags flags' ≠ .quiet) := by
  unfold isDashed at hdashed
  unfold takeDashed at h
  split at h
  · -- two dashes alone are the mark
    cases h
    exact ⟨flags, true, rfl, Or.inl rfl⟩
  · split at h
    · obtain ⟨flags', rfl, hloud⟩ := takeLong_front h
      exact ⟨flags', plain, rfl, Or.inr hloud⟩
    · obtain ⟨flags', rfl, hloud⟩ := takeLong_front h
      exact ⟨flags', plain, rfl, Or.inr hloud⟩
  · next letters _ _ heq =>
    rw [heq] at hdashed
    obtain ⟨flags', rfl, hloud⟩ := takeLetters_front h
    refine ⟨flags', plain, rfl, Or.inr (hloud (Or.inr ?_))⟩
    rintro rfl
    -- a dash alone is no dashed argument
    simp at hdashed
  · next heq =>
    rw [heq] at hdashed
    contradiction

end Reading

section CommandLines

open Reading (front takeDashed_front)

variable {arguments : List String} {flags : List Flag} {request : Request} {order : Order}

/-- Flags behind do not take back what has been asked for. -/
theorem ofFlags_append_ne_quiet (h : ofFlags flags ≠ .quiet) (more : List Flag) :
    ofFlags (flags ++ more) ≠ .quiet := by
  unfold ofFlags at h ⊢
  split_ifs at h ⊢ <;> simp_all

/-- Flags that ask for nothing change nothing. -/
theorem ofFlags_append_of_quiet {more : List Flag} (h : ofFlags more = .quiet) (flags : List Flag) :
    ofFlags (flags ++ more) = ofFlags flags := by
  unfold ofFlags at h ⊢
  split_ifs at h ⊢ <;> simp_all

/-- A command line that is understood starts with a command, or goes on behind a flag. -/
theorem readFrom_eq_ok {plain : Bool} (h : readFrom (front flags plain) arguments = .ok request) :
    plain = false ∧ ∃ first rest, arguments = first :: rest ∧
      ((∃ verb, Verb.ofName? first = some verb ∧ readOrder verb flags rest = .ok request) ∨
        ∃ flags' plain', (plain' = true ∨ ofFlags flags' ≠ .quiet) ∧
          readFrom (front flags' plain') rest = .ok request) := by
  cases arguments with
  | nil =>
    unfold readFrom at h
    split at h <;> contradiction
  | cons first rest =>
    unfold readFrom at h
    cases plain with
    | true => contradiction
    | false =>
      refine ⟨rfl, first, rest, rfl, ?_⟩
      rw [if_neg (by simp [front])] at h
      cases hverb : Verb.ofName? first with
      | some verb =>
        rw [hverb] at h
        exact Or.inl ⟨verb, rfl, h⟩
      | none =>
        rw [hverb] at h
        dsimp only at h
        split at h
        · contradiction
        · split at h
          · next hdashed =>
            obtain ⟨r, hr, h⟩ := bind_eq_ok.mp h
            obtain ⟨flags', plain', rfl, hloud⟩ := takeDashed_front hdashed hr
            exact Or.inr ⟨flags', plain', hloud, h⟩
          · contradiction

/-- What comes behind a command is read in the same way, whatever flags stand in front of it. -/
theorem readOrder_eq_ok {verb : Verb} {rest : List String}
    (h : readOrder verb flags rest = .ok request) :
    ∃ more, request.verbosity = ofFlags (flags ++ more) ∧
      ∀ before, readOrder verb before rest = .ok ⟨ofFlags (before ++ more), request.order⟩ := by
  obtain ⟨r, hr, h⟩ := bind_eq_ok.mp h
  cases hfile : r.collected.file with
  | none =>
    rw [hfile] at h
    contradiction
  | some file =>
    rw [hfile] at h
    cases h
    refine ⟨r.collected.flags, rfl, fun before => bind_eq_ok.mpr ⟨r, hr, ?_⟩⟩
    rw [hfile]
    rfl

/-- A flag in front of a command is kept in mind. -/
theorem verbosity_ne_quiet {plain : Bool} (hloud : plain = true ∨ ofFlags flags ≠ .quiet)
    (h : readFrom (front flags plain) arguments = .ok request) : request.verbosity ≠ .quiet := by
  induction arguments generalizing flags plain with
  | nil => obtain ⟨-, _, _, harguments, -⟩ := readFrom_eq_ok h; contradiction
  | cons first rest ih =>
    obtain ⟨rfl, _, _, harguments, ⟨verb, -, horder⟩ | ⟨flags', plain', hloud', hrest⟩⟩ :=
      readFrom_eq_ok h
    · obtain ⟨more, hverbosity, -⟩ := readOrder_eq_ok horder
      rw [hverbosity]
      exact ofFlags_append_ne_quiet (hloud.resolve_left (by simp)) more
    · cases harguments
      exact ih hloud' hrest

/-- If nothing is to be logged, then flags can be put in front, and nothing else changes. -/
theorem readFrom_of_quiet (h : readArguments arguments = .ok ⟨.quiet, order⟩) (flags : List Flag) :
    readFrom (front flags false) arguments = .ok ⟨ofFlags flags, order⟩ := by
  replace h : readFrom (front [] false) arguments = .ok ⟨.quiet, order⟩ := h
  obtain ⟨-, first, rest, rfl, ⟨verb, hverb, horder⟩ | ⟨flags', plain', hloud, hrest⟩⟩ :=
    readFrom_eq_ok h
  · obtain ⟨more, hverbosity, hbefore⟩ := readOrder_eq_ok horder
    unfold readFrom
    rw [if_neg (by simp [front]), hverb]
    dsimp only
    rw [← ofFlags_append_of_quiet hverbosity.symm flags]
    exact hbefore flags
  · exact absurd rfl (verbosity_ne_quiet hloud hrest)

end CommandLines

/-! ### The main statement -/

/-- **Verbosity is pure observation.** Take any command, whatever it finds around it.

* Command lines that ask for it with any verbosity have the same exit code, the same output, and
  leave the same files behind, and for a given amount of fuel they all end or none of them does.
  With `-v` the error stream has the records that it has with `--trace`, without the log records of
  the level `TRACE`, and without flags it has these without all log records. The text of the stream
  is the records one after the other.
* Each verbosity can be asked for: where nothing is to be logged, the flags may be put in front, and
  with both of them, in either order, all is as with `--trace` alone.
* This is not only so at the end. While a program runs, the sessions are the same at every
  instruction, but for the records that are left out.

A record is one line, unless a file name or an argument in it has a line feed. -/
theorem verbosity_observes [Allocator] (fuel : Nat) (order : Order) (around : Surroundings) :
    (∀ traced verbose quiet, readArguments traced = .ok ⟨.trace, order⟩ →
      readArguments verbose = .ok ⟨.verbose, order⟩ → readArguments quiet = .ok ⟨.quiet, order⟩ →
      Option.Rel (Report.Thinned fun line => !line.isTrace)
        (invoke fuel traced around) (invoke fuel verbose around) ∧
      Option.Rel (Report.Thinned fun line => !line.isLog)
        (invoke fuel verbose around) (invoke fuel quiet around)) ∧
    (∀ arguments, readArguments arguments = .ok ⟨.quiet, order⟩ →
      readArguments ("-v" :: arguments) = .ok ⟨.verbose, order⟩ ∧
      readArguments ("--trace" :: arguments) = .ok ⟨.trace, order⟩ ∧
      ∀ both ∈ [["-v", "--trace"], ["--trace", "-v"]],
        readArguments (both ++ arguments) = .ok ⟨.trace, order⟩ ∧
        invoke fuel (both ++ arguments) around = invoke fuel ("--trace" :: arguments) around) ∧
    ∀ m words source output,
      List.Forall₂ (Session.Thinned .trace .verbose fun line => !line.isTrace)
        (trail Session.advance fuel (startSession ⟨.trace, order⟩ m words source output))
        (trail Session.advance fuel (startSession ⟨.verbose, order⟩ m words source output)) ∧
      List.Forall₂ (Session.Thinned .verbose .quiet fun line => !line.isLog)
        (trail Session.advance fuel (startSession ⟨.verbose, order⟩ m words source output))
        (trail Session.advance fuel (startSession ⟨.quiet, order⟩ m words source output)) := by
  refine ⟨?_, ?_, fun m words source output => ⟨?_, ?_⟩⟩
  · intro traced verbose quiet htraced hverbose hquiet
    rw [invoke_of_understood htraced, invoke_of_understood hverbose, invoke_of_understood hquiet]
    exact ⟨perform_thinned sheds_trace fuel order around,
      perform_thinned sheds_log fuel order around⟩
  · intro arguments h
    have htraced : readArguments ("--trace" :: arguments) = .ok ⟨.trace, order⟩ :=
      readFrom_of_quiet h [.trace]
    refine ⟨readFrom_of_quiet h [.verbose], htraced, fun both hboth => ?_⟩
    have hread : readArguments (both ++ arguments) = .ok ⟨.trace, order⟩ := by
      obtain rfl | hboth := List.mem_cons.mp hboth
      · exact readFrom_of_quiet h [.trace, .verbose]
      · obtain rfl := List.mem_singleton.mp hboth
        exact readFrom_of_quiet h [.verbose, .trace]
    exact ⟨hread, by rw [invoke_of_understood hread, invoke_of_understood htraced]⟩
  · exact (thinned_startSession sheds_trace order m words source output).trail sheds_trace fuel
  · exact (thinned_startSession sheds_log order m words source output).trail sheds_log fuel

/-- A program that reads two values gets one. What is said about its end is the only message,
behind the log records or without them. -/
theorem verbosity_observes_starved :
    ∃ traced verbose quiet,
      invoke 4 ["--trace", "run", "p", "-i", "1"] echoing = some traced ∧
      invoke 4 ["-v", "run", "p", "-i", "1"] echoing = some verbose ∧
      invoke 4 ["run", "p", "-i", "1"] echoing = some quiet ∧
      traced.errors.length = 10 ∧
      verbose.errors = [.log (.loaded "p" 9), .log (.notice (.awaitingInput 0)),
        .log (.notice (.output 2 1)), .log (.notice (.awaitingInput 4)),
        .message "error: program is waiting for input at instruction 4"] ∧
      quiet.errors = [.message "error: program is waiting for input at instruction 4"] ∧
      quiet.status = .starved ∧ quiet.output.lines = #["1"] := by
  obtain ⟨hlines, hflags, -⟩ := verbosity_observes 4 (.run ⟨"p", [1], [], false⟩) echoing
  have hquiet : readArguments ["run", "p", "-i", "1"] =
      .ok ⟨.quiet, .run ⟨"p", [1], [], false⟩⟩ := rfl
  obtain ⟨hverbose, htraced, -⟩ := hflags _ hquiet
  obtain ⟨hfirst, hsecond⟩ := hlines _ _ _ htraced hverbose hquiet
  have hlaunches : Launches ["--trace", "run", "p", "-i", "1"] echoing
      ⟨.trace, .run ⟨"p", [1], [], false⟩⟩ ⟨"p", [1], [], false⟩ echo (.ofProgram echo) :=
    ⟨htraced, rfl, ⟨echo.render, rfl, rfl⟩, rfl⟩
  have hmap : (invoke 4 ["--trace", "run", "p", "-i", "1"] echoing).map
      (fun report => (report.status, report.output.lines, report.errors)) =
      some (.starved, #["1"], [.log (.loaded "p" 9), .log (.notice (.decode 0 3 .input)),
        .log (.notice (.awaitingInput 0)), .log (.notice (.decode 0 3 .input)),
        .log (.notice (.store 0 1)), .log (.notice (.decode 2 4 .output)),
        .log (.notice (.output 2 1)), .log (.notice (.decode 4 3 .input)),
        .log (.notice (.awaitingInput 4)),
        .message "error: program is waiting for input at instruction 4"]) := by
    rw [hlaunches.invoke_eq]
    unfold Launches.session Machine.ofProgram
    rw [Memory.load_eq_toArray]
    decide +kernel
  obtain ⟨traced, hreport, hsaid⟩ := Option.map_eq_some_iff.mp hmap
  obtain ⟨hstatus, hsaid⟩ := Prod.mk.inj hsaid
  obtain ⟨hprinted, herrors⟩ := Prod.mk.inj hsaid
  rw [hreport] at hfirst
  obtain ⟨verbose, hreport', hthinned⟩ := exists_of_rel_some hfirst
  rw [hreport'] at hsecond
  obtain ⟨quiet, hreport'', hthinned'⟩ := exists_of_rel_some hsecond
  have hverbose := hthinned.errors
  rw [herrors] at hverbose
  have hquiet := hthinned'.errors
  rw [hverbose] at hquiet
  refine ⟨traced, verbose, quiet, hreport, hreport', hreport'', ?_, hverbose, hquiet, ?_, ?_⟩
  · rw [herrors]
    rfl
  · rw [hthinned'.status, hthinned.status, hstatus]
  · rw [hthinned'.output, hthinned.output, hprinted]

end Command

end Intcode
