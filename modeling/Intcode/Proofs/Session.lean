import Mathlib.Data.List.Forall2
import Intcode.Command.Session
import Intcode.Proofs.Delivery
import Intcode.Proofs.Stream

/-!
# Sessions and runs

A session drives a machine as a run does, instruction by instruction. It takes its input from a
source that reads lines when it needs them, it may fail to write, and it keeps a journal; but what
the machine does depends on the values that the source delivers alone.

* `Session.advance_eq` — what one step of a session comes to, by the outcome of its instruction;
* `Session.Agrees`, `Session.observed_run` — two sessions that get the same input for as long as
  they need any leave the same behind;
* `Session.Follows`, `Session.run_follows` — a session whose output takes every line does what a
  run does that has its input in a list.
-/

namespace Intcode

/-! ### Runs that wait in vain

Where a run does not wait in vain, what its source would have delivered later makes no difference.
The condition goes from a run to what is left of it after a step. -/

namespace Machine.Run

variable [Allocator]

/-- Whether a run ends because it waits for input that its source does not have. -/
def Starves (r : Run) : Prop := ∃ fuel a, iterate advance fuel r = some (a, .ok .awaitInput)

/-- After a step a run still does not wait in vain. -/
theorem not_starves_of_advance {r s : Run} (h : ¬ r.Starves) (hadvance : r.advance = .inl s) :
    ¬ s.Starves := by
  rintro ⟨fuel, a, hs⟩
  refine h ⟨fuel + 1, a, ?_⟩
  rw [iterate_succ, hadvance]
  exact hs

/-- A run that waits but not in vain finds a value in its source. -/
theorem exists_cons_of_not_starves {r : Run} (h : ¬ r.Starves) (hwaits : r.machine.Waits) :
    ∃ value source, r.source = value :: source ∧ r.advance =
      .inl { r with machine := r.machine.pushInput value, source, polls := r.polls + 1 } := by
  rw [advance_of_waits hwaits]
  cases hsource : r.source with
  | nil =>
    refine absurd ⟨1, { r with polls := r.polls + 1 }, ?_⟩ h
    rw [iterate_succ, advance_of_waits hwaits, supply_of_nil hsource]
  | cons value source => exact ⟨value, source, rfl, supply_of_cons hsource⟩

end Machine.Run

namespace Command

open Intcode.Machine (Run Stop)

/-! ### What is said

The journal holds messages and log records in one list. Only messages are compared with a run,
because the log depends on the verbosity. -/

/-- The messages among the records on the error stream. -/
def ErrorLine.messages (lines : List ErrorLine) : List String :=
  lines.filterMap fun
    | .message text | .breakdown text => some text
    | .log _ => none

namespace Journal

/-- The messages that a journal holds. -/
def messages (j : Journal) : List String := ErrorLine.messages j.lines.toList

@[simp] theorem messages_start (verbosity : Verbosity) : (start verbosity).messages = [] := rfl

@[simp] theorem messages_say (j : Journal) (text : String) :
    (j.say text).messages = j.messages ++ [text] := by
  simp [messages, ErrorLine.messages, say]

/-- A log entry is no message. -/
@[simp] theorem messages_log (j : Journal) (entry : LogEntry) :
    (j.log entry).messages = j.messages := by
  unfold log
  split
  · simp [messages, ErrorLine.messages]
  · rfl

/-- What is noticed along an instruction is logged, and is no message. -/
@[simp] theorem messages_watch (j : Journal) (notices : List Notice) :
    (j.watch notices).messages = j.messages := by
  unfold watch
  induction notices generalizing j with
  | nil => rfl
  | cons n notices ih => rw [List.foldl_cons, ih, messages_log]

end Journal

namespace Session

/-! ### One step of a session

As for a machine and a run, a step of a session is given as one equation over the result of the
instruction. The proofs about sessions split on this result and on nothing else. -/

/-- The session after its machine has stopped for good. -/
def halted (s : Session) : Session :=
  { s with journal := s.journal.log (.programHalted s.machine.ip) }

/-- The session after its machine has failed. -/
def failed (s : Session) (e : RuntimeError) : Session :=
  { s with journal := s.journal.say (failureMessage e) }

/-- The session after it has found no input value. -/
def deprived (s : Session) : Session := { s with journal := s.journal.say s.complaint.1 }

/-- A session that finds no input value ends with a complaint. -/
theorem supply_of_nil {s : Session} {source : InputSource} (h : s.source.next = (none, source)) :
    s.supply = .inr (deprived { s with source }, (complaint { s with source }).2) := by
  unfold supply
  rw [h]
  rfl

theorem supply_of_cons {s : Session} {value : Word} {source : InputSource}
    (h : s.source.next = (some value, source)) :
    s.supply = .inl { s with source, machine := s.machine.pushInput value } := by
  unfold supply
  rw [h]

variable [Allocator]

/-- The session with its machine behind the next instruction. -/
def executed (s : Session) : Session :=
  { s with
    machine := s.machine.execute.machine
    journal := s.journal.watch s.machine.execute.notices }

/-- What comes of a step, by the result of the instruction. -/
theorem advance_eq (s : Session) :
    s.advance =
      match s.machine.execute.result with
      | .ok none => .inl s.executed
      | .ok (some (.output value)) => s.executed.emit value
      | .ok (some .awaitInput) => s.executed.supply
      | .ok (some .halted) => .inr (s.executed.halted, .success)
      | .error e => .inr (s.executed.failed e, .failed) := by
  obtain ⟨m, source, output, journal⟩ := s
  unfold advance executed
  dsimp only
  generalize m.execute = step
  obtain ⟨t, result, notices⟩ := step
  rcases result with e | _ | _ | value | _ <;> rfl

/-! ### Two sessions

Sessions are compared by a relation that one step of both preserves, lifted to whole runs of them by
`iterate_liftRel`. The sources may be different as long as the difference is never reached. -/

/-- Two sessions that differ at most in where their input comes from, and that get the same input
for as long as they need any: their sources deliver the same, or they deliver the same values
first, and a run that has only these does not wait in vain. -/
structure Agrees (s t : Session) : Prop where
  machine : t.machine = s.machine
  output : t.output = s.output
  journal : t.journal = s.journal
  input : t.source.stream = s.source.stream ∨
    ∃ r : Run, r.machine = s.machine ∧ ¬ r.Starves ∧
      r.source <+: s.source.stream.values ∧ r.source <+: t.source.stream.values

/-- What is left of a session at its end, its source apart. -/
def observed (ending : Session × Status) : Machine × Output × Journal × Status :=
  (ending.1.machine, ending.1.output, ending.1.journal, ending.2)

/-- Sessions that agree take the same step, after which they agree. -/
theorem Agrees.advance {s t : Session} (h : s.Agrees t) :
    Sum.LiftRel Agrees (fun a b => observed b = observed a) s.advance t.advance := by
  obtain ⟨m, source, output, journal⟩ := s
  obtain ⟨_, source', _, _⟩ := t
  obtain ⟨hmachine, houtput, hjournal, hinput⟩ := h
  cases hmachine
  cases houtput
  cases hjournal
  dsimp only at hinput
  rw [advance_eq, advance_eq]
  dsimp only [executed]
  rcases hresult : m.execute.result with e | _ | _ | value | _
  · exact .inr rfl
  · refine .inl ⟨rfl, rfl, rfl, hinput.imp_right ?_⟩
    rintro ⟨r, rfl, hstarves, hfirst⟩
    have hadvance := Run.advance_eq r
    rw [hresult] at hadvance
    exact ⟨_, rfl, Run.not_starves_of_advance hstarves hadvance, hfirst⟩
  · have hwaits : m.Waits := hresult
    rw [hwaits.execute_machine]
    dsimp only
    rcases hinput with hsame | ⟨r, rfl, hstarves, ⟨more, hmore⟩, more', hmore'⟩
    · cases hvalues : source.stream.values with
      | nil =>
        obtain ⟨u, hu, hfault, -⟩ := InputSource.next_of_nil hvalues
        obtain ⟨u', hu', hfault', -⟩ := InputSource.next_of_nil (hsame ▸ hvalues)
        rw [hsame] at hfault'
        rw [supply_of_nil hu, supply_of_nil hu']
        refine .inr ?_
        simp only [observed, deprived, complaint, hfault, hfault']
      | cons value values =>
        obtain ⟨u, hu, hleft⟩ := InputSource.next_of_cons hvalues
        obtain ⟨u', hu', hleft'⟩ := InputSource.next_of_cons (hsame ▸ hvalues)
        rw [supply_of_cons hu, supply_of_cons hu']
        exact .inl ⟨rfl, rfl, rfl, Or.inl (by rw [hleft, hleft', hsame])⟩
    · -- the run finds a value, and both sources deliver it
      obtain ⟨value, rest, hsource, hadvance⟩ := Run.exists_cons_of_not_starves hstarves hwaits
      rw [hsource] at hmore hmore'
      obtain ⟨u, hu, hleft⟩ := InputSource.next_of_cons hmore.symm
      obtain ⟨u', hu', hleft'⟩ := InputSource.next_of_cons hmore'.symm
      rw [supply_of_cons hu, supply_of_cons hu']
      refine .inl ⟨rfl, rfl, rfl, Or.inr ⟨_, rfl, Run.not_starves_of_advance hstarves hadvance, ?_⟩⟩
      rw [hleft, hleft']
      exact ⟨List.prefix_append .., List.prefix_append ..⟩
  · unfold emit
    dsimp only
    rcases output.fault? with _ | _ | _ | _
    · refine .inl ⟨rfl, rfl, rfl, hinput.imp_right ?_⟩
      rintro ⟨r, rfl, hstarves, hfirst⟩
      have hadvance := Run.advance_eq r
      rw [hresult] at hadvance
      exact ⟨_, rfl, Run.not_starves_of_advance hstarves hadvance, hfirst⟩
    · exact .inr rfl
    · exact .inr rfl
    · exact .inr rfl
  · exact .inr rfl

/-- Sessions that agree leave the same behind. -/
theorem Agrees.observed_run {s t : Session} (h : s.Agrees t) (fuel : Nat) :
    (t.run fuel).map observed = (s.run fuel).map observed := by
  have hrel := iterate_liftRel (fun _ _ => Agrees.advance) fuel h
  unfold run
  generalize iterate Session.advance fuel s = a, iterate Session.advance fuel t = b at hrel ⊢
  cases hrel with
  | none => rfl
  | some hsame => exact congrArg some hsame

/-! ### A session and a run

The other comparison is with a run, which has its input in a list and its outputs in another one. It
is again one step on both sides, and the status at the end tells how the run has stopped. -/

/-- A session has come as far as a run, from the session that it was before: its machine is the one
of the run, its output is what the run has emitted, a line for each value, and no message has been
said. Its source delivers what the run has in its source; more than that only if the run does not
need it. -/
structure Follows (before s : Session) (r : Run) : Prop where
  machine : s.machine = r.machine
  output : s.output =
    { before.output with lines := before.output.lines ++ r.outputs.map Word.render }
  messages : s.journal.messages = before.journal.messages
  input : s.source.stream = ⟨r.source, none⟩ ∨
    r.source <+: s.source.stream.values ∧ ¬ r.Starves

/-- The status of a session whose machine stops, and the messages that go with it. -/
inductive Concludes (ip : Word) : Stop → Status → List String → Prop where
  | halted : Concludes ip (.ok .halted) .success []
  | starved : Concludes ip (.ok .awaitInput) .starved
      ["error: program is waiting for input at instruction " ++ ip.render]
  | failed (e : RuntimeError) : Concludes ip (.error e) .failed ["runtime error: " ++ e.message]

/-- A session has ended as a run has. -/
structure EndsAs (before : Session) (ending : Session × Status) (a : Run × Stop) : Prop where
  machine : ending.1.machine = a.1.machine
  output : ending.1.output =
    { before.output with lines := before.output.lines ++ a.1.outputs.map Word.render }
  concludes : ∃ said, ending.1.journal.messages = before.journal.messages ++ said ∧
    Concludes a.1.machine.ip a.2 ending.2 said

variable {before : Session} (hlimit : before.output.limit = none)

include hlimit

/-- A session takes the same step as the run that it follows. -/
theorem Follows.advance {s : Session} {r : Run} (h : Follows before s r) :
    Sum.LiftRel (Follows before) (EndsAs before) s.advance r.advance := by
  obtain ⟨m, source, output, journal⟩ := s
  obtain ⟨hmachine, houtput, hmessages, hinput⟩ := h
  dsimp only at hmachine houtput hmessages hinput
  cases hmachine
  have hadvance := Run.advance_eq r
  rw [advance_eq]
  dsimp only [executed]
  rcases hresult : r.machine.execute.result with e | _ | _ | value | _ <;>
    rw [hresult] at hadvance <;> dsimp only at hadvance ⊢
  · rw [hadvance]
    refine .inr ⟨rfl, houtput, _, ?_, .failed e⟩
    simp only [failed, Journal.messages_say, Journal.messages_watch, hmessages, failureMessage]
    rfl
  · rw [hadvance]
    refine .inl ⟨rfl, houtput, ?_, hinput.imp_right fun ⟨hfirst, hstarves⟩ =>
      ⟨hfirst, Run.not_starves_of_advance hstarves hadvance⟩⟩
    simp only [Journal.messages_watch, hmessages]
  · have hwaits : r.machine.Waits := hresult
    rw [hwaits.execute_machine, Run.advance_of_waits hwaits]
    cases hsource : r.source with
    | nil =>
      -- the run waits in vain, so its source has delivered everything
      rcases hinput with hsame | ⟨-, hstarves⟩
      · rw [hsource] at hsame
        obtain ⟨u, hu, hfault, -⟩ := InputSource.next_of_nil (s := source) (by rw [hsame])
        rw [hsame] at hfault
        rw [supply_of_nil hu, Run.supply_of_nil hsource]
        simp only [deprived, complaint, hfault]
        refine .inr ⟨rfl, houtput, _, ?_, .starved⟩
        simp only [Journal.messages_say, Journal.messages_watch, hmessages]
        rfl
      · obtain ⟨value, rest, hcons, -⟩ := Run.exists_cons_of_not_starves hstarves hwaits
        rw [hsource] at hcons
        contradiction
    | cons value rest =>
      have hsupply := Run.supply_of_cons hsource
      have hmessages' : (journal.watch r.machine.execute.notices).messages =
          before.journal.messages := by
        simp only [Journal.messages_watch, hmessages]
      rcases hinput with hsame | ⟨⟨more, hmore⟩, hstarves⟩
      · rw [hsource] at hsame
        obtain ⟨u, hu, hleft⟩ := InputSource.next_of_cons (s := source) (by rw [hsame])
        rw [hsame] at hleft
        rw [supply_of_cons hu, hsupply]
        exact .inl ⟨rfl, houtput, hmessages', Or.inl hleft⟩
      · rw [hsource] at hmore
        obtain ⟨u, hu, hleft⟩ := InputSource.next_of_cons hmore.symm
        rw [supply_of_cons hu, hsupply]
        refine .inl ⟨rfl, houtput, hmessages', Or.inr ⟨?_, Run.not_starves_of_advance hstarves ?_⟩⟩
        · rw [hleft]
          exact List.prefix_append ..
        · rw [Run.advance_of_waits hwaits, hsupply]
  · have hfault : output.fault? = none := by
      unfold Output.fault?
      rw [houtput, hlimit]
    unfold emit
    rw [hadvance, hfault]
    refine .inl ⟨rfl, ?_, ?_, hinput.imp_right fun ⟨hfirst, hstarves⟩ =>
      ⟨hfirst, Run.not_starves_of_advance hstarves hadvance⟩⟩
    · simp [Output.push, houtput]
    · simp only [Journal.messages_watch, hmessages]
  · rw [hadvance]
    refine .inr ⟨rfl, houtput, [], ?_, .halted⟩
    simp only [Session.halted, Journal.messages_log, Journal.messages_watch, hmessages,
      List.append_nil]

/-- A session ends if and only if the run does that it follows, after as many instructions, and
ends as the run does. -/
theorem run_follows {s : Session} {r : Run} (h : Follows before s r) (fuel : Nat) :
    Option.Rel (EndsAs before) (s.run fuel) (iterate Run.advance fuel r) :=
  iterate_liftRel (fun _ _ => Follows.advance hlimit) fuel h

end Session

end Command

end Intcode
