import Intcode.Proofs.Invocation

/-!
# Running a program on the command line

The command `run` does what a run of the machine does that has the whole input in a list: first the
values of the command line, then the integers on the lines of standard input.

* `Launches.follows` — the session of a command line follows that run;
* `invoke_run_agrees` — the main statement.
-/

namespace Intcode.Command

/-! ### What a session leaves

Outputs are printed as lines and a stop is told by a code and a message. -/

/-- Lines that are written behind others appear behind them. -/
theorem Output.text_append (o : Output) (lines : Array String) :
    text { o with lines := o.lines ++ lines } =
      o.text ++ String.join (lines.toList.map (· ++ "\n")) := by
  simp [text]

/-- The exit code of a session whose machine stops, and the message that goes with it. -/
theorem Session.Concludes.code {ip : Word} {stop : Machine.Stop} {status : Status}
    {said : List String} (h : Concludes ip stop status said) :
    (stop = .ok .halted ∧ status.code = 0 ∧ said = []) ∨
    (stop = .ok .awaitInput ∧ status.code = 2 ∧
      said = ["error: program is waiting for input at instruction " ++ ip.render]) ∨
    ∃ e, stop = .error e ∧ status.code = 3 ∧ said = ["runtime error: " ++ e.message] := by
  cases h with
  | halted => exact Or.inl ⟨rfl, rfl, rfl⟩
  | starved => exact Or.inr (Or.inl ⟨rfl, rfl, rfl⟩)
  | failed e => exact Or.inr (Or.inr ⟨e, rfl, rfl, rfl⟩)

section AnyAllocator

variable [Allocator]

open Intcode.Machine (Run)

variable {arguments : List String} {around : Surroundings} {request : Request}
  {options : RunOptions} {p : Program} {m : Machine}

/-! ### The session of a command line

The session starts where the run does, and follows it from there on. Its source may deliver more
than the run has in its list, as long as the run does not ask for more. -/

/-- The values of the command line, then the integers on the lines in front of the first one that
cannot be read throughout, are what a session delivers first. They are all that it delivers if
there is no such line. -/
theorem Launches.follows (h : Launches arguments around request options p m)
    (henough : (∀ line ∈ options.lines around.stdin, (InputSource.integers? line).isSome) ∨
      ∀ fuel r, m.run fuel (options.inputs ++
        InputSource.integersBefore (options.lines around.stdin)) ≠ some (r, .ok .awaitInput)) :
    Session.Follows h.session h.session (.start m (options.inputs ++
      InputSource.integersBefore (options.lines around.stdin))) := by
  refine ⟨rfl, ?_, rfl, ?_⟩
  · show around.output = { around.output with lines := around.output.lines ++ #[].map Word.render }
    simp
  · obtain ⟨more, fault, hstream, hclean⟩ :=
      InputSource.stream_of_lines options.inputs (options.lines around.stdin)
    show InputSource.stream ⟨options.inputs, options.lines around.stdin, none⟩ = _ ∨ _
    -- either every line is made of integers and the source is the whole of them, or the run never
    -- asks past those in front of the first fault
    rcases henough with hall | hnever
    · obtain ⟨rfl, rfl⟩ := hclean hall
      rw [List.append_nil] at hstream
      exact Or.inl hstream
    · refine Or.inr ⟨?_, fun ⟨fuel, r, hr⟩ => hnever fuel r hr⟩
      show _ <+: (InputSource.stream ⟨options.inputs, options.lines around.stdin, none⟩).values
      rw [hstream]
      exact List.prefix_append ..

/-! ### The main statement

All parts are read off the session that follows the run, and what is not needed of standard input is
left out of both. -/

/-- **The command `run` agrees with a run of the machine.** Let the run have the values of the
command line and then the integers on the lines of standard input in front of the first one that
cannot be read throughout. If there is no such line, or the run does not wait for more:

* the command ends if and only if the run does;
* what it prints is what the run emits, a number on each line, also before an error; its exit code
  tells whether the run has halted, waits or has failed, and where it waits or how it has failed is
  the only message;
* lines that are not needed do not matter. Standard inputs which begin with the same lines lead to
  the same report if a run that has the integers of these does not wait for more. -/
theorem invoke_run_agrees (h : Launches arguments around request options p m)
    (hopen : around.output.limit = none)
    (henough : (∀ line ∈ options.lines around.stdin, (InputSource.integers? line).isSome) ∨
      ∀ fuel r, m.run fuel (options.inputs ++
        InputSource.integersBefore (options.lines around.stdin)) ≠ some (r, .ok .awaitInput)) :
    ((∃ fuel report, invoke fuel arguments around = some report) ↔
      ∃ fuel a, m.run fuel (options.inputs ++
        InputSource.integersBefore (options.lines around.stdin)) = some a) ∧
    (∀ fuel fuel' report r stop, invoke fuel arguments around = some report →
      m.run fuel' (options.inputs ++
        InputSource.integersBefore (options.lines around.stdin)) = some (r, stop) →
      report.output.text = around.output.text ++
        String.join (r.outputs.toList.map fun value => value.render ++ "\n") ∧
      ((stop = .ok .halted ∧ report.status.code = 0 ∧ ErrorLine.messages report.errors = []) ∨
        (stop = .ok .awaitInput ∧ report.status.code = 2 ∧ ErrorLine.messages report.errors =
          ["error: program is waiting for input at instruction " ++ r.machine.ip.render]) ∨
        ∃ e, stop = .error e ∧ report.status.code = 3 ∧
          ErrorLine.messages report.errors = ["runtime error: " ++ e.message])) ∧
    ∀ stdin needed, needed <+: options.lines around.stdin → needed <+: options.lines stdin →
      (∀ fuel r, m.run fuel (options.inputs ++ InputSource.integersBefore needed) ≠
        some (r, .ok .awaitInput)) →
      ∀ fuel, invoke fuel arguments { around with stdin } = invoke fuel arguments around := by
  have hrel : ∀ fuel, Option.Rel h.session.EndsAs (h.session.run fuel)
      (m.run fuel (options.inputs ++ InputSource.integersBefore (options.lines around.stdin))) :=
    Session.run_follows hopen (h.follows henough)
  refine ⟨⟨?_, ?_⟩, ?_, ?_⟩
  · rintro ⟨fuel, report, hreport⟩
    rw [h.invoke_eq] at hreport
    obtain ⟨ending, hending, -⟩ := Option.map_eq_some_iff.mp hreport
    obtain ⟨a, ha, -⟩ := exists_of_rel_some (hending ▸ hrel fuel)
    exact ⟨fuel, a, ha⟩
  · rintro ⟨fuel, a, ha⟩
    obtain ⟨ending, hending, -⟩ := exists_of_rel_some_right (ha ▸ hrel fuel)
    refine ⟨fuel, around.conclude ending, ?_⟩
    rw [h.invoke_eq, hending]
    rfl
  · intro fuel fuel' report r stop hreport hrun
    rw [h.invoke_eq] at hreport
    obtain ⟨ending, hending, rfl⟩ := Option.map_eq_some_iff.mp hreport
    obtain ⟨a, ha, hends⟩ := exists_of_rel_some (hending ▸ hrel fuel)
    -- the run has one end, whatever the fuel
    cases iterate_unique ha hrun
    -- a session starts with a log entry, so what is said at its end is all that is said
    obtain ⟨said, hsaid, hconcludes⟩ := hends.concludes
    have hmessages : ErrorLine.messages (ending.1.journal.lines.toList) = said := by
      refine hsaid.trans ?_
      simp [Launches.session, startSession]
    refine ⟨?_, ?_⟩
    · show ending.1.output.text = _
      rw [hends.output]
      refine (Output.text_append around.output _).trans ?_
      simp [Function.comp_def]
    · show _ ∨ _ ∨ _
      have hcode := hconcludes.code
      rw [← hmessages] at hcode
      exact hcode
  · intro stdin needed hneeded hneeded' hnever fuel
    -- the lines that both begin with are enough for the run, so for the sessions as well
    have hagrees : h.session.Agrees (h.withStdin stdin).session := by
      refine ⟨rfl, rfl, rfl, Or.inr ⟨.start m (options.inputs ++
        InputSource.integersBefore needed), rfl, ?_, InputSource.stream_of_first_lines _ hneeded,
        InputSource.stream_of_first_lines _ hneeded'⟩⟩
      rintro ⟨fuel, r, hr⟩
      exact hnever fuel r hr
    rw [h.invoke_eq, (h.withStdin stdin).invoke_eq]
    exact hagrees.conclude_run around fuel

end AnyAllocator

/-- A program that reads two values and prints each of them. -/
def echo : Program := ⟨[3, 0, 4, 0, 3, 0, 4, 0, 99]⟩

/-- A file with that program, and standard input of which only the first line can be read. -/
def echoing : Surroundings :=
  ⟨FileTree.empty.addFile (.ofNames ["p".toList]) echo.render.toUTF8, "2\nthree 4".toUTF8,
    .unlimited⟩

/-- One value comes from the command line and one from the first line. The second line is not
needed, and might be any other one. -/
theorem invoke_run_agrees_echoing :
    (∃ fuel report, invoke fuel ["run", "p", "-i", "1", "--stdin"] echoing = some report) ∧
    (∀ fuel report, invoke fuel ["run", "p", "-i", "1", "--stdin"] echoing = some report →
      report.output.text = "1\n2\n" ∧ report.status.code = 0) ∧
    ∀ fuel, invoke fuel ["run", "p", "-i", "1", "--stdin"]
        { echoing with stdin := "2\n\n5 6".toUTF8 } =
      invoke fuel ["run", "p", "-i", "1", "--stdin"] echoing := by
  have hlaunches : Launches ["run", "p", "-i", "1", "--stdin"] echoing
      ⟨.quiet, .run ⟨"p", [1], [], true⟩⟩ ⟨"p", [1], [], true⟩ echo (.ofProgram echo) :=
    ⟨rfl, rfl, ⟨echo.render, rfl, rfl⟩, rfl⟩
  have hmap : ((Machine.ofProgram echo).run 7 [1, 2]).map (fun a => (a.1.outputs, a.2)) =
      some (#[1, 2], .ok .halted) := by
    unfold Machine.ofProgram
    rw [Memory.load_eq_toArray]
    decide +kernel
  obtain ⟨⟨r, stop⟩, hrun, heq⟩ := Option.map_eq_some_iff.mp hmap
  obtain ⟨houtputs, hstop⟩ := Prod.mk.inj heq
  dsimp only at houtputs hstop
  -- the run that halts is the only run, whatever its fuel, so none waits
  have hnever : ∀ fuel a, (Machine.ofProgram echo).run fuel [1, 2] ≠ some (a, .ok .awaitInput) := by
    intro fuel a ha
    cases iterate_unique ha hrun
    cases hstop
  obtain ⟨hends, hreport, hneeded⟩ := invoke_run_agrees hlaunches rfl (Or.inr hnever)
  refine ⟨hends.mpr ⟨7, _, hrun⟩, fun fuel report hinvoke => ?_, fun fuel => ?_⟩
  · obtain ⟨htext, ⟨-, hcode, -⟩ | ⟨hwaits, -⟩ | ⟨e, hfails, -⟩⟩ :=
      hreport fuel 7 report r stop hinvoke hrun
    · rw [houtputs] at htext
      exact ⟨htext, hcode⟩
    · cases hstop.symm.trans hwaits
    · cases hstop.symm.trans hfails
  · exact hneeded "2\n\n5 6".toUTF8 [[50]] ⟨[_], rfl⟩ ⟨[[], _], rfl⟩ hnever fuel

end Intcode.Command
