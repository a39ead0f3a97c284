import Intcode.Proofs.ProgramGrammar
import Intcode.Proofs.RoundTrip
import Intcode.Proofs.RunCommand

/-!
# Exit codes

The exit code of an invocation tells how it has gone. A code of 2 means that a program waits for
input and its source has ended, a code of 3 that a machine has failed, and both tell it of the last
instruction of a run, however long. The remaining codes are 0 and 1, and 101 for a listing that
standard output does not take.

* `Session.Reaches`, `Session.Ends` — the sessions on the way, and the last step of one;
* `Session.ends_iff` — a session ends with a status if and only if it comes to such a step;
* `Output.pushAll_snd_eq_some_iff` — when lines are not taken;
* `invoke_code` — the main statement;
* `invoke_code_closed` — where a listing ends with 101, a run succeeds.
-/

namespace Intcode

namespace Command

/-! ### Programs with a listing

A listing is aborted at its first line that is not taken, so there has to be a line. -/

theorem listing_ne_nil {p : Program} (h : p.words ≠ []) : listing p ≠ [] := by
  intro hlisting
  refine h ?_
  rw [← Assembly.flatMap_words_statements p.words, List.map_eq_nil_iff.mp hlisting]
  rfl

/-! ### Lines that are not taken -/

/-- Lines meet a fault if and only if there is room for fewer of them. -/
theorem Output.pushAll_snd_eq_some_iff {o : Output} {lines : List String} {fault : WriteFault} :
    (o.pushAll lines).2 = some fault ↔
      ∃ room, o.limit = some (room, fault) ∧ lines ≠ [] ∧ room < o.lines.size + lines.length := by
  induction lines generalizing o with
  | nil => simp [pushAll]
  | cons line rest ih =>
    unfold pushAll fault?
    cases hlimit : o.limit with
    | none =>
      refine ih.trans ?_
      simp [push, hlimit]
    | some limit =>
      obtain ⟨room, fault'⟩ := limit
      by_cases hroom : o.lines.size < room
      · simp only [if_pos hroom]
        refine ih.trans ?_
        -- one line more has been taken and one line fewer is left
        have hone : (o.lines.push line).size = o.lines.size + 1 := Array.size_push ..
        have hnil : room < o.lines.size + (rest.length + 1) → rest ≠ [] := by
          rintro hlt rfl
          rw [List.length_nil] at hlt
          omega
        simp only [push, hone, hlimit, Option.some.injEq, Prod.mk.injEq, ne_eq, reduceCtorEq,
          not_false_eq_true, true_and, List.length_cons]
        constructor
        · rintro ⟨_, ⟨rfl, rfl⟩, -, hlt⟩
          exact ⟨_, ⟨rfl, rfl⟩, by omega⟩
        · rintro ⟨_, ⟨rfl, rfl⟩, hlt⟩
          exact ⟨_, ⟨rfl, rfl⟩, hnil hlt, by omega⟩
      · simp only [if_neg hroom, Option.some.injEq, Prod.mk.injEq, ne_eq, reduceCtorEq,
          not_false_eq_true, true_and, List.length_cons]
        constructor
        · rintro rfl
          exact ⟨room, ⟨rfl, rfl⟩, by omega⟩
        · rintro ⟨_, ⟨-, rfl⟩, -⟩
          rfl

/-! ### The last step of a session

The status of a session is the one of its last step. The statuses exclude each other, and a session
has one end, so a status also tells which step the last one was. -/

namespace Session

variable [Allocator]

/-- A session comes to another one by running instructions. -/
inductive Reaches : Session → Session → Prop where
  | refl (s : Session) : Reaches s s
  | head {s t u : Session} (step : s.advance = .inl t) (rest : Reaches t u) : Reaches s u

/-- What the last step of a session is, and the status that the session ends with. -/
inductive Ends (s : Session) : Status → Prop where
  | halted (halts : s.machine.execute.result = .ok (some .halted)) : Ends s .success
  | closed {value : Word} (emits : s.machine.execute.result = .ok (some (.output value)))
      (closed : s.output.fault? = some .closed) : Ends s .success
  | unwritten {value : Word} {fault : WriteFault}
      (emits : s.machine.execute.result = .ok (some (.output value)))
      (met : s.output.fault? = some fault) (read : fault ≠ .closed) : Ends s .refused
  | starved {source : InputSource} (waits : s.machine.Waits)
      (ended : s.source.next = (none, source)) (sound : source.fault = none) : Ends s .starved
  | misfed {source : InputSource} {fault : InputFault} (waits : s.machine.Waits)
      (ended : s.source.next = (none, source)) (faulty : source.fault = some fault) :
      Ends s .refused
  | failed {e : RuntimeError} (fails : s.machine.execute.result = .error e) : Ends s .failed

/-- A step ends the session with a status if and only if it is a last step with that status. -/
theorem ends_iff_advance {s : Session} {status : Status} :
    s.Ends status ↔ ∃ t, s.advance = .inr (t, status) := by
  rw [advance_eq]
  constructor
  · intro h
    cases h with
    | halted halts => exact ⟨_, by rw [halts]⟩
    | closed emits closed =>
      rw [emits]
      unfold emit executed
      dsimp only
      rw [closed]
      exact ⟨_, rfl⟩
    | @unwritten _ fault emits met read =>
      rw [emits]
      unfold emit executed
      dsimp only
      rw [met]
      cases fault with
      | closed => contradiction
      | full | refused => exact ⟨_, rfl⟩
    | starved waits ended sound | misfed waits ended sound =>
      have hresult := waits
      unfold Machine.Waits at hresult
      rw [hresult]
      dsimp only
      rw [supply_of_nil (s := s.executed) ended]
      unfold complaint
      dsimp only
      rw [sound]
      exact ⟨_, rfl⟩
    | failed fails => exact ⟨_, by rw [fails]⟩
  · rintro ⟨t, h⟩
    -- the status is read off the result of the instruction, and where that is not enough, off the
    -- source or the output
    rcases hresult : s.machine.execute.result with e | _ | _ | value | _ <;> rw [hresult] at h <;>
      dsimp only at h
    · cases h
      exact .failed hresult
    · cases h
    · rcases hnext : s.source.next with ⟨_ | value, source⟩
      · rw [supply_of_nil (s := s.executed) hnext] at h
        unfold complaint at h
        dsimp only at h
        cases hfault : source.fault <;> rw [hfault] at h <;> cases h
        · exact .starved hresult hnext hfault
        · exact .misfed hresult hnext hfault
      · rw [supply_of_cons (s := s.executed) hnext] at h
        cases h
    · unfold emit executed at h
      dsimp only at h
      rcases hfault : s.output.fault? with _ | _ | _ | _ <;> rw [hfault] at h <;> cases h
      · exact .closed hresult hfault
      · exact .unwritten hresult hfault (by simp)
      · exact .unwritten hresult hfault (by simp)
    · cases h
      exact .halted hresult

/-- A session that ends comes to its last step. -/
theorem exists_last_of_run {s : Session} {fuel : Nat} {ending : Session × Status}
    (h : s.run fuel = some ending) : ∃ t, s.Reaches t ∧ t.advance = .inr ending := by
  -- the induction is on the fuel, which is enough for all steps up to the last one
  induction fuel generalizing s with
  | zero => cases h
  | succ fuel ih =>
    unfold run at h
    rw [iterate_succ] at h
    cases hstep : s.advance with
    | inl t =>
      rw [hstep] at h
      obtain ⟨u, hreaches, hlast⟩ := ih h
      exact ⟨u, .head hstep hreaches, hlast⟩
    | inr answer =>
      rw [hstep] at h
      cases h
      exact ⟨s, .refl s, hstep⟩

/-- What a session comes to, it comes to from one step before as well. -/
theorem exists_run_of_advance {s t : Session} {ending : Session × Status} (h : s.advance = .inl t)
    (hrun : ∃ fuel, t.run fuel = some ending) : ∃ fuel, s.run fuel = some ending := by
  obtain ⟨fuel, hfuel⟩ := hrun
  refine ⟨fuel + 1, ?_⟩
  unfold run at hfuel ⊢
  rw [iterate_succ, h]
  exact hfuel

/-- A session that comes to a last step ends with it. -/
theorem Reaches.exists_run {s t : Session} {ending : Session × Status} (h : s.Reaches t)
    (hlast : t.advance = .inr ending) : ∃ fuel, s.run fuel = some ending := by
  induction h with
  | refl s =>
    refine ⟨1, ?_⟩
    unfold run
    rw [iterate_succ, hlast]
  | head step _ ih => exact exists_run_of_advance step (ih hlast)

/-- **The status of a session.** A session that ends does so with a status if and only if it comes
to a last step with that status. -/
theorem ends_iff {s : Session} {fuel : Nat} {ending : Session × Status}
    (h : s.run fuel = some ending) (status : Status) :
    ending.2 = status ↔ ∃ t, s.Reaches t ∧ t.Ends status := by
  constructor
  · rintro rfl
    obtain ⟨t, hreaches, hlast⟩ := exists_last_of_run h
    exact ⟨t, hreaches, ends_iff_advance.mpr ⟨ending.1, hlast⟩⟩
  · rintro ⟨t, hreaches, hends⟩
    obtain ⟨u, hlast⟩ := ends_iff_advance.mp hends
    obtain ⟨fuel', hrun⟩ := hreaches.exists_run hlast
    rw [iterate_unique h hrun]

end Session

/-! ### The main statement

The codes are numbers for statuses, one for each. So a code is an equation about the status, which
is decided by the way that the invocation has gone. -/

theorem Status.code_injective : Function.Injective Status.code := by
  rintro (_ | _ | _ | _ | _) (_ | _ | _ | _ | _) h <;> first | rfl | cases h

section AnyAllocator

variable [Allocator] {arguments : List String} {around : Surroundings} {fuel : Nat}
  {report : Report}

/-- Only a run ends starved or failed, and it does if its session comes to such a last step. -/
theorem Invokes.status_eq_iff_of_run (h : Invokes fuel arguments around report) {status : Status}
    (hstatus : status = .starved ∨ status = .failed) :
    report.status = status ↔ ∃ request options p m,
      ∃ launches : Launches arguments around request options p m,
        ∃ s, launches.session.Reaches s ∧ s.Ends status := by
  constructor
  · rintro rfl
    cases h with
    | ran launches ended =>
      exact ⟨_, _, _, _, launches, (Session.ends_iff ended _).mp rfl⟩
    | refused | version | help | gaveUp | printed | aborted | saved | unsaved =>
      rcases hstatus with h | h <;> cases h
  · rintro ⟨request, options, p, m, launches, hends⟩
    -- whichever way it went, the report is that of the session
    have hreport := invoke_eq_some_iff.mpr h
    rw [launches.invoke_eq] at hreport
    obtain ⟨ending, hending, rfl⟩ := Option.map_eq_some_iff.mp hreport
    exact (Session.ends_iff hending status).mpr hends

/-- Only a listing is aborted, and it is if standard output takes fewer lines. -/
theorem Invokes.status_eq_aborted_iff (h : Invokes fuel arguments around report) :
    report.status = .aborted ↔ ∃ request file p, Lists arguments around request file p ∧
      ∃ room fault, around.output.limit = some (room, fault) ∧
        room < around.output.lines.size + (listing p).length := by
  constructor
  · intro hstatus
    cases h with
    | aborted lists met =>
      obtain ⟨room, hlimit, -, hroom⟩ :=
        Output.pushAll_snd_eq_some_iff.mp (congrArg Prod.snd met)
      exact ⟨_, _, _, lists, room, _, hlimit, hroom⟩
    | ran launches ended =>
      obtain ⟨s, -, hends⟩ := (Session.ends_iff ended _).mp hstatus
      cases hends
    | refused | version | help | gaveUp | printed | saved | unsaved => cases hstatus
  · -- the request lists a program, and the listing meets the fault of the output, so no other
    -- report is possible
    rintro ⟨request, file, p, lists, room, fault, hlimit, hroom⟩
    obtain ⟨text, -, hparse⟩ := lists.program
    have hnil := listing_ne_nil (Program.words_ne_nil_of_parse hparse)
    have hfault := Output.pushAll_snd_eq_some_iff.mpr ⟨room, hlimit, hnil, hroom⟩
    have hreport := invoke_eq_some_iff.mpr h
    rw [lists.invoke_eq] at hreport
    rcases hpushed : around.output.pushAll (listing p) with ⟨printed, met⟩
    rw [hpushed] at hreport hfault
    cases hfault
    cases hreport
    rfl

/-- **The exit code of an invocation.** It is 0, 1, 2, 3 or 101.

* It is 3 if and only if a program is run whose machine fails.
* It is 2 if and only if a program is run that waits for input when its source has ended without a
  fault.
* It is 101 if and only if a program is listed and standard output takes fewer lines than the
  listing has. -/
theorem invoke_code (h : invoke fuel arguments around = some report) :
    report.status.code ∈ [0, 1, 2, 3, 101] ∧
    (report.status.code = 3 ↔ ∃ request options p m,
      ∃ launches : Launches arguments around request options p m,
        ∃ s e, launches.session.Reaches s ∧ s.machine.execute.result = .error e) ∧
    (report.status.code = 2 ↔ ∃ request options p m,
      ∃ launches : Launches arguments around request options p m,
        ∃ s source, launches.session.Reaches s ∧ s.machine.Waits ∧
          s.source.next = (none, source) ∧ source.fault = none) ∧
    (report.status.code = 101 ↔ ∃ request file p, Lists arguments around request file p ∧
      ∃ room fault, around.output.limit = some (room, fault) ∧
        room < around.output.lines.size + (listing p).length) := by
  have hinvokes := invoke_eq_some_iff.mp h
  -- distinct statuses have distinct codes, so a code says as much as its status
  have hcode : ∀ status, report.status.code = Status.code status ↔ report.status = status :=
    fun status => Status.code_injective.eq_iff
  refine ⟨?_, ?_, ?_, ?_⟩
  · cases report.status <;> simp [Status.code]
  · refine (hcode .failed).trans ((hinvokes.status_eq_iff_of_run (Or.inr rfl)).trans ?_)
    constructor
    · rintro ⟨request, options, p, m, launches, s, hreaches, hends⟩
      cases hends with
      | failed hfails => exact ⟨request, options, p, m, launches, s, _, hreaches, hfails⟩
    · rintro ⟨request, options, p, m, launches, s, e, hreaches, hfails⟩
      exact ⟨request, options, p, m, launches, s, hreaches, .failed hfails⟩
  · refine (hcode .starved).trans ((hinvokes.status_eq_iff_of_run (Or.inl rfl)).trans ?_)
    constructor
    · rintro ⟨request, options, p, m, launches, s, hreaches, hends⟩
      cases hends with
      | starved hwaits hended hsound =>
        exact ⟨request, options, p, m, launches, s, _, hreaches, hwaits, hended, hsound⟩
    · rintro ⟨request, options, p, m, launches, s, source, hreaches, hwaits, hended, hsound⟩
      exact ⟨request, options, p, m, launches, s, hreaches, .starved hwaits hended hsound⟩
  · exact (hcode .aborted).trans hinvokes.status_eq_aborted_iff

end AnyAllocator

/-- A program that reads two values gets one, and standard input is not to be read. -/
theorem invoke_code_starved :
    ∃ report, invoke 4 ["run", "p", "-i", "1"] echoing = some report ∧ report.status.code = 2 ∧
      ∃ request options p m,
        ∃ launches : Launches ["run", "p", "-i", "1"] echoing request options p m,
          ∃ s source, launches.session.Reaches s ∧ s.machine.Waits ∧
            s.source.next = (none, source) ∧ source.fault = none := by
  have hlaunches : Launches ["run", "p", "-i", "1"] echoing ⟨.quiet, .run ⟨"p", [1], [], false⟩⟩
      ⟨"p", [1], [], false⟩ echo (.ofProgram echo) :=
    ⟨rfl, rfl, ⟨echo.render, rfl, rfl⟩, rfl⟩
  have hmap : (invoke 4 ["run", "p", "-i", "1"] echoing).map (fun report => report.status.code) =
      some 2 := by
    rw [hlaunches.invoke_eq]
    unfold Launches.session Machine.ofProgram
    rw [Memory.load_eq_toArray]
    decide +kernel
  obtain ⟨report, hreport, hcode⟩ := Option.map_eq_some_iff.mp hmap
  exact ⟨report, hreport, hcode, (invoke_code hreport).2.2.1.mp hcode⟩

/-- Nobody reads what is printed. A run takes that for its end and succeeds, while a listing breaks
off with a code that means none of the documented outcomes. -/
theorem invoke_code_closed :
    (invoke 4 ["run", "p", "-i", "1"] { echoing with output := .limited 0 .closed }).map
      (fun report => (report.status.code, report.errors)) = some (0, []) ∧
    (invoke 0 ["disassemble", "p"] { echoing with output := .limited 0 .closed }).map
      (fun report => (report.status.code, report.errors)) =
        some (101, [.breakdown (unprinted .closed)]) := by
  have hlaunches : Launches ["run", "p", "-i", "1"]
      { echoing with output := .limited 0 .closed } ⟨.quiet, .run ⟨"p", [1], [], false⟩⟩
      ⟨"p", [1], [], false⟩ echo (.ofProgram echo) :=
    ⟨rfl, rfl, ⟨echo.render, rfl, rfl⟩, rfl⟩
  refine ⟨?_, rfl⟩
  rw [hlaunches.invoke_eq]
  unfold Launches.session Machine.ofProgram
  rw [Memory.load_eq_toArray]
  decide +kernel

end Command

end Intcode
