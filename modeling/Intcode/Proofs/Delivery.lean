import Intcode.Machine.Run
import Intcode.Proofs.Execution

/-!
# How input is delivered

A run can find its input in two places: behind the input that waits already, or in the source that
it polls. Moving values from the one to the other makes no difference to what can be observed,
since a machine polls only when it has consumed all that waits, and consumes what it gets at once.

* `Run.advance_eq` — what one step of a run comes to, by the outcome of its instruction;
* `Run.sourceless` — the same run with the whole source behind its input, which a poll leaves as
  it is;
* `Run.iterate_sourceless`, `Run.iterate_of_sourceless` — a run with a source against the run
  without one;
* `Run.iterate_polls` — which values a run takes from its source, and how often it polls;
* `run_delivery` — the main statement.
-/

namespace Intcode.Machine

section AnyAllocator

variable [Allocator]

/-- After an instruction without input no input waits. -/
theorem execute_input_nil {m : Machine} (h : m.input = []) : m.execute.machine.input = [] := by
  have hexecutes := m.executes
  generalize m.execute = s at hexecutes ⊢
  cases hexecutes with
  | halted => exact h
  | fails => exact h
  | @acts _ _ _ next effect =>
    rw [Step.noting_machine]
    cases effect with
    | write address value => exact (store_cases { m with ip := next } m.ip address value).1.trans h
    | receive address =>
      unfold apply
      rw [h]
      exact h
    | emit | jump | pass | rebase | halt => exact h

namespace Run

/-! ### One step of a run

A step is given as one equation over the result of the instruction, from which the cases of all
proofs about runs are taken. -/

section Advance

variable {r : Run}

/-- What comes of a step, by the result of the instruction. -/
theorem advance_eq (r : Run) :
    r.advance =
      match r.machine.execute.result with
      | .ok none => .inl { r with machine := r.machine.execute.machine }
      | .ok (some (.output value)) =>
        .inl { r with machine := r.machine.execute.machine, outputs := r.outputs.push value }
      | .ok (some .awaitInput) => supply { r with machine := r.machine.execute.machine }
      | .ok (some .halted) => .inr ({ r with machine := r.machine.execute.machine }, .ok .halted)
      | .error e => .inr ({ r with machine := r.machine.execute.machine }, .error e) := by
  obtain ⟨m, source, outputs, polls⟩ := r
  unfold advance
  dsimp only
  generalize m.execute = s
  obtain ⟨m', result, notices⟩ := s
  rcases result with e | _ | _ | value | _ <;> rfl

/-- A run whose machine waits for input polls the source. -/
theorem advance_of_waits (h : r.machine.Waits) : r.advance = r.supply := by
  have hmachine := h.execute_machine
  unfold Waits at h
  rw [advance_eq, h, hmachine]

omit [Allocator] in
theorem supply_of_nil (h : r.source = []) :
    r.supply = .inr ({ r with polls := r.polls + 1 }, .ok .awaitInput) := by
  obtain ⟨m, source, outputs, polls⟩ := r
  cases h
  rfl

omit [Allocator] in
theorem supply_of_cons {value : Word} {source : List Word} (h : r.source = value :: source) :
    r.supply =
      .inl { r with machine := r.machine.pushInput value, source, polls := r.polls + 1 } := by
  obtain ⟨m, source', outputs, polls⟩ := r
  cases h
  rfl

end Advance

/-! ### A run against the run without a source

The two runs are kept in step by `sourceless`, which is the same before and after a poll. A run with
a source takes more steps, so in one direction there is an induction on how much is left of the
source. -/

/-- The machine of a run with the whole source behind its input. -/
def whole (r : Run) : Machine := r.machine.extendInput r.source

/-- The run without a source: all that it had waits as input already. How often it has polled is
counted apart. -/
def sourceless (r : Run) (polls : Nat) : Run :=
  { r with machine := r.whole, source := [], polls }

omit [Allocator] in
theorem sourceless_of_nil {r : Run} (h : r.source = []) (polls : Nat) :
    r.sourceless polls = { r with polls } := by
  unfold sourceless whole
  rw [h, extendInput_nil, ← h]

omit [Allocator] in
/-- A poll that yields a value only moves it. -/
theorem sourceless_of_cons {r : Run} {value : Word} {source : List Word}
    (h : r.source = value :: source) (polled polls : Nat) :
    sourceless { r with machine := r.machine.pushInput value, source, polls := polled } polls =
      r.sourceless polls := by
  unfold sourceless whole pushInput
  rw [extendInput_extendInput, h]
  rfl

/-- Unless it waits, a run takes the same step as the run without a source. -/
theorem advance_sourceless_of_not_waits {r : Run} (h : ¬ r.machine.Waits) (polls : Nat) :
    (r.sourceless polls).advance =
      r.advance.map (·.sourceless polls) (Prod.map (·.sourceless polls) id) := by
  have hexecute : (r.sourceless polls).machine.execute = r.machine.execute.extendInput r.source :=
    execute_extendInput r.machine r.source h
  rw [advance_eq, advance_eq r, hexecute]
  unfold Waits at h
  -- the instructions have the same result, which is not to wait
  rcases hresult : r.machine.execute.result with e | _ | _ | value | _
  · simp only [Step.extendInput_result, hresult]; rfl
  · simp only [Step.extendInput_result, hresult]; rfl
  · exact absurd hresult h
  · simp only [Step.extendInput_result, hresult]; rfl
  · simp only [Step.extendInput_result, hresult]; rfl

/-- A run polls a value, which the run without a source has already, or both take the same step,
which may be to wait in vain. -/
theorem advance_sourceless (r : Run) (polls : Nat) :
    (∃ s, r.advance = .inl s ∧ s.sourceless polls = r.sourceless polls ∧
      s.source.length < r.source.length) ∨
    ∃ polls', (r.sourceless polls).advance =
      r.advance.map (·.sourceless polls') (Prod.map (·.sourceless polls') id) := by
  by_cases hwaits : r.machine.Waits
  · cases hsource : r.source with
    | nil =>
      -- nothing is left for either run, so both wait in vain
      have hwaits' : (r.sourceless polls).machine.Waits := by
        rwa [sourceless_of_nil hsource]
      refine Or.inr ⟨polls + 1, ?_⟩
      rw [advance_of_waits hwaits', supply_of_nil rfl, advance_of_waits hwaits,
        supply_of_nil hsource]
      rfl
    | cons value source =>
      refine Or.inl ⟨_, (advance_of_waits hwaits).trans (supply_of_cons hsource),
        sourceless_of_cons hsource (r.polls + 1) polls, ?_⟩
      simp
  · exact Or.inr ⟨polls, advance_sourceless_of_not_waits hwaits polls⟩

/-- What a run with a source comes to, the run without it comes to as well, with what is left of
the source behind the input that is left. -/
theorem iterate_sourceless {fuel : Nat} {r a : Run} {stop : Stop}
    (h : iterate advance fuel r = some (a, stop)) (polls : Nat) :
    ∃ fuel' polls', iterate advance fuel' (r.sourceless polls) =
      some (a.sourceless polls', stop) := by
  induction fuel generalizing r polls with
  | zero => contradiction
  | succ fuel ih =>
    rw [iterate_succ] at h
    rcases advance_sourceless r polls with ⟨s, hpoll, hsame, -⟩ | ⟨polls', hstep⟩
    · -- a poll is no step of the run without a source
      rw [hpoll] at h
      rw [← hsame]
      exact ih h polls
    · cases hadvance : r.advance with
      | inl s =>
        rw [hadvance] at h hstep
        obtain ⟨fuel', polls'', heq⟩ := ih h polls'
        refine ⟨fuel' + 1, polls'', ?_⟩
        rw [iterate_succ, hstep]
        exact heq
      | inr answer =>
        rw [hadvance] at h hstep
        cases h
        refine ⟨1, polls', ?_⟩
        rw [iterate_succ, hstep]
        rfl

/-- What the run without a source comes to, the run with it comes to as well. It takes one step
more for each value that it polls, so where the fuel does not get less the source does. -/
theorem iterate_of_sourceless {fuel : Nat} {r b : Run} {stop : Stop} {polls : Nat}
    (h : iterate advance fuel (r.sourceless polls) = some (b, stop)) :
    ∃ fuel' a polls', iterate advance fuel' r = some (a, stop) ∧ b = a.sourceless polls' := by
  induction fuel generalizing r polls with
  | zero => contradiction
  | succ fuel ih =>
    induction hlength : r.source.length using Nat.strongRecOn generalizing r with
    | ind n ihn =>
      rcases advance_sourceless r polls with ⟨s, hpoll, hsame, hlt⟩ | ⟨polls', hstep⟩
      · -- a poll in front of a run for which the fuel is still the same
        rw [← hsame] at h
        obtain ⟨fuel', a, polls', ha, hb⟩ := ihn _ (hlength ▸ hlt) h rfl
        refine ⟨fuel' + 1, a, polls', ?_, hb⟩
        rw [iterate_succ, hpoll]
        exact ha
      · rw [iterate_succ, hstep] at h
        cases hadvance : r.advance with
        | inl s =>
          rw [hadvance] at h
          obtain ⟨fuel', a, polls'', ha, hb⟩ := ih h
          refine ⟨fuel' + 1, a, polls'', ?_, hb⟩
          rw [iterate_succ, hadvance]
          exact ha
        | inr answer =>
          rw [hadvance] at h
          cases h
          refine ⟨1, answer.1, polls', ?_, rfl⟩
          rw [iterate_succ, hadvance]
          rfl

/-! ### Polling

Whether a run polls is seen by its count of polls, and the instruction that makes it poll is the one
that consumes the value. So at most one value that has been polled waits at any time. -/

/-- The run after one instruction, or after one poll if the instruction waits for input. -/
def next (r : Run) : Run :=
  match r.advance with
  | .inl s => s
  | .inr (s, _) => s

/-- Whether a run is about to poll its source. -/
def Polls (r : Run) : Prop := r.next.polls ≠ r.polls

/-- An instruction that does not wait leaves the source and the count of polls as they are. -/
theorem next_of_not_waits {r : Run} (h : ¬ r.machine.Waits) :
    r.next.machine = r.machine.execute.machine ∧ r.next.source = r.source ∧
      r.next.polls = r.polls := by
  unfold next
  rw [advance_eq]
  unfold Waits at h
  rcases hresult : r.machine.execute.result with e | _ | _ | value | _
  · exact ⟨rfl, rfl, rfl⟩
  · exact ⟨rfl, rfl, rfl⟩
  · exact absurd hresult h
  · exact ⟨rfl, rfl, rfl⟩
  · exact ⟨rfl, rfl, rfl⟩

/-- Only a poll in vain ends in waiting. -/
theorem stop_of_not_waits {r a : Run} {stop : Stop} (h : ¬ r.machine.Waits)
    (hadvance : r.advance = .inr (a, stop)) : stop ≠ .ok .awaitInput := by
  rw [advance_eq] at hadvance
  unfold Waits at h
  rcases hresult : r.machine.execute.result with e | _ | _ | value | _ <;>
    rw [hresult] at hadvance
  · cases hadvance; simp
  · contradiction
  · exact absurd hresult h
  · contradiction
  · cases hadvance; simp

/-- A run polls only when its machine waits for input. -/
theorem waits_of_polls {r : Run} (h : r.Polls) : r.machine.Waits := by
  by_cases hwaits : r.machine.Waits
  · exact hwaits
  · exact absurd (next_of_not_waits hwaits).2.2 h

/-- A value that a run gets from its source is consumed by the instruction that waits for it, with
nothing left and without another poll. -/
theorem next_of_polls {r : Run} (h : r.Polls) {value : Word} {source : List Word}
    (hsource : r.source = value :: source) :
    r.next.machine = r.machine.pushInput value ∧ ¬ r.next.Polls ∧
      r.next.next.machine.input = [] := by
  have hwaits := waits_of_polls h
  have hmachine : r.next.machine = r.machine.pushInput value := by
    unfold next
    rw [advance_of_waits hwaits, supply_of_cons hsource]
  obtain ⟨hinput, hnot⟩ := hwaits.execute_pushInput value
  rw [← hmachine] at hinput hnot
  refine ⟨hmachine, fun hpolls => hnot (waits_of_polls hpolls), ?_⟩
  rw [(next_of_not_waits hnot).1]
  exact hinput

theorem polls_next_of_polls {r : Run} (h : r.Polls) : r.next.polls = r.polls + 1 := by
  unfold next
  rw [advance_of_waits (waits_of_polls h)]
  cases hsource : r.source with
  | nil => rw [supply_of_nil hsource]
  | cons value source => rw [supply_of_cons hsource]

/-- No input waits but what the next instruction consumes. -/
def Drained (r : Run) : Prop :=
  r.machine.input = [] ∨
    ∃ (m : Machine) (value : Word), m.Waits ∧ r.machine = m.pushInput value

/-- A run stays drained. -/
theorem drained_advance {r : Run} (h : r.Drained) :
    (∃ s, r.advance = .inl s ∧ s.Drained) ∨
      ∃ a stop, r.advance = .inr (a, stop) ∧ a.machine.input = [] := by
  by_cases hwaits : r.machine.Waits
  · rw [advance_of_waits hwaits]
    cases hsource : r.source with
    | nil =>
      rw [supply_of_nil hsource]
      exact Or.inr ⟨_, _, rfl, hwaits.input_eq⟩
    | cons value source =>
      rw [supply_of_cons hsource]
      exact Or.inl ⟨_, rfl, Or.inr ⟨r.machine, value, hwaits, rfl⟩⟩
  · -- what has just been polled is consumed now, and nothing else waits
    have hinput : r.next.machine.input = [] := by
      rw [(next_of_not_waits hwaits).1]
      rcases h with hnil | ⟨m, value, hm, heq⟩
      · exact execute_input_nil hnil
      · rw [heq]
        exact (hm.execute_pushInput value).1
    unfold next at hinput
    cases hadvance : r.advance with
    | inl s =>
      rw [hadvance] at hinput
      exact Or.inl ⟨s, rfl, Or.inl hinput⟩
    | inr answer =>
      rw [hadvance] at hinput
      exact Or.inr ⟨answer.1, answer.2, rfl, hinput⟩

/-- A run that is drained ends without input. -/
theorem input_of_drained {fuel : Nat} {r a : Run} {stop : Stop} (hdrained : r.Drained)
    (h : iterate advance fuel r = some (a, stop)) : a.machine.input = [] := by
  induction fuel generalizing r with
  | zero => contradiction
  | succ fuel ih =>
    rw [iterate_succ] at h
    rcases drained_advance hdrained with ⟨s, hs, hdrained'⟩ | ⟨a', stop', ha, hinput⟩
    · rw [hs] at h
      exact ih hdrained' h
    · rw [ha] at h
      cases h
      exact hinput

/-- The values that a run takes are the first ones of its source. It polls once for each of them,
and once more if it is left waiting; if it has taken any, it has consumed all of its input. -/
theorem iterate_polls {fuel : Nat} {r a : Run} {stop : Stop}
    (h : iterate advance fuel r = some (a, stop)) :
    ∃ taken, r.source = taken ++ a.source ∧ (taken ≠ [] → a.machine.input = []) ∧
      (stop = .ok .awaitInput → a.polls = r.polls + taken.length + 1) ∧
      (stop ≠ .ok .awaitInput → a.polls = r.polls + taken.length) := by
  induction fuel generalizing r with
  | zero => contradiction
  | succ fuel ih =>
    rw [iterate_succ] at h
    by_cases hwaits : r.machine.Waits
    · rw [advance_of_waits hwaits] at h
      cases hsource : r.source with
      | nil =>
        -- a poll in vain, which is the last one
        rw [supply_of_nil hsource] at h
        cases h
        refine ⟨[], hsource.symm, fun hne => absurd rfl hne, fun _ => rfl, fun hne => absurd rfl hne⟩
      | cons value source =>
        rw [supply_of_cons hsource] at h
        obtain ⟨taken, htaken, -, hawait, hother⟩ := ih h
        dsimp only at htaken hawait hother
        refine ⟨value :: taken, by rw [htaken, List.cons_append], fun _ => ?_, fun hstop => ?_,
          fun hstop => ?_⟩
        · -- from here on nothing waits but what is polled
          exact input_of_drained (Or.inr ⟨r.machine, value, hwaits, rfl⟩) h
        · rw [hawait hstop, List.length_cons]
          omega
        · rw [hother hstop, List.length_cons]
          omega
    · -- an instruction without a poll
      obtain ⟨-, hsource, hpolls⟩ := next_of_not_waits hwaits
      unfold next at hsource hpolls
      cases hadvance : r.advance with
      | inl s =>
        rw [hadvance] at h hsource hpolls
        obtain ⟨taken, htaken, hrest⟩ := ih h
        dsimp only at hsource hpolls
        rw [hsource] at htaken
        rw [hpolls] at hrest
        exact ⟨taken, htaken, hrest⟩
      | inr answer =>
        rw [hadvance] at h hsource hpolls
        cases h
        refine ⟨[], hsource.symm, fun hne => absurd rfl hne, fun hstop => ?_, fun _ => hpolls⟩
        exact absurd hstop (stop_of_not_waits hwaits hadvance)

end Run

/-! ### The main statement

The first two parts are the two directions between the runs, the others are about the polls of one
run. -/

/-- **Delivery of input cannot be observed.** Values `zs` of an input `ys ++ zs` may wait from the
start or come from the source.

* One run comes to an end if and only if the other one does, with the same event or error, the
  same output and the same machine, except that what is left of the source stands behind the input
  of the machine to which it was given at the start.
* The source is polled once for each value that is taken from it, and once more if and only if the
  run is left waiting; if a value is taken, no input is left.
* It is polled only when an input instruction finds no input, and that instruction consumes the
  value at once. -/
theorem run_delivery (m : Machine) (ys zs : List Word) :
    (∀ fuel a stop, (m.extendInput ys).run fuel zs = some (a, stop) →
      ∃ fuel' b, (m.extendInput (ys ++ zs)).run fuel' [] = some (b, stop) ∧
        b.outputs = a.outputs ∧ b.machine = a.machine.extendInput a.source) ∧
    (∀ fuel b stop, (m.extendInput (ys ++ zs)).run fuel [] = some (b, stop) →
      ∃ fuel' a, (m.extendInput ys).run fuel' zs = some (a, stop) ∧
        b.outputs = a.outputs ∧ b.machine = a.machine.extendInput a.source) ∧
    (∀ fuel a stop, (m.extendInput ys).run fuel zs = some (a, stop) →
      ∃ taken, zs = taken ++ a.source ∧ (taken ≠ [] → a.machine.input = []) ∧
        (stop = .ok .awaitInput → a.polls = taken.length + 1) ∧
        (stop ≠ .ok .awaitInput → a.polls = taken.length)) ∧
    ∀ r : Run, r.Polls → r.machine.wantsInput ∧ r.next.polls = r.polls + 1 ∧
      ∀ value source, r.source = value :: source →
        r.next.machine = r.machine.pushInput value ∧ ¬ r.next.Polls ∧
          r.next.next.machine.input = [] := by
  -- a run with everything in the queue is a run with a source whose source is moved over
  have hstart : (Run.start (m.extendInput ys) zs).sourceless 0 =
      Run.start (m.extendInput (ys ++ zs)) [] := by
    unfold Run.start Run.sourceless Run.whole
    rw [extendInput_extendInput]
  refine ⟨?_, ?_, ?_, ?_⟩
  · intro fuel a stop h
    obtain ⟨fuel', polls, hb⟩ := Run.iterate_sourceless h 0
    rw [hstart] at hb
    exact ⟨fuel', a.sourceless polls, hb, rfl, rfl⟩
  · intro fuel b stop h
    unfold run at h
    rw [← hstart] at h
    obtain ⟨fuel', a, polls, ha, rfl⟩ := Run.iterate_of_sourceless h
    exact ⟨fuel', a, ha, rfl, rfl⟩
  · intro fuel a stop h
    obtain ⟨taken, htaken, hinput, hawait, hother⟩ := Run.iterate_polls h
    refine ⟨taken, htaken, hinput, fun hstop => ?_, fun hstop => ?_⟩
    · rw [hawait hstop]
      simp [Run.start]
    · rw [hother hstop]
      simp [Run.start]
  · intro r hpolls
    exact ⟨(Run.waits_of_polls hpolls).wantsInput, Run.polls_next_of_polls hpolls,
      fun value source hsource => Run.next_of_polls hpolls hsource⟩

end AnyAllocator

/-- A machine that reads two values, of which the first one waits and the second one is polled. A
third value is left over: in the source, or as input if it has waited from the start. -/
theorem run_delivery_one_polled :
    (∃ fuel b, (extendInput ⟨0, 0, ⟨#[3, 0, 3, 0, 99]⟩, [], false⟩ [5, 6, 7]).run fuel [] =
        some (b, .ok .halted) ∧ b.outputs = #[] ∧
      b.machine = ⟨4, 0, ⟨#[6, 0, 3, 0, 99]⟩, [7], true⟩) ∧
    (∃ fuel a, (extendInput ⟨0, 0, ⟨#[3, 0, 3, 0, 99]⟩, [], false⟩ [5]).run fuel [6, 7] =
        some (a, .ok .halted) ∧ #[] = a.outputs ∧
      ⟨4, 0, ⟨#[6, 0, 3, 0, 99]⟩, [7], true⟩ = a.machine.extendInput a.source) ∧
    (∃ taken : List Word, [6, 7] = taken ++ [7] ∧ 1 = taken.length) ∧
    wantsInput ⟨2, 0, ⟨#[5, 0, 3, 0, 99]⟩, [], false⟩ ∧
    (Run.next ⟨⟨2, 0, ⟨#[5, 0, 3, 0, 99]⟩, [], false⟩, [6, 7], #[], 0⟩).machine =
      ⟨2, 0, ⟨#[5, 0, 3, 0, 99]⟩, [6], false⟩ := by
  have hdelivery := run_delivery ⟨0, 0, ⟨#[3, 0, 3, 0, 99]⟩, [], false⟩ [5] [6, 7]
  obtain ⟨hthere, hback, hpolls, hpolled⟩ := hdelivery
  refine ⟨hthere 4 ⟨⟨4, 0, ⟨#[6, 0, 3, 0, 99]⟩, [], true⟩, [7], #[], 1⟩ (.ok .halted) rfl, ?_, ?_,
    ?_⟩
  · exact hback 3 ⟨⟨4, 0, ⟨#[6, 0, 3, 0, 99]⟩, [7], true⟩, [], #[], 0⟩ (.ok .halted) rfl
  · obtain ⟨taken, htaken, -, -, hother⟩ :=
      hpolls 4 ⟨⟨4, 0, ⟨#[6, 0, 3, 0, 99]⟩, [], true⟩, [7], #[], 1⟩ (.ok .halted) rfl
    exact ⟨taken, htaken, hother (by simp)⟩
  · obtain ⟨hwants, -, hnext⟩ := hpolled
      ⟨⟨2, 0, ⟨#[5, 0, 3, 0, 99]⟩, [], false⟩, [6, 7], #[], 0⟩ (by show 1 ≠ 0; decide)
    exact ⟨hwants, (hnext 6 [7] rfl).1⟩

end Intcode.Machine
