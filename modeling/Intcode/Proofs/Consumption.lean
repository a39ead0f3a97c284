import Mathlib.Data.List.TakeDrop
import Intcode.Proofs.Delivery

/-!
# Which inputs a program needs

A program that comes to a result has consumed some of its inputs, the first ones. The result is the
same whatever other inputs stand behind them, and with fewer inputs the program stops at an input
instruction. Both are read off the run that gets the inputs from a source, one by one: up to the
value that is missing, it is the same run.

* `Run.Takes`, `Run.takes_of_iterate` — a run with the values that it takes from its source;
* `Run.Takes.withSource` — another source that begins with these values;
* `Run.Takes.starves` — a source with fewer values;
* `returns_iff` — a program gets its inputs at the start or from a source;
* `returns_needed` — the main statement.
-/

namespace Intcode

namespace Machine.Run

/-! ### The values that a run takes

The run is described along its fuel, with a list of the values that it polls. By induction on this
description the same run is made with another source, as far as its values reach. -/

/-- The same run with another source. -/
def withSource (r : Run) (source : List Word) : Run := { r with source }

section AnyAllocator

variable [Allocator]

/-- A run with this much fuel takes these values from its source, one by one, and ends as the last
argument says. -/
inductive Takes : Nat → Run → List Word → Run × Stop → Prop where
  | wait {fuel : Nat} {r : Run} (waits : r.machine.Waits) (empty : r.source = []) :
      Takes (fuel + 1) r [] ({ r with polls := r.polls + 1 }, .ok .awaitInput)
  | poll {fuel : Nat} {r : Run} {value : Word} {source taken : List Word} {answer : Run × Stop}
      (waits : r.machine.Waits) (left : r.source = value :: source)
      (rest : Takes fuel
        { r with machine := r.machine.pushInput value, source, polls := r.polls + 1 }
        taken answer) :
      Takes (fuel + 1) r (value :: taken) answer
  | go {fuel : Nat} {r s : Run} {taken : List Word} {answer : Run × Stop}
      (runs : ¬ r.machine.Waits) (next : r.advance = .inl s) (rest : Takes fuel s taken answer) :
      Takes (fuel + 1) r taken answer
  | last {fuel : Nat} {r : Run} {answer : Run × Stop} (runs : ¬ r.machine.Waits)
      (answers : r.advance = .inr answer) : Takes (fuel + 1) r [] answer

/-- Every run that ends has taken some values. -/
theorem takes_of_iterate {fuel : Nat} {r : Run} {answer : Run × Stop}
    (h : iterate advance fuel r = some answer) : ∃ taken, Takes fuel r taken answer := by
  induction fuel generalizing r with
  | zero => contradiction
  | succ fuel ih =>
    rw [iterate_succ] at h
    -- a waiting machine is the one point where the source matters: without a value the run ends
    -- there, with one it goes on one value further
    by_cases hwaits : r.machine.Waits
    · rw [advance_of_waits hwaits] at h
      cases hsource : r.source with
      | nil =>
        rw [supply_of_nil hsource] at h
        cases h
        exact ⟨[], .wait hwaits hsource⟩
      | cons value source =>
        rw [supply_of_cons hsource] at h
        obtain ⟨taken, htaken⟩ := ih h
        exact ⟨value :: taken, .poll hwaits hsource htaken⟩
    · cases hadvance : r.advance with
      | inl s =>
        rw [hadvance] at h
        obtain ⟨taken, htaken⟩ := ih h
        exact ⟨taken, .go hwaits hadvance htaken⟩
      | inr answer' =>
        rw [hadvance] at h
        cases h
        exact ⟨[], .last hwaits hadvance⟩

/-- An instruction that does not wait has no use for the source. -/
theorem advance_withSource {r : Run} (h : ¬ r.machine.Waits) (source : List Word) :
    (r.withSource source).advance =
      r.advance.map (·.withSource source) (Prod.map (·.withSource source) id) := by
  rw [advance_eq, advance_eq r]
  unfold withSource
  dsimp only
  unfold Waits at h
  rcases hresult : r.machine.execute.result with e | _ | _ | value | _
  · rfl
  · rfl
  · exact absurd hresult h
  · rfl
  · rfl

/-- An instruction that does not wait leaves the source as it is, whether others follow it or not. -/
theorem source_advance {r : Run} (h : ¬ r.machine.Waits) :
    Sum.elim source (fun answer => answer.1.source) r.advance = r.source := by
  rw [← (next_of_not_waits h).2.1]
  unfold next
  rcases r.advance with s | answer <;> rfl

namespace Takes

variable {fuel : Nat} {r : Run} {taken : List Word} {answer : Run × Stop}

/-- The values that are taken are the first ones of the source. -/
theorem source_eq (h : Takes fuel r taken answer) : r.source = taken ++ answer.1.source := by
  -- only a poll changes the source
  induction h with
  | wait => rfl
  | poll _ left _ ih => rw [left, List.cons_append, ← ih]
  | go runs next _ ih =>
    have hsource := source_advance runs
    rw [next] at hsource
    exact hsource.symm.trans ih
  | last runs answers =>
    have hsource := source_advance runs
    rw [answers] at hsource
    exact hsource.symm

/-- **What stands behind the values that are taken makes no difference**, unless the run asks for
it. -/
theorem withSource (h : Takes fuel r taken answer) (hstop : answer.2 ≠ .ok .awaitInput)
    (rest : List Word) :
    iterate advance fuel (r.withSource (taken ++ rest)) =
      some (answer.1.withSource rest, answer.2) := by
  induction h with
  | wait => exact absurd rfl hstop
  | @poll fuel r value source taken answer waits left _ ih =>
    have hwaits : (r.withSource (value :: taken ++ rest)).machine.Waits := waits
    rw [iterate_succ, advance_of_waits hwaits, supply_of_cons rfl]
    exact ih hstop
  | go runs next _ ih =>
    rw [iterate_succ, advance_withSource runs, next]
    exact ih hstop
  | last runs answers =>
    rw [iterate_succ, advance_withSource runs, answers]
    rfl

/-- **With fewer values than it takes the run is left waiting**, and none is left over. -/
theorem starves (h : Takes fuel r taken answer) {j : Nat} (hj : j < taken.length) :
    ∃ b, iterate advance fuel (r.withSource (taken.take j)) = some (b, .ok .awaitInput) ∧
      b.machine.Waits ∧ b.source = [] := by
  induction h generalizing j with
  | wait | last => exact absurd hj (Nat.not_lt_zero j)
  | @poll fuel r value source taken answer waits left _ ih =>
    have hwaits : (r.withSource ((value :: taken).take j)).machine.Waits := waits
    rw [iterate_succ, advance_of_waits hwaits]
    cases j with
    | zero =>
      -- the value that is missing is the next one
      rw [supply_of_nil rfl]
      exact ⟨_, rfl, waits, rfl⟩
    | succ j =>
      rw [List.take_succ_cons, supply_of_cons rfl]
      exact ih (Nat.lt_of_succ_lt_succ hj)
  | go runs next _ ih =>
    rw [iterate_succ, advance_withSource runs, next]
    exact ih hj

end Takes

end AnyAllocator

/-! ### Programs

A program has all of its inputs from the start, so it is not seen which of them it takes. The run
with the same inputs in a source comes to the same, and there it is seen. -/

/-- What a run of a program comes to. -/
def verdict : Run × Stop → Except RuntimeError (List Word)
  | (r, .ok .awaitInput) => .error (.inputExhausted r.machine.ip)
  | (r, .ok _) => .ok r.outputs.toList
  | (_, .error e) => .error e

/-- The verdict looks at the instruction pointer and at the outputs of a run only. -/
theorem verdict_map (f : Run → Run) (answer : Run × Stop)
    (hip : (f answer.1).machine.ip = answer.1.machine.ip)
    (houtputs : (f answer.1).outputs = answer.1.outputs) :
    verdict (f answer.1, answer.2) = verdict answer := by
  obtain ⟨r, stop⟩ := answer
  dsimp only at hip houtputs ⊢
  unfold verdict
  rcases stop with e | _ | value | _ <;> simp only [hip, houtputs]

end Machine.Run

open Machine Machine.Run

section AnyAllocator

variable [Allocator]

/-- A program on these inputs comes to this result. -/
def Returns (p : Program) (inputs : List Word) (result : Except RuntimeError (List Word)) : Prop :=
  ∃ fuel, runProgram fuel p inputs = some result

/-- A program on these inputs is left at an input instruction, which stands at `ip` and finds no
input. -/
def StopsAt (p : Program) (inputs : List Word) (ip : Word) : Prop :=
  ∃ fuel r, ((ofProgram p).extendInput inputs).run fuel [] = some (r, .ok .awaitInput) ∧
    r.machine.wantsInput ∧ r.machine.ip = ip

/-- A program that comes to this result on these inputs needs the first `k` of them. -/
structure Needs (p : Program) (inputs : List Word) (result : Except RuntimeError (List Word))
    (k : Nat) : Prop where
  le_length : k ≤ inputs.length
  same : ∀ others, others.take k = inputs.take k → Returns p others result
  fewer : ∀ j < k, ∃ ip, Returns p (inputs.take j) (.error (.inputExhausted ip)) ∧
    StopsAt p (inputs.take j) ip

variable {p : Program} {inputs : List Word} {result : Except RuntimeError (List Word)}

/-- A program comes to one result. -/
theorem Returns.unique {result' : Except RuntimeError (List Word)} (h : Returns p inputs result)
    (h' : Returns p inputs result') : result = result' := by
  obtain ⟨fuel, h⟩ := h
  obtain ⟨fuel', h'⟩ := h'
  obtain ⟨answer, hrun, rfl⟩ := Option.map_eq_some_iff.mp h
  obtain ⟨answer', hrun', rfl⟩ := Option.map_eq_some_iff.mp h'
  rw [iterate_unique hrun hrun']

theorem runProgram_eq (fuel : Nat) (p : Program) (inputs : List Word) :
    runProgram fuel p inputs =
      (((ofProgram p).extendInput inputs).run fuel []).map verdict := rfl

/-- It makes no difference whether a program gets its inputs at the start or from a source. -/
theorem returns_iff :
    Returns p inputs result ↔
      ∃ fuel answer, (ofProgram p).run fuel inputs = some answer ∧ verdict answer = result := by
  -- all inputs stand behind the empty input of the one run, and in the source of the other
  have hstart : Run.start ((ofProgram p).extendInput inputs) [] =
      (Run.start (ofProgram p) inputs).sourceless 0 := rfl
  unfold Returns
  constructor
  · rintro ⟨fuel, h⟩
    rw [runProgram_eq] at h
    obtain ⟨⟨b, stop⟩, hrun, rfl⟩ := Option.map_eq_some_iff.mp h
    unfold run at hrun
    rw [hstart] at hrun
    obtain ⟨fuel', a, polls, ha, rfl⟩ := iterate_of_sourceless hrun
    exact ⟨fuel', (a, stop), ha, (verdict_map (·.sourceless polls) (a, stop) rfl rfl).symm⟩
  · rintro ⟨fuel, ⟨a, stop⟩, hrun, rfl⟩
    obtain ⟨fuel', polls, hb⟩ := iterate_sourceless hrun 0
    rw [← hstart] at hb
    refine ⟨fuel', ?_⟩
    rw [runProgram_eq]
    unfold run
    rw [hb, Option.map_some, verdict_map (·.sourceless polls) (a, stop) rfl rfl]

/-- A run with a source that is left waiting leaves the program at this input instruction. -/
theorem stopsAt_of_run {fuel : Nat} {b : Run}
    (h : (ofProgram p).run fuel inputs = some (b, .ok .awaitInput)) (hwaits : b.machine.Waits)
    (hsource : b.source = []) : StopsAt p inputs b.machine.ip := by
  obtain ⟨fuel', polls, hb⟩ := iterate_sourceless h 0
  refine ⟨fuel', b.sourceless polls, hb, ?_, rfl⟩
  rw [sourceless_of_nil hsource]
  exact hwaits.wantsInput

/-- Fewer inputs than are needed are not enough. -/
theorem Needs.le {k k' : Nat} (h : Needs p inputs result k) (h' : Needs p inputs result k')
    (hfed : ∀ ip, result ≠ .error (.inputExhausted ip)) : k' ≤ k := by
  -- with as many inputs as the smaller number, the program would have two results
  refine Nat.le_of_not_lt fun hlt => ?_
  obtain ⟨ip, hexhausted, -⟩ := h'.fewer k hlt
  have hsame := h.same (inputs.take k) (by rw [List.take_take, Nat.min_self])
  exact hfed ip (hsame.unique hexhausted)

/-- The values that a run takes from its source are the ones that its program needs. -/
theorem needs_of_takes {fuel : Nat} {taken : List Word} {answer : Run × Stop}
    (h : Takes fuel (.start (ofProgram p) inputs) taken answer)
    (hstop : answer.2 ≠ .ok .awaitInput) : Needs p inputs (verdict answer) taken.length := by
  have hinputs : inputs = taken ++ answer.1.source := h.source_eq
  have htake : inputs.take taken.length = taken := by
    rw [hinputs, List.take_left]
  refine ⟨?_, ?_, ?_⟩
  · rw [hinputs, List.length_append]
    exact Nat.le_add_right _ _
  · -- the values behind those taken were never looked at, so others may stand in their place
    intro others hothers
    have hsplit := List.take_append_drop taken.length others
    rw [hothers, htake] at hsplit
    have hrun := h.withSource hstop (others.drop taken.length)
    rw [hsplit] at hrun
    exact returns_iff.mpr ⟨fuel, _, hrun, verdict_map (·.withSource _) answer rfl rfl⟩
  · -- with fewer values the run comes to the poll that the next one would have answered
    intro j hj
    obtain ⟨b, hrun, hwaits, hsource⟩ := h.starves hj
    have hfront : inputs.take j = taken.take j := by
      rw [← htake, List.take_take, Nat.min_eq_left (Nat.le_of_lt hj)]
    rw [hfront]
    exact ⟨b.machine.ip, returns_iff.mpr ⟨fuel, _, hrun, rfl⟩, stopsAt_of_run hrun hwaits hsource⟩

/-- **A program depends on the inputs that it needs.** If it comes to a result that is not a lack of
input, it needs a certain number of inputs: with any inputs that begin with the same ones it comes
to the same result, and with fewer of them it is left at an input instruction that finds none. What
it does not need is left waiting. -/
theorem returns_needed (h : Returns p inputs result)
    (hfed : ∀ ip, result ≠ .error (.inputExhausted ip)) :
    (∃! k, Needs p inputs result k) ∧
    ∀ k, Needs p inputs result k → ∃ fuel r stop,
      ((ofProgram p).extendInput inputs).run fuel [] = some (r, stop) ∧
        r.machine.input = inputs.drop k := by
  obtain ⟨fuel, answer, hrun, rfl⟩ := returns_iff.mp h
  obtain ⟨taken, htakes⟩ := takes_of_iterate hrun
  have hstop : answer.2 ≠ .ok .awaitInput := by
    obtain ⟨r, stop⟩ := answer
    rintro rfl
    exact hfed _ rfl
  have hneeds := needs_of_takes htakes hstop
  -- whoever takes values needs exactly these
  have hunique : ∀ k, Needs p inputs (verdict answer) k → k = taken.length := fun k hk =>
    Nat.le_antisymm (hneeds.le hk hfed) (hk.le hneeds hfed)
  refine ⟨⟨taken.length, hneeds, hunique⟩, ?_⟩
  intro k hk
  rw [hunique k hk]
  -- the run from a source has consumed all that it has polled, so only the source is left
  have hinput : answer.1.machine.input = [] := input_of_drained (Or.inl rfl) hrun
  obtain ⟨fuel', polls, hb⟩ := iterate_sourceless hrun 0
  refine ⟨fuel', _, _, hb, ?_⟩
  show answer.1.machine.input ++ answer.1.source = inputs.drop taken.length
  rw [hinput, List.nil_append, show inputs = taken ++ answer.1.source from htakes.source_eq,
    List.drop_left]

end AnyAllocator

/-- A program that reads two values, of which the second one cannot be written. -/
def spoiled : Program := ⟨[3, 0, 3, -1]⟩

/-- It fails at its second instruction, and has consumed two values of three by then. With any third
value it fails alike, and with one value it stops there. -/
theorem returns_needed_spoiled :
    (∃! k, Needs spoiled [7, 8, 9] (.error (.invalidAddress 2 (-1))) k) ∧
    Needs spoiled [7, 8, 9] (.error (.invalidAddress 2 (-1))) 2 := by
  have hrun : ((((ofProgram spoiled).extendInput [7, 8, 9]).run 2 []).map fun answer =>
      (verdict answer, answer.1.machine.input)) =
        some (.error (.invalidAddress 2 (-1)), [9]) := by
    unfold ofProgram
    rw [Memory.load_eq_toArray]
    decide +kernel
  obtain ⟨answer, hrun, hanswer⟩ := Option.map_eq_some_iff.mp hrun
  obtain ⟨hverdict, hinput⟩ := Prod.mk.inj hanswer
  have hreturns : Returns spoiled [7, 8, 9] (.error (.invalidAddress 2 (-1))) :=
    ⟨2, by rw [runProgram_eq, hrun, Option.map_some, hverdict]⟩
  obtain ⟨hneeds, hleft⟩ := returns_needed hreturns (by simp)
  refine ⟨hneeds, ?_⟩
  obtain ⟨k, hk, -⟩ := hneeds
  obtain ⟨fuel, r, stop, hrun', hdrop⟩ := hleft k hk
  -- one value of three is left, so two are needed
  cases iterate_unique hrun hrun'
  have hle := hk.le_length
  have hlength := congrArg List.length (hinput.symm.trans hdrop)
  rw [List.length_drop] at hlength
  have htwo : k = 2 := by
    simp only [List.length_cons, List.length_nil] at hle hlength
    omega
  exact htwo ▸ hk

end Intcode
