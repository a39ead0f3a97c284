import Intcode.Proofs.Delivery

/-!
# Progress

A machine either makes progress or is idle: it has halted, or it waits for input that nobody gives
it. A run without a source makes progress until the machine is idle or fails.

* `Idle` — no instruction of the machine changes it any more;
* `Moves` — a number of instructions that all make progress, with what they emit;
* `execute_extendInput_of_not_idle` — more input behind does not disturb progress;
* `iterate_settles` — what a run without a source comes to, and what it has done when it is broken
  off.
-/

namespace Intcode.Machine

variable [Allocator]

/-- A machine that has halted or waits for input. -/
def Idle (m : Machine) : Prop := m.halted ∨ m.Waits

/-- The values that are emitted with an event. -/
def emitted : Option Event → List Word
  | some (.output value) => [value]
  | _ => []

theorem Idle.execute_machine {m : Machine} (h : m.Idle) : m.execute.machine = m := by
  rcases h with hhalted | hwaits
  · rw [execute_of_halted hhalted]
  · exact hwaits.execute_machine

/-- An idle machine does not fail, and emits nothing. -/
theorem Idle.exists_result {m : Machine} (h : m.Idle) :
    ∃ e, m.execute.result = .ok e ∧ emitted e = [] := by
  rcases h with hhalted | hwaits
  · exact ⟨some .halted, by rw [execute_of_halted hhalted], rfl⟩
  · exact ⟨some .awaitInput, hwaits, rfl⟩

/-- A machine that is about to fail is not idle. -/
theorem not_idle_of_error {m : Machine} {e : RuntimeError} (h : m.execute.result = .error e) :
    ¬ m.Idle := by
  intro hidle
  obtain ⟨e', hok, -⟩ := hidle.exists_result
  rw [h] at hok
  contradiction

/-- Unless it is idle, a machine does the same with more input behind. -/
theorem execute_extendInput_of_not_idle {m : Machine} (h : ¬ m.Idle) (values : List Word) :
    (m.extendInput values).execute = m.execute.extendInput values :=
  execute_extendInput m values fun hwaits => h (Or.inr hwaits)

theorem not_idle_extendInput {m : Machine} (h : ¬ m.Idle) (values : List Word) :
    ¬ (m.extendInput values).Idle := by
  have hexecute := execute_extendInput_of_not_idle h values
  rintro (hhalted | hwaits)
  · exact h (Or.inl hhalted)
  · unfold Waits at hwaits
    rw [hexecute] at hwaits
    exact h (Or.inr hwaits)

/-- Instructions, as many as the number says, that all make progress. They emit these values. The
last one may be the one that halts the machine. -/
inductive Moves : Nat → Machine → List Word → Machine → Prop where
  | refl (m : Machine) : Moves 0 m [] m
  | step {n : Nat} {m t : Machine} {e : Option Event} {outputs : List Word} (hidle : ¬ m.Idle)
      (hresult : m.execute.result = .ok e) (rest : Moves n m.execute.machine outputs t) :
      Moves (n + 1) m (emitted e ++ outputs) t

/-- Who emits a value makes progress. -/
theorem Moves.pos_of_outputs {n : Nat} {m t : Machine} {outputs : List Word}
    (h : Moves n m outputs t) (hne : outputs ≠ []) : 0 < n := by
  cases h with
  | refl => contradiction
  | step => exact Nat.succ_pos _

/-- What a run without a source comes to from a state on: it makes progress for as long as it has
fuel, or until the machine is idle, or until an instruction fails. -/
inductive Settles (fuel : Nat) (r : Run) : Option (Run × Stop) → Prop where
  | more {t : Machine} {outputs : List Word} (moves : Moves fuel r.machine outputs t) :
      Settles fuel r none
  | halted {n : Nat} {a : Run} {outputs : List Word} (moves : Moves n r.machine outputs a.machine)
      (emits : a.outputs.toList = r.outputs.toList ++ outputs) (halted : a.machine.halted) :
      Settles fuel r (some (a, .ok .halted))
  | waits {n : Nat} {a : Run} {outputs : List Word} (moves : Moves n r.machine outputs a.machine)
      (emits : a.outputs.toList = r.outputs.toList ++ outputs) (waits : a.machine.Waits) :
      Settles fuel r (some (a, .ok .awaitInput))
  | fails {n : Nat} {t : Machine} {a : Run} {outputs : List Word} {e : RuntimeError}
      (moves : Moves n r.machine outputs t) (failed : t.execute.result = .error e) :
      Settles fuel r (some (a, .error e))

/-- One more instruction that makes progress in front. -/
theorem Settles.step {fuel : Nat} {r s : Run} {answer : Option (Run × Stop)} {e : Option Event}
    (hidle : ¬ r.machine.Idle) (hresult : r.machine.execute.result = .ok e)
    (hmachine : s.machine = r.machine.execute.machine)
    (houtputs : s.outputs.toList = r.outputs.toList ++ emitted e) (h : Settles fuel s answer) :
    Settles (fuel + 1) r answer := by
  have hmoves : ∀ {n : Nat} {t : Machine} {outputs : List Word}, Moves n s.machine outputs t →
      Moves (n + 1) r.machine (emitted e ++ outputs) t := by
    intro n t outputs moves
    rw [hmachine] at moves
    exact .step hidle hresult moves
  -- what the rest of the run comes to, it has come to with one more instruction in front
  cases h with
  | more moves => exact .more (hmoves moves)
  | halted moves emits halted =>
    exact .halted (hmoves moves) (by rw [emits, houtputs, List.append_assoc]) halted
  | waits moves emits waits =>
    exact .waits (hmoves moves) (by rw [emits, houtputs, List.append_assoc]) waits
  | fails moves failed => exact .fails (hmoves moves) failed

/-- What a run without a source comes to, and what it has done when it is broken off. -/
theorem iterate_settles (fuel : Nat) {r : Run} (hsource : r.source = []) :
    Settles fuel r (iterate Run.advance fuel r) := by
  induction fuel generalizing r with
  | zero => exact .more (.refl _)
  | succ fuel ih =>
    rw [iterate_succ]
    -- a machine whose instruction ends without an event, or with an output, is not idle
    have hidle : ∀ e : Option Event, e ≠ some .halted → e ≠ some .awaitInput →
        r.machine.execute.result = .ok e → ¬ r.machine.Idle := by
      rintro e hhalt hawait hresult (hhalted | hwaits)
      · rw [execute_of_halted hhalted] at hresult
        exact hhalt (Except.ok.inj hresult).symm
      · exact hawait (Except.ok.inj (hresult.symm.trans hwaits))
    rcases hresult : r.machine.execute.result with e | _ | _ | value | _
    · rw [Run.advance_eq, hresult]
      exact .fails (.refl _) hresult
    · rw [Run.advance_eq, hresult]
      exact .step (hidle _ (by simp) (by simp) hresult) hresult rfl (by simp [emitted])
        (ih hsource)
    · -- without a source, to poll is the last step
      have hwaits : r.machine.Waits := hresult
      rw [Run.advance_of_waits hwaits, Run.supply_of_nil hsource]
      exact .waits (.refl _) (by simp) hwaits
    · rw [Run.advance_eq, hresult]
      exact .step (hidle _ (by simp) (by simp) hresult) hresult rfl (by simp [emitted])
        (ih hsource)
    · have hmachine := execute_machine_of_halted hresult
      rw [Run.advance_eq, hresult]
      -- a machine that had halted before has made no progress
      by_cases hhalted : r.machine.halted
      · have hmoves : Moves 0 r.machine [] r.machine.execute.machine := by
          rw [hmachine, ← hhalted]
          exact .refl _
        refine .halted hmoves (by simp) ?_
        rw [hmachine]
      · have hidle : ¬ r.machine.Idle := by
          rintro (hhalted' | hwaits)
          · exact hhalted hhalted'
          · unfold Waits at hwaits
            rw [hresult] at hwaits
            simp at hwaits
        have hmoves : Moves 1 r.machine [] r.machine.execute.machine :=
          .step hidle hresult (.refl _)
        refine .halted hmoves (by simp) ?_
        rw [hmachine]

end Intcode.Machine
