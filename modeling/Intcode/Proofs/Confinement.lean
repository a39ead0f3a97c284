import Intcode.Proofs.Causes
import Intcode.Proofs.Failure
import Intcode.Proofs.Traffic

/-!
# Execution stays in memory that exists

There is no bound on where a jump can lead, but an instruction is only run where there is a cell.
Beyond the last cell every word reads as zero, which is no instruction, and below the first one
there is nothing to read. So a machine whose instruction pointer has left memory fails before
anything else can happen.

* `Machine.Inside`, `Machine.Astray` — where the instruction pointer is, and how an instruction
  fails that is outside;
* `Machine.inside_of_execute`, `Machine.execute_of_astray` — one instruction;
* `Machine.Roams` — instructions in a row, with whatever a host does in between;
* `Machine.confined_of_trail` — the states of a run, and the one that ends it outside;
* `execution_confined` — the main statement.
-/

namespace Intcode

namespace Machine

/-! ### Inside and outside

A cell beyond the extent reads as zero, and zero is no opcode. So an address without a cell is as
good as no address at all when an instruction is fetched, and one test decides it. -/

/-- The instruction pointer is the address of a cell that exists. -/
def Inside (m : Machine) : Prop := 0 ≤ m.ip.toInt ∧ m.ip.toInt < m.memory.extent

instance (m : Machine) : Decidable m.Inside := inferInstanceAs (Decidable (_ ∧ _))

/-- The instruction pointer is not the address of a cell that exists, and this is the error of an
instruction there. -/
inductive Astray (m : Machine) : RuntimeError → Prop where
  | below (neg : m.ip.toInt < 0) : Astray m (.invalidAddress m.ip m.ip)
  | beyond (extent_le : m.memory.extent ≤ m.ip.toInt) : Astray m (.invalidOpcode m.ip 0)

variable {m : Machine}

/-- An instruction pointer that is not inside of memory is below it or beyond it. -/
theorem inside_or_astray (m : Machine) : m.Inside ∨ ∃ e, m.Astray e := by
  unfold Inside
  rcases Int.lt_or_le m.ip.toInt 0 with hneg | hnonneg
  · exact Or.inr ⟨_, .below hneg⟩
  · rcases Int.lt_or_le m.ip.toInt m.memory.extent with hlt | hle
    · exact Or.inl ⟨hnonneg, hlt⟩
    · exact Or.inr ⟨_, .beyond hle⟩

/-- A state of a run is inside of memory, or the run ends there. -/
theorem confined_of_trail {State : Type} {step : State → State ⊕ State × Stop}
    (machine : State → Machine)
    (hrunning : ∀ s t, (machine s).halted = false → step s = .inl t → (machine t).halted = false)
    (hastray : ∀ s e, (machine s).halted = false → (machine s).Astray e →
      step s = .inr (s, .error e))
    {fuel : Nat} {s t : State} {front rest : List State} (hrun : (machine s).halted = false)
    (htrail : trail step fuel s = front ++ t :: rest) :
    (machine t).Inside ∨ ∃ e, (machine t).Astray e ∧ rest = [] ∧
      iterate step fuel s = some (t, .error e) := by
  have ht : (machine t).halted = false :=
    trail_induction hrunning hrun t (by rw [htrail]; simp)
  -- outside, the instruction fails, and a trail does not go on behind a state that stops
  rcases inside_or_astray (machine t) with hinside | ⟨e, he⟩
  · exact Or.inl hinside
  · exact Or.inr ⟨e, he, iterate_of_trail htrail (hastray t e ht he)⟩

section AnyAllocator

variable [Allocator]

/-- **Outside of memory an instruction fails**, and nothing changes. -/
theorem execute_of_astray {e : RuntimeError} (hrun : m.halted = false) (h : m.Astray e) :
    m.execute = ⟨m, .error e, []⟩ := by
  cases h with
  | below neg =>
    have hfetch : m.fetch = .error (.invalidAddress m.ip m.ip) := by
      unfold fetch load Memory.read
      rw [if_pos (Int64.lt_iff_toInt_lt.mpr neg)]
    exact execute_of_fails hrun (.fetch hfetch)
  | beyond extent_le =>
    have hdecode : m.decode 0 = .error (.invalidOpcode m.ip 0) := rfl
    exact execute_of_fails hrun (.decode (fetch_of_extent_le extent_le) hdecode)

/-- **An instruction that succeeds** has been fetched from a cell that exists. -/
theorem inside_of_execute {e : Option Event} (hrun : m.halted = false)
    (h : m.execute.result = .ok e) : m.Inside := by
  obtain ⟨word, i, operands, next, effect, hprepared, -⟩ := exists_prepared_of_ok hrun h
  exact ⟨nonneg_of_load hprepared.fetched,
    lt_extent_of_decode hprepared.fetched hprepared.decoded⟩

/-! ### Instructions in a row

What holds of one instruction holds of every one in a row, with anything in between that leaves the
program alone. Rows up to an event and whole runs are iterations of a step that keeps a running
machine running, so their trails come under `confined_of_trail`. -/

/-- A host runs instructions of a machine, as long as they succeed, and in between it puts values
behind the input and sets the instruction pointer. The machines that run an instruction on the way
are listed. -/
inductive Roams : Machine → List Machine → Machine → Prop where
  | refl (m : Machine) : Roams m [] m
  | feed {m t : Machine} {visited : List Machine} (values : List Word)
      (rest : Roams (m.extendInput values) visited t) : Roams m visited t
  | assign {m t : Machine} {visited : List Machine} (ip : Word)
      (rest : Roams { m with ip } visited t) : Roams m visited t
  | execute {m t : Machine} {visited : List Machine} {e : Option Event}
      (succeeds : m.execute.result = .ok e) (rest : Roams m.execute.machine visited t) :
      Roams m (m :: visited) t

/-- **Every instruction of a row** is run inside of memory. -/
theorem Roams.inside {t : Machine} {visited : List Machine} (h : m.Roams visited t) :
    ∀ s ∈ visited, s.halted = false → s.Inside := by
  induction h with
  | refl => simp
  | feed _ _ ih | assign _ _ ih => exact ih
  | execute succeeds _ ih =>
    intro s hs hrun
    rcases List.mem_cons.mp hs with rfl | hs
    · exact inside_of_execute hrun succeeds
    · exact ih s hs hrun

/-- Only the instruction that halts a machine marks it as halted. -/
theorem running_execute (hrun : m.halted = false)
    (h : m.execute.result ≠ .ok (some .halted)) : m.execute.machine.halted = false := by
  have hstore : ∀ (t : Machine) ip a value, (t.store ip a value).machine.halted = t.halted := by
    intro t ip a value
    unfold store
    split <;> rfl
  have hexecutes := m.executes
  generalize m.execute = s at h hexecutes ⊢
  cases hexecutes with
  | halted | fails => exact hrun
  -- only the effect of a halt sets the mark, and its event is the one excluded
  | @acts word i operands next effect _ _ =>
    cases effect with
    | write a value => exact (hstore _ _ _ _).trans hrun
    | receive a =>
      unfold apply
      dsimp only [Step.noting]
      cases m.input with
      | nil => exact hrun
      | cons value rest => exact (hstore _ _ _ _).trans hrun
    | halt => exact absurd rfl h
    | emit | jump | pass | rebase => exact hrun

theorem Passes.running {t : Machine} (h : m.Passes t) (hrun : m.halted = false) :
    t.halted = false := by
  obtain ⟨hresult, rfl⟩ := h
  exact running_execute hrun (by simp [hresult])

theorem Run.Passes.running {r t : Run} (h : r.Passes t) (hrun : r.machine.halted = false) :
    t.machine.halted = false := by
  cases h with
  | quiet succeeds => exact running_execute hrun (by simp [succeeds])
  | emit succeeds => exact running_execute hrun (by simp [succeeds])
  | supply => exact hrun

theorem advance_of_astray {e : RuntimeError} (hrun : m.halted = false) (h : m.Astray e) :
    m.advance = .inr (m, .error e) := by
  rw [advance_eq, execute_of_astray hrun h]

theorem Run.advance_of_astray {r : Run} {e : RuntimeError} (hrun : r.machine.halted = false)
    (h : r.machine.Astray e) : r.advance = .inr (r, .error e) := by
  rw [Run.advance_eq, execute_of_astray hrun h]

/-! ### The main statement -/

/-- **Execution never leaves the memory that exists.** Let a machine not have halted.

* An instruction that succeeds has been fetched from a cell that exists. If the instruction pointer
  is negative, or if it is not below the extent of memory, the machine fails and stays as it is.
* Whatever a host does in between, in a row of instructions every one that is run is inside of
  memory, as far as it reaches at that time.
* The machines that a row of instructions up to the next event comes to, or a run, are inside of
  memory. The only exception is the last one, if it has just left memory: then nothing else happens,
  and the row of instructions, or the run, ends with one of the two errors. -/
theorem execution_confined :
    (∀ m : Machine, m.halted = false →
      (∀ e, m.execute.result = .ok e → 0 ≤ m.ip.toInt ∧ m.ip.toInt < m.memory.extent) ∧
      (m.ip.toInt < 0 → m.execute = ⟨m, .error (.invalidAddress m.ip m.ip), []⟩) ∧
      (m.memory.extent ≤ m.ip.toInt → m.execute = ⟨m, .error (.invalidOpcode m.ip 0), []⟩)) ∧
    (∀ (m : Machine) visited t, m.Roams visited t →
      ∀ s ∈ visited, s.halted = false → s.Inside) ∧
    (∀ fuel (m : Machine) front s rest, m.halted = false →
      trail advance fuel m = front ++ s :: rest →
      s.Inside ∨ ∃ e, s.Astray e ∧ rest = [] ∧ m.step fuel = some (s, .error e)) ∧
    ∀ fuel (m : Machine) source front r rest, m.halted = false →
      trail Run.advance fuel (.start m source) = front ++ r :: rest →
      r.machine.Inside ∨ ∃ e, r.machine.Astray e ∧ rest = [] ∧
        m.run fuel source = some (r, .error e) := by
  refine ⟨fun m hrun => ⟨?_, ?_, ?_⟩, fun m visited t h => h.inside, ?_, ?_⟩
  · intro e he
    exact inside_of_execute hrun he
  · intro hneg
    exact execute_of_astray hrun (.below hneg)
  · intro hle
    exact execute_of_astray hrun (.beyond hle)
  · -- both trails are one argument, over the machine itself and over the machine of a run
    intro fuel m front s rest hrun htrail
    exact confined_of_trail id
      (fun s t hs hstep => (passes_of_advance hstep).running hs)
      (fun s e hs he => advance_of_astray hs he) hrun htrail
  · intro fuel m source front r rest hrun htrail
    exact confined_of_trail Run.machine
      (fun r t hr hstep => (Run.passes_of_advance hstep).running hr)
      (fun r e hr he => Run.advance_of_astray hr he) (s := .start m source) hrun htrail

end AnyAllocator

/-- A machine that writes an instruction into a cell which does not exist yet, and jumps there. The
instruction jumps far beyond memory. -/
def leaping : Machine := ⟨0, 0, ⟨#[1101, 100, 6, 9, 1105, 1, 9]⟩, [], false⟩

/-- The machine in its memory as it is after the first instruction. -/
def leapt (ip : Word) : Machine := ⟨ip, 0, ⟨#[1101, 100, 6, 9, 1105, 1, 9, 0, 0, 106]⟩, [], false⟩

theorem execution_confined_leaping :
    leaping.Inside ∧ ¬ { leaping with ip := 9 }.Inside ∧ (leapt 9).Inside ∧
      leaping.step 4 = some (leapt 1101, .error (.invalidOpcode 1101 0)) ∧
      leaping.run 4 [5] = some (.start (leapt 1101) [5], .error (.invalidOpcode 1101 0)) ∧
      (leapt (-2)).execute = ⟨leapt (-2), .error (.invalidAddress (-2) (-2)), []⟩ := by
  have hlost : ¬ (leapt 1101).Inside := by decide
  have herror : ∀ e, (leapt 1101).Astray e → e = .invalidOpcode 1101 0 := by
    intro e he
    cases he with
    | below neg => exact absurd neg (by decide)
    | beyond => rfl
  obtain ⟨hone, hrow, hstep, hrun⟩ := execution_confined
  have hroams : leaping.Roams [leaping, leapt 9] (leapt 1101) :=
    .execute (e := none) rfl (.assign 9 (.execute (e := none) rfl (.refl (leapt 1101))))
  refine ⟨hrow _ _ _ hroams _ (by simp) rfl, by decide, hrow _ _ _ hroams _ (by simp) rfl, ?_, ?_,
    (hone (leapt (-2)) rfl).2.1 (by decide)⟩
  · rcases hstep 4 leaping [leaping, leapt 4, leapt 9] (leapt 1101) [] rfl rfl with
      hinside | ⟨e, he, -, hends⟩
    · exact absurd hinside hlost
    · rw [hends, herror e he]
  · rcases hrun 4 leaping [5] [.start leaping [5], .start (leapt 4) [5], .start (leapt 9) [5]]
      (.start (leapt 1101) [5]) [] rfl rfl with hinside | ⟨e, he, -, hends⟩
    · exact absurd hinside hlost
    · rw [hends, herror e he]

end Machine

end Intcode
