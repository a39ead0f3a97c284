import Mathlib.Logic.Relation
import Intcode.Proofs.Delivery
import Intcode.Proofs.Simulation

/-!
# What a failed instruction leaves behind

An instruction that fails changes next to nothing. The machine stands where it stood if the
instruction has not got past its operands, and behind the instruction otherwise, never at the target
of a jump. Only an input value that cannot be written is gone. A run that fails is one of
instructions that succeed up to the one that fails.

* `FailsBefore` — the instruction has not got past its operands;
* `Leaves`, `leaves_of_execute` — what a failed instruction leaves behind;
* `Passes`, `Run.Passes` — an instruction in a row of them, or in a run, that succeeds;
* `exists_last_of_iterate` — an iteration that answers comes to its last step;
* `execute_leaves` — the main statement.
-/

namespace Intcode

/-- An iteration that answers comes to its last step. -/
theorem exists_last_of_iterate {State Answer : Type} {step : State → State ⊕ Answer} {fuel : Nat}
    {s : State} {a : Answer} (h : iterate step fuel s = some a) :
    ∃ t, Relation.ReflTransGen (fun s t => step s = .inl t) s t ∧ step t = .inr a := by
  induction fuel generalizing s with
  | zero => contradiction
  | succ fuel ih =>
    rw [iterate_succ] at h
    cases hstep : step s with
    | inl next =>
      rw [hstep] at h
      obtain ⟨t, hreaches, hlast⟩ := ih h
      exact ⟨t, hreaches.head hstep, hlast⟩
    | inr answer =>
      rw [hstep] at h
      cases h
      exact ⟨s, .refl, hstep⟩

namespace Machine

variable {m : Machine} {e : RuntimeError}

/-! ### One instruction

An instruction looks up its operands before anything of the machine changes, then the machine
advances, and then the values are read and the effect is applied. Where it has failed in this order
decides what it leaves behind. -/

/-- The instruction fails before the machine has advanced: its word cannot be fetched or decoded,
one of its operands has no address, or there is no address behind it. -/
inductive FailsBefore (m : Machine) (e : RuntimeError) : Prop where
  | fetch (failed : m.fetch = .error e)
  | decode {word : Word} (fetched : m.fetch = .ok word) (failed : m.decode word = .error e)
  | operands {word : Word} {i : Instruction} (fetched : m.fetch = .ok word)
      (decoded : m.decode word = .ok i) (failed : m.operands i = .error e)
  | ahead {word : Word} {i : Instruction} (fetched : m.fetch = .ok word)
      (decoded : m.decode word = .ok i) (failed : m.ahead (1 + i.opcode.operandCount) = .error e)

/-- Who has got past all operands does not fail before. -/
theorem not_failsBefore {word : Word} {i : Instruction} {o : Operands} {next : Word}
    (hfetch : m.fetch = .ok word) (hdecode : m.decode word = .ok i)
    (hoperands : m.operands i = .ok o)
    (hahead : m.ahead (1 + i.opcode.operandCount) = .ok next) : ¬ m.FailsBefore e := by
  intro h
  cases h with
  -- each part has a result already, which is not an error
  | fetch failed => cases hfetch.symm.trans failed
  | decode fetched failed =>
    cases hfetch.symm.trans fetched
    cases hdecode.symm.trans failed
  | operands fetched decoded failed =>
    cases hfetch.symm.trans fetched
    cases hdecode.symm.trans decoded
    cases hoperands.symm.trans failed
  | ahead fetched decoded failed =>
    cases hfetch.symm.trans fetched
    cases hdecode.symm.trans decoded
    cases hahead.symm.trans failed

/-- The address behind an instruction, as an integer. -/
theorem toInt_behind {i : Instruction} {next : Word}
    (h : m.ahead (1 + i.opcode.operandCount) = .ok next) :
    next.toInt = m.ip.toInt + 1 + i.opcode.operandCount := by
  have hcount := i.opcode.operandCount_le
  have hnext := toInt_of_ahead (by omega) h
  omega

/-- Only an input instruction takes a value, to the cell that its operand stands for. -/
theorem operandAddress_of_receive {word : Word} {i : Instruction} {o : Operands} {next a : Word}
    (h : m.Prepared word i o next (.receive a)) :
    i.opcode = .input ∧ m.operandAddress i 0 = .ok a := by
  obtain ⟨first, hfirst, hrest⟩ := bind_eq_ok.mp h.addressed
  obtain ⟨second, -, hrest⟩ := bind_eq_ok.mp hrest
  obtain ⟨third, -, hrest⟩ := bind_eq_ok.mp hrest
  cases hrest
  obtain ⟨hopcode, hget⟩ := (finds_of_evaluate h.evaluated).receive_inv
  cases hget
  unfold operandOrZero at hfirst
  rw [hopcode] at hfirst
  exact ⟨hopcode, hfirst⟩

section AnyAllocator

variable [Allocator]

/-- The machine that a failed instruction leaves behind. It stands behind the instruction unless
that has failed before, and an input instruction has taken the value that it could not write. -/
structure Leaves (m : Machine) (e : RuntimeError) (t : Machine) : Prop where
  raised : e.Raised m.ip
  memory : t.memory = m.memory
  relativeBase : t.relativeBase = m.relativeBase
  halted : t.halted = m.halted
  before : m.FailsBefore e → t = m
  behind : ¬ m.FailsBefore e → ∃ word i, m.fetch = .ok word ∧ m.decode word = .ok i ∧
    t.ip.toInt = m.ip.toInt + 1 + i.opcode.operandCount ∧
    (i.opcode ≠ .input → t.input = m.input) ∧
    (i.opcode = .input → ∃ value a, m.input = value :: t.input ∧ m.operandAddress i 0 = .ok a ∧
      ¬ m.memory.accepts a ∧ e = .invalidAddress m.ip a)

/-- Where a write is refused, the machine has advanced and nothing is written. -/
theorem machine_of_apply_error {next : Word} {effect : Effect}
    (h : (m.apply next effect).result = .error e) :
    (∃ a value, effect = .write a value ∧
      (m.apply next effect).machine = { m with ip := next }) ∨
    ∃ a value rest, effect = .receive a ∧ m.input = value :: rest ∧
      ¬ m.memory.accepts a ∧ e = .invalidAddress m.ip a ∧
      (m.apply next effect).machine = { m with ip := next, input := rest } := by
  obtain ⟨a, ⟨value, rfl⟩ | rfl, rfl, hrefused⟩ := error_of_apply h
  · -- a computed value is refused as it is written; nothing but the counter has moved by then
    refine Or.inl ⟨a, value, rfl, ?_⟩
    exact congrArg Step.machine
      (store_of_not_accepts (m := { m with ip := next }) m.ip value hrefused)
  · -- a received value has left the queue before it is refused
    cases hinput : m.input with
    | nil =>
      unfold apply at h
      rw [hinput] at h
      contradiction
    | cons value rest =>
      refine Or.inr ⟨a, value, rest, rfl, rfl, hrefused, rfl, ?_⟩
      unfold apply
      rw [hinput]
      exact congrArg Step.machine
        (store_of_not_accepts (m := { m with ip := next, input := rest }) m.ip value hrefused)

/-- What a failed instruction leaves behind, by the part in which it fails. -/
theorem leaves_of_execute (h : m.execute.result = .error e) :
    m.Leaves e m.execute.machine := by
  have hraised := raised_of_execute h
  have hexecutes := m.executes
  generalize m.execute = s at h hexecutes ⊢
  cases hexecutes with
  | halted => contradiction
  | fails _ failed =>
    cases h
    -- nothing has changed before, and only the instruction pointer has after that
    have hbefore : ∀ {ip}, m.FailsBefore e → ip = m.ip → m.Leaves e { m with ip } := by
      rintro ip hfails rfl
      exact ⟨hraised, rfl, rfl, rfl, fun _ => rfl, fun hnot => absurd hfails hnot⟩
    cases failed with
    | fetch failed => exact hbefore (.fetch failed) rfl
    | decode fetched failed => exact hbefore (.decode fetched failed) rfl
    | operands fetched decoded failed => exact hbefore (.operands fetched decoded failed) rfl
    | ahead fetched decoded _ failed => exact hbefore (.ahead fetched decoded failed) rfl
    | evaluate fetched decoded addressed advanced failed =>
      have hbehind := toInt_behind advanced
      have hnot := not_failsBefore (e := e) fetched decoded addressed advanced
      refine ⟨hraised, rfl, rfl, rfl, fun hfails => absurd hfails hnot, fun _ =>
        ⟨_, _, fetched, decoded, hbehind, fun _ => rfl, fun hinput => ?_⟩⟩
      -- an input instruction reads nothing that could fail
      rw [hinput] at failed
      contradiction
  | @acts word i o next effect _ prepared =>
    have hbehind := toInt_behind prepared.advanced
    have hnot := not_failsBefore (e := e) prepared.fetched prepared.decoded prepared.addressed
      prepared.advanced
    rw [Step.noting_machine]
    rcases machine_of_apply_error h with ⟨a, value, rfl, hmachine⟩ |
      ⟨a, value, rest, rfl, hinput, hrefused, herror, hmachine⟩
    · have hother : i.opcode ≠ .input := by
        intro hopcode
        have hwrite := (finds_of_evaluate prepared.evaluated).write_inv.1
        rw [hopcode] at hwrite
        contradiction
      rw [hmachine]
      exact ⟨hraised, rfl, rfl, rfl, fun hfails => absurd hfails hnot, fun _ =>
        ⟨word, i, prepared.fetched, prepared.decoded, hbehind, fun _ => rfl,
          fun hopcode => absurd hopcode hother⟩⟩
    · obtain ⟨hopcode, hoperand⟩ := operandAddress_of_receive prepared
      rw [hmachine]
      exact ⟨hraised, rfl, rfl, rfl, fun hfails => absurd hfails hnot, fun _ =>
        ⟨word, i, prepared.fetched, prepared.decoded, hbehind,
          fun hother => absurd hopcode hother,
          fun _ => ⟨value, a, hinput, hoperand, hrefused, herror⟩⟩⟩

/-! ### Instructions in a row

Only the last instruction in a row fails, so what the row leaves behind is what this one leaves of a
machine that the others have brought about. -/

/-- An instruction that succeeds without an event. -/
def Passes (m t : Machine) : Prop := m.execute.result = .ok none ∧ t = m.execute.machine

/-- What comes of an instruction in a row of them, by its result. -/
theorem advance_eq (m : Machine) :
    m.advance =
      match m.execute.result with
      | .ok none => .inl m.execute.machine
      | .ok (some event) => .inr (m.execute.machine, .ok event)
      | .error e => .inr (m.execute.machine, .error e) := by
  unfold advance
  generalize m.execute = s
  obtain ⟨m', result, notices⟩ := s
  rcases result with e | _ | event <;> rfl

theorem passes_of_advance {t : Machine} (h : m.advance = .inl t) : m.Passes t := by
  rw [advance_eq] at h
  rcases hresult : m.execute.result with e | _ | event <;> rw [hresult] at h <;> cases h
  exact ⟨hresult, rfl⟩

theorem error_of_advance {t : Machine} (h : m.advance = .inr (t, .error e)) :
    m.execute.result = .error e ∧ t = m.execute.machine := by
  rw [advance_eq] at h
  rcases hresult : m.execute.result with e' | _ | event <;> rw [hresult] at h <;> cases h
  exact ⟨rfl, rfl⟩

/-! ### Runs

A run is a row of instructions with polls in between. A poll does not fail, so the error of a run is
one of an instruction as well. -/

namespace Run

/-- A step of a run: an instruction that succeeds, or a value that is supplied where the machine
waits. -/
inductive Passes : Run → Run → Prop where
  | quiet {r : Run} (succeeds : r.machine.execute.result = .ok none) :
      Passes r { r with machine := r.machine.execute.machine }
  | emit {r : Run} {value : Word}
      (succeeds : r.machine.execute.result = .ok (some (.output value))) :
      Passes r { r with machine := r.machine.execute.machine, outputs := r.outputs.push value }
  | supply {r : Run} {value : Word} {source : List Word} (waits : r.machine.Waits)
      (left : r.source = value :: source) :
      Passes r { r with machine := r.machine.pushInput value, source, polls := r.polls + 1 }

/-- A step of a run goes on, or ends the run; only one that fails ends it with an error. -/
theorem advance_cases (r : Run) :
    (∃ t, r.advance = .inl t ∧ r.Passes t) ∨ (∃ t event, r.advance = .inr (t, .ok event)) ∨
      ∃ e, r.machine.execute.result = .error e ∧
        r.advance = .inr ({ r with machine := r.machine.execute.machine }, .error e) := by
  by_cases hwaits : r.machine.Waits
  · rw [advance_of_waits hwaits]
    cases hsource : r.source with
    | nil => exact Or.inr (Or.inl ⟨_, _, supply_of_nil hsource⟩)
    | cons value source => exact Or.inl ⟨_, supply_of_cons hsource, .supply hwaits hsource⟩
  · rw [advance_eq]
    rcases hresult : r.machine.execute.result with e | _ | _ | value | _
    · exact Or.inr (Or.inr ⟨e, rfl, rfl⟩)
    · exact Or.inl ⟨_, rfl, .quiet hresult⟩
    · exact absurd hresult hwaits
    · exact Or.inl ⟨_, rfl, .emit hresult⟩
    · exact Or.inr (Or.inl ⟨_, _, rfl⟩)

theorem passes_of_advance {r t : Run} (h : r.advance = .inl t) : r.Passes t := by
  rcases r.advance_cases with ⟨t', hadvance, hpasses⟩ | ⟨_, _, hadvance⟩ | ⟨_, -, hadvance⟩ <;>
    rw [hadvance] at h <;> cases h
  exact hpasses

theorem error_of_advance {r t : Run} (h : r.advance = .inr (t, .error e)) :
    r.machine.execute.result = .error e ∧
      t = { r with machine := r.machine.execute.machine } := by
  rcases r.advance_cases with ⟨_, hadvance, -⟩ | ⟨_, _, hadvance⟩ | ⟨e', hresult, hadvance⟩ <;>
    rw [hadvance] at h <;> cases h
  exact ⟨hresult, rfl⟩

end Run

/-! ### The main statement

Rows of instructions and runs are iterations, and both come to their last step by
`exists_last_of_iterate`. -/

/-- **What an error leaves behind.**

* An instruction that fails leaves memory, relative base and the mark of a halted machine as they
  are. The machine stands where it stood if the instruction has failed before it got past its
  operands, and behind the instruction otherwise. The input is the same, but for the value that an
  input instruction could not write.
* A row of instructions that ends in an error consists of instructions that succeed and of one that
  fails, and leaves behind what that one leaves. So does a run, which may be supplied with values on
  the way. The error names the address of the instruction that fails. -/
theorem execute_leaves :
    (∀ (m : Machine) e, m.execute.result = .error e → m.Leaves e m.execute.machine) ∧
    (∀ fuel (m t : Machine) e, m.step fuel = some (t, .error e) →
      ∃ s, Relation.ReflTransGen Passes m s ∧ s.execute.result = .error e ∧
        t = s.execute.machine ∧ s.Leaves e t) ∧
    ∀ fuel (m : Machine) source r e, m.run fuel source = some (r, .error e) →
      ∃ s, Relation.ReflTransGen Run.Passes (.start m source) s ∧
        s.machine.execute.result = .error e ∧
        r = { s with machine := s.machine.execute.machine } ∧ s.machine.Leaves e r.machine := by
  refine ⟨fun m e h => leaves_of_execute h, ?_, ?_⟩
  · intro fuel m t e h
    obtain ⟨s, hreaches, hlast⟩ := exists_last_of_iterate h
    obtain ⟨hresult, rfl⟩ := error_of_advance hlast
    -- the step relation of the iteration is weakened to instructions that succeed
    exact ⟨s, Relation.ReflTransGen.mono (fun _ _ => passes_of_advance) _ _ hreaches, hresult,
      rfl, leaves_of_execute hresult⟩
  · intro fuel m source r e h
    obtain ⟨s, hreaches, hlast⟩ := exists_last_of_iterate h
    obtain ⟨hresult, rfl⟩ := Run.error_of_advance hlast
    exact ⟨s, Relation.ReflTransGen.mono (fun _ _ => Run.passes_of_advance) _ _ hreaches, hresult,
      rfl, leaves_of_execute hresult⟩

end AnyAllocator

/-- A machine that emits a value and then takes one that it cannot write. -/
def overfed : Machine := ⟨0, 0, ⟨#[104, 1, 3, -1]⟩, [7, 8], false⟩

/-- The second instruction fails and has taken the first of the two values. The machine stands
behind it, and the value that the first instruction has emitted stays. -/
theorem execute_leaves_overfed :
    { overfed with ip := 2 }.Leaves (.invalidAddress 2 (-1))
      { overfed with ip := 4, input := [8] } ∧
    (∃ s, Relation.ReflTransGen Passes { overfed with ip := 2 } s ∧ s.ip = 2) ∧
    ∃ s, Relation.ReflTransGen Run.Passes (.start overfed []) s ∧ s.machine.ip = 2 ∧
      s.outputs = #[1] := by
  have hip : ∀ {ip}, RuntimeError.Raised ip (.invalidAddress 2 (-1)) → ip = 2 := by
    intro ip h
    cases h
    rfl
  refine ⟨execute_leaves.1 { overfed with ip := 2 } (.invalidAddress 2 (-1)) rfl, ?_, ?_⟩
  · obtain ⟨s, hpasses, -, -, hleaves⟩ := execute_leaves.2.1 1 { overfed with ip := 2 }
      { overfed with ip := 4, input := [8] } (.invalidAddress 2 (-1)) rfl
    exact ⟨s, hpasses, hip hleaves.raised⟩
  · obtain ⟨s, hpasses, -, hr, hleaves⟩ := execute_leaves.2.2 2 overfed []
      ⟨{ overfed with ip := 4, input := [8] }, [], #[1], 0⟩ (.invalidAddress 2 (-1)) rfl
    exact ⟨s, hpasses, hip hleaves.raised, (congrArg Run.outputs hr).symm⟩

end Machine

end Intcode
