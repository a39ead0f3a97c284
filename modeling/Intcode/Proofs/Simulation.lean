import Mathlib.Data.List.GetD
import Intcode.Proofs.Delivery
import Intcode.Proofs.Encoding
import Intcode.Proofs.Ideal

/-!
# Simulation by the ideal machine

Where a machine on words does not fail, it does what the ideal machine does. Each look and each
effect of an instruction has a counterpart on integers, and a step of the one is a step of the
other; runs follow by induction.

* `read_of_load`, `write_of_store` — memory;
* `opcode?_of_decode`, `modeDigit_of_decode` — instruction words;
* `addresses_of_operands` — operands;
* `act_of_finds` — effects;
* `step_ideal` — one instruction;
* `execution_of_run` — runs of a machine in any state;
* `ideal_withOverrides` — programs with overrides;
* `run_ideal` — the main statement.
-/

namespace Intcode

namespace Machine

variable {m : Machine}

/-! ### Memory

The ideal machine has a cell at every natural number and keeps integers in them. A look at a cell of
the machine is a look at the same cell there, and a write that is not refused is a write. -/

theorem not_neg_iff_nonneg {a : Word} : ¬ a < 0 ↔ 0 ≤ a.toInt := by
  rw [Int64.lt_iff_toInt_lt]
  show ¬ a.toInt < 0 ↔ _
  omega

/-- A look that succeeds finds the same value on the ideal machine. -/
theorem read_of_load {a v : Word} (h : m.load a = .ok v) :
    m.ideal.read a.toInt = some v.toInt := by
  unfold load Memory.read at h
  by_cases hneg : a < 0
  · rw [if_pos hneg] at h
    contradiction
  · rw [if_neg hneg] at h
    cases h
    unfold Ideal.read
    rw [if_pos (not_neg_iff_nonneg.mp hneg)]
    rfl

/-- A cell that is written holds its value as an integer. -/
theorem update_store (memory : Memory) (i : Nat) (v : Word) :
    (fun j => ((memory.store i v).cell j).toInt) =
      Ideal.update (fun j => (memory.cell j).toInt) i v.toInt := by
  funext j
  unfold Ideal.update
  rw [Memory.cell_store]
  split <;> rfl

/-- A write that is not refused is a write of the ideal machine. -/
theorem write_of_store [Allocator] {ip a v : Word} {e : Option Event}
    (h : (m.store ip a v).result = .ok e) :
    e = none ∧ m.ideal.write a.toInt v.toInt = some (m.store ip a v).machine.ideal := by
  by_cases haccepts : m.memory.accepts a
  · rw [store_of_accepts ip v haccepts] at h ⊢
    cases h
    unfold Ideal.write
    rw [if_pos (accepts_iff.mp haccepts).1.1]
    refine ⟨rfl, ?_⟩
    unfold ideal
    rw [update_store, Int64.toNat_toInt]
  · rw [store_of_not_accepts ip v haccepts] at h
    contradiction

/-! ### Instruction words

The digits of an instruction word are found with the truncating division of words, and on the ideal
machine with that of integers. The divisors are positive, so nothing overflows and both give the
same. -/

/-- What a machine reads from a word is its instruction. -/
theorem instruction_of_decode {word : Word} {i : Instruction} (h : m.decode word = .ok i) :
    Instruction.decode word = .ok i := by
  unfold decode at h
  split at h
  · next hi =>
    cases h
    exact hi
  · contradiction

theorem of_decode {word : Word} {i : Instruction} (h : m.decode word = .ok i) :
    i.opcode.code = word % 100 ∧
      i.modes = #v[word / 100 % 10, word / 1000 % 10, word / 10000 % 10] :=
  Instruction.decode_eq_ok_iff.mp (instruction_of_decode h)

/-- The ideal machine finds the same opcode in the word. -/
theorem opcode?_of_decode {word : Word} {i : Instruction} (h : m.decode word = .ok i) :
    Ideal.opcode? word.toInt = some i.opcode := by
  have hcode : word.toInt.tmod 100 = i.opcode.code.toInt := by
    rw [(of_decode h).1, Int64.toInt_mod]
    rfl
  unfold Ideal.opcode?
  rw [hcode]
  cases i.opcode <;> rfl

/-- The ideal machine finds the same mode digits in the word. -/
theorem modeDigit_of_decode {word : Word} {i : Instruction} {index : Nat} (hindex : index < 3)
    (h : m.decode word = .ok i) :
    Ideal.modeDigit word.toInt index = (i.modes[index]).toInt := by
  have hdigit : ∀ d : Word, d ≠ -1 →
      (word.toInt.tdiv d.toInt).tmod 10 = (word / d % 10).toInt := by
    intro d hd
    rw [Int64.toInt_mod, Int64.toInt_div_of_ne_right _ _ hd]
    rfl
  -- the divisor of each digit is a word, so the division is the one of integers
  have hmodes := (of_decode h).2
  simp only [hmodes]
  match index, hindex with
  | 0, _ => exact hdigit 100 (by decide)
  | 1, _ => exact hdigit 1000 (by decide)
  | 2, _ => exact hdigit 10000 (by decide)

/-! ### Operands

Every sum on the way to an operand is checked, so a sum that has been made is the one of integers.
For each mode the ideal machine looks in the same cells. -/

/-- The address of a cell ahead of the instruction pointer is exact. -/
theorem toInt_of_ahead {distance : Nat} {cell : Word} (hsmall : distance ≤ 4)
    (h : m.ahead distance = .ok cell) : cell.toInt = m.ip.toInt + distance := by
  have hadd := Word.add?_eq_some_iff.mp (exactly_eq_ok.mp h)
  rw [hadd, Int64.toInt_ofNat_of_lt (by omega)]

/-- An operand stands for the same cell on the ideal machine. -/
theorem address_of_operandAddress {word a : Word} {i : Instruction} {index : Nat}
    (hindex : index < 3) (hdecode : m.decode word = .ok i)
    (h : m.operandAddress i index = .ok a) :
    m.ideal.address word.toInt i.opcode index = some a.toInt := by
  obtain ⟨mode, hmode, h⟩ := bind_eq_ok.mp h
  obtain ⟨cell, hcell, h⟩ := bind_eq_ok.mp h
  have hdigit : Ideal.modeDigit word.toInt index = mode.code.toInt := by
    have hmode' : i.mode index = .ok mode := by
      unfold operandMode at hmode
      cases hread : i.mode index with
      | ok mode' =>
        rw [hread] at hmode
        cases hmode
        rfl
      | error e =>
        rw [hread] at hmode
        contradiction
    rw [modeDigit_of_decode hindex hdecode, (Instruction.mode_eq_ok_iff hindex).mp hmode']
  have hat : m.ideal.ip + index + 1 = cell.toInt := by
    rw [toInt_of_ahead (by omega) hcell]
    show m.ip.toInt + index + 1 = _
    omega
  unfold Ideal.address
  rw [hdigit, hat]
  -- the three modes look in the same cells
  cases mode with
  | position => exact read_of_load h
  | immediate =>
    dsimp only at h
    split at h
    · next hadmits =>
      cases h
      have hother : i.opcode.writeOperand? ≠ some index := by
        simpa [Opcode.admits] using hadmits
      show (if _ then _ else _) = _
      rw [if_neg hother]
    · contradiction
  | relative =>
    obtain ⟨distance, hdistance, h⟩ := bind_eq_ok.mp h
    have hadd := Word.add?_eq_some_iff.mp (exactly_eq_ok.mp h)
    show (m.ideal.read cell.toInt).map _ = _
    rw [read_of_load hdistance, hadd]
    rfl

/-- The operands of an opcode, as far as it has any. -/
def Operands.upTo (o : Operands) (op : Opcode) : List Int :=
  ([o.first, o.second, o.third].take op.operandCount).map Int64.toInt

/-- **The operands** stand for the same cells on the ideal machine. -/
theorem addresses_of_operands {word : Word} {i : Instruction} {o : Operands}
    (hdecode : m.decode word = .ok i) (h : m.operands i = .ok o) :
    m.ideal.addresses word.toInt i.opcode = some (o.upTo i.opcode) := by
  obtain ⟨first, hfirst, h⟩ := bind_eq_ok.mp h
  obtain ⟨second, hsecond, h⟩ := bind_eq_ok.mp h
  obtain ⟨third, hthird, h⟩ := bind_eq_ok.mp h
  cases h
  -- an operand that the opcode has is found at its address
  have hfound : ∀ {index : Nat} {a : Word}, index < i.opcode.operandCount →
      m.operandOrZero i index = .ok a →
        m.ideal.address word.toInt i.opcode index = some a.toInt := by
    intro index a hlt ha
    have hcount := i.opcode.operandCount_le
    unfold operandOrZero at ha
    rw [if_pos hlt] at ha
    exact address_of_operandAddress (by omega) hdecode ha
  have hcount := i.opcode.operandCount_le
  unfold Ideal.addresses Operands.upTo
  generalize i.opcode.operandCount = count at hfound hcount
  match count, hcount with
  | 0, _ => rfl
  | 1, _ =>
    show [0].mapM _ = _
    simp [hfound (by decide) hfirst]
  | 2, _ =>
    show [0, 1].mapM _ = _
    simp [hfound (by decide) hfirst, hfound (by decide) hsecond]
  | 3, _ =>
    show [0, 1, 2].mapM _ = _
    simp [hfound (by decide) hfirst, hfound (by decide) hsecond, hfound (by decide) hthird]

/-! ### Effects

An effect says what is left to be done once all operands have been looked up. There is one lemma for
each kind of effect, and `act_of_finds` goes through the opcodes. -/

section Effects

variable {o : Operands} {effect : Effect} {next a b v w : Word} {e : Option Event}

/-- Two values are combined, and the result is written, as on the ideal machine. -/
theorem combine_of_load [Allocator] {c : Word} {f : Int → Int → Int} (ha : m.load a = .ok v)
    (hb : m.load b = .ok w) {x : Word} (hx : x.toInt = f v.toInt w.toInt)
    (h : (m.apply next (.write c x)).result = .ok e) :
    m.ideal.combine { m.ideal with ip := next.toInt } f a.toInt b.toInt c.toInt =
      some (e.map Event.ideal, (m.apply next (.write c x)).machine.ideal) := by
  obtain ⟨rfl, hwrite⟩ := write_of_store h
  rw [hx] at hwrite
  unfold Ideal.combine
  rw [read_of_load ha, read_of_load hb]
  show (Ideal.write _ _ _).bind _ = _
  rw [show Ideal.write { m.ideal with ip := next.toInt } _ _ = _ from hwrite]
  rfl

/-- A jump whose test holds is taken. -/
theorem jumpIf_of_load {test : Int → Bool} (ha : m.load a = .ok v) (hb : m.load b = .ok w)
    (htest : test v.toInt) :
    m.ideal.jumpIf { m.ideal with ip := next.toInt } test a.toInt b.toInt =
      some (none, { m with ip := w }.ideal) := by
  unfold Ideal.jumpIf
  rw [read_of_load ha, read_of_load hb]
  show (if test v.toInt then _ else _) = _
  rw [if_pos htest]
  rfl

/-- A jump whose test fails is not taken, and its target is not looked at. -/
theorem jumpIf_of_not {test : Int → Bool} {target : Int} (ha : m.load a = .ok v)
    (htest : ¬ test v.toInt) :
    m.ideal.jumpIf { m.ideal with ip := next.toInt } test a.toInt target =
      some (none, { m with ip := next }.ideal) := by
  unfold Ideal.jumpIf
  rw [read_of_load ha]
  show (if test v.toInt then _ else _) = _
  rw [if_neg htest]
  rfl

/-- An input value is taken and written, or waited for, as on the ideal machine. -/
theorem receive_of_apply [Allocator] (h : (m.apply next (.receive a)).result = .ok e) :
    m.ideal.receive { m.ideal with ip := next.toInt } a.toInt =
      some (e.map Event.ideal, (m.apply next (.receive a)).machine.ideal) := by
  unfold apply at h ⊢
  unfold Ideal.receive
  -- the same queue read as integers, so both sides come to the same case
  have hideal : m.ideal.input = m.input.map Int64.toInt := rfl
  cases hinput : m.input with
  | nil =>
    rw [hinput] at hideal
    simp only [hinput] at h
    simp only [hideal, List.map_nil]
    cases h
    rfl
  | cons value rest =>
    rw [hinput] at hideal
    simp only [hinput] at h
    simp only [hideal, List.map_cons]
    obtain ⟨rfl, hwrite⟩ := write_of_store h
    show (Ideal.write _ _ _).bind _ = _
    rw [show Ideal.write { m.ideal with ip := next.toInt, input := rest.map Int64.toInt } _ _ = _
      from hwrite]
    rfl

/-- Zero is the only word that denotes zero. -/
theorem toInt_eq_zero_iff : v.toInt = 0 ↔ v = 0 :=
  Int64.toInt_inj (y := 0)

/-- A truth value is one or zero. -/
theorem toInt_ofBool (p : Prop) [Decidable p] :
    (Word.ofBool (decide p)).toInt = if p then 1 else 0 := by
  unfold Word.ofBool
  by_cases h : p
  · simp [h]
  · simp [h]

/-- What an opcode finds to do it does on the ideal machine, too. -/
theorem act_of_finds [Allocator] {op : Opcode} (hfinds : m.Finds o op effect)
    (h : (m.apply next effect).result = .ok e) :
    m.ideal.act { m.ideal with ip := next.toInt } op (o.upTo op) =
      some (e.map Event.ideal, (m.apply next effect).machine.ideal) := by
  -- one rule for each operation, once its operands are loaded
  cases hfinds with
  | add ha hb hc => exact combine_of_load (f := (· + ·)) ha hb hc h
  | mul ha hb hc => exact combine_of_load (f := (· * ·)) ha hb hc h
  | lessThan ha hb =>
    refine combine_of_load (f := fun x y => if x < y then 1 else 0) ha hb ?_ h
    rw [toInt_ofBool]
    simp only [Int64.lt_iff_toInt_lt]
  | equals ha hb =>
    refine combine_of_load (f := fun x y => if x = y then 1 else 0) ha hb ?_ h
    rw [toInt_ofBool]
    simp only [Int64.toInt_inj]
  | input => exact receive_of_apply h
  | output ha =>
    cases h
    show (m.ideal.read _).bind _ = _
    rw [read_of_load ha]
    rfl
  | jumpIfTrue ha hne hb =>
    cases h
    exact jumpIf_of_load ha hb (by simp [toInt_eq_zero_iff, hne])
  | notTrue ha heq =>
    cases h
    exact jumpIf_of_not ha (by simp [heq])
  | jumpIfFalse ha heq hb =>
    cases h
    exact jumpIf_of_load ha hb (by simp [heq])
  | notFalse ha hne =>
    cases h
    exact jumpIf_of_not ha (by simp [toInt_eq_zero_iff, hne])
  | adjustBase ha hbase =>
    cases h
    show (m.ideal.read _).bind _ = _
    rw [read_of_load ha]
    unfold apply ideal
    rw [hbase]
    rfl
  | halt =>
    cases h
    rfl

end Effects

section AnyAllocator

variable [Allocator]

/-! ### One instruction

The inversion of `execute` has three cases: the machine has halted, the instruction fails, or all
its looks have succeeded and an effect is applied. In the last one the ideal machine repeats the
looks one by one. -/

/-- **Simulation.** An instruction that does not fail is an instruction of the ideal machine, with
the same event. -/
theorem step_ideal {e : Option Event} (h : m.execute.result = .ok e) :
    m.ideal.step = some (e.map Event.ideal, m.execute.machine.ideal) := by
  have hexecutes := m.executes
  generalize m.execute = s at h hexecutes ⊢
  unfold Ideal.step
  show (if m.halted then _ else _) = _
  cases hexecutes with
  | halted hhalted =>
    rw [if_pos hhalted]
    cases h
    rfl
  | fails => contradiction
  | @acts word i o next effect hrun hprepared =>
    -- each look finds on the ideal machine what it has found here
    have hnext : m.ideal.ip + i.opcode.operandCount + 1 = next.toInt := by
      have hcount := i.opcode.operandCount_le
      rw [toInt_of_ahead (by omega) hprepared.advanced]
      show m.ip.toInt + i.opcode.operandCount + 1 = _
      push_cast
      omega
    rw [if_neg (by simp [hrun])]
    show (m.ideal.read m.ip.toInt).bind _ = _
    rw [read_of_load hprepared.fetched]
    show (Ideal.opcode? word.toInt).bind _ = _
    rw [opcode?_of_decode hprepared.decoded]
    show (m.ideal.addresses word.toInt i.opcode).bind _ = _
    rw [addresses_of_operands hprepared.decoded hprepared.addressed]
    show m.ideal.act { m.ideal with ip := m.ideal.ip + i.opcode.operandCount + 1 } _ _ = _
    rw [hnext]
    exact act_of_finds (finds_of_evaluate hprepared.evaluated) h

/-! ### Runs

Since a step is simulated, so is a run, by induction on its fuel. The source is first taken away: a
run that gets its input when it waits does the same as one that has all of it from the beginning. -/

/-- A run without a source that ends in an event is a run of the ideal machine. -/
theorem execution_of_iterate {fuel : Nat} {r a : Run} {event : Event} (hsource : r.source = [])
    (h : iterate Run.advance fuel r = some (a, .ok event)) :
    ∃ outputs, a.outputs.toList = r.outputs.toList ++ outputs ∧
      Ideal.Execution r.machine.ideal (outputs.map Int64.toInt) event.ideal a.machine.ideal := by
  induction fuel generalizing r with
  | zero => contradiction
  | succ fuel ih =>
    rw [iterate_succ, Run.advance_eq] at h
    -- one instruction decides with which constructor the execution goes on
    rcases hresult : r.machine.execute.result with e | _ | _ | value | _ <;> rw [hresult] at h <;>
      dsimp only at h
    · cases h
    · obtain ⟨outputs, houtputs, hrest⟩ := ih (by exact hsource) h
      exact ⟨outputs, houtputs, .quiet (step_ideal hresult) hrest⟩
    · rw [Run.supply_of_nil (r := { r with machine := r.machine.execute.machine }) hsource] at h
      cases h
      exact ⟨[], by simp, .awaitInput (step_ideal hresult)⟩
    · obtain ⟨outputs, houtputs, hrest⟩ := ih (by exact hsource) h
      refine ⟨value :: outputs, ?_, .output (step_ideal hresult) hrest⟩
      rw [houtputs]
      simp
    · cases h
      exact ⟨[], by simp, .halted (step_ideal hresult)⟩

/-- A run that ends in an event is a run of the ideal machine on all of the input, that which waits
and that which comes from the source. What is left of the source is left as input. -/
theorem execution_of_run {fuel : Nat} {source : List Word} {r : Run} {event : Event}
    (h : m.run fuel source = some (r, .ok event)) :
    Ideal.Execution (m.extendInput source).ideal (r.outputs.toList.map Int64.toInt) event.ideal
      (r.machine.extendInput r.source).ideal := by
  obtain ⟨fuel', polls, hrun⟩ := Run.iterate_sourceless h 0
  obtain ⟨outputs, houtputs, hexecution⟩ := execution_of_iterate rfl hrun
  have hall : r.outputs.toList = outputs := houtputs
  rw [hall]
  exact hexecution

/-! ### Programs

A program with overrides is loaded into the same cells on both machines, and so its run is the run
of the ideal machine. -/

/-- An override, as integers. -/
def overrideInts (o : Override) : Int × Int := (o.1.toInt, o.2.toInt)

/-- Overrides that are accepted are updates of the cells, one after another. -/
theorem cells_of_patch {memory memory' : Memory} {overrides : List Override}
    (h : patch memory overrides = .ok memory') :
    (fun i => (memory'.cell i).toInt) =
      (overrides.map overrideInts).foldl (fun cell o => Ideal.update cell o.1.toNat o.2)
        (fun i => (memory.cell i).toInt) := by
  induction overrides generalizing memory with
  | nil =>
    cases h
    rfl
  | cons o overrides ih =>
    obtain ⟨patched, hwrite, h⟩ := bind_eq_ok.mp h
    unfold Memory.write at hwrite
    split at hwrite
    · cases hwrite
      rw [ih h, update_store]
      rfl
    · contradiction

/-- A machine at the start of a program is the ideal machine there. -/
theorem ideal_withOverrides {p : Program} {overrides : List Override}
    (h : withOverrides p overrides = .ok m) (values : List Word) :
    (m.extendInput values).ideal =
      Ideal.start (p.words.map Int64.toInt) (overrides.map overrideInts)
        (values.map Int64.toInt) := by
  obtain ⟨memory, hpatch, hm⟩ := bind_eq_ok.mp h
  cases hm
  -- cells past the end of the program are zero on both sides
  have hload : (fun i => ((ofProgram p).memory.cell i).toInt) =
      fun i => (p.words.map Int64.toInt).getD i 0 := by
    funext i
    show ((Memory.load p.words).cell i).toInt = _
    rw [Memory.cell_load]
    exact (List.getD_map p.words (0 : Word) Int64.toInt).symm
  have hcells := cells_of_patch hpatch
  rw [hload] at hcells
  unfold ideal Ideal.start
  rw [← hcells]
  rfl

/-- A run of a program that ends in an event is the only run of the ideal machine. -/
theorem execution_iff_of_run {p : Program} {overrides : List Override}
    (hstart : withOverrides p overrides = .ok m) {inputs source : List Word} {fuel : Nat} {r : Run}
    {event : Event} (h : (m.extendInput inputs).run fuel source = some (r, .ok event))
    (outputs : List Int) (last : Ideal.Event) (t : Ideal) :
    (Ideal.start (p.words.map Int64.toInt) (overrides.map overrideInts)
        ((inputs ++ source).map Int64.toInt)).Execution outputs last t ↔
      outputs = r.outputs.toList.map Int64.toInt ∧ last = event.ideal ∧
        t = (r.machine.extendInput r.source).ideal := by
  have hexecution := execution_of_run h
  rw [extendInput_extendInput, ideal_withOverrides hstart] at hexecution
  constructor
  · intro h'
    exact hexecution.unique h'
  · rintro ⟨rfl, rfl, rfl⟩
    exact hexecution

theorem withOverrides_nil (p : Program) : withOverrides p [] = .ok (ofProgram p) := rfl

/-- **Programs run as on the ideal machine.**

* An instruction of a machine in any state, if it does not fail, is one instruction of the ideal
  machine in the same state, with the same event; to wait for input changes nothing.
* A run of a program, with any overrides that are accepted and any input, if it ends without an
  error, is the one run of the ideal machine: the same outputs come of it, it ends in the same
  event, and with the same cells, instruction pointer and relative base.
* The outputs that a program returns for its inputs are those with which the ideal machine halts. -/
theorem run_ideal :
    (∀ (m : Machine) (e : Option Event), m.execute.result = .ok e →
      m.ideal.step = some (e.map Event.ideal, m.execute.machine.ideal) ∧
        (e = some .awaitInput → m.execute.machine = m)) ∧
    (∀ (p : Program) (overrides : List Override) (m : Machine),
      withOverrides p overrides = .ok m →
        ∀ (inputs source : List Word) (fuel : Nat) (r : Run) (event : Event),
          (m.extendInput inputs).run fuel source = some (r, .ok event) →
            ∀ (outputs : List Int) (last : Ideal.Event) (t : Ideal),
              (Ideal.start (p.words.map Int64.toInt) (overrides.map overrideInts)
                  ((inputs ++ source).map Int64.toInt)).Execution outputs last t ↔
                outputs = r.outputs.toList.map Int64.toInt ∧ last = event.ideal ∧
                  t = (r.machine.extendInput r.source).ideal) ∧
    ∀ (p : Program) (inputs : List Word) (fuel : Nat) (values : List Word),
      runProgram fuel p inputs = some (.ok values) →
        ∃ final, ∀ (outputs : List Int) (last : Ideal.Event) (t : Ideal),
          (Ideal.start (p.words.map Int64.toInt) [] (inputs.map Int64.toInt)).Execution
              outputs last t ↔
            outputs = values.map Int64.toInt ∧ last = .halted ∧ t = final := by
  refine ⟨?_, ?_, ?_⟩
  · intro m e h
    refine ⟨step_ideal h, ?_⟩
    rintro rfl
    exact Waits.execute_machine h
  · intro p overrides m hstart inputs source fuel r event h
    exact execution_iff_of_run hstart h
  · intro p inputs fuel values h
    obtain ⟨⟨r, stop⟩, hrun, hvalues⟩ := Option.map_eq_some_iff.mp h
    rcases stop with e | _ | value | _
    · cases hvalues
    · cases hvalues
    · -- a run goes on after an output
      exact absurd rfl ((execution_of_run hrun).ne_output value.toInt)
    · cases hvalues
      have hiff := execution_iff_of_run (withOverrides_nil p) hrun
      rw [List.append_nil] at hiff
      exact ⟨_, hiff⟩

end AnyAllocator

/-- A program that reads a value and emits it, through a cell that two overrides have chosen. Of two
values that it is given, one is left in the source. -/
theorem run_ideal_echo :
    (Machine.mk 0 0 ⟨#[99]⟩ [] false).ideal.step =
      some (some .halted, (Machine.mk 0 0 ⟨#[99]⟩ [] true).ideal) ∧
    (∃ m r t, withOverrides ⟨[3, 0, 4, 0, 99]⟩ [(1, 6), (3, 6)] = .ok m ∧
      (m.extendInput [7]).run 3 [8] = some (r, .ok .halted) ∧
      r.outputs.toList = [7] ∧ r.machine.ip = 4 ∧ r.machine.memory.cell 6 = 7 ∧
      r.machine.input ++ r.source = [8] ∧
      (Ideal.start [3, 0, 4, 0, 99] [(1, 6), (3, 6)] [7, 8]).Execution [7] .halted t ∧
      t.ip = 4 ∧ t.cell 6 = 7 ∧ t.input = [8]) ∧
    runProgram 3 ⟨[3, 6, 4, 6, 99]⟩ [7, 8] = some (.ok [7]) ∧
    ∃ t, (Ideal.start [3, 6, 4, 6, 99] [] [7, 8]).Execution [7] .halted t := by
  refine ⟨(run_ideal.1 ⟨0, 0, ⟨#[99]⟩, [], false⟩ (some .halted) rfl).1, ?_, ?_⟩
  · have hmade : withOverrides ⟨[3, 0, 4, 0, 99]⟩ [(1, 6), (3, 6)] =
        .ok { ofProgram ⟨[3, 0, 4, 0, 99]⟩ with
          memory := ((Memory.load [3, 0, 4, 0, 99]).store 1 6).store 3 6 } := by
      have haccepts : ∀ (memory : Memory) (a : Word), Memory.isWritable a → memory.accepts a :=
        fun memory a ha => (memory.accepts_eq_isWritable a).trans ha
      refine bind_eq_ok.mpr ⟨_, ?_, rfl⟩
      refine bind_eq_ok.mpr ⟨_, Memory.write_of_accepts 6 (haccepts _ 1 rfl), ?_⟩
      exact bind_eq_ok.mpr ⟨_, Memory.write_of_accepts 6 (haccepts _ 3 rfl), rfl⟩
    have hrun : (run 3 (extendInput { ofProgram ⟨[3, 0, 4, 0, 99]⟩ with
        memory := ((Memory.load [3, 0, 4, 0, 99]).store 1 6).store 3 6 } [7]) [8]).map
          (fun a => (a.1.outputs.toList, a.2.toOption, a.1.machine.ip, a.1.machine.memory.cell 6,
            a.1.machine.input ++ a.1.source)) = some ([7], some .halted, 4, 7, [8]) := by
      unfold ofProgram
      rw [Memory.load_eq_toArray]
      decide +kernel
    obtain ⟨⟨r, stop⟩, hrun, hr⟩ := Option.map_eq_some_iff.mp hrun
    obtain ⟨houtputs, hstop, hip, hcell, hinput⟩ : _ ∧ _ ∧ _ ∧ _ ∧ _ := by
      simpa only [Prod.mk.injEq] using hr
    cases stop with
    | error e => cases hstop
    | ok event =>
      cases hstop
      refine ⟨_, r, _, hmade, hrun, houtputs, hip, hcell, hinput,
        (run_ideal.2.1 ⟨[3, 0, 4, 0, 99]⟩ [(1, 6), (3, 6)] _ hmade [7] [8] 3 r .halted hrun
        _ _ _).mpr ⟨?_, rfl, rfl⟩, ?_, ?_, ?_⟩
      · rw [houtputs]
        rfl
      · exact congrArg Int64.toInt hip
      · exact congrArg Int64.toInt hcell
      · exact congrArg (List.map Int64.toInt) hinput
  · have hrun : (runProgram 3 ⟨[3, 6, 4, 6, 99]⟩ [7, 8]).map Except.toOption = some (some [7]) := by
      unfold runProgram ofProgram
      rw [Memory.load_eq_toArray]
      decide +kernel
    obtain ⟨result, hrun, hresult⟩ := Option.map_eq_some_iff.mp hrun
    cases result with
    | error e => cases hresult
    | ok values =>
      cases hresult
      obtain ⟨t, ht⟩ := run_ideal.2.2 ⟨[3, 6, 4, 6, 99]⟩ [7, 8] 3 [7] hrun
      exact ⟨hrun, t, (ht _ _ _).mpr ⟨rfl, rfl, rfl⟩⟩

end Machine

end Intcode
