import Mathlib.Data.List.Forall2
import Intcode.Proofs.Delivery
import Intcode.Ring

/-!
# How far memory extends

Memory has as many cells as have been needed so far, and reads as zero behind them. Programs cannot
tell where it ends: machines that differ only in the cells that exist do the same for ever, also
after a write that adds cells to one memory and changes a cell of the other one.

* `Memory.Agrees` — two memories that read the same;
* `Machine.Alike` — two machines that differ in nothing but the extent of their memories;
* `Machine.Alike.execute` — alike machines do the same, and are alike afterwards;
* `Machine.Alike.run`, `Ring.run_alike` — the same of runs and of rings;
* `Machine.alike_ofProgram` — zeros behind a program add to the extent only;
* `extent_not_observable` — the main statement.
-/

namespace Intcode

/-! ### Memory

A memory is looked at by reading it only. Two memories that read the same may still have different
cells, and what has to be seen is that writing does not tell them apart. -/

namespace Memory

/-- Two memories that read the same at every address. -/
def Agrees (a b : Memory) : Prop := ∀ address, a.read address = b.read address

variable {a b : Memory}

/-- Cells that are not there count as zero, so it is enough that the cells have the same values. -/
theorem agrees_of_cell (h : ∀ i, a.cell i = b.cell i) : a.Agrees b := by
  intro address
  unfold read
  rw [h]

/-- What reads the same has the same value in every cell that has an address. -/
theorem Agrees.cell_eq (h : a.Agrees b) {address : Word} (hnonneg : ¬ address < 0) :
    a.cell address.toNatClampNeg = b.cell address.toNatClampNeg := by
  have hread := h address
  unfold read at hread
  rw [if_neg hnonneg, if_neg hnonneg] at hread
  exact Except.ok.inj hread

/-- A write changes both memories in the same cell, whether the cell has been there or not. -/
theorem Agrees.store (h : a.Agrees b) (i : Nat) (value : Word) :
    (a.store i value).Agrees (b.store i value) := by
  intro address
  unfold read
  by_cases hneg : address < 0
  · rw [if_pos hneg, if_pos hneg]
  · rw [if_neg hneg, if_neg hneg, cell_store, cell_store, h.cell_eq hneg]

/-- Cells with zero in them read like cells that are not there. -/
theorem agrees_append_zeros (cells : Array Word) (k : Nat) :
    (⟨cells ++ Array.replicate k 0⟩ : Memory).Agrees ⟨cells⟩ := by
  refine agrees_of_cell fun i => ?_
  unfold cell
  simp only [Array.getD_eq_getD_getElem?, Array.getElem?_append, Array.getElem?_replicate]
  by_cases hi : i < cells.size
  · rw [if_pos hi]
  · -- behind the cells there is nothing to read on either side
    have hnone : cells[i]? = none := Array.getElem?_eq_none (by omega)
    rw [if_neg hi, hnone]
    split <;> rfl

end Memory

/-! ### One instruction

An instruction reads memory and writes to it, and does nothing else with it. Up to the effect of the
instruction memory is only read, so the effect is the same; then the effect takes place on both
machines. -/

/-- Two machines that differ in nothing but the extent of their memories. -/
structure Machine.Alike (m m' : Machine) : Prop where
  ip : m'.ip = m.ip
  relativeBase : m'.relativeBase = m.relativeBase
  input : m'.input = m.input
  halted : m'.halted = m.halted
  memory : m'.memory.Agrees m.memory

/-- Two outcomes of an instruction that differ in nothing but the extent of memory. -/
structure Step.Alike (s s' : Step) : Prop where
  machine : s.machine.Alike s'.machine
  result : s'.result = s.result
  notices : s'.notices = s.notices

/-- What is watched is put in front on both sides. -/
theorem Step.Alike.noting {s s' : Step} (h : s.Alike s') (notice : Notice) :
    (s.noting notice).Alike (s'.noting notice) :=
  ⟨h.machine, h.result, congrArg (notice :: ·) h.notices⟩

namespace Machine

section Memory

variable (m : Machine) {memory : Memory} (h : memory.Agrees m.memory)

include h

theorem alike_withMemory : m.Alike { m with memory } := ⟨rfl, rfl, rfl, rfl, h⟩

/-- A machine loads what it did before if its memory is replaced by one that reads the same. -/
theorem load_withMemory : { m with memory }.load = m.load := by
  funext address
  unfold load
  rw [h]

theorem operandAddress_withMemory (i : Instruction) (index : Nat) :
    { m with memory }.operandAddress i index = m.operandAddress i index := by
  unfold operandAddress
  rw [load_withMemory m h]
  rfl

theorem operands_withMemory (i : Instruction) :
    { m with memory }.operands i = m.operands i := by
  unfold operands operandOrZero
  simp only [operandAddress_withMemory m h]

theorem evaluate_withMemory (o : Operands) (op : Opcode) :
    { m with memory }.evaluate o op = m.evaluate o op := by
  unfold evaluate
  rw [load_withMemory m h]
  rfl

/-- An instruction comes as far as its effect in both memories, and to the same effect. -/
theorem Prepared.withMemory {word : Word} {i : Instruction} {operands : Operands} {next : Word}
    {effect : Effect} (hprepared : m.Prepared word i operands next effect) :
    { m with memory }.Prepared word i operands next effect where
  fetched := by
    have hfetch : { m with memory }.fetch = m.fetch := congrFun (load_withMemory m h) m.ip
    exact hfetch.trans hprepared.fetched
  decoded := hprepared.decoded
  addressed := (operands_withMemory m h i).trans hprepared.addressed
  advanced := hprepared.advanced
  evaluated := (evaluate_withMemory m h operands i.opcode).trans hprepared.evaluated

/-- An instruction that fails before it has an effect does so in both memories, with the same
error. -/
theorem Fails.withMemory {ip : Word} {e : RuntimeError} {notices : List Notice}
    (hfails : m.Fails ip e notices) : { m with memory }.Fails ip e notices := by
  have hfetch : { m with memory }.fetch = m.fetch := congrFun (load_withMemory m h) m.ip
  cases hfails with
  | fetch failed => exact .fetch (hfetch.trans failed)
  | decode fetched failed => exact .decode (hfetch.trans fetched) failed
  | operands fetched decoded failed =>
    exact .operands (hfetch.trans fetched) decoded ((operands_withMemory m h _).trans failed)
  | ahead fetched decoded addressed failed =>
    exact .ahead (hfetch.trans fetched) decoded ((operands_withMemory m h _).trans addressed) failed
  | evaluate fetched decoded addressed advanced failed =>
    exact .evaluate (hfetch.trans fetched) decoded ((operands_withMemory m h _).trans addressed)
      advanced ((evaluate_withMemory m h _ _).trans failed)

/-- Both memories take the same writes, since the greatest address does not depend on extent. -/
theorem alike_store (ip address value : Word) :
    (m.store ip address value).Alike ({ m with memory }.store ip address value) := by
  by_cases haccepts : m.memory.accepts address
  · have haccepts' : memory.accepts address := by
      rwa [Memory.accepts_eq_isWritable] at haccepts ⊢
    rw [store_of_accepts ip value haccepts, store_of_accepts ip value haccepts']
    exact ⟨⟨rfl, rfl, rfl, rfl, h.store address.toNatClampNeg value⟩, rfl, rfl⟩
  · have haccepts' : ¬ memory.accepts address := by
      rwa [Memory.accepts_eq_isWritable] at haccepts ⊢
    rw [store_of_not_accepts ip value haccepts, store_of_not_accepts ip value haccepts']
    exact ⟨alike_withMemory m h, rfl, rfl⟩

/-- The effect is the only place where memory is written. -/
theorem alike_apply (next : Word) (effect : Effect) :
    (m.apply next effect).Alike ({ m with memory }.apply next effect) := by
  cases effect with
  | write address value => exact alike_store { m with ip := next } h m.ip address value
  | receive address =>
    unfold apply
    dsimp only
    cases hinput : m.input with
    | nil => exact ⟨⟨rfl, rfl, hinput.symm, rfl, h⟩, rfl, rfl⟩
    | cons value rest =>
      exact alike_store { m with ip := next, input := rest } h m.ip address value
  | emit | jump | pass | rebase | halt => exact ⟨⟨rfl, rfl, rfl, rfl, h⟩, rfl, rfl⟩

end Memory

namespace Alike

variable {m m' : Machine}

/-- Alike machines are one machine with two memories. -/
theorem eq_withMemory (h : m.Alike m') : m' = { m with memory := m'.memory } := by
  obtain ⟨ip, base, memory, input, halted⟩ := m
  obtain ⟨ip', base', memory', input', halted'⟩ := m'
  obtain ⟨hip, hbase, hinput, hhalted, -⟩ := h
  dsimp only at hip hbase hinput hhalted
  rw [hip, hbase, hinput, hhalted]

/-- Alike machines do the same, and they are alike afterwards. -/
theorem execute (h : m.Alike m') : m.execute.Alike m'.execute := by
  have hagrees := h.memory
  rw [h.eq_withMemory]
  generalize m'.memory = memory at hagrees
  have hexecutes := m.executes
  generalize m.execute = s at hexecutes
  cases hexecutes with
  | halted hhalted =>
    rw [execute_of_halted (m := { m with memory }) hhalted]
    exact ⟨alike_withMemory m hagrees, rfl, rfl⟩
  | fails hrun hfails =>
    -- an instruction that fails leaves both machines as they were
    rw [execute_of_fails (m := { m with memory }) hrun (hfails.withMemory m hagrees)]
    exact ⟨⟨rfl, rfl, rfl, rfl, hagrees⟩, rfl, rfl⟩
  | acts hrun hprepared =>
    rw [execute_of_prepared (m := { m with memory }) hrun (hprepared.withMemory m hagrees)]
    exact (alike_apply m hagrees _ _).noting _

theorem extendInput (h : m.Alike m') (values : List Word) :
    (m.extendInput values).Alike (m'.extendInput values) :=
  ⟨h.ip, h.relativeBase, congrArg (· ++ values) h.input, h.halted, h.memory⟩

/-- Up to the next event, alike machines run equally many instructions. -/
theorem step (h : m.Alike m') (fuel : Nat) :
    Option.Rel (fun a b => a.1.Alike b.1 ∧ b.2 = a.2) (m.step fuel) (m'.step fuel) := by
  refine iterate_liftRel ?_ fuel h
  intro m m' h
  obtain ⟨hmachine, hresult, -⟩ := h.execute
  unfold advance
  generalize m.execute = s, m'.execute = s' at hmachine hresult
  obtain ⟨t, result, notices⟩ := s
  obtain ⟨t', result', notices'⟩ := s'
  cases hresult
  rcases result with e | _ | event
  · exact .inr ⟨hmachine, rfl⟩
  · exact .inl hmachine
  · exact .inr ⟨hmachine, rfl⟩

end Alike

/-! ### Runs

A run has a source and outputs besides its machine, and neither depends on memory. So what one
instruction preserves, a run preserves step by step. -/

/-- Two runs in progress that differ in nothing but the extent of memory. -/
structure Run.Alike (r r' : Run) : Prop where
  machine : r.machine.Alike r'.machine
  source : r'.source = r.source
  outputs : r'.outputs = r.outputs
  polls : r'.polls = r.polls

/-- Two ends of runs that differ in nothing but the extent of memory. -/
def Run.EndAlike (a b : Run × Stop) : Prop := a.1.Alike b.1 ∧ b.2 = a.2

/-- The next value of the source goes to both machines, or both wait in vain. -/
theorem Run.Alike.supply {r r' : Run} (h : r.Alike r') :
    Sum.LiftRel Run.Alike Run.EndAlike r.supply r'.supply := by
  obtain ⟨m, source, outputs, polls⟩ := r
  obtain ⟨m', source', outputs', polls'⟩ := r'
  obtain ⟨hmachine, hsource, houtputs, hpolls⟩ := h
  cases hsource
  cases houtputs
  cases hpolls
  cases source with
  | nil => exact .inr ⟨⟨hmachine, rfl, rfl, rfl⟩, rfl⟩
  | cons value source => exact .inl ⟨hmachine.extendInput [value], rfl, rfl, rfl⟩

/-- Alike runs take a step in the same way. -/
theorem Run.Alike.advance {r r' : Run} (h : r.Alike r') :
    Sum.LiftRel Run.Alike Run.EndAlike r.advance r'.advance := by
  obtain ⟨hmachine, hresult, -⟩ := h.machine.execute
  have hafter : Run.Alike { r with machine := r.machine.execute.machine }
      { r' with machine := r'.machine.execute.machine } :=
    ⟨hmachine, h.source, h.outputs, h.polls⟩
  rw [Run.advance_eq, Run.advance_eq, hresult]
  rcases r.machine.execute.result with e | _ | _ | value | _
  · exact .inr ⟨hafter, rfl⟩
  · exact .inl hafter
  · exact hafter.supply
  · refine .inl ⟨hmachine, h.source, ?_, h.polls⟩
    show r'.outputs.push value = r.outputs.push value
    rw [h.outputs]
  · exact .inr ⟨hafter, rfl⟩

/-- Alike machines run in the same way: for as long, with the same outputs and polls, and to the
same end. -/
theorem Alike.run {m m' : Machine} (h : m.Alike m') (fuel : Nat) (source : List Word) :
    Option.Rel Run.EndAlike (m.run fuel source) (m'.run fuel source) :=
  iterate_liftRel (fun _ _ => Run.Alike.advance) fuel ⟨h, rfl, rfl, rfl⟩

/-! ### Programs

A program is loaded with zeros behind it, so how many there are does not matter, whether they belong
to the program or to the head-room. -/

/-- A program may be loaded with any number of zeros behind it. -/
theorem alike_ofProgram (p : Program) (room : Nat) :
    (ofProgram p).Alike
      { ofProgram p with memory := ⟨p.words.toArray ++ Array.replicate room 0⟩ } := by
  refine alike_withMemory (ofProgram p) fun address => ?_
  have hroom := Memory.agrees_append_zeros p.words.toArray room address
  have hload := Memory.agrees_append_zeros p.words.toArray Memory.headroom address
  exact hroom.trans hload.symm

/-- Zeros at the end of a program are those that memory has behind it anyway. -/
theorem alike_ofProgram_zeros (words : List Word) (k : Nat) :
    (ofProgram ⟨words⟩).Alike (ofProgram ⟨words ++ List.replicate k 0⟩) := by
  refine alike_withMemory (ofProgram ⟨words⟩) (Memory.agrees_of_cell fun i => ?_)
  show (Memory.load _).cell i = (Memory.load _).cell i
  rw [Memory.cell_load, Memory.cell_load, List.getD_eq_getElem?_getD, List.getD_eq_getElem?_getD,
    List.getElem?_append]
  split
  · rfl
  · next hi =>
    have hnone : words[i]? = none := List.getElem?_eq_none (by omega)
    rw [hnone, List.getElem?_replicate]
    split <;> rfl

/-- Zeros at the end of a program make no difference to what it answers. -/
theorem runProgram_zeros (fuel : Nat) (words : List Word) (k : Nat) (inputs : List Word) :
    runProgram fuel ⟨words ++ List.replicate k 0⟩ inputs = runProgram fuel ⟨words⟩ inputs := by
  have hrel := ((alike_ofProgram_zeros words k).extendInput inputs).run fuel []
  unfold runProgram
  generalize run fuel (extendInput (ofProgram ⟨words⟩) inputs) [] = a,
    run fuel (extendInput (ofProgram ⟨words ++ List.replicate k 0⟩) inputs) [] = b at hrel ⊢
  cases hrel with
  | none => rfl
  | @some a b h =>
    obtain ⟨r, stop⟩ := a
    obtain ⟨r', stop'⟩ := b
    obtain ⟨halike, hstop⟩ := h
    dsimp only at halike hstop
    rw [hstop]
    -- an answer holds nothing of the machine but what it has emitted and where it waits
    rcases stop with e | _ | value | _
    · rfl
    · simp only [Option.map_some, halike.machine.ip]
    · simp only [Option.map_some, halike.outputs]
    · simp only [Option.map_some, halike.outputs]

end Machine

/-! ### Rings

In a ring values go from machine to machine. Alike machines emit the same values, so those behind
them get the same input, and by induction along the ring a round ends in the same way. -/

namespace Ring

/-- Two rounds that differ in nothing but the extents of memories. -/
structure Round.Alike (r r' : Round) : Prop where
  machines : List.Forall₂ Machine.Alike r.machines r'.machines
  outgoing : r'.outgoing = r.outgoing
  produced : r'.produced = r.produced
  waiting : r'.waiting = r.waiting

/-- Two results of a round that differ in nothing but the extents of memories. -/
inductive ResultAlike : Except Failure Round → Except Failure Round → Prop where
  | failed {f f' : Failure} (machines : List.Forall₂ Machine.Alike f.machines f'.machines)
      (error : f'.error = f.error) : ResultAlike (.error f) (.error f')
  | ended {r r' : Round} (h : r.Alike r') : ResultAlike (.ok r) (.ok r')

/-- Two ends of a ring that differ in nothing but the extents of memories. -/
def EndAlike (a b : Outcome) : Prop := List.Forall₂ Machine.Alike a.1 b.1 ∧ b.2 = a.2

theorem feed_alike {ms ms' : List Machine} (h : List.Forall₂ Machine.Alike ms ms')
    (values : List Word) : List.Forall₂ Machine.Alike (feed values ms) (feed values ms') := by
  cases h with
  | nil => exact .nil
  | cons hm hms => exact .cons (hm.extendInput values) hms

/-- Rounds of alike machines end in the same way. The induction is along the ring, with whatever
comes in from the machine in front. -/
theorem round_alike {ms ms' : List Machine} (h : List.Forall₂ Machine.Alike ms ms') (fuel : Nat)
    (incoming : List Word) :
    Option.Rel ResultAlike (round fuel incoming ms) (round fuel incoming ms') := by
  induction h generalizing incoming with
  | nil => exact .some (.ended ⟨.nil, rfl, rfl, rfl⟩)
  | @cons m m' ms ms' hm hms ih =>
    have hrun := (hm.extendInput incoming).run fuel []
    unfold round
    generalize (m.extendInput incoming).run fuel [] = a,
      (m'.extendInput incoming).run fuel [] = b at hrun
    cases hrun with
    | none => exact .none
    | @some a b h =>
      obtain ⟨⟨t, source, outputs, polls⟩, stop⟩ := a
      obtain ⟨⟨t', source', outputs', polls'⟩, stop'⟩ := b
      obtain ⟨⟨ht, -, houtputs, -⟩, hstop⟩ := h
      cases houtputs
      cases hstop
      rcases stop with e | event
      · exact .some (.failed (.cons ht hms) rfl)
      · -- the machines behind get the same values
        have hrest := ih outputs.toList
        dsimp only
        generalize round fuel outputs.toList ms = x, round fuel outputs.toList ms' = y at hrest
        cases hrest with
        | none => exact .none
        | some h =>
          cases h with
          | failed hmachines herror => exact .some (.failed (.cons ht hmachines) herror)
          | ended hr =>
            refine .some (.ended ⟨.cons ht hr.machines, hr.outgoing, ?_, ?_⟩)
            · exact congrArg (!outputs.isEmpty || ·) hr.produced
            · exact congrArg (event == .awaitInput || ·) hr.waiting

/-- Two rings that differ in nothing but the extents of memories. -/
structure Config.Alike (c c' : Config) : Prop where
  machines : List.Forall₂ Machine.Alike c.machines c'.machines
  last : c'.last = c.last

/-- What the last machine has emitted goes to the first one in both rings. -/
theorem Config.Alike.after {c c' : Config} {r r' : Round} (h : c.Alike c') (hr : r.Alike r') :
    (c.after r).Alike (c'.after r') := by
  unfold Config.after
  rw [hr.outgoing, h.last]
  exact ⟨feed_alike hr.machines r.outgoing, rfl⟩

/-- A round of alike rings goes on or ends in the same way. -/
theorem Config.Alike.advance {c c' : Config} (h : c.Alike c') (fuel : Nat) :
    Sum.LiftRel Config.Alike (Option.Rel EndAlike) (c.advance fuel) (c'.advance fuel) := by
  have hround := round_alike h.machines fuel []
  unfold Config.advance
  generalize round fuel [] c.machines = x, round fuel [] c'.machines = y at hround
  cases hround with
  | none => exact .inr .none
  | some hresult =>
    cases hresult with
    | failed hmachines herror => exact .inr (.some ⟨hmachines, congrArg Except.error herror⟩)
    | @ended r r' hr =>
      have hafter := h.after hr
      dsimp only
      -- the loop decides by what waits, by what was produced and by the last output, and alike
      -- rounds agree in all three
      rw [hr.waiting, hr.produced]
      split
      · exact .inr (.some ⟨hafter.machines, congrArg Except.ok hafter.last⟩)
      · split
        · exact .inr (.some ⟨hafter.machines, rfl⟩)
        · exact .inl hafter

/-- Alike rings come to the same end after equally many rounds. -/
theorem run_alike {ms ms' : List Machine} (h : List.Forall₂ Machine.Alike ms ms') (fuel : Nat)
    (seed : Word) : Option.Rel EndAlike (run fuel ms seed) (run fuel ms' seed) := by
  cases h with
  | nil => exact .some ⟨.nil, rfl⟩
  | @cons m m' ms ms' hm hms =>
    have hstart : (Config.start (m :: ms) seed).Alike (.start (m' :: ms') seed) :=
      -- the seed is the first input of both
      ⟨feed_alike (.cons hm hms) [seed], rfl⟩
    exact rel_join (iterate_liftRel (fun _ _ h => h.advance fuel) fuel hstart)

end Ring

/-! ### The main statement -/

/-- **How far memory extends cannot be observed.**

* Alike machines execute an instruction with the same result, an event or an error, and are alike
  afterwards. So they go on to the same event, and with the same source they run equally long, emit
  the same values, poll equally often and come to the same end.
* Rings of alike machines come to an end in the same number of rounds, with the same answer.
* Zeros behind a program make no difference to what it answers, and it may be loaded with any number
  of zero cells behind it. -/
theorem extent_not_observable :
    (∀ m m' : Machine, m.Alike m' →
      m'.execute.result = m.execute.result ∧ m.execute.machine.Alike m'.execute.machine ∧
      (∀ fuel, Option.Rel (fun a b => a.1.Alike b.1 ∧ b.2 = a.2) (m.step fuel) (m'.step fuel)) ∧
      ∀ fuel source, Option.Rel (fun a b => a.1.machine.Alike b.1.machine ∧
          b.1.source = a.1.source ∧ b.1.outputs = a.1.outputs ∧ b.1.polls = a.1.polls ∧ b.2 = a.2)
        (m.run fuel source) (m'.run fuel source)) ∧
    (∀ ms ms' : List Machine, List.Forall₂ Machine.Alike ms ms' → ∀ fuel seed,
      Option.Rel (fun a b => List.Forall₂ Machine.Alike a.1 b.1 ∧ b.2 = a.2)
        (Ring.run fuel ms seed) (Ring.run fuel ms' seed)) ∧
    (∀ (words : List Word) (k fuel : Nat) (inputs : List Word),
      runProgram fuel ⟨words ++ List.replicate k 0⟩ inputs = runProgram fuel ⟨words⟩ inputs) ∧
    ∀ (p : Program) (room : Nat), (Machine.ofProgram p).Alike
      { Machine.ofProgram p with memory := ⟨p.words.toArray ++ Array.replicate room 0⟩ } := by
  refine ⟨fun m m' h => ⟨h.execute.result, h.execute.machine, h.step, ?_⟩,
    fun ms ms' h fuel seed => Ring.run_alike h fuel seed,
    fun words k fuel inputs => Machine.runProgram_zeros fuel words k inputs,
    Machine.alike_ofProgram⟩
  intro fuel source
  have hrun := h.run fuel source
  generalize m.run fuel source = a, m'.run fuel source = b at hrun
  cases hrun with
  | none => exact .none
  | some hend =>
    obtain ⟨⟨hmachine, hsource, houtputs, hpolls⟩, hstop⟩ := hend
    exact .some ⟨hmachine, hsource, houtputs, hpolls, hstop⟩

/-- A sum is written to cell 9 and emitted. The one memory grows by that write, and in the other one
the cell has existed before. -/
theorem extent_not_observable_growth :
    (Machine.mk 0 0 ⟨#[1101, 2, 3, 9, 4, 9, 99] ++ Array.replicate 5 0⟩ [] false).execute.result =
      .ok none ∧
    (∃ r, (Machine.mk 0 0 ⟨#[1101, 2, 3, 9, 4, 9, 99] ++ Array.replicate 5 0⟩ [] false).run 3 [] =
      some (r, .ok .halted) ∧ r.outputs = #[5]) ∧
    ∃ ms, Ring.run 3 [⟨0, 0, ⟨#[1101, 2, 3, 9, 4, 9, 99] ++ Array.replicate 5 0⟩, [], false⟩] 8 =
      some (ms, .ok (some 5)) := by
  have halike := Machine.alike_withMemory ⟨0, 0, ⟨#[1101, 2, 3, 9, 4, 9, 99]⟩, [], false⟩
    (Memory.agrees_append_zeros #[1101, 2, 3, 9, 4, 9, 99] 5)
  -- the shorter machine is the one to compute with; what it does carries over to the longer one
  obtain ⟨hexecute, -, -, hrun⟩ := extent_not_observable.1 _ _ halike
  refine ⟨hexecute, ?_, ?_⟩
  · have hshort : Machine.run 3 ⟨0, 0, ⟨#[1101, 2, 3, 9, 4, 9, 99]⟩, [], false⟩ [] =
        some (⟨⟨6, 0, ⟨#[1101, 2, 3, 9, 4, 9, 99, 0, 0, 5]⟩, [], true⟩, [], #[5], 0⟩,
          .ok .halted) := by
      decide +kernel
    have hlong := hrun 3 []
    rw [hshort] at hlong
    obtain ⟨⟨r, stop⟩, hr, -, -, houtputs, -, hstop⟩ := exists_of_rel_some hlong
    cases hstop
    exact ⟨r, hr, houtputs⟩
  · have hring := extent_not_observable.2.1 _ _ (.cons halike .nil) 3 8
    have hshort : Ring.run 3 [⟨0, 0, ⟨#[1101, 2, 3, 9, 4, 9, 99]⟩, [], false⟩] 8 =
        some ([⟨6, 0, ⟨#[1101, 2, 3, 9, 4, 9, 99, 0, 0, 5]⟩, [8, 5], true⟩], .ok (some 5)) := by
      decide +kernel
    rw [hshort] at hring
    obtain ⟨⟨ms, answer⟩, hms, -, hanswer⟩ := exists_of_rel_some hring
    cases hanswer
    exact ⟨ms, hms⟩

end Intcode
