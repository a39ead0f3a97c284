import Mathlib.Data.List.Forall2
import Intcode.Proofs.Failure
import Intcode.Proofs.Overrides
import Intcode.Proofs.Traffic

/-!
# The trace of a run

What can be watched while a machine runs tells all that it does to memory and all that it emits. The
stores of a trace, made again one after the other, lead from the first memory to the last one, and
there is a notice for each instruction and for each time that one has waited.

* `stores`, `emissions`, `decodes` — what the notices of a trace tell of;
* `Noted`, `noted_execute` — the notices of one instruction;
* `Visits`, `Visits.records` — instructions that succeed, with input in between, and their trace;
* `Drives` — steps up to an event each, with input in between;
* `Run.drivesOff` — a run is driven by steps;
* `trace_records` — the main statement.
-/

namespace Intcode

/-! ### What notices tell

Notices come in five kinds, and each statement is about one of them. The projections go through the
list in order, so they turn traces one behind the other into lists one behind the other. -/

namespace Notice

/-- The address and the value of a store. -/
def store? : Notice → Option Override
  | .store address value => some (address, value)
  | .decode .. | .awaitingInput _ | .output .. | .halt _ => none

/-- The value that is emitted. -/
def output? : Notice → Option Word
  | .output _ value => some value
  | .decode .. | .store .. | .awaitingInput _ | .halt _ => none

/-- Whether an instruction has been decoded. -/
def isDecode : Notice → Bool
  | .decode .. => true
  | .store .. | .awaitingInput _ | .output .. | .halt _ => false

end Notice

/-- The stores that notices tell of, in order. -/
def stores (notices : List Notice) : List Override := notices.filterMap Notice.store?

/-- The values that notices tell to be emitted, in order. -/
def emissions (notices : List Notice) : List Word := notices.filterMap Notice.output?

/-- The notices of instructions that have been decoded, in order. -/
def decodes (notices : List Notice) : List Notice := notices.filter Notice.isDecode

section Notices

variable (notices more : List Notice)

@[simp] theorem stores_append : stores (notices ++ more) = stores notices ++ stores more :=
  List.filterMap_append

@[simp] theorem emissions_append :
    emissions (notices ++ more) = emissions notices ++ emissions more :=
  List.filterMap_append

@[simp] theorem decodes_append : decodes (notices ++ more) = decodes notices ++ decodes more :=
  List.filter_append ..

end Notices

namespace Machine

section AnyAllocator

variable [Allocator]

/-! ### The notices of one instruction

The notices of an instruction are those of its effect, behind the one that it has been decoded. A
store is noted whether it is refused or not, so what is said here is about instructions that
succeed. -/

/-- The stores among the notices of an instruction are what it does to memory, and the values among
them are what it emits. -/
structure Noted (before : Memory) (s : Step) : Prop where
  memory : patch before (stores s.notices) = .ok s.machine.memory
  outputs : emissions s.notices = s.emitted

variable {m t : Machine} {e : Option Event}

/-- A store that is not refused is noted, and nothing else is. -/
theorem noted_store {ip address value : Word}
    (h : (m.store ip address value).result = .ok e) :
    Noted m.memory (m.store ip address value) ∧
      decodes (m.store ip address value).notices = [] := by
  by_cases haccepts : m.memory.accepts address
  · rw [store_of_accepts ip value haccepts]
    refine ⟨⟨?_, rfl⟩, rfl⟩
    show (m.memory.write address value >>= fun memory => patch memory []) = _
    rw [Memory.write_of_accepts value haccepts]
    rfl
  · rw [store_of_not_accepts ip value haccepts] at h
    contradiction

/-- An effect that is carried out is noted, and it is no other instruction that is decoded. -/
theorem noted_apply {next : Word} {effect : Effect}
    (h : (m.apply next effect).result = .ok e) :
    Noted m.memory (m.apply next effect) ∧ decodes (m.apply next effect).notices = [] := by
  cases effect with
  | write address value => exact noted_store (m := { m with ip := next }) h
  | receive address =>
    unfold apply at h ⊢
    cases hinput : m.input with
    | nil => exact ⟨⟨rfl, rfl⟩, rfl⟩
    | cons value rest =>
      simp only [hinput] at h
      exact noted_store (m := { m with ip := next, input := rest }) h
  | emit | jump | pass | rebase | halt => exact ⟨⟨rfl, rfl⟩, rfl⟩

/-- A notice tells that the machine has decoded an instruction: its address, the word that has been
fetched from there, and the opcode of the word. -/
inductive Announces (m : Machine) : Notice → Prop where
  | mk {word : Word} {i : Instruction} (fetched : m.fetch = .ok word)
      (decoded : m.decode word = .ok i) : Announces m (.decode m.ip word i.opcode)

/-- An instruction that succeeds is noted, and begins with the notice that it has been decoded. A
machine that has halted before runs none, and there is nothing to be noted. -/
theorem noted_execute (h : m.execute.result = .ok e) :
    Noted m.memory m.execute ∧
      (m.halted = true ∧ decodes m.execute.notices = [] ∨
        m.halted = false ∧ ∃ notice, m.Announces notice ∧
          decodes m.execute.notices = [notice]) := by
  have hexecutes := m.executes
  generalize m.execute = s at h hexecutes ⊢
  cases hexecutes with
  | halted halted => exact ⟨⟨rfl, rfl⟩, Or.inl ⟨halted, rfl⟩⟩
  | fails => contradiction
  | acts running prepared =>
    obtain ⟨⟨hstores, hemissions⟩, hdecodes⟩ := noted_apply h
    refine ⟨⟨hstores, hemissions⟩, Or.inr ⟨running, _, .mk prepared.fetched prepared.decoded, ?_⟩⟩
    exact congrArg (_ :: ·) hdecodes

/-! ### Instructions with input in between

A trace does not show where a step ends and another one begins, so it is compared with the
instructions one by one first. A host may put values behind the input at any time, of which the
trace says nothing. -/

/-- A machine comes to another one by instructions that succeed, with values put behind its input in
between. The machines that run an instruction on the way are those of the list. -/
inductive Visits : Machine → List Machine → Machine → Prop where
  | refl (m : Machine) : Visits m [] m
  | feed {m t : Machine} {visited : List Machine} (values : List Word)
      (rest : Visits (m.extendInput values) visited t) : Visits m visited t
  | execute {m t : Machine} {visited : List Machine} {e : Option Event}
      (succeeds : m.execute.result = .ok e) (rest : Visits m.execute.machine visited t) :
      Visits m (m :: visited) t

/-- All that can be watched while these machines run an instruction each. -/
def trace (visited : List Machine) : List Notice := visited.flatMap (·.execute.notices)

/-- The event that the next instruction ends in. -/
def event? (m : Machine) : Option Event :=
  match m.execute.result with
  | .ok e => e
  | .error _ => none

/-- The machine runs an instruction that it does not have to try again. -/
def Completes (m : Machine) : Prop := m.halted = false ∧ m.event? ≠ some .awaitInput

instance : DecidablePred Completes := fun _ => inferInstanceAs (Decidable (_ ∧ _))

theorem event?_of_ok (h : m.execute.result = .ok e) : m.event? = e := by
  unfold event?
  rw [h]

end AnyAllocator

end Machine

/-- The value that comes with an event. -/
def Event.value? : Event → Option Word
  | .output value => some value
  | .awaitInput | .halted => none

namespace Machine

theorem emitted_eq (e : Option Event) : emitted e = e.toList.filterMap Event.value? := by
  rcases e with _ | _ | _ | _ <;> rfl

section AnyAllocator

variable [Allocator]

variable {m s t : Machine} {visited : List Machine} {events : List Event} {e : Option Event}

theorem trace_cons (m : Machine) (visited : List Machine) :
    trace (m :: visited) = m.execute.notices ++ trace visited :=
  List.flatMap_cons

theorem trace_append (visited more : List Machine) :
    trace (visited ++ more) = trace visited ++ trace more :=
  List.flatMap_append

namespace Visits

/-- The machines of two ways are those of the whole way. -/
theorem trans {more : List Machine} (h : m.Visits visited s) (h' : s.Visits more t) :
    m.Visits (visited ++ more) t := by
  induction h with
  | refl => exact h'
  | feed values _ ih => exact .feed values (ih h')
  | execute succeeds _ ih => exact .execute succeeds (ih h')

/-- The way to a machine that runs an instruction on the way to another one. -/
theorem exists_front (h : m.Visits visited t) (hs : s ∈ visited) :
    ∃ front rest, visited = front ++ s :: rest ∧ m.Visits front s := by
  induction h with
  | refl => exact absurd hs List.not_mem_nil
  | feed values _ ih =>
    obtain ⟨front, rest, hsplit, hfront⟩ := ih hs
    exact ⟨front, rest, hsplit, .feed values hfront⟩
  -- the machine is the first one on the way, or it is found further on
  | @execute m t visited e succeeds _ ih =>
    rcases List.mem_cons.mp hs with rfl | hs
    · exact ⟨[], visited, rfl, .refl _⟩
    · obtain ⟨front, rest, rfl, hfront⟩ := ih hs
      exact ⟨m :: front, rest, rfl, .execute succeeds hfront⟩

/-- The stores of a trace are all that happens to memory. -/
theorem patch_stores (h : m.Visits visited t) :
    patch m.memory (stores (trace visited)) = .ok t.memory := by
  induction h with
  | refl => rfl
  | feed _ _ ih => exact ih
  | execute succeeds _ ih =>
    rw [trace_cons, stores_append, patch_append, (noted_execute succeeds).1.memory]
    exact ih

/-- The values of a trace are those of the events. -/
theorem emissions_trace (h : m.Visits visited t) :
    emissions (trace visited) = (visited.filterMap event?).filterMap Event.value? := by
  induction h with
  | refl => rfl
  | feed _ _ ih => exact ih
  | @execute m t visited e succeeds _ ih =>
    have hemitted : m.execute.emitted = emitted e := by
      unfold Step.emitted
      rw [succeeds]
    rw [trace_cons, emissions_append, (noted_execute succeeds).1.outputs, ih, hemitted,
      emitted_eq, List.filterMap_cons, event?_of_ok succeeds]
    cases e with
    | none => rfl
    | some event => exact List.filterMap_append.symm

/-- Each machine that has not halted before has its notice, in order. -/
theorem announces (h : m.Visits visited t) :
    List.Forall₂ Announces (visited.filter fun s => !s.halted) (decodes (trace visited)) := by
  induction h with
  | refl => exact .nil
  | feed _ _ ih => exact ih
  | execute succeeds _ ih =>
    rw [trace_cons, decodes_append]
    rcases (noted_execute succeeds).2 with ⟨hhalted, hnone⟩ | ⟨hrunning, notice, hnotice, hone⟩
    · rw [List.filter_cons_of_neg (by simp [hhalted]), hnone]
      exact ih
    · rw [List.filter_cons_of_pos (by simp [hrunning]), hone]
      exact .cons hnotice ih

/-- A cell that no store of the trace names stays as it is. -/
theorem cell_eq (h : m.Visits visited t) {i : Nat}
    (hi : ∀ o ∈ stores (trace visited), o.1.toInt ≠ i) : t.memory.cell i = m.memory.cell i := by
  obtain ⟨haccepted, hmemory⟩ := patch_eq_ok_iff.mp h.patch_stores
  rw [hmemory, cell_after_writes _ (inRange_of_accepted haccepted), lastOverride?_eq_none hi]
  rfl

end Visits

/-- A machine that waits has not halted. -/
theorem halted_of_event? (h : m.event? = some .awaitInput) : m.halted = false := by
  cases hhalted : m.halted with
  | false => rfl
  | true =>
    rw [event?_of_ok (congrArg Step.result (execute_of_halted hhalted))] at h
    cases h

/-- The machines that have not halted complete an instruction or wait. -/
theorem countP_running (visited : List Machine) :
    visited.countP (fun s => !s.halted) =
      visited.countP (fun s => s.Completes) + (visited.filterMap event?).count .awaitInput := by
  rw [List.count_filterMap]
  induction visited with
  | nil => rfl
  | cons m visited ih =>
    rw [List.countP_cons, List.countP_cons, List.countP_cons, ih]
    by_cases hwaits : m.event? = some .awaitInput
    · simp [Completes, hwaits, halted_of_event? hwaits]
      omega
    · cases hhalted : m.halted <;> simp [Completes, hwaits, hhalted]
      omega

/-- The trace of the machines that have run an instruction each tells what has come of the first
one: which events there have been, and what memory is in the end. -/
structure Records (m : Machine) (visited : List Machine) (events : List Event) (t : Machine) :
    Prop where
  memory : patch m.memory (stores (trace visited)) = .ok t.memory
  outputs : emissions (trace visited) = events.filterMap Event.value?
  announces : List.Forall₂ Announces (visited.filter fun s => !s.halted) (decodes (trace visited))
  count : (decodes (trace visited)).length =
    visited.countP (fun s => s.Completes) + events.count .awaitInput
  kept : ∀ i : Nat, (∀ o ∈ stores (trace visited), o.1.toInt ≠ i) →
    ∀ s ∈ visited ++ [t], s.memory.cell i = m.memory.cell i

/-- **Instructions in a row are recorded** by their trace. -/
theorem Visits.records (h : m.Visits visited t) :
    Records m visited (visited.filterMap event?) t where
  memory := h.patch_stores
  outputs := h.emissions_trace
  announces := h.announces
  count := by
    rw [← h.announces.length_eq, ← List.countP_eq_length_filter, countP_running]
  kept := by
    intro i hi s hs
    rcases List.mem_append.mp hs with hs | hs
    · -- the way to a machine in between has a part of the trace
      obtain ⟨front, rest, rfl, hfront⟩ := h.exists_front hs
      refine hfront.cell_eq fun o ho => hi o ?_
      rw [trace_append, stores_append]
      exact List.mem_append_left _ ho
    · rw [List.mem_singleton.mp hs]
      exact h.cell_eq hi

/-! ### Steps with input in between

A step is a row of instructions of which only the last one has an event. So the events of the steps
are those of the instructions, and what is known of rows of instructions carries over. -/

/-- A machine is driven by steps, each of which ends in an event, and values are put behind its
input in between. The machines that run an instruction on the way and the events are listed. -/
inductive Drives : Machine → List Machine → List Event → Machine → Prop where
  | refl (m : Machine) : Drives m [] [] m
  | feed {m t : Machine} {visited : List Machine} {events : List Event} (values : List Word)
      (rest : Drives (m.extendInput values) visited events t) : Drives m visited events t
  | step {m s t : Machine} {fuel : Nat} {event : Event} {visited : List Machine}
      {events : List Event} (stops : m.step fuel = some (s, .ok event))
      (rest : Drives s visited events t) :
      Drives m (trail advance fuel m ++ visited) (event :: events) t

/-- A step that ends in an event runs instructions that succeed, and only the last one of them ends
in an event. -/
theorem visits_of_step {fuel : Nat} {event : Event} (h : m.step fuel = some (t, .ok event)) :
    m.Visits (trail advance fuel m) t ∧ (trail advance fuel m).filterMap event? = [event] := by
  unfold step at h
  induction fuel generalizing m with
  | zero => contradiction
  | succ fuel ih =>
    rw [iterate_succ, advance_eq] at h
    unfold trail
    rw [advance_eq]
    -- an error is no answer, a step without an event goes on, and an event ends the row
    rcases hresult : m.execute.result with error | _ | last
    · rw [hresult] at h
      cases h
    · rw [hresult] at h
      obtain ⟨hvisits, hevents⟩ := ih h
      refine ⟨.execute hresult hvisits, ?_⟩
      rw [List.filterMap_cons, event?_of_ok hresult]
      exact hevents
    · rw [hresult] at h
      cases h
      refine ⟨.execute hresult (.refl _), ?_⟩
      rw [List.filterMap_cons, event?_of_ok hresult]
      rfl

/-- Steps are instructions in a row, with the same events. -/
theorem Drives.visits (h : m.Drives visited events t) :
    m.Visits visited t ∧ visited.filterMap event? = events := by
  induction h with
  | refl => exact ⟨.refl _, rfl⟩
  | feed values _ ih => exact ⟨.feed values ih.1, ih.2⟩
  | step stops _ ih =>
    obtain ⟨hvisits, hevents⟩ := visits_of_step stops
    refine ⟨hvisits.trans ih.1, ?_⟩
    rw [List.filterMap_append, hevents, ih.2]
    rfl

/-! ### Runs

A run polls its source where a step ends in waiting, and goes on where it ends in an output. The
induction is on the instructions of the run, from the back: each one is a step of its own or the
beginning of the first step behind it. -/

/-- A machine is driven, and a step is what comes first. -/
def DrivesOff (m : Machine) (visited : List Machine) (events : List Event) (t : Machine) : Prop :=
  ∃ fuel s event more rest, m.step fuel = some (s, .ok event) ∧ s.Drives more rest t ∧
    visited = trail advance fuel m ++ more ∧ events = event :: rest

theorem DrivesOff.drives (h : m.DrivesOff visited events t) : m.Drives visited events t := by
  obtain ⟨fuel, s, event, more, rest, hstep, hrest, rfl, rfl⟩ := h
  exact .step hstep hrest

/-- An instruction without an event belongs to the step behind it. -/
theorem DrivesOff.cons (hresult : m.execute.result = .ok none)
    (h : m.execute.machine.DrivesOff visited events t) : m.DrivesOff (m :: visited) events t := by
  obtain ⟨fuel, s, event, more, rest, hstep, hrest, rfl, rfl⟩ := h
  refine ⟨fuel + 1, s, event, more, rest, ?_, hrest, ?_, rfl⟩
  · unfold step
    rw [iterate_succ, advance_eq, hresult]
    exact hstep
  · rw [trail, advance_eq, hresult]
    rfl

/-- An instruction with an event is a step. -/
theorem DrivesOff.of_event {event : Event} (hresult : m.execute.result = .ok (some event))
    (h : m.execute.machine.Drives visited events t) :
    m.DrivesOff (m :: visited) (event :: events) t := by
  refine ⟨1, m.execute.machine, event, visited, events, ?_, h, ?_, rfl⟩
  · unfold step
    rw [iterate_succ, advance_eq, hresult]
  · rw [trail, advance_eq, hresult]
    rfl

/-- A run that does not fail is driven by steps, which emit its outputs. It polls its source
whenever one of them ends in waiting. -/
theorem Run.drivesOff {r a : Run} {fuel : Nat} {event : Event}
    (h : iterate Run.advance fuel r = some (a, .ok event)) :
    ∃ events, r.machine.DrivesOff ((trail Run.advance fuel r).map Run.machine) events a.machine ∧
      a.outputs.toList = r.outputs.toList ++ events.filterMap Event.value? ∧
      a.polls = r.polls + events.count .awaitInput := by
  induction fuel generalizing r with
  | zero => contradiction
  | succ fuel ih =>
    rw [iterate_succ] at h
    rw [trail, List.map_cons]
    -- the first instruction is a step of its own if an event comes of it, and otherwise belongs to
    -- the step with which the rest of the run begins
    by_cases hwaits : r.machine.Waits
    · rw [Run.advance_of_waits hwaits] at h ⊢
      cases hsource : r.source with
      | nil =>
        rw [Run.supply_of_nil hsource] at h ⊢
        cases h
        refine ⟨[.awaitInput], .of_event hwaits ?_, by simp [Event.value?], by simp⟩
        rw [hwaits.execute_machine]
        exact .refl _
      | cons value source =>
        rw [Run.supply_of_cons hsource] at h ⊢
        obtain ⟨events, hdrives, houtputs, hpolls⟩ := ih h
        refine ⟨.awaitInput :: events, .of_event hwaits ?_, ?_, ?_⟩
        · rw [hwaits.execute_machine]
          exact .feed [value] hdrives.drives
        · exact houtputs
        · rw [hpolls, List.count_cons_self]
          dsimp only
          omega
    · rw [Run.advance_eq] at h ⊢
      rcases hresult : r.machine.execute.result with e | _ | _ | value | _ <;>
        rw [hresult] at h
      · cases h
      · obtain ⟨events, hdrives, houtputs, hpolls⟩ := ih h
        exact ⟨events, .cons hresult hdrives, houtputs, hpolls⟩
      · exact absurd hresult hwaits
      · obtain ⟨events, hdrives, houtputs, hpolls⟩ := ih h
        refine ⟨.output value :: events, .of_event hresult hdrives.drives, ?_, ?_⟩
        · rw [houtputs]
          simp [Event.value?]
        · rw [hpolls, List.count_cons_of_ne (by simp)]
      · cases h
        exact ⟨[.halted], .of_event hresult (.refl _), by simp [Event.value?], by simp⟩

/-! ### The main statement

The record of any way of driving a machine, and a run as one of these ways. -/

/-- **The trace is a faithful record.** Let a machine be driven by steps, however many of them, with
input in between, and let no step fail.

* The stores of the trace, made one after the other in the first memory, give the last memory, with
  all its cells.
* The values that the trace tells of are those that have been emitted, in order.
* The notices of decoded instructions are those of the machines that have not halted, in order, each
  with the address and with the word that has been fetched there. There is one for each instruction
  that has been completed and one for each time that a step has ended in waiting.
* A cell that no store names has held the same value all the time.

Whoever runs a machine with a source of input drives it by steps. -/
theorem trace_records :
    (∀ m visited events t, Drives m visited events t → Records m visited events t) ∧
    ∀ fuel (m : Machine) source r event, m.run fuel source = some (r, .ok event) →
      ∃ events, m.Drives ((trail Run.advance fuel (.start m source)).map Run.machine) events
          r.machine ∧
        r.outputs.toList = events.filterMap Event.value? ∧
        r.polls = events.count .awaitInput := by
  refine ⟨?_, ?_⟩
  · intro m visited events t h
    obtain ⟨hvisits, rfl⟩ := h.visits
    exact hvisits.records
  · intro fuel m source r event h
    obtain ⟨events, hdrives, houtputs, hpolls⟩ := Run.drivesOff h
    refine ⟨events, hdrives.drives, ?_, ?_⟩
    · simpa [Run.start] using houtputs
    · simpa [Run.start] using hpolls

end AnyAllocator

/-- A machine that takes a value, emits it, and seals itself: its last store puts the instruction
there that halts it. -/
def sealing : Machine := ⟨0, 0, ⟨#[3, 9, 4, 9, 1101, 90, 9, 8, 0, 0]⟩, [], false⟩

/-- The input instruction is decoded twice, since it has waited once, and there are two stores. -/
theorem trace_records_sealing :
    ∃ visited t, sealing.Drives visited [.awaitInput, .output 5, .halted] t ∧
      stores (trace visited) = [(9, 5), (8, 99)] ∧
      patch sealing.memory [(9, 5), (8, 99)] = .ok t.memory ∧
      emissions (trace visited) = [5] ∧ (decodes (trace visited)).length = 4 + 1 ∧
      ∀ s ∈ visited, s.memory.cell 0 = 3 := by
  have hwaits : sealing.step 1 = some (sealing, .ok .awaitInput) := rfl
  have hemits : (sealing.extendInput [5]).step 2 =
      some (⟨4, 0, ⟨#[3, 9, 4, 9, 1101, 90, 9, 8, 0, 5]⟩, [], false⟩, .ok (.output 5)) := rfl
  have hhalts : (Machine.mk 4 0 ⟨#[3, 9, 4, 9, 1101, 90, 9, 8, 0, 5]⟩ [] false).step 2 =
      some (⟨8, 0, ⟨#[3, 9, 4, 9, 1101, 90, 9, 8, 99, 5]⟩, [], true⟩, .ok .halted) := rfl
  have hdrives := Drives.step hwaits (.feed [5] (.step hemits (.step hhalts (.refl _))))
  have hrecords := trace_records.1 _ _ _ _ hdrives
  refine ⟨_, _, hdrives, rfl, hrecords.memory, hrecords.outputs, hrecords.count, ?_⟩
  intro s hs
  refine hrecords.kept 0 (fun o ho => ?_) s (List.mem_append_left _ hs)
  have ho : o ∈ [((9 : Word), (5 : Word)), (8, 99)] := ho
  simp only [List.mem_cons, List.not_mem_nil, or_false] at ho
  rcases ho with rfl | rfl <;> decide

end Machine

end Intcode
