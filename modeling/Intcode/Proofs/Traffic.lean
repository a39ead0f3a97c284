import Intcode.Proofs.Rounds
import Intcode.Proofs.Trail

/-!
# Traffic in a ring

What becomes of the values in a ring. Each instruction takes a value from the input, emits a value,
or does neither; the instructions of a call are recorded round by round, and an account of all that
they take and emit shows that every value which enters an input leaves it again in its turn, or
still waits.

* `Step.consumed`, `Step.emitted` — what an instruction takes and what it emits;
* `Machine.input_execute` — a value that is taken is the first one of the input;
* `Ring.history` — the rounds of a call, from the trail of its loop, with the instructions of each
  machine;
* `Ring.Accounted` — the account of each machine and the one in front of it;
* `Ring.round_accounted`, `Ring.loop_accounted` — the account of a round, and of all rounds;
* `Ring.run_accounted` — the main statement.
-/

namespace Intcode

/-! ### Instructions

What an instruction has taken and emitted is told by its notices and its result. That the first
value of the input is what is taken, and that nothing else touches the input, is seen opcode by
opcode. -/

namespace Step

/-- The value that an input instruction has taken, which is the one that it writes. -/
def consumed (s : Step) : List Word :=
  match s.notices with
  | [.decode _ _ op, .store _ value] => if op = .input then [value] else []
  | _ => []

/-- The value that an output instruction has emitted. -/
def emitted (s : Step) : List Word :=
  match s.result with
  | .ok e => Machine.emitted e
  | .error _ => []

end Step

namespace Machine

variable {m : Machine}

/-- An instruction that fails before it acts has taken nothing. -/
theorem Fails.consumed_eq {ip : Word} {e : RuntimeError} {notices : List Notice}
    (h : m.Fails ip e notices) : Step.consumed ⟨{ m with ip }, .error e, notices⟩ = [] := by
  cases h <;> rfl

section AnyAllocator

variable [Allocator]

/-- A store is noted, whether it is refused or not. -/
theorem store_notices (m : Machine) (ip address value : Word) :
    (m.store ip address value).notices = [.store address value] := by
  by_cases h : m.memory.accepts address
  · rw [store_of_accepts ip value h]
  · rw [store_of_not_accepts ip value h]

/-- What is taken is the first value of the input, and nothing else happens to the input. -/
theorem input_execute (m : Machine) :
    m.input = m.execute.consumed ++ m.execute.machine.input := by
  have hexecutes := m.executes
  generalize m.execute = s at hexecutes ⊢
  cases hexecutes with
  | halted => rfl
  | fails _ hfails => rw [hfails.consumed_eq]; rfl
  | @acts word i o next effect _ hprepared =>
    have hfinds := finds_of_evaluate hprepared.evaluated
    generalize i.opcode = op at hfinds
    -- writing leaves the input alone, whatever is written
    have hwrite : ∀ {a v : Word}, op ≠ .input →
        m.input = (Step.noting (.decode m.ip word op) (m.apply next (.write a v))).consumed ++
          (m.apply next (.write a v)).machine.input := by
      intro a v hop
      have hnotices := store_notices { m with ip := next } m.ip a v
      have hinput := (store_cases { m with ip := next } m.ip a v).1
      unfold apply Step.consumed Step.noting
      simp only [hnotices, hinput, if_neg hop, List.nil_append]
    cases hfinds with
    | add | mul | lessThan | equals => exact hwrite (by decide)
    | input =>
      unfold apply
      cases hinput : m.input with
      | nil => simp [Step.consumed, Step.noting, hinput]
      | cons value rest =>
        have hnotices := store_notices { m with ip := next, input := rest } m.ip o.first value
        have hrest := (store_cases { m with ip := next, input := rest } m.ip o.first value).1
        unfold Step.consumed Step.noting
        dsimp only
        rw [hnotices, hrest]
        rfl
    | output | jumpIfTrue | notTrue | jumpIfFalse | notFalse | adjustBase | halt => rfl

/-! ### Runs

The turn of a machine in a round is a run without a source. Its instructions are those of its trail.
-/

/-- The instructions that a run executes, one from each of its states. -/
def Run.steps (fuel : Nat) (r : Run) : List Step :=
  (trail Run.advance fuel r).map (·.machine.execute)

/-- The instructions of a run are the first one and those of the rest. -/
theorem Run.steps_succ (fuel : Nat) (r : Run) :
    r.steps (fuel + 1) = r.machine.execute ::
      match r.advance with
      | .inl s => s.steps fuel
      | .inr _ => [] := by
  show (trail Run.advance (fuel + 1) r).map (·.machine.execute) = _
  rw [trail, List.map_cons]
  cases r.advance <;> rfl

/-- One step of a run without a source does what its instruction does. -/
theorem Run.next_of_nil {r : Run} (hsource : r.source = []) :
    r.next.machine = r.machine.execute.machine ∧ r.next.source = [] ∧
      r.next.outputs.toList = r.outputs.toList ++ r.machine.execute.emitted := by
  unfold Run.next Step.emitted
  rw [Run.advance_eq]
  rcases r.machine.execute.result with e | _ | _ | value | _
  · exact ⟨rfl, hsource, by simp⟩
  · exact ⟨rfl, hsource, by simp [emitted]⟩
  · -- without a source, to poll is the last step
    dsimp only
    rw [Run.supply_of_nil (r := { r with machine := r.machine.execute.machine }) hsource]
    exact ⟨rfl, hsource, by simp [emitted]⟩
  · exact ⟨rfl, hsource, by simp [emitted]⟩
  · exact ⟨rfl, hsource, by simp [emitted]⟩

/-- A run without a source takes what it needs from the input, and nothing else leaves the input;
its outputs are what it emits. -/
theorem Run.iterate_traffic {fuel : Nat} {r a : Run} {stop : Stop} (hsource : r.source = [])
    (h : iterate Run.advance fuel r = some (a, stop)) :
    r.machine.input = (r.steps fuel).flatMap Step.consumed ++ a.machine.input ∧
      a.outputs.toList = r.outputs.toList ++ (r.steps fuel).flatMap Step.emitted := by
  induction fuel generalizing r with
  | zero => contradiction
  | succ fuel ih =>
    have hinput := input_execute r.machine
    obtain ⟨hmachine, hrest, houtputs⟩ := Run.next_of_nil hsource
    unfold Run.next at hmachine hrest houtputs
    rw [iterate_succ] at h
    rw [Run.steps_succ, List.flatMap_cons, List.flatMap_cons]
    -- what one instruction takes and emits is counted in front of what the rest takes and emits
    cases hadvance : r.advance with
    | inl s =>
      rw [hadvance] at h hmachine hrest houtputs
      dsimp only at h hmachine hrest houtputs
      obtain ⟨hin, hout⟩ := ih hrest h
      rw [hmachine] at hin
      rw [houtputs] at hout
      dsimp only
      rw [List.append_assoc, ← hin, hout, List.append_assoc]
      exact ⟨hinput, rfl⟩
    | inr answer =>
      rw [hadvance] at h hmachine houtputs
      cases h
      dsimp only at hmachine houtputs ⊢
      rw [hmachine, houtputs, List.flatMap_nil, List.append_nil, List.flatMap_nil, List.append_nil]
      exact ⟨hinput, rfl⟩

/-- The instructions that a machine executes in a run without a source. -/
def executed (fuel : Nat) (m : Machine) : List Step := (Run.start m []).steps fuel

end AnyAllocator

end Machine

namespace Ring

open Machine (Run)

/-! ### The record of a call

The record has for each round the machines as they were and what each of them has executed. What is
emitted and consumed in all of it is collected machine by machine. -/

/-- A round: the machines at its beginning, and the instructions that each of them executes. -/
structure Lap where
  machines : List Machine
  turns : List (List Step)

/-- The instructions that machine `i` executes. -/
def Lap.turn (l : Lap) (i : Nat) : List Step := l.turns.getD i []

/-- The values that machine `i` emits, in order. -/
def emittedBy (i : Nat) (ls : List Lap) : List Word :=
  ls.flatMap fun l => (l.turn i).flatMap Step.emitted

/-- The values that input instructions of machine `i` consume, in order. -/
def consumedBy (i : Nat) (ls : List Lap) : List Word :=
  ls.flatMap fun l => (l.turn i).flatMap Step.consumed

/-- What a machine emits in a round comes before what it emits later. -/
theorem emittedBy_cons (i : Nat) (l : Lap) (ls : List Lap) :
    emittedBy i (l :: ls) = (l.turn i).flatMap Step.emitted ++ emittedBy i ls :=
  List.flatMap_cons

/-! ### Accounts

An account is an equation between lists, so it says at once that no value is lost, that none comes
twice, and that they stay in order. -/

/-- No value is lost, comes twice or overtakes another: for each machine, what has waited before and
what the machine in front of it emits is what it consumes and what waits afterwards. -/
def Accounted (before : List Machine) (ls : List Lap) (after : List Machine) : Prop :=
  ∀ i < before.length, ∃ m m', before[(i + 1) % before.length]? = some m ∧
    after[(i + 1) % before.length]? = some m' ∧
      m.input ++ emittedBy i ls = consumedBy ((i + 1) % before.length) ls ++ m'.input

/-- Accounts of one time and of the time after it make one account. -/
theorem Accounted.trans {before between after : List Machine} {ls ls' : List Lap}
    (hlength : between.length = before.length) (h : Accounted before ls between)
    (h' : Accounted between ls' after) : Accounted before (ls ++ ls') after := by
  intro i hi
  obtain ⟨m, t, hm, ht, heq⟩ := h i hi
  obtain ⟨t', m', ht', hm', heq'⟩ := h' i (hlength ▸ hi)
  rw [hlength] at ht' hm' heq'
  cases ht.symm.trans ht'
  refine ⟨m, m', hm, hm', ?_⟩
  unfold emittedBy consumedBy at heq heq' ⊢
  rw [List.flatMap_append, List.flatMap_append, ← List.append_assoc, heq, List.append_assoc, heq',
    List.append_assoc]

/-- What machine `k` gets in a round: the first one gets the values that come in, and each of the
others what the one in front of it emits. -/
def entering (incoming : List Word) (ts : List (List Step)) : Nat → List Word
  | 0 => incoming
  | k + 1 => (ts.getD k []).flatMap Step.emitted

section AnyAllocator

variable [Allocator]

/-! ### The record of a call from its loop

The rounds of the record are the states that the loop itself goes through: `laps` is taken from the
trail of `Config.advance`, which `loop` iterates. -/

/-- The instructions of a round, machine by machine. After a turn that fails, or that its fuel does
not suffice for, there are no others. -/
def turns (fuel : Nat) (incoming : List Word) : List Machine → List (List Step)
  | [] => []
  | m :: ms =>
    (m.extendInput incoming).executed fuel ::
      match (m.extendInput incoming).run fuel [] with
      | some (r, .ok _) => turns fuel r.outputs.toList ms
      | _ => []

/-- The round that begins with a ring. -/
def Config.lap (fuel : Nat) (c : Config) : Lap := ⟨c.machines, turns fuel [] c.machines⟩

/-- The rounds that a ring goes through, one from each state of its loop. The last one may break
off. -/
def laps (fuel rounds : Nat) (c : Config) : List Lap :=
  (trail (Config.advance fuel) rounds c).map (Config.lap fuel)

/-- The rounds that a ring goes through after its first machine has got a first value. -/
def history (fuel : Nat) (ms : List Machine) (seed : Word) : List Lap :=
  match ms with
  | [] => []
  | ms => laps fuel fuel (.start ms seed)

/-- The record is the first round, and the rest of it if the loop goes on. -/
theorem laps_succ (fuel rounds : Nat) (c : Config) :
    laps fuel (rounds + 1) c = c.lap fuel ::
      match c.advance fuel with
      | .inl next => laps fuel rounds next
      | .inr _ => [] := by
  unfold laps
  rw [trail, List.map_cons]
  cases c.advance fuel <;> rfl

/-! ### Rounds

In a round the values pass from each machine to the next one, and those of the last one are handed
to the first one at the end. `entering` names what each machine gets. -/

/-- A round that is gone through is a turn of the first machine and a round of the others. -/
theorem round_cons_eq_ok {fuel : Nat} {incoming : List Word} {m : Machine} {ms : List Machine}
    {r : Round} (h : round fuel incoming (m :: ms) = some (.ok r)) :
    ∃ a event r', (m.extendInput incoming).run fuel [] = some (a, .ok event) ∧
      round fuel a.outputs.toList ms = some (.ok r') ∧
        r = r'.cons a.machine (!a.outputs.isEmpty) (event == .awaitInput) := by
  unfold round at h
  rcases hrun : (m.extendInput incoming).run fuel [] with _ | ⟨a, e | event⟩
  · simp [hrun] at h
  · simp [hrun] at h
  · rcases hround : round fuel a.outputs.toList ms with _ | f | r'
    · simp [hrun, hround] at h
    · simp [hrun, hround] at h
    · simp only [hrun, hround] at h
      cases h
      exact ⟨a, event, r', rfl, hround, rfl⟩

/-- The account of a round that has been gone through, and what the last machine has emitted. -/
theorem round_entering {fuel : Nat} {incoming : List Word} {ms : List Machine} {r : Round}
    (h : round fuel incoming ms = some (.ok r)) :
    r.machines.length = ms.length ∧
    r.outgoing = entering incoming (turns fuel incoming ms) ms.length ∧
    ∀ k m, ms[k]? = some m → ∃ m', r.machines[k]? = some m' ∧
      m.input ++ entering incoming (turns fuel incoming ms) k =
        ((turns fuel incoming ms).getD k []).flatMap Step.consumed ++ m'.input := by
  induction ms generalizing incoming r with
  | nil =>
    cases h
    exact ⟨rfl, rfl, fun k m hm => by simp at hm⟩
  | cons m ms ih =>
    obtain ⟨a, event, r', hrun, hround, rfl⟩ := round_cons_eq_ok h
    obtain ⟨hinput, houtputs⟩ := Run.iterate_traffic rfl hrun
    obtain ⟨hlength, houtgoing, hrest⟩ := ih hround
    unfold turns
    rw [hrun]
    dsimp only
    -- what the first machine has emitted comes in for the others
    have hshift : ∀ k, entering a.outputs.toList (turns fuel a.outputs.toList ms) k =
        entering incoming ((m.extendInput incoming).executed fuel ::
          turns fuel a.outputs.toList ms) (k + 1) := by
      intro k
      cases k with
      | zero => exact houtputs
      | succ k => rfl
    refine ⟨congrArg (· + 1) hlength, houtgoing.trans (hshift _), ?_⟩
    intro k m' hm'
    cases k with
    | zero =>
      cases hm'
      exact ⟨a.machine, rfl, hinput⟩
    | succ k =>
      obtain ⟨t', ht', heq⟩ := hrest k m' hm'
      rw [hshift] at heq
      exact ⟨t', ht', heq⟩

/-- **The account of a round.** -/
theorem round_accounted {fuel : Nat} {ms : List Machine} {r : Round}
    (h : round fuel [] ms = some (.ok r)) :
    Accounted ms [⟨ms, turns fuel [] ms⟩] (feed r.outgoing r.machines) := by
  obtain ⟨-, houtgoing, hmachines⟩ := round_entering h
  intro i hi
  unfold emittedBy consumedBy
  rw [List.flatMap_singleton, List.flatMap_singleton]
  show ∃ m m' : Machine, _ ∧ _ ∧ m.input ++ entering [] (turns fuel [] ms) (i + 1) = _
  by_cases hlast : i + 1 = ms.length
  · -- the last machine: its values go to the first one, which has got nothing else
    rw [hlast, Nat.mod_self]
    have hget : ms[0]? = some ms[0] := List.getElem?_eq_getElem (by omega)
    obtain ⟨m', hm', heq⟩ := hmachines 0 _ hget
    refine ⟨ms[0], m'.extendInput r.outgoing, hget, ?_, ?_⟩
    · rw [getElem?_feed, if_pos rfl, hm']
      rfl
    · have hinput : ms[0].input =
          ((turns fuel [] ms).getD 0 []).flatMap Step.consumed ++ m'.input := by
        rw [← heq]
        exact (List.append_nil _).symm
      rw [← houtgoing, hinput, List.append_assoc]
      rfl
  · have hmod : (i + 1) % ms.length = i + 1 := Nat.mod_eq_of_lt (by omega)
    have hget : ms[i + 1]? = some ms[i + 1] := List.getElem?_eq_getElem (by omega)
    obtain ⟨m', hm', heq⟩ := hmachines (i + 1) _ hget
    rw [hmod]
    refine ⟨ms[i + 1], m', hget, ?_, heq⟩
    rw [getElem?_feed, if_neg (Nat.succ_ne_zero i), hm']

/-- A round breaks off with an error that an instruction has failed with. -/
theorem raised_of_round {fuel : Nat} {incoming : List Word} {ms : List Machine} {f : Failure}
    (h : round fuel incoming ms = some (.error f)) : ∃ ip, f.error.Raised ip := by
  induction ms generalizing incoming f with
  | nil => simp [round] at h
  | cons m ms ih =>
    unfold round at h
    have hsettles := Machine.iterate_settles fuel (r := .start (m.extendInput incoming) []) rfl
    -- the failure is either this machine's own or one from further on
    rcases hrun : (m.extendInput incoming).run fuel [] with _ | ⟨a, e | event⟩
    · simp [hrun] at h
    · simp only [hrun] at h
      cases h
      unfold Machine.run at hrun
      rw [hrun] at hsettles
      cases hsettles with
      | fails _ failed => exact ⟨_, Machine.raised_of_execute failed⟩
    · rcases hround : round fuel a.outputs.toList ms with _ | f' | r'
      · simp [hrun, hround] at h
      · simp only [hrun, hround] at h
        cases h
        obtain ⟨ip, hraised⟩ := ih hround
        exact ⟨ip, hraised⟩
      · simp [hrun, hround] at h

/-! ### The loop

A round that is followed by another one is accounted for with the machines as they are then, so the
accounts of all rounds can be put together. -/

/-- The account of a round, and what the last machine has emitted in it. -/
theorem lap_accounted {fuel : Nat} {c : Config} {r : Round} (hne : c.machines ≠ [])
    (h : round fuel [] c.machines = some (.ok r)) :
    Accounted c.machines [c.lap fuel] (c.after r).machines ∧
      (c.after r).machines.length = c.machines.length ∧
        emittedBy (c.machines.length - 1) [c.lap fuel] = r.outgoing := by
  obtain ⟨hlength, houtgoing, -⟩ := round_entering h
  refine ⟨round_accounted h, (length_feed _ _).trans hlength, ?_⟩
  have hpos : 0 < c.machines.length := List.length_pos_iff.mpr hne
  obtain ⟨k, hk⟩ : ∃ k, c.machines.length = k + 1 := ⟨c.machines.length - 1, by omega⟩
  rw [houtgoing, hk, emittedBy_cons]
  exact List.append_nil _

/-- The account of all rounds, and what the last machine has emitted last in all of them. -/
theorem loop_accounted {fuel rounds : Nat} {c : Config} {ms' : List Machine}
    {result : Except RuntimeError (Option Word)} (hne : c.machines ≠ [])
    (h : loop fuel rounds c = some (ms', result))
    (hresult : ∀ ip e, result = .error e → ¬ e.Raised ip) :
    Accounted c.machines (laps fuel rounds c) ms' ∧
      ∀ value, result = .ok value →
        value = (emittedBy (c.machines.length - 1) (laps fuel rounds c)).getLast?.or c.last := by
  induction rounds generalizing c with
  | zero => contradiction
  | succ rounds ih =>
    have hadvances := c.advances fuel
    rw [loop_succ] at h
    rw [laps_succ]
    generalize c.advance fuel = next at h hadvances ⊢
    cases hadvances with
    | exhausted => contradiction
    | fails failed =>
      cases h
      obtain ⟨ip, hraised⟩ := raised_of_round failed
      exact absurd hraised (hresult ip _ rfl)
    | answers ended =>
      cases h
      obtain ⟨haccounted, -, hlast⟩ := lap_accounted hne ended
      refine ⟨haccounted, fun value hvalue => ?_⟩
      rw [hlast]
      exact (Except.ok.inj hvalue).symm
    | sticks ended =>
      cases h
      exact ⟨(lap_accounted hne ended).1, fun value hvalue => by contradiction⟩
    | @goesOn r ended =>
      -- the account of this round, and then that of the rounds to come
      obtain ⟨haccounted, hlength, hlast⟩ := lap_accounted hne ended
      have hne' : (c.after r).machines ≠ [] := by
        rw [← List.length_pos_iff, hlength]
        exact List.length_pos_iff.mpr hne
      obtain ⟨hrest, hvalues⟩ := ih hne' h
      rw [hlength] at hvalues
      refine ⟨haccounted.trans hlength hrest, fun value hvalue => ?_⟩
      have hfirst := emittedBy_cons (c.machines.length - 1) (c.lap fuel) []
      rw [show emittedBy (c.machines.length - 1) [] = [] from rfl, List.append_nil, hlast] at hfirst
      dsimp only
      rw [emittedBy_cons, ← hfirst, List.getLast?_append, Option.or_assoc]
      exact hvalues value hvalue

/-! ### The main statement

The first value enters before the first round, and it is the only one that no machine has emitted.
-/

/-- **No value is lost in a ring, comes twice, or overtakes another.** When a ring answers, or is
found to be stuck, then for each machine and the one in front of it: what has waited before the
call, then the first value if the machine is the first one, and then all that the one in front has
emitted is all that the machine has consumed, and then what waits now. An answer is the value that
the last machine has emitted last, in whatever round that was. -/
theorem run_accounted {fuel : Nat} {ms ms' : List Machine} {seed : Word}
    {result : Except RuntimeError (Option Word)} (hne : ms ≠ [])
    (h : run fuel ms seed = some (ms', result))
    (hresult : (∃ last, result = .ok last) ∨ result = .error .deadlock) :
    (∀ i < ms.length, ∃ m m', ms[(i + 1) % ms.length]? = some m ∧
      ms'[(i + 1) % ms.length]? = some m' ∧
        m.input ++ (if (i + 1) % ms.length = 0 then [seed] else []) ++
            emittedBy i (history fuel ms seed) =
          consumedBy ((i + 1) % ms.length) (history fuel ms seed) ++ m'.input) ∧
    ∀ last, result = .ok last →
      last = (emittedBy (ms.length - 1) (history fuel ms seed)).getLast? := by
  have hloop : loop fuel fuel (.start ms seed) = some (ms', result) := by
    cases ms with
    | nil => contradiction
    | cons m ms => exact h
  have hhistory : history fuel ms seed = laps fuel fuel (.start ms seed) := by
    cases ms with
    | nil => contradiction
    | cons m ms => rfl
  have hfeed : (Config.start ms seed).machines.length = ms.length := length_feed [seed] ms
  have hne' : (Config.start ms seed).machines ≠ [] := by
    cases ms with
    | nil => contradiction
    | cons m ms => exact List.cons_ne_nil _ _
  have herror : ∀ ip e, result = .error e → ¬ e.Raised ip := by
    rintro ip e rfl hraised
    rcases hresult with ⟨last, hok⟩ | hdeadlock
    · contradiction
    · cases hdeadlock
      contradiction
  obtain ⟨haccounted, hvalue⟩ := loop_accounted hne' hloop herror
  unfold Accounted at haccounted
  rw [hfeed, ← hhistory] at haccounted
  rw [hfeed, ← hhistory] at hvalue
  refine ⟨?_, fun last hlast => (hvalue last hlast).trans (Option.or_none)⟩
  intro i hi
  obtain ⟨t, m', ht, hm', heq⟩ := haccounted i hi
  unfold Config.start at ht
  rw [getElem?_feed] at ht
  -- the first value waits at the first machine when the rounds begin
  by_cases hfirst : (i + 1) % ms.length = 0
  · rw [if_pos hfirst] at ht
    obtain ⟨m, hm, rfl⟩ := Option.map_eq_some_iff.mp ht
    rw [if_pos hfirst]
    exact ⟨m, m', hm, hm', heq⟩
  · rw [if_neg hfirst] at ht
    rw [if_neg hfirst]
    exact ⟨t, m', ht, hm', by rw [List.append_nil]; exact heq⟩

end AnyAllocator

/-- Two machines that hand on two values each, the second one after adding one to the first of
them. -/
def relays : List Machine :=
  [⟨0, 0, ⟨#[3, 0, 4, 0, 3, 0, 4, 0, 99]⟩, [], false⟩,
    ⟨0, 0, ⟨#[3, 0, 101, 1, 0, 0, 4, 0, 3, 0, 4, 0, 99]⟩, [], false⟩]

/-- The values go round twice, and the last one comes back when the first machine has halted. -/
theorem run_accounted_relays :
    run 9 relays 7 = some ([⟨8, 0, ⟨#[8, 0, 4, 0, 3, 0, 4, 0, 99]⟩, [8], true⟩,
      ⟨12, 0, ⟨#[8, 0, 101, 1, 0, 0, 4, 0, 3, 0, 4, 0, 99]⟩, [], true⟩], .ok (some 8)) ∧
    [] ++ [7] ++ emittedBy 1 (history 9 relays 7) = consumedBy 0 (history 9 relays 7) ++ [8] ∧
    some 8 = (emittedBy 1 (history 9 relays 7)).getLast? := by
  have hrun : run 9 relays 7 = some ([⟨8, 0, ⟨#[8, 0, 4, 0, 3, 0, 4, 0, 99]⟩, [8], true⟩,
      ⟨12, 0, ⟨#[8, 0, 101, 1, 0, 0, 4, 0, 3, 0, 4, 0, 99]⟩, [], true⟩], .ok (some 8)) := rfl
  obtain ⟨hlinks, hvalue⟩ := run_accounted (by decide) hrun (Or.inl ⟨some 8, rfl⟩)
  obtain ⟨m, m', hm, hm', heq⟩ := hlinks 1 (by decide)
  have hwrap : (1 + 1) % relays.length = 0 := by decide
  rw [hwrap] at hm hm' heq
  cases hm
  cases hm'
  exact ⟨hrun, heq, hvalue (some 8) rfl⟩

end Ring

end Intcode
