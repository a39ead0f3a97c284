import Intcode.Proofs.Interleaving

/-!
# Rounds and interleavings

A ring that runs in rounds hands over what a machine has emitted only at the end of its turn. That
is one of the interleavings, so all that is known of them holds for rounds: if any interleaving
comes to an end, the rounds come to the same end.

* `turn` — the ring between two turns of a round, as a configuration;
* `round_leads` — what a round comes to, step by step;
* `loop_of_steps` — the rounds of a ring that can settle;
* `run_interleave` — the main statement.
-/

namespace Intcode.Ring

open Config (Steps)

/-! ### Turns

Between two turns of a round the ring is in a configuration of its own, in which the values of the
last turn wait for the next machine. A turn is then a row of steps of one machine, taken in the
whole ring. -/

/-- The ring between two turns of a round: the machines `done` have had their turns, and the next
one in `ms` has got these values. -/
def turn (done : List Machine) (incoming : List Word) (last : Option Word) : List Machine → Config
  | [] => ⟨feed incoming done, incoming.getLast?.or last⟩
  | m :: ms => ⟨done ++ m.extendInput incoming :: ms, last⟩

theorem turn_start (ms : List Machine) (last : Option Word) :
    turn [] [] last ms = ⟨ms, last⟩ := by
  cases ms with
  | nil => rfl
  | cons m ms => simp [turn]

/-- A turn leads to the next one. -/
theorem put_turn (done : List Machine) (incoming outputs : List Word) (last : Option Word)
    (m t : Machine) (ms : List Machine) :
    (turn done incoming last (m :: ms)).put done.length t outputs =
      turn (done ++ [t]) outputs last ms := by
  unfold turn Config.put
  simp only [List.set_append_right _ _ (Nat.le_refl _), Nat.sub_self, List.set_cons_zero]
  cases ms with
  | nil =>
    -- the last machine of the ring hands over to the first one
    have hlength : done.length + 1 = (done ++ [m.extendInput incoming]).length := by simp
    rw [← hlength, Nat.mod_self, if_pos rfl]
    refine Config.ext ?_ rfl
    cases done with
    | nil => rfl
    | cons => rfl
  | cons m' ms =>
    have hlength : done.length + 1 < (done ++ m.extendInput incoming :: m' :: ms).length := by
      simp
    rw [Nat.mod_eq_of_lt hlength, if_neg (Nat.ne_of_lt hlength)]
    refine Config.ext ?_ rfl
    have hmodify := List.modifyTailIdx_add (List.modifyHead (·.extendInput outputs)) 0
      (done ++ [t]) (m' :: ms)
    rw [List.length_append, List.append_assoc] at hmodify
    exact hmodify

/-- What a machine does in its turn it does in the ring. -/
theorem steps_turn [Allocator] {n : Nat} {incoming outputs : List Word} {m t : Machine}
    (done : List Machine) (last : Option Word) (ms : List Machine)
    (moves : Machine.Moves n (m.extendInput incoming) outputs t) :
    Steps n (turn done incoming last (m :: ms)) (turn (done ++ [t]) outputs last ms) := by
  have hget : (turn done incoming last (m :: ms)).machines[done.length]? =
      some ((m.extendInput incoming).extendInput []) := by
    simp [turn]
  have hsteps := Config.steps_of_moves moves [] hget
  rwa [Machine.extendInput_nil, put_turn] at hsteps

/-- A machine that fails in its turn also fails with its own share of what it has emitted. -/
theorem faulty_turn [Allocator] {t : Machine} {e : RuntimeError} (done : List Machine)
    (outputs : List Word) (last : Option Word) (ms : List Machine)
    (failed : t.execute.result = .error e) :
    (turn (done ++ [t]) outputs last ms).Faulty := by
  have hget : (turn done [] last (t :: ms)).machines[done.length]? = some t := by
    simp [turn]
  have hexecute := Machine.execute_extendInput_of_not_idle (Machine.not_idle_of_error failed)
  rw [← put_turn done [] outputs last t t ms]
  refine ⟨done.length, _, e, Config.getElem?_put_self hget t outputs, ?_⟩
  rw [hexecute]
  exact failed

/-! ### What is handed over

Values for the first machine change nothing but its input, so a ring has the same machines afterwards
and as many of them have halted. -/

@[simp] theorem length_feed (values : List Word) (ms : List Machine) :
    (feed values ms).length = ms.length := by
  cases ms with
  | nil => rfl
  | cons m ms => rfl

@[simp] theorem feed_nil (ms : List Machine) : feed [] ms = ms := by
  cases ms with
  | nil => rfl
  | cons m ms => simp [feed]

/-- Only the first machine is fed. -/
theorem getElem?_feed (values : List Word) (ms : List Machine) (k : Nat) :
    (feed values ms)[k]? =
      if k = 0 then ms[k]?.map (·.extendInput values) else ms[k]? := by
  cases ms with
  | nil => simp [feed]
  | cons m ms => cases k <;> rfl

/-- Who is fed has halted if it had before. -/
theorem halted_feed_iff (values : List Word) (ms : List Machine) :
    (∀ m ∈ feed values ms, m.halted) ↔ ∀ m ∈ ms, m.halted := by
  cases ms with
  | nil => rfl
  | cons m ms =>
    unfold feed
    rw [List.forall_mem_cons, List.forall_mem_cons, Machine.extendInput_halted]

/-- What is said of a ring that has settled: what its last machine has emitted last if all machines
have halted, and otherwise that it is stuck. -/
def Config.outcome (c : Config) : Outcome :=
  (c.machines, if ∀ m ∈ c.machines, m.halted then .ok c.last else .error .deadlock)

section AnyAllocator

variable [Allocator]

/-! ### Rounds

A round is known by what it comes to. The cases are those of its turns, put together from the last
one to the first one, because a turn that does not end leaves no turn behind it. -/

/-- What holds at the end of a round that has begun with these values for its first machine. -/
structure Round.Ended (incoming : List Word) (r : Round) : Prop where
  idle : ∀ m ∈ r.machines, m.Idle
  halted_iff : r.waiting = false ↔ ∀ m ∈ r.machines, m.halted
  silent : r.produced = false → incoming = [] → r.outgoing = []

/-- One more turn in front of a round that has ended. -/
theorem Round.Ended.cons {m : Machine} {outputs incoming : List Word} {waiting : Bool} {r : Round}
    (hidle : m.Idle) (hwaiting : waiting = false ↔ m.halted) (h : r.Ended outputs) :
    (r.cons m (!outputs.isEmpty) waiting).Ended incoming where
  idle := by
    intro m' hmem
    rcases List.mem_cons.mp hmem with rfl | hmem
    · exact hidle
    · exact h.idle m' hmem
  halted_iff := by
    show (waiting || r.waiting) = false ↔ ∀ m' ∈ m :: r.machines, m'.halted
    rw [Bool.or_eq_false_iff, List.forall_mem_cons, hwaiting, h.halted_iff]
  silent := by
    intro hproduced _
    have hboth : outputs = [] ∧ r.produced = false := by
      simpa [Round.cons] using hproduced
    exact h.silent hboth.2 hboth.1

/-- What a round comes to: it makes progress for as long as it has fuel, or it makes some machine
fail, or every machine has had its turn. If a value has been emitted, progress has been made. -/
inductive Leads (fuel : Nat) (c : Config) (done : List Machine) (incoming : List Word)
    (last : Option Word) : Option (Except Failure Round) → Prop where
  | more {n : Nat} {d : Config} (steps : Steps n c d) (le : fuel ≤ n) :
      Leads fuel c done incoming last none
  | fails {n : Nat} {d : Config} {f : Failure} (steps : Steps n c d) (faulty : d.Faulty) :
      Leads fuel c done incoming last (some (.error f))
  | ends {n : Nat} {r : Round} (steps : Steps n c (turn (done ++ r.machines) r.outgoing last []))
      (pos : r.produced → 0 < n) (ended : r.Ended incoming) :
      Leads fuel c done incoming last (some (.ok r))

/-- The turn of one machine in front of the turns behind it. -/
theorem Leads.cons {fuel n : Nat} {c d : Config} {done : List Machine} {last : Option Word}
    {m : Machine} {answer : Option (Except Failure Round)} {outputs incoming : List Word}
    {waiting : Bool} (hsteps : Steps n c d) (hpos : outputs ≠ [] → 0 < n) (hidle : m.Idle)
    (hwaiting : waiting = false ↔ m.halted) :
    Leads fuel d (done ++ [m]) outputs last answer → Leads fuel c done incoming last
      (match answer with
      | none => none
      | some (.error f) => some (.error (f.cons m))
      | some (.ok r) => some (.ok (r.cons m (!outputs.isEmpty) waiting))) := by
  intro h
  -- the machine in front has had its turn; what the others do comes behind its steps
  cases h with
  | more steps le => exact .more (hsteps.trans steps) (Nat.le_add_left_of_le le)
  | fails steps faulty => exact .fails (hsteps.trans steps) faulty
  | @ends k r steps pos ended =>
    rw [List.append_assoc] at steps
    refine .ends (hsteps.trans steps) ?_ (ended.cons hidle hwaiting)
    intro hproduced
    rcases (Bool.or_eq_true _ _).mp hproduced with hemitted | hrest
    · exact Nat.add_pos_left (hpos (by simpa using hemitted)) _
    · exact Nat.add_pos_right _ (pos hrest)

/-- What a round comes to, step by step. -/
theorem round_leads (fuel : Nat) (done : List Machine) (incoming : List Word) (last : Option Word)
    (ms : List Machine) :
    Leads fuel (turn done incoming last ms) done incoming last (round fuel incoming ms) := by
  induction ms generalizing done incoming with
  | nil =>
    have hsteps : Steps 0 (turn done incoming last []) (turn (done ++ []) incoming last []) := by
      rw [List.append_nil]
      exact .refl _
    exact .ends hsteps (by simp) ⟨by simp, by simp, fun _ hnil => hnil⟩
  | cons m ms ih =>
    -- the turn of the machine, and then the turns behind it, if its own comes to an end
    have hrest : ∀ {n : Nat} {a : Machine.Run} {outputs : List Word} {waiting : Bool},
        Machine.Moves n (m.extendInput incoming) outputs a.machine →
          a.outputs.toList = [] ++ outputs → a.machine.Idle →
            (waiting = false ↔ a.machine.halted) →
              Leads fuel (turn done incoming last (m :: ms)) done incoming last
                (match round fuel a.outputs.toList ms with
                | none => none
                | some (.error f) => some (.error (f.cons a.machine))
                | some (.ok r) => some (.ok (r.cons a.machine (!a.outputs.isEmpty) waiting))) := by
      intro n a outputs waiting moves emits hidle hwaiting
      rw [List.nil_append] at emits
      rw [← emits] at moves
      rw [← Array.isEmpty_toList]
      exact Leads.cons (steps_turn done last ms moves) moves.pos_of_outputs hidle hwaiting (ih _ _)
    have hsettles := Machine.iterate_settles fuel (r := .start (m.extendInput incoming) []) rfl
    unfold round Machine.run
    generalize iterate Machine.Run.advance fuel _ = answer at hsettles
    cases hsettles with
    | more moves => exact .more (steps_turn done last ms moves) (Nat.le_refl _)
    | fails moves failed =>
      exact .fails (steps_turn done last ms moves) (faulty_turn done _ last ms failed)
    | halted moves emits halted => exact hrest moves emits (Or.inl halted) (by simp [halted])
    | waits moves emits waits =>
      exact hrest moves emits (Or.inr waits) (by simp [waits.halted_eq])

/-! ### The loop

The loop is iterated by `Config.advance`, which goes through one round and decides about the next
one. `Config.Advances` lists what it can decide, with the round behind each decision, and what is
proved of the loop splits on that. -/

/-- The loop goes through a round, and goes on if it decides so. -/
theorem loop_succ (fuel rounds : Nat) (c : Config) :
    loop fuel (rounds + 1) c =
      match c.advance fuel with
      | .inl next => loop fuel rounds next
      | .inr answer => answer := by
  unfold loop
  rw [iterate_succ]
  cases c.advance fuel <;> rfl

/-- What one round of a ring leads to. -/
inductive Config.Advances (fuel : Nat) (c : Config) : Config ⊕ Option Outcome → Prop where
  | exhausted (exhausted : round fuel [] c.machines = none) : Advances fuel c (.inr none)
  | fails {f : Failure} (failed : round fuel [] c.machines = some (.error f)) :
      Advances fuel c (.inr (some (f.machines, .error f.error)))
  | answers {r : Round} (ended : round fuel [] c.machines = some (.ok r))
      (waiting : r.waiting = false) :
      Advances fuel c (.inr (some ((c.after r).machines, .ok (c.after r).last)))
  | sticks {r : Round} (ended : round fuel [] c.machines = some (.ok r)) (waiting : r.waiting = true)
      (produced : r.produced = false) :
      Advances fuel c (.inr (some ((c.after r).machines, .error .deadlock)))
  | goesOn {r : Round} (ended : round fuel [] c.machines = some (.ok r)) (waiting : r.waiting = true)
      (produced : r.produced = true) : Advances fuel c (.inl (c.after r))

/-- The cases are all there are. -/
theorem Config.advances (fuel : Nat) (c : Config) : c.Advances fuel (c.advance fuel) := by
  unfold Config.advance
  rcases hround : round fuel [] c.machines with _ | f | r
  · exact .exhausted hround
  · exact .fails hround
  · dsimp only
    cases hwaiting : r.waiting with
    | false => exact .answers hround hwaiting
    | true =>
      cases hproduced : r.produced with
      | false => exact .sticks hround hwaiting hproduced
      | true => exact .goesOn hround hwaiting hproduced

/-- A round that every machine has had its turn in is progress, if a value has been emitted in it. -/
theorem steps_of_round {fuel : Nat} {c : Config} {r : Round}
    (h : round fuel [] c.machines = some (.ok r)) :
    ∃ k, Steps k c (c.after r) ∧ (r.produced → 0 < k) ∧ r.Ended [] := by
  have hleads := round_leads fuel [] [] c.last c.machines
  rw [turn_start, h] at hleads
  cases hleads with
  | ends steps pos ended => exact ⟨_, steps, pos, ended⟩

/-- A ring that can settle settles in rounds. Each round but the last one makes progress, of which
there is as much as on any other way. -/
theorem loop_of_steps {n fuel rounds : Nat} {c t : Config} (h : Steps n c t)
    (hsettled : t.Settled) (hfuel : n < fuel) (hrounds : n < rounds) :
    loop fuel rounds c = some t.outcome := by
  induction n using Nat.strongRecOn generalizing rounds c with
  | ind n ih =>
    obtain ⟨rounds, rfl⟩ : ∃ k, rounds = k + 1 := ⟨rounds - 1, by omega⟩
    have hleads := round_leads fuel [] [] c.last c.machines
    have hadvances := c.advances fuel
    rw [turn_start] at hleads
    rw [loop_succ]
    generalize c.advance fuel = next at hadvances ⊢
    cases hadvances with
    | exhausted exhausted =>
      rw [exhausted] at hleads
      cases hleads with
      | more steps le =>
        have hle := (h.le_and_rest hsettled steps).1
        omega
    | fails failed =>
      rw [failed] at hleads
      cases hleads with
      | fails steps faulty =>
        exact absurd faulty ((h.le_and_rest hsettled steps).2.not_faulty hsettled)
    | @answers r ended waiting =>
      -- all machines have halted, also with the values that come too late
      obtain ⟨k, hsteps, -, hended⟩ := steps_of_round ended
      have hhalted := (halted_feed_iff r.outgoing r.machines).mpr (hended.halted_iff.mp waiting)
      have hend : c.after r = t := by
        refine Config.Settled.eq_of_steps ?_ (h.le_and_rest hsettled hsteps).2
        exact fun m hm => Or.inl (hhalted m hm)
      rw [← hend]
      unfold Config.outcome Config.after
      rw [if_pos hhalted]
    | @sticks r ended waiting produced =>
      -- the machines wait for each other
      obtain ⟨k, hsteps, -, hended⟩ := steps_of_round ended
      have hnot : ¬ ∀ m ∈ r.machines, m.halted := by
        rw [← hended.halted_iff, waiting]
        decide
      have hend : c.after r = t := by
        refine Config.Settled.eq_of_steps ?_ (h.le_and_rest hsettled hsteps).2
        unfold Config.after
        rw [hended.silent produced rfl, feed_nil]
        exact hended.idle
      rw [← hend]
      unfold Config.outcome Config.after
      rw [if_neg (mt (halted_feed_iff r.outgoing r.machines).mp hnot)]
    | @goesOn r ended waiting produced =>
      -- a value has been emitted, so less progress is left for the rounds to come
      obtain ⟨k, hsteps, hpos, -⟩ := steps_of_round ended
      obtain ⟨hle, hrest⟩ := h.le_and_rest hsettled hsteps
      have hpos := hpos produced
      exact ih (n - k) (by omega) hrest (by omega) (by omega)

/-! ### The main statement

Rounds are compared with a schedule by the steps that both take. A schedule that settles bounds how
much progress any other way can make, and so it bounds the rounds as well. -/

/-- Every ring, also the one without machines, is run as its rounds say. -/
theorem run_of_steps {fuel n : Nat} {ms : List Machine} {seed : Word} {t : Config}
    (h : Steps n (.start ms seed) t) (hsettled : t.Settled) (hfuel : n < fuel) :
    run fuel ms seed = some t.outcome := by
  have hloop := loop_of_steps h hsettled hfuel hfuel
  cases ms with
  | nil =>
    obtain ⟨fuel, rfl⟩ : ∃ k, fuel = k + 1 := ⟨fuel - 1, by omega⟩
    exact hloop
  | cons m ms => exact hloop

/-- **The schedule makes no difference.** Let the machines of a ring take their instructions in any
order, each value being handed over as soon as it is emitted. If some schedule leads without an
error to a configuration in which every machine has halted or waits for input, then

* the ring, run in rounds, comes to an end with the same machines, and answers with what the last
  machine has emitted last if all machines have halted, and with a deadlock otherwise;
* no schedule leads to an error, and each one can be continued to the same configuration. -/
theorem run_interleave (ms : List Machine) (seed : Word) (schedule : List Nat) {c : Config}
    (h : (Config.start ms seed).interleave schedule = .ok c) (hsettled : c.Settled) :
    (∃ bound, ∀ fuel ≥ bound, run fuel ms seed =
      some (c.machines, if ∀ m ∈ c.machines, m.halted then .ok c.last else .error .deadlock)) ∧
    ∀ other : List Nat, ∃ d rest, (Config.start ms seed).interleave other = .ok d ∧
      (∀ i ∈ rest, i < ms.length) ∧ d.interleave rest = .ok c := by
  obtain ⟨n, hsteps⟩ := Config.exists_steps h
  refine ⟨⟨n + 1, fun fuel hfuel => run_of_steps hsteps hsettled hfuel⟩, ?_⟩
  intro other
  obtain ⟨d, k, hd, hrest⟩ := hsteps.exists_interleave hsettled other
  obtain ⟨rest, hin, hc⟩ := hrest.exists_schedule
  refine ⟨d, rest, hd, ?_, hc⟩
  have hlength : d.machines.length = ms.length := by
    rw [← hrest.length_eq, hsteps.length_eq]
    exact length_feed [seed] ms
  rwa [hlength] at hin

end AnyAllocator

/-- Two machines that each pass on one value. The seed comes back to the first one, which has no use
for it any more. -/
theorem run_interleave_pair :
    ∃ bound, ∀ fuel ≥ bound,
      run fuel [⟨0, 0, ⟨#[3, 0, 4, 0, 99]⟩, [], false⟩, ⟨0, 0, ⟨#[3, 0, 4, 0, 99]⟩, [], false⟩] 7 =
        some ([⟨4, 0, ⟨#[7, 0, 4, 0, 99]⟩, [7], true⟩, ⟨4, 0, ⟨#[7, 0, 4, 0, 99]⟩, [], true⟩],
          .ok (some 7)) := by
  have hsettled : Config.Settled
      ⟨[⟨4, 0, ⟨#[7, 0, 4, 0, 99]⟩, [7], true⟩, ⟨4, 0, ⟨#[7, 0, 4, 0, 99]⟩, [], true⟩], some 7⟩ := by
    intro m hm
    refine Or.inl ?_
    revert m
    decide
  exact (run_interleave
    [⟨0, 0, ⟨#[3, 0, 4, 0, 99]⟩, [], false⟩, ⟨0, 0, ⟨#[3, 0, 4, 0, 99]⟩, [], false⟩] 7
    [0, 0, 1, 0, 1, 1] rfl hsettled).1

end Intcode.Ring
