import Mathlib.Data.List.Chain
import Intcode.Proofs.Traffic

/-!
# What a ring reports

A ring answers with a value when all of its machines have halted, and reports a deadlock when they
wait for each other. Both reports are exact: a machine that has waited earlier in a round may have
got input later in it, but then some machine has emitted a value in that round, and the ring goes on.

* `Machine.step_of_halted`, `Machine.step_of_waits` — nothing comes of an idle machine;
* `Ring.stepEach` — the machines of a ring take steps in any order;
* `Ring.Reported`, `Ring.loop_status` — the machines at the end of the rounds, by what is reported;
* `Ring.forwards_of_advance` — the loop goes on only after a round that has handed on a value;
* `Ring.run_status` — the main statement.
-/

namespace Intcode

/-! ### Idle machines

A machine that has halted stays halted, and one that waits without input waits again. So a ring of
such machines does not change any more, whoever is asked to take a step. -/

namespace Machine

variable [Allocator] {m : Machine}

theorem step_of_halted (h : m.halted) (fuel : Nat) : m.step (fuel + 1) = some (m, .ok .halted) := by
  unfold step
  rw [iterate_succ]
  unfold advance
  rw [execute_of_halted h]

theorem step_of_waits (h : m.Waits) (fuel : Nat) :
    m.step (fuel + 1) = some (m, .ok .awaitInput) := by
  have hmachine := h.execute_machine
  unfold Waits at h
  unfold step
  rw [iterate_succ]
  unfold advance
  generalize m.execute = s at h hmachine
  obtain ⟨t, result, notices⟩ := s
  cases h
  cases hmachine
  rfl

end Machine

namespace Ring

section AnyAllocator

variable [Allocator]

/-- Lets machines of a ring take steps, each one up to its next event, in the order of a schedule.
Where there is no such machine, nothing happens. -/
def stepEach (fuel : Nat) (ms : List Machine) : List Nat → Option (List Machine × List Machine.Stop)
  | [] => some (ms, [])
  | i :: schedule =>
    match ms[i]? with
    | none => stepEach fuel ms schedule
    | some m =>
      match m.step fuel with
      | none => none
      | some (t, stop) =>
        (stepEach fuel (ms.set i t) schedule).map fun (ms, stops) => (ms, stop :: stops)

/-- Nothing comes of a ring in which every machine is idle, in whatever order they take steps. -/
theorem stepEach_of_idle {ms : List Machine} (h : ∀ m ∈ ms, m.Idle) (fuel : Nat)
    (schedule : List Nat) :
    ∃ stops, stepEach (fuel + 1) ms schedule = some (ms, stops) ∧
      ∀ stop ∈ stops, stop = .ok .awaitInput ∨ stop = .ok .halted := by
  induction schedule with
  | nil => exact ⟨[], rfl, by simp⟩
  | cons i schedule ih =>
    obtain ⟨stops, hstops, hall⟩ := ih
    unfold stepEach
    cases hget : ms[i]? with
    | none => exact ⟨stops, hstops, hall⟩
    | some m =>
      obtain ⟨hlt, rfl⟩ := List.getElem?_eq_some_iff.mp hget
      -- an idle machine answers at once and is left as it was, so the list is the same for the rest
      have hstep : ∃ stop, ms[i].step (fuel + 1) = some (ms[i], stop) ∧
          (stop = .ok .awaitInput ∨ stop = .ok .halted) := by
        rcases h ms[i] (List.getElem_mem hlt) with hhalted | hwaits
        · exact ⟨_, Machine.step_of_halted hhalted fuel, Or.inr rfl⟩
        · exact ⟨_, Machine.step_of_waits hwaits fuel, Or.inl rfl⟩
      obtain ⟨stop, hstop, hquiet⟩ := hstep
      dsimp only
      rw [hstop]
      dsimp only
      rw [List.set_getElem_self, hstops]
      exact ⟨stop :: stops, rfl, List.forall_mem_cons.mpr ⟨hquiet, hall⟩⟩

/-! ### The end of the rounds

What is reported is decided by the last round. In a round that ends with a deadlock no value has
been handed on, so every machine that has waited in it still waits. -/

/-- What is said of the machines at the end, by what is reported: all have halted, or all are idle
and some have not halted. An error of another kind is one of an instruction. -/
structure Reported (ms : List Machine) (final : Outcome) : Prop where
  answered : ∀ value, final.2 = .ok value → final.1.length = ms.length ∧ ∀ m ∈ final.1, m.halted
  stuck : final.2 = .error .deadlock → final.1.length = ms.length ∧
    (∃ m ∈ final.1, m.halted = false) ∧ ∀ m ∈ final.1, m.Idle
  raised : ∀ e, final.2 = .error e → e = .deadlock ∨ ∃ ip, e.Raised ip

theorem length_after {fuel : Nat} {c : Config} {r : Round}
    (h : round fuel [] c.machines = some (.ok r)) :
    (c.after r).machines.length = c.machines.length := by
  unfold Config.after
  rw [length_feed, (round_entering h).1]

/-- A round that ends the loop reports what is so. -/
theorem reported_of_advance {fuel : Nat} {c : Config} {final : Outcome}
    (h : c.advance fuel = .inr (some final)) : Reported c.machines final := by
  have hadvances := c.advances fuel
  rw [h] at hadvances
  cases hadvances with
  | @fails f failed =>
    obtain ⟨ip, hraised⟩ := raised_of_round failed
    refine ⟨fun value hvalue => by contradiction, fun hdeadlock => ?_, fun e he => ?_⟩
    · rw [Except.error.inj hdeadlock] at hraised
      contradiction
    · cases he
      exact Or.inr ⟨ip, hraised⟩
  | @answers r ended waiting =>
    obtain ⟨-, -, -, hended⟩ := steps_of_round ended
    have hhalted := (halted_feed_iff r.outgoing _).mpr (hended.halted_iff.mp waiting)
    exact ⟨fun value _ => ⟨length_after ended, hhalted⟩, fun hdeadlock => by contradiction,
      fun e he => by contradiction⟩
  | @sticks r ended waiting produced =>
    obtain ⟨-, -, -, hended⟩ := steps_of_round ended
    -- no value has been handed on in this round, so whoever has waited still waits
    have hsame : (c.after r).machines = r.machines := by
      unfold Config.after
      rw [hended.silent produced rfl, feed_nil]
    have hnot : ∃ m ∈ r.machines, m.halted = false := by
      by_contra hnone
      have hall : ∀ m ∈ r.machines, m.halted := by
        intro m hm
        by_contra hm'
        exact hnone ⟨m, hm, by simpa using hm'⟩
      rw [hended.halted_iff.mpr hall] at waiting
      contradiction
    refine ⟨fun value hvalue => by contradiction, fun _ => ⟨length_after ended, ?_, ?_⟩,
      fun e he => Or.inl (Except.error.inj he).symm⟩
    · exact hsame ▸ hnot
    · exact hsame ▸ hended.idle

/-- What the loop reports is so, since the machines are as many after each round that it goes on
after. -/
theorem loop_status {fuel rounds : Nat} {c : Config} {final : Outcome}
    (h : loop fuel rounds c = some final) : Reported c.machines final := by
  induction rounds generalizing c with
  | zero => contradiction
  | succ rounds ih =>
    have hadvances := c.advances fuel
    rw [loop_succ] at h
    cases hadvance : c.advance fuel with
    | inr answer =>
      rw [hadvance] at h
      cases h
      exact reported_of_advance hadvance
    | inl next =>
      rw [hadvance] at h hadvances
      -- the number of machines is kept round after round
      cases hadvances with
      | goesOn ended =>
        have hrest := ih h
        refine ⟨fun value hvalue => ?_, fun hdeadlock => ?_, hrest.raised⟩
        · rw [← length_after ended]
          exact hrest.answered value hvalue
        · rw [← length_after ended]
          exact hrest.stuck hdeadlock

/-! ### Going on

A round sets its mark of progress when some machine emits a value, and the loop does not go on
without this mark. The statement is about the step that the loop iterates, so it holds in every
state of the loop, and the rounds of a call inherit it along the trail. -/

/-- In a round some machine has emitted values, and all that has been emitted waits behind the
input of the next machine when the other round begins, unless it has been consumed. -/
def Lap.Forwards (l l' : Lap) : Prop :=
  Accounted l.machines [l] l'.machines ∧ ∃ i < l.machines.length, emittedBy i [l] ≠ []

/-- A round with the mark of progress has a machine that has emitted a value. -/
theorem exists_emitted_of_produced {fuel : Nat} {incoming : List Word} {ms : List Machine}
    {r : Round} (h : round fuel incoming ms = some (.ok r)) (hproduced : r.produced) :
    ∃ i < ms.length, ((turns fuel incoming ms).getD i []).flatMap Step.emitted ≠ [] := by
  induction ms generalizing incoming r with
  | nil =>
    cases h
    contradiction
  | cons m ms ih =>
    obtain ⟨a, event, r', hrun, hround, rfl⟩ := round_cons_eq_ok h
    obtain ⟨-, houtputs⟩ := Machine.Run.iterate_traffic rfl hrun
    unfold turns
    rw [hrun]
    -- the first machine has produced, or one behind it has, at an index one greater
    rcases (Bool.or_eq_true _ _).mp hproduced with hfirst | hrest
    · refine ⟨0, Nat.succ_pos _, ?_⟩
      have hne : a.outputs.toList ≠ [] := by simpa using hfirst
      rw [houtputs] at hne
      exact hne
    · obtain ⟨i, hi, hne⟩ := ih hround hrest
      exact ⟨i + 1, Nat.succ_lt_succ hi, hne⟩

/-- **The loop goes on only after a round that has handed on a value.** -/
theorem forwards_of_advance {fuel : Nat} {c next : Config} (h : c.advance fuel = .inl next) :
    (c.lap fuel).Forwards (next.lap fuel) := by
  have hadvances := c.advances fuel
  rw [h] at hadvances
  cases hadvances with
  | goesOn ended _ produced =>
    obtain ⟨i, hi, hne⟩ := exists_emitted_of_produced ended produced
    refine ⟨round_accounted ended, i, hi, ?_⟩
    rw [emittedBy_cons]
    exact List.append_ne_nil_of_left_ne_nil hne _

/-- Each round that another one follows has handed on a value. -/
theorem laps_isChain (fuel rounds : Nat) (c : Config) :
    (laps fuel rounds c).IsChain Lap.Forwards := by
  unfold laps
  rw [List.isChain_map]
  exact (isChain_trail rounds c).imp fun _ _ => forwards_of_advance

/-! ### The main statement

It has two parts, about what is reported in the end and about every round on the way to it. -/

/-- **What a ring reports is so.**

* If it answers, then all of its machines have halted.
* If it reports a deadlock, then some machine has not halted, and each one that has not waits for
  input with nothing in its queue. No step of any machine, in whatever order and however often they
  take steps, emits a value or changes anything any more.
* It never reports that input is exhausted.
* Whatever state the loop is in, if it goes on after a round, then a value has been handed on in that
  round. So each round of a ring that another one follows has handed on a value, also if the ring
  fails later or runs on for ever. -/
theorem run_status (ms : List Machine) (seed : Word) :
    (∀ fuel ms' result, run fuel ms seed = some (ms', result) →
      (∀ last, result = .ok last → ms'.length = ms.length ∧ ∀ m ∈ ms', m.halted) ∧
      (result = .error .deadlock →
        ms'.length = ms.length ∧ (∃ m ∈ ms', m.halted = false) ∧
        (∀ m ∈ ms', m.halted = false →
          m.input = [] ∧ ∀ n, m.step (n + 1) = some (m, .ok .awaitInput)) ∧
        ∀ schedule n, ∃ stops, stepEach (n + 1) ms' schedule = some (ms', stops) ∧
          ∀ stop ∈ stops, stop = .ok .awaitInput ∨ stop = .ok .halted) ∧
      ∀ ip, result ≠ .error (.inputExhausted ip)) ∧
    ∀ fuel, (∀ c next, Config.advance fuel c = .inl next →
        (c.lap fuel).Forwards (next.lap fuel)) ∧
      (history fuel ms seed).IsChain Lap.Forwards := by
  refine ⟨?_, fun fuel => ⟨fun c next => forwards_of_advance, ?_⟩⟩
  · intro fuel ms' result h
    cases ms with
    | nil =>
      cases h
      exact ⟨fun last _ => ⟨rfl, by simp⟩, fun hdeadlock => by contradiction, fun ip => by simp⟩
    | cons m ms =>
      have hlength : (Config.start (m :: ms) seed).machines.length = (m :: ms).length :=
        length_feed [seed] (m :: ms)
      obtain ⟨hok, hdeadlock, herror⟩ := loop_status h
      rw [hlength] at hok hdeadlock
      refine ⟨hok, fun hresult => ?_, fun ip hresult => ?_⟩
      · obtain ⟨hlen, hnot, hidle⟩ := hdeadlock hresult
        refine ⟨hlen, hnot, fun t ht hrunning => ?_,
          fun schedule n => stepEach_of_idle hidle n schedule⟩
        rcases hidle t ht with hhalted | hwaits
        · rw [hrunning] at hhalted
          contradiction
        · exact ⟨hwaits.input_eq, Machine.step_of_waits hwaits⟩
      · rcases herror _ hresult with hother | ⟨ip', hraised⟩
        · contradiction
        · contradiction
  · cases ms with
    | nil => exact .nil
    | cons m ms => exact laps_isChain fuel fuel _

end AnyAllocator

/-- Two machines that hand on the first value they get. The first one stops at the second value,
the other one at the third. -/
def stalled : List Machine :=
  [⟨0, 0, ⟨#[3, 0, 4, 0, 3, 0, 99]⟩, [], false⟩,
    ⟨0, 0, ⟨#[3, 0, 4, 0, 3, 0, 3, 0, 99]⟩, [], false⟩]

/-- The first machine halts on the value that comes back, and the second one waits for ever. The loop
has gone on once, after a round in which both have emitted a value. -/
theorem run_status_stalled :
    run 9 stalled 7 = some ([⟨6, 0, ⟨#[7, 0, 4, 0, 3, 0, 99]⟩, [], true⟩,
      ⟨4, 0, ⟨#[7, 0, 4, 0, 3, 0, 3, 0, 99]⟩, [], false⟩], .error .deadlock) ∧
    (∀ n, Machine.step (n + 1) ⟨4, 0, ⟨#[7, 0, 4, 0, 3, 0, 3, 0, 99]⟩, [], false⟩ =
      some (⟨4, 0, ⟨#[7, 0, 4, 0, 3, 0, 3, 0, 99]⟩, [], false⟩, .ok .awaitInput)) ∧
    (∃ next, (Config.start stalled 7).advance 9 = .inl next ∧
      ((Config.start stalled 7).lap 9).Forwards (next.lap 9)) ∧
    ∃ l l', history 9 stalled 7 = [l, l'] ∧ l.Forwards l' := by
  have hrun : run 9 stalled 7 = some ([⟨6, 0, ⟨#[7, 0, 4, 0, 3, 0, 99]⟩, [], true⟩,
      ⟨4, 0, ⟨#[7, 0, 4, 0, 3, 0, 3, 0, 99]⟩, [], false⟩], .error .deadlock) := rfl
  have hnext : ∃ next, (Config.start stalled 7).advance 9 = .inl next := ⟨_, rfl⟩
  have hlaps : ∃ l l', history 9 stalled 7 = [l, l'] := ⟨_, _, rfl⟩
  obtain ⟨hstatus, hforwards⟩ := run_status stalled 7
  obtain ⟨hon, hchain⟩ := hforwards 9
  obtain ⟨-, -, hwaits, -⟩ := (hstatus _ _ _ hrun).2.1 rfl
  refine ⟨hrun, (hwaits _ (List.mem_cons_of_mem _ (List.mem_singleton_self _)) rfl).2, ?_, ?_⟩
  · obtain ⟨next, hnext⟩ := hnext
    exact ⟨next, hnext, hon _ _ hnext⟩
  · obtain ⟨l, l', hlaps⟩ := hlaps
    rw [hlaps] at hchain
    exact ⟨l, l', hlaps, List.isChain_pair.mp hchain⟩

end Ring

end Intcode
