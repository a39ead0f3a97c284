import Intcode.Proofs.Progress
import Intcode.Ring

/-!
# Interleavings of a ring

The machines of a ring may take their instructions in any order, each value being handed over as
soon as it is emitted. Instructions of two machines commute, since one of them only removes values
from the front of an input to which the other one only adds behind. So all ways of running a ring
until nothing is left to do have the same length and the same end.

* `Config.execute`, `Config.interleave` — one instruction of a machine, and a schedule of them;
* `Move.diamond` — instructions of two machines commute;
* `Steps.descent` — every first instruction is on the way to the end, one instruction less away;
* `Steps.exists_interleave`, `Steps.exists_schedule` — every schedule can be completed to that end.
-/

namespace Intcode.Ring

/-! ### Configurations

A configuration is a ring in between two instructions of its machines, not only between two
rounds. -/

namespace Config

/-- Machine `i` is in state `m` now and has emitted these values, which wait behind the input of the
machine after it. -/
def put (c : Config) (i : Nat) (m : Machine) (outputs : List Word) : Config where
  machines :=
    (c.machines.set i m).modify ((i + 1) % c.machines.length) (·.extendInput outputs)
  last := if i + 1 = c.machines.length then outputs.getLast?.or c.last else c.last

section Schedules

variable [Allocator]

/-- Runs one instruction of machine `i`. Where there is no such machine, nothing happens. -/
def execute (c : Config) (i : Nat) : Except RuntimeError Config :=
  match c.machines[i]? with
  | none => .ok c
  | some m =>
    match m.execute.result with
    | .ok e => .ok (c.put i m.execute.machine (Machine.emitted e))
    | .error e => .error e

/-- Runs one instruction of each machine of a schedule, up to the first one that fails. -/
def interleave (c : Config) (schedule : List Nat) : Except RuntimeError Config :=
  schedule.foldlM execute c

/-- Every machine has halted or waits for input. -/
def Settled (c : Config) : Prop := ∀ m ∈ c.machines, m.Idle

/-- Some machine is about to fail. -/
def Faulty (c : Config) : Prop :=
  ∃ (i : Nat) (m : Machine) (e : RuntimeError),
    c.machines[i]? = some m ∧ m.execute.result = .error e

end Schedules

/-! ### What machine `i` changes

An instruction changes the machine that runs it and adds to the input of the next one, which in a
ring of one machine is the same. `share` says what each machine gets, so that one equation covers
all of them. -/

section Put

variable (c : Config) (i : Nat) (m : Machine) (outputs : List Word)

@[simp] theorem length_put : (c.put i m outputs).machines.length = c.machines.length := by
  simp [put]

/-- What machine `k` of `n` gets of the values that machine `i` emits. -/
def share (n i k : Nat) (outputs : List Word) : List Word :=
  if (i + 1) % n = k then outputs else []

theorem share_append (n k : Nat) (more : List Word) :
    share n i k (outputs ++ more) = share n i k outputs ++ share n i k more := by
  unfold share
  split <;> rfl

@[simp] theorem share_nil (n k : Nat) : share n i k [] = [] := by
  unfold share
  split <;> rfl

/-- The state of each machine after one of them has made progress. -/
theorem getElem?_put (k : Nat) :
    (c.put i m outputs).machines[k]? =
      ((c.machines.set i m)[k]?).map (·.extendInput (share c.machines.length i k outputs)) := by
  unfold put share
  rw [List.getElem?_modify]
  split <;> simp

end Put

variable {c d e t : Config} {i j k n : Nat} {m m' : Machine}

/-- The machine that has made progress, with its own share. -/
theorem getElem?_put_self (h : c.machines[i]? = some m') (m : Machine) (outputs : List Word) :
    (c.put i m outputs).machines[i]? =
      some (m.extendInput (share c.machines.length i i outputs)) := by
  obtain ⟨hlt, -⟩ := List.getElem?_eq_some_iff.mp h
  rw [getElem?_put, List.getElem?_set_self hlt]
  rfl

theorem getElem?_put_ne (h : i ≠ k) (m : Machine) (outputs : List Word) :
    (c.put i m outputs).machines[k]? =
      (c.machines[k]?).map (·.extendInput (share c.machines.length i k outputs)) := by
  rw [getElem?_put, List.getElem?_set_ne h]

/-- A machine that stays as it is and emits nothing changes nothing. -/
theorem put_self (h : c.machines[i]? = some m) : c.put i m [] = c := by
  have hset : c.machines.set i m = c.machines := by
    obtain ⟨hlt, rfl⟩ := List.getElem?_eq_some_iff.mp h
    exact List.set_getElem_self hlt
  have hmachines : (c.put i m []).machines = c.machines := by
    refine List.ext_getElem? fun k => ?_
    rw [getElem?_put, hset, share_nil]
    simp
  have hlast : (c.put i m []).last = c.last := by
    unfold put
    split <;> rfl
  exact Config.ext hmachines hlast

/-- A machine makes progress twice, and has got a share of what it has emitted itself at first. -/
theorem put_put (h : c.machines[i]? = some m') (m t : Machine) (outputs more : List Word) :
    (c.put i m outputs).put i (t.extendInput (share c.machines.length i i outputs)) more =
      c.put i t (outputs ++ more) := by
  refine Config.ext (List.ext_getElem? fun k => ?_) ?_
  · -- the machine itself has got a share in between, and every other one gets both shares in turn
    by_cases hk : i = k
    · subst hk
      rw [getElem?_put_self (getElem?_put_self h m outputs), getElem?_put_self h, length_put,
        share_append, Machine.extendInput_extendInput]
    · rw [getElem?_put_ne hk, getElem?_put_ne hk, getElem?_put_ne hk, length_put, share_append]
      simp [Function.comp_def]
  · unfold put
    simp only [List.length_modify, List.length_set]
    split
    · rw [List.getLast?_append, Option.or_assoc]
    · rfl

/-- Two machines do not hand over their values to the same one. -/
theorem share_eq_nil (hne : i ≠ j) (hi : i < n) (hj : j < n) (k : Nat) (outputs more : List Word) :
    share n i k outputs = [] ∨ share n j k more = [] := by
  unfold share
  by_cases h : (i + 1) % n = k
  · have hother : (j + 1) % n ≠ k := by
      have hwrap : ∀ l < n, (l + 1) % n = if l + 1 = n then 0 else l + 1 := by
        intro l hl
        split
        · next h => rw [h, Nat.mod_self]
        · exact Nat.mod_eq_of_lt (by omega)
      rw [hwrap i hi] at h
      rw [hwrap j hj]
      split at h <;> split <;> omega
    exact Or.inr (if_neg hother)
  · exact Or.inl (if_neg h)

/-- In a ring of more than one machine, none hands over its values to itself. -/
theorem share_self (hne : i ≠ j) (hi : i < n) (hj : j < n) (outputs : List Word) :
    share n i i outputs = [] := by
  unfold share
  refine if_neg ?_
  by_cases h : i + 1 = n
  · rw [h, Nat.mod_self]
    omega
  · rw [Nat.mod_eq_of_lt (by omega)]
    omega

/-- A machine that makes progress before another one gets its share behind. -/
theorem getElem?_put_put_first (hne : i ≠ j) (hi : c.machines[i]? = some m')
    (hj : j < c.machines.length) (m x : Machine) (outputs more : List Word) :
    ((c.put i m outputs).put j x more).machines[i]? =
      some (m.extendInput (share c.machines.length j i more)) := by
  have hlt := (List.getElem?_eq_some_iff.mp hi).1
  rw [getElem?_put_ne hne.symm, getElem?_put_self hi, length_put, share_self hne hlt hj,
    Machine.extendInput_nil]
  rfl

/-- A machine that makes progress after another one keeps the share that it has got. -/
theorem getElem?_put_put_second (hne : i ≠ j) (hi : c.machines[i]? = some m')
    (hj : j < c.machines.length) (x m : Machine) (more outputs : List Word) :
    ((c.put j x more).put i m outputs).machines[i]? = some m := by
  have hlt := (List.getElem?_eq_some_iff.mp hi).1
  have hi' : (c.put j x more).machines[i]? =
      some (m'.extendInput (share c.machines.length j i more)) := by
    rw [getElem?_put_ne hne.symm, hi]
    rfl
  rw [getElem?_put_self hi', length_put, share_self hne hlt hj, Machine.extendInput_nil]

/-- Two machines make progress in any order. Each one gets its share of what the other one emits,
either before its own progress or behind it. -/
theorem put_comm {mi mj : Machine} (hne : i ≠ j) (hi : c.machines[i]? = some mi)
    (hj : c.machines[j]? = some mj) (m m' : Machine) (outputs more : List Word) :
    (c.put i m outputs).put j (m'.extendInput (share c.machines.length i j outputs)) more =
      (c.put j m' more).put i (m.extendInput (share c.machines.length j i more)) outputs := by
  have hilt := (List.getElem?_eq_some_iff.mp hi).1
  have hjlt := (List.getElem?_eq_some_iff.mp hj).1
  refine Config.ext (List.ext_getElem? fun k => ?_) ?_
  · -- the machines themselves, then all the others
    by_cases hik : i = k
    · subst hik
      rw [getElem?_put_put_first hne hi hjlt, getElem?_put_put_second hne hi hjlt]
    by_cases hjk : j = k
    · subst hjk
      rw [getElem?_put_put_first hne.symm hj hilt, getElem?_put_put_second hne.symm hj hilt]
    rw [getElem?_put_ne hjk, getElem?_put_ne hik, getElem?_put_ne hik, getElem?_put_ne hjk,
      length_put, length_put]
    -- of all other machines only one gets anything, if at all
    rcases share_eq_nil hne hilt hjlt k outputs more with hnil | hnil
    · simp [hnil, Function.comp_def]
    · simp [hnil, Function.comp_def]
  · unfold put
    simp only [List.length_modify, List.length_set]
    split <;> split <;> first | rfl | omega

/-! ### Progress

Only instructions that make progress are counted. A machine that has halted or waits may be
scheduled at any time, and nothing comes of it. -/

section Moves

variable [Allocator]

/-- Machine `i` makes progress by one instruction. -/
def Move (c : Config) (i : Nat) (d : Config) : Prop :=
  ∃ (m : Machine) (e : Option Event), c.machines[i]? = some m ∧ ¬ m.Idle ∧
    m.execute.result = .ok e ∧ d = c.put i m.execute.machine (Machine.emitted e)

/-- An instruction makes progress, or it changes nothing. -/
theorem move_or_eq (h : c.execute i = .ok d) : c.Move i d ∨ d = c := by
  unfold execute at h
  cases hget : c.machines[i]? with
  | none =>
    rw [hget] at h
    exact Or.inr (Except.ok.inj h).symm
  | some m =>
    rw [hget] at h
    cases hresult : m.execute.result with
    | error e => simp [hresult] at h
    | ok e =>
      simp only [hresult] at h
      cases h
      -- an idle machine comes back from an instruction as it was, and has emitted nothing
      by_cases hidle : m.Idle
      · obtain ⟨e', hok, hemitted⟩ := hidle.exists_result
        cases hok.symm.trans hresult
        rw [hidle.execute_machine, hemitted]
        exact Or.inr (put_self hget)
      · exact Or.inl ⟨m, e, hget, hidle, hresult, rfl⟩

theorem Move.execute_eq (h : c.Move i d) : c.execute i = .ok d := by
  obtain ⟨m, e, hget, -, hresult, rfl⟩ := h
  unfold execute
  rw [hget]
  simp only [hresult]

theorem Move.lt_length (h : c.Move i d) : i < c.machines.length := by
  obtain ⟨m, e, hget, -⟩ := h
  exact (List.getElem?_eq_some_iff.mp hget).1

theorem Move.length_eq (h : c.Move i d) : d.machines.length = c.machines.length := by
  obtain ⟨m, e, -, -, -, rfl⟩ := h
  exact length_put _ _ _ _

/-- A machine makes progress in one way only. -/
theorem Move.unique (h : c.Move i d) (h' : c.Move i e) : d = e := by
  have hexecute := h.execute_eq
  rw [h'.execute_eq] at hexecute
  exact (Except.ok.inj hexecute).symm

/-- Nothing is left to do for a ring that has settled. -/
theorem Settled.not_move (hsettled : c.Settled) : ¬ c.Move i d := by
  rintro ⟨m, e, hget, hidle, -⟩
  exact hidle (hsettled m (List.mem_of_getElem? hget))

/-- Progress of one machine does not stop another one from making its own. -/
theorem move_put {e : Option Event} (hne : i ≠ j) (hj : c.machines[j]? = some m)
    (hidle : ¬ m.Idle) (hresult : m.execute.result = .ok e) (x : Machine) (outputs : List Word) :
    (c.put i x outputs).Move j ((c.put i x outputs).put j
      (m.execute.machine.extendInput (share c.machines.length i j outputs))
      (Machine.emitted e)) := by
  have hexecute := Machine.execute_extendInput_of_not_idle hidle
    (share c.machines.length i j outputs)
  refine ⟨m.extendInput (share c.machines.length i j outputs), e, ?_, ?_, ?_, ?_⟩
  · rw [getElem?_put_ne hne, hj]
    rfl
  · exact Machine.not_idle_extendInput hidle _
  · rw [hexecute]
    exact hresult
  · rw [hexecute]
    rfl

/-- **Diamond.** Instructions of two machines lead to the same configuration in both orders. -/
theorem Move.diamond (hne : i ≠ j) (hi : c.Move i d) (hj : c.Move j e) :
    ∃ f, d.Move j f ∧ e.Move i f := by
  obtain ⟨mi, ei, hgeti, hidlei, hresulti, rfl⟩ := hi
  obtain ⟨mj, ej, hgetj, hidlej, hresultj, rfl⟩ := hj
  refine ⟨_, move_put hne hgetj hidlej hresultj _ _, ?_⟩
  rw [put_comm hne hgeti hgetj]
  exact move_put hne.symm hgeti hidlei hresulti _ _

/-- A machine that is about to fail still is after progress of any machine. -/
theorem Faulty.move (hfaulty : c.Faulty) (h : c.Move i d) : d.Faulty := by
  -- it is another machine than the one that makes progress, and more input does not save it
  obtain ⟨j, m, error, hget, herror⟩ := hfaulty
  obtain ⟨m', e, hget', -, hresult, rfl⟩ := h
  have hne : i ≠ j := by
    rintro rfl
    cases hget.symm.trans hget'
    rw [hresult] at herror
    contradiction
  have hexecute := Machine.execute_extendInput_of_not_idle (Machine.not_idle_of_error herror)
    (share c.machines.length i j (Machine.emitted e))
  refine ⟨j, m.extendInput (share c.machines.length i j (Machine.emitted e)), error, ?_, ?_⟩
  · rw [getElem?_put_ne hne, hget]
    rfl
  · rw [hexecute]
    exact herror

/-! ### Progress step by step

The diamond is extended to the whole way: if a ring can settle, then whatever makes progress first,
the rest of the way is shorter by one. So all ways to the end have one length, and no way is longer.
-/

/-- Instructions, as many as the number says, that all make progress. -/
inductive Steps : Nat → Config → Config → Prop where
  | refl (c : Config) : Steps 0 c c
  | step {n i : Nat} {c d t : Config} (move : c.Move i d) (rest : Steps n d t) : Steps (n + 1) c t

theorem Steps.trans {k : Nat} (h : Steps n c d) (h' : Steps k d t) : Steps (n + k) c t := by
  induction h with
  | refl =>
    rw [Nat.zero_add]
    exact h'
  | step move _ ih =>
    rw [Nat.succ_add]
    exact .step move (ih h')

theorem Steps.length_eq (h : Steps n c t) : t.machines.length = c.machines.length := by
  induction h with
  | refl => rfl
  | step move _ ih => exact ih.trans move.length_eq

/-- From a settled ring no progress is made. -/
theorem Settled.eq_of_steps (hsettled : c.Settled) (h : Steps n c t) : c = t := by
  cases h with
  | refl => rfl
  | step move => exact absurd move hsettled.not_move

/-- Whatever makes progress first is on the way to the end. -/
theorem Steps.descent (h : Steps n c t) (hsettled : t.Settled) (hmove : c.Move i d) :
    ∃ k, n = k + 1 ∧ Steps k d t := by
  induction h generalizing i d with
  | refl => exact absurd hmove hsettled.not_move
  | @step n j c e t move rest ih =>
    refine ⟨n, rfl, ?_⟩
    by_cases hij : i = j
    · subst hij
      rw [hmove.unique move]
      exact rest
    · -- the other machine makes the same progress now, and the rest of the way is shorter by one
      obtain ⟨f, hd, he⟩ := hmove.diamond hij move
      obtain ⟨k, rfl, hk⟩ := ih hsettled he
      exact .step hd hk

/-- Whatever makes progress is on the way to the end, which is as far as it has always been. -/
theorem Steps.le_and_rest (h : Steps n c t) (hsettled : t.Settled) (hsteps : Steps k c d) :
    k ≤ n ∧ Steps (n - k) d t := by
  -- the induction is on the steps that are taken, each of which shortens the way by one
  induction hsteps generalizing n with
  | refl => exact ⟨Nat.zero_le _, h⟩
  | step move _ ih =>
    obtain ⟨n, rfl, hn⟩ := h.descent hsettled move
    obtain ⟨hle, hrest⟩ := ih hn
    rw [Nat.add_sub_add_right]
    exact ⟨Nat.succ_le_succ hle, hrest⟩

/-- On the way to a settled ring no machine fails. -/
theorem Steps.not_faulty (h : Steps n c t) (hsettled : t.Settled) : ¬ c.Faulty := by
  induction h with
  | refl =>
    -- a machine that has halted or waits does not fail
    rintro ⟨i, m, error, hget, herror⟩
    exact Machine.not_idle_of_error herror (hsettled m (List.mem_of_getElem? hget))
  | step move _ ih =>
    intro hfaulty
    exact ih hsettled (hfaulty.move move)

/-! ### Schedules

A schedule is a row of instructions of which only some make progress. Every schedule comes to a
point on the way, and every way can be scheduled. -/

theorem interleave_cons (i : Nat) (schedule : List Nat) :
    c.interleave (i :: schedule) = c.execute i >>= fun d => d.interleave schedule := rfl

/-- A schedule that runs without an error makes progress, some times. -/
theorem exists_steps {schedule : List Nat} (h : c.interleave schedule = .ok d) :
    ∃ n, Steps n c d := by
  induction schedule generalizing c with
  | nil =>
    cases h
    exact ⟨0, .refl _⟩
  | cons i schedule ih =>
    rw [interleave_cons] at h
    obtain ⟨c', hfirst, hrest⟩ := bind_eq_ok.mp h
    obtain ⟨n, hsteps⟩ := ih hrest
    rcases move_or_eq hfirst with hmove | rfl
    · exact ⟨n + 1, .step hmove hsteps⟩
    · exact ⟨n, hsteps⟩

/-- Progress can be scheduled. -/
theorem Steps.exists_schedule (h : Steps n c t) :
    ∃ schedule : List Nat, (∀ i ∈ schedule, i < c.machines.length) ∧
      c.interleave schedule = .ok t := by
  induction h with
  | refl => exact ⟨[], by simp, rfl⟩
  | @step n i c d t move _ ih =>
    obtain ⟨schedule, hin, hrest⟩ := ih
    rw [move.length_eq] at hin
    refine ⟨i :: schedule, ?_, ?_⟩
    · intro j hj
      rcases List.mem_cons.mp hj with rfl | hj
      · exact move.lt_length
      · exact hin j hj
    · rw [interleave_cons, move.execute_eq]
      exact hrest

/-- An instruction fails only if a machine is about to fail. -/
theorem exists_execute (h : ¬ c.Faulty) (i : Nat) : ∃ d, c.execute i = .ok d := by
  unfold execute
  cases hget : c.machines[i]? with
  | none => exact ⟨c, rfl⟩
  | some m =>
    cases hresult : m.execute.result with
    | error error => exact absurd ⟨i, m, error, hget, hresult⟩ h
    | ok e => exact ⟨c.put i m.execute.machine (Machine.emitted e), by simp only [hresult]⟩

/-- No schedule fails in a ring that can settle, and it stays on the way. -/
theorem Steps.exists_interleave (h : Steps n c t) (hsettled : t.Settled) (schedule : List Nat) :
    ∃ d k, c.interleave schedule = .ok d ∧ Steps k d t := by
  induction schedule generalizing n c with
  | nil => exact ⟨c, n, rfl, h⟩
  | cons i schedule ih =>
    obtain ⟨c', hfirst⟩ := exists_execute (h.not_faulty hsettled) i
    have hrest : ∃ k, Steps k c' t := by
      rcases move_or_eq hfirst with hmove | rfl
      · obtain ⟨k, -, hk⟩ := h.descent hsettled hmove
        exact ⟨k, hk⟩
      · exact ⟨n, h⟩
    obtain ⟨k, hk⟩ := hrest
    rw [interleave_cons, hfirst]
    exact ih hk

/-! ### Progress of one machine in the ring

A machine that runs on its own makes the same progress in the ring, where values may come in behind
its input at any time. -/

/-- What a machine does on its own it does in the ring, also with more input behind. -/
theorem steps_of_moves {m t : Machine} {outputs : List Word} (h : Machine.Moves n m outputs t)
    (values : List Word) (hget : c.machines[i]? = some (m.extendInput values)) :
    Steps n c (c.put i (t.extendInput values) outputs) := by
  induction h generalizing c values with
  | refl m =>
    rw [put_self hget]
    exact .refl _
  | @step n m t e outputs hidle hresult _ ih =>
    -- the values behind the input grow on the way, so the induction is for any of them
    have hexecute := Machine.execute_extendInput_of_not_idle hidle values
    have hmove : c.Move i
        (c.put i (m.execute.machine.extendInput values) (Machine.emitted e)) := by
      refine ⟨m.extendInput values, e, hget, Machine.not_idle_extendInput hidle values, ?_, ?_⟩
      · rw [hexecute]
        exact hresult
      · rw [hexecute]
        rfl
    -- in a ring of one machine it has got what it has emitted itself
    have hnext := getElem?_put_self hget (m.execute.machine.extendInput values)
      (Machine.emitted e)
    rw [Machine.extendInput_extendInput] at hnext
    have hrest := ih _ hnext
    rw [← Machine.extendInput_extendInput, put_put hget] at hrest
    exact .step hmove hrest

end Moves

end Config

end Intcode.Ring
