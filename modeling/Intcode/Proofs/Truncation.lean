import Intcode.Proofs.ExitCode

/-!
# Output that fails

Standard output may take some lines and then fail. A session whose output fails does the same as one
whose output takes every line, up to the value for which there is no room: there it ends, also where
the other one would go on for ever.

* `Session.limitTo` — the session with a bound on the lines that its output takes;
* `Session.step_cases`, `Session.advance_limitTo_of_quiet`, `Session.advance_limitTo_of_room`,
  `Session.advance_limitTo_of_full` — one step of the two sessions;
* `Session.run_limitTo` — with room for all lines the bound is not seen;
* `Session.Reaches.exists_cut` — without it the session ends;
* `Session.run_limited` — the main statement.
-/

namespace Intcode.Command

namespace Session

/-! ### Bounded output

Two sessions are compared that differ in the bound on their output alone. Only a value that is
emitted meets the bound, so their steps are told apart by whether an instruction emits one and
whether there is room for it. -/

/-- The session with output that takes no more than so many lines in all, and fails then. -/
def limitTo (s : Session) (room : Nat) (fault : WriteFault) : Session :=
  { s with output := { s.output with limit := some (room, fault) } }

/-- The end of a session whose output has not taken a value. -/
def cut (s : Session) : WriteFault → Session × Status
  | .closed => ({ s with journal := s.journal.log (.outputClosed s.machine.ip) }, .success)
  | fault =>
    ({ s with journal := s.journal.say s!"error: cannot write output: {fault.message}" }, .refused)

/-- The session after its output has taken a value. -/
def wrote (s : Session) (value : Word) : Session := { s with output := s.output.push value.render }

theorem emit_of_none {s : Session} (h : s.output.fault? = none) (value : Word) :
    s.emit value = .inl (s.wrote value) := by
  unfold emit
  rw [h]
  rfl

theorem emit_of_some {s : Session} {fault : WriteFault} (h : s.output.fault? = some fault)
    (value : Word) : s.emit value = .inr (s.cut fault) := by
  unfold emit
  rw [h]
  cases fault <;> rfl

section Step

variable [Allocator] {s : Session} {room : Nat} {fault : WriteFault} {value : Word}

/-- The next instruction does not emit a value. -/
def Quiet (s : Session) : Prop := ∀ value, s.machine.execute.result ≠ .ok (some (.output value))

theorem quiet_or_emits (s : Session) :
    s.Quiet ∨ ∃ value, s.machine.execute.result = .ok (some (.output value)) := by
  by_cases h : ∃ value, s.machine.execute.result = .ok (some (.output value))
  · exact Or.inr h
  · exact Or.inl fun value hvalue => h ⟨value, hvalue⟩

/-- A step that emits nothing does not look at the output, and leaves it as it is. -/
theorem advance_limitTo_of_quiet (h : s.Quiet) (room : Nat) (fault : WriteFault) :
    (s.limitTo room fault).advance =
      s.advance.map (·.limitTo room fault) (Prod.map (·.limitTo room fault) id) ∧
    (Sum.elim id Prod.fst s.advance).output = s.output := by
  have hmachine : (s.limitTo room fault).machine = s.machine := rfl
  rw [advance_eq, advance_eq, hmachine]
  rcases hresult : s.machine.execute.result with e | _ | _ | value | _
  · exact ⟨rfl, rfl⟩
  · exact ⟨rfl, rfl⟩
  · -- the input comes from the source, which the bound has nothing to do with
    dsimp only
    rcases hnext : s.source.next with ⟨_ | value, source⟩
    · rw [supply_of_nil (s := s.executed) hnext,
        supply_of_nil (s := (s.limitTo room fault).executed) hnext]
      exact ⟨rfl, rfl⟩
    · rw [supply_of_cons (s := s.executed) hnext,
        supply_of_cons (s := (s.limitTo room fault).executed) hnext]
      exact ⟨rfl, rfl⟩
  · exact absurd hresult (h value)
  · exact ⟨rfl, rfl⟩

/-- Output without a bound takes every value. -/
theorem advance_of_emits (hopen : s.output.limit = none)
    (h : s.machine.execute.result = .ok (some (.output value))) :
    s.advance = .inl (s.executed.wrote value) := by
  have hfault : s.executed.output.fault? = none := by
    unfold Output.fault? executed
    rw [hopen]
  rw [advance_eq, h]
  exact emit_of_none hfault value

/-- A value for which there is room is written, as without a bound. -/
theorem advance_limitTo_of_room (hroom : s.output.lines.size < room)
    (h : s.machine.execute.result = .ok (some (.output value))) :
    (s.limitTo room fault).advance = .inl ((s.executed.wrote value).limitTo room fault) := by
  have hfault : (s.limitTo room fault).executed.output.fault? = none := if_pos hroom
  have hresult : (s.limitTo room fault).machine.execute.result = .ok (some (.output value)) := h
  rw [advance_eq, hresult]
  exact emit_of_none hfault value

/-- A value for which there is no room cuts the session off. -/
theorem advance_limitTo_of_full (hfull : room ≤ s.output.lines.size)
    (h : s.machine.execute.result = .ok (some (.output value))) :
    (s.limitTo room fault).advance = .inr ((s.executed.limitTo room fault).cut fault) := by
  have hfault : (s.limitTo room fault).executed.output.fault? = some fault :=
    if_neg (Nat.not_lt.mpr hfull)
  have hresult : (s.limitTo room fault).machine.execute.result = .ok (some (.output value)) := h
  rw [advance_eq, hresult]
  exact emit_of_some hfault value

/-- What a step comes to while the output is not bounded: a line for each value that is emitted. -/
theorem step_cases {t : Session} (hopen : s.output.limit = none) (h : s.advance = .inl t) :
    (s.Quiet ∧ t.output = s.output) ∨
      ∃ value, s.machine.execute.result = .ok (some (.output value)) ∧
        t = s.executed.wrote value := by
  rcases s.quiet_or_emits with hquiet | ⟨value, hvalue⟩
  · have houtput := (advance_limitTo_of_quiet hquiet 0 .closed).2
    rw [h] at houtput
    exact Or.inl ⟨hquiet, houtput⟩
  · rw [advance_of_emits hopen hvalue] at h
    exact Or.inr ⟨value, hvalue, (Sum.inl.inj h).symm⟩

end Step

/-! ### Sessions on the way

Lines are only added, so how many there are decides whether the bound has been met. Up to there both
sessions have the same states, apart from the bound. -/

section Reaches

variable [Allocator] {s t : Session}

/-- Output that is not bounded only gains lines. -/
theorem Reaches.isPrefix_lines (h : s.Reaches t) (hopen : s.output.limit = none) :
    t.output.limit = none ∧ s.output.lines.toList <+: t.output.lines.toList := by
  induction h with
  | refl s => exact ⟨hopen, List.prefix_rfl⟩
  | head step _ ih =>
    rcases step_cases hopen step with ⟨-, houtput⟩ | ⟨value, -, rfl⟩
    · rw [houtput] at ih
      exact ih hopen
    · obtain ⟨hlimit, hprefix⟩ := ih hopen
      refine ⟨hlimit, List.IsPrefix.trans ?_ hprefix⟩
      simp [executed, wrote, Output.push]

/-- **With room for all lines a bound is not seen.** -/
theorem run_limitTo {room : Nat} (hopen : s.output.limit = none)
    (h : ∀ t, s.Reaches t → t.output.lines.size ≤ room) (fault : WriteFault) (fuel : Nat) :
    (s.limitTo room fault).run fuel =
      (s.run fuel).map (Prod.map (·.limitTo room fault) id) := by
  induction fuel generalizing s with
  | zero => rfl
  | succ fuel ih =>
    have hstep : (s.limitTo room fault).advance =
        s.advance.map (·.limitTo room fault) (Prod.map (·.limitTo room fault) id) := by
      rcases s.quiet_or_emits with hquiet | ⟨value, hvalue⟩
      · exact (advance_limitTo_of_quiet hquiet room fault).1
      · -- the line for this value is one of those for which there is room
        have hadvance := advance_of_emits hopen hvalue
        have hroom := h _ (.head hadvance (.refl _))
        have hlt : s.output.lines.size < room := by
          simpa [executed, wrote, Output.push, Nat.succ_le_iff] using hroom
        rw [advance_limitTo_of_room hlt hvalue, hadvance]
        rfl
    unfold run at ih ⊢
    rw [iterate_succ, iterate_succ, hstep]
    cases hadvance : s.advance with
    | inl t =>
      exact ih ((Reaches.head hadvance (.refl t)).isPrefix_lines hopen).1
        fun u hu => h u (.head hadvance hu)
    | inr ending => rfl

/-- **Without room for a line a session ends**: with the value before which the other session has
as many lines as there is room for. -/
theorem Reaches.exists_cut {room : Nat} (h : s.Reaches t) (hopen : s.output.limit = none)
    (hle : s.output.lines.size ≤ room) (hlt : room < t.output.lines.size) (fault : WriteFault) :
    ∃ before value, s.Reaches before ∧ before.Reaches t ∧ before.output.lines.size = room ∧
      before.machine.execute.result = .ok (some (.output value)) ∧
      ∃ fuel, (s.limitTo room fault).run fuel =
        some ((before.executed.limitTo room fault).cut fault) := by
  induction h with
  | refl s => omega
  | @head s u t step rest ih =>
    have hopen' := ((Reaches.head step (.refl u)).isPrefix_lines hopen).1
    rcases step_cases hopen step with ⟨hquiet, houtput⟩ | ⟨value, hvalue, rfl⟩
    · obtain ⟨before, value, hreaches, hrest, hsize, hvalue, hrun⟩ :=
        ih hopen' (by rw [houtput]; exact hle) hlt
      refine ⟨before, value, .head step hreaches, hrest, hsize, hvalue,
        exists_run_of_advance ?_ hrun⟩
      rw [(advance_limitTo_of_quiet hquiet room fault).1, step]
      rfl
    · by_cases hroom : s.output.lines.size < room
      · have hle' : (s.executed.wrote value).output.lines.size ≤ room := by
          simpa [executed, wrote, Output.push, Nat.succ_le_iff] using hroom
        obtain ⟨before, value', hreaches, hrest, hsize, hvalue', hrun⟩ := ih hopen' hle' hlt
        exact ⟨before, value', .head step hreaches, hrest, hsize, hvalue',
          exists_run_of_advance (advance_limitTo_of_room hroom hvalue) hrun⟩
      · -- there is no room for this line
        refine ⟨s, value, .refl s, .head step rest, by omega, hvalue, 1, ?_⟩
        unfold run
        rw [iterate_succ, advance_limitTo_of_full (by omega) hvalue]

end Reaches

/-! ### The main statement

What the cut leaves is said by the session without the bound, one step after the value that has not
been written. -/

/-- A session comes to this one by emitting the value behind the first `k`. -/
def Oversteps [Allocator] (s : Session) (k : Nat) (after : Session) : Prop :=
  ∃ before value, s.Reaches before ∧ before.output.lines.size = k ∧
    before.machine.execute.result = .ok (some (.output value)) ∧ before.advance = .inl after

/-- What a session leaves that a fault has ended, given the session that goes on instead and the
lines that have been taken. That nobody reads any more is success. Any other fault is not, and is
all that is said. -/
structure CutOff (after : Session) (lines : List String) (fault : WriteFault)
    (ending : Session × Status) : Prop where
  lines : ending.1.output.lines.toList = lines
  machine : ending.1.machine = after.machine
  source : ending.1.source = after.source
  code : ending.2.code = if fault = .closed then 0 else 1
  messages : ending.1.journal.messages = after.journal.messages ++
    if fault = .closed then [] else ["error: cannot write output: " ++ fault.message]

/-- What a cut leaves of a session that would have gone on. -/
theorem cutOff_cut (s : Session) (value : Word) (room : Nat) (fault : WriteFault) :
    CutOff (s.wrote value) s.output.lines.toList fault ((s.limitTo room fault).cut fault) := by
  cases fault with
  | closed =>
    have hlog := Journal.messages_log s.journal (.outputClosed s.machine.ip)
    exact ⟨rfl, rfl, rfl, rfl, hlog.trans (List.append_nil _).symm⟩
  | full | refused => exact ⟨rfl, rfl, rfl, rfl, Journal.messages_say s.journal _⟩

/-- **Output that fails cuts a session off and does nothing else.** Let the output take `k` lines
and fail then.

* If a session whose output never fails emits no more than `k` values on its way, both sessions
  come to the same, except that the one bound stays: to the same status and output and to the same
  machine, source and journal, or to no end at all.
* If it emits more, the session with the bound ends, even if the other one does not. It has then
  written the first `k` lines, and its machine and its source are the ones that the other session
  has right after the value behind these. -/
theorem run_limited [Allocator] (m : Machine) (source : InputSource) (journal : Journal)
    (k : Nat) (fault : WriteFault) :
    ((∀ t, Reaches ⟨m, source, .unlimited, journal⟩ t → t.output.lines.size ≤ k) →
      ∀ fuel, run fuel ⟨m, source, .limited k fault, journal⟩ =
        (run fuel ⟨m, source, .unlimited, journal⟩).map (Prod.map (·.limitTo k fault) id)) ∧
    ∀ t, Reaches ⟨m, source, .unlimited, journal⟩ t → k < t.output.lines.size →
      ∃ after fuel ending, Oversteps ⟨m, source, .unlimited, journal⟩ k after ∧
        run fuel ⟨m, source, .limited k fault, journal⟩ = some ending ∧
        CutOff after (t.output.lines.toList.take k) fault ending := by
  refine ⟨fun h fuel => run_limitTo rfl h fault fuel, fun t ht hlt => ?_⟩
  obtain ⟨before, value, hreaches, hrest, hsize, hvalue, fuel, hrun⟩ :=
    ht.exists_cut rfl (Nat.zero_le k) hlt fault
  have hopen := (hreaches.isPrefix_lines rfl).1
  -- the lines that have been taken are the first ones of those that the other session has later
  have hlines : before.executed.output.lines.toList = t.output.lines.toList.take k := by
    have hprefix := List.prefix_iff_eq_take.mp (hrest.isPrefix_lines hopen).2
    rw [Array.length_toList, hsize] at hprefix
    exact hprefix
  have hcut := cutOff_cut before.executed value k fault
  rw [hlines] at hcut
  exact ⟨_, fuel, _, ⟨before, value, hreaches, hsize, hvalue, advance_of_emits hopen hvalue⟩, hrun,
    hcut⟩

/-- A machine that emits a value and starts over, for ever. -/
def endless : Machine := ⟨0, 0, ⟨#[104, 1, 1105, 1, 0]⟩, [], false⟩

/-- A machine that emits a value and halts. -/
def brief : Machine := ⟨0, 0, ⟨#[104, 7, 99]⟩, [], false⟩

/-- Output with room for one line ends the endless session at its second value, behind which the
machine then stands. The brief session does not meet the bound. -/
theorem run_limited_one :
    (∃ fuel ending, run fuel ⟨endless, ⟨[], [], none⟩, .limited 1 .full, .start .quiet⟩ =
        some ending ∧ ending.1.output.lines.toList = ["1"] ∧
        ending.1.machine = { endless with ip := 2 } ∧ ending.2.code = 1) ∧
    ∀ fuel, run fuel ⟨brief, ⟨[], [], none⟩, .limited 1 .closed, .start .quiet⟩ =
      (run fuel ⟨brief, ⟨[], [], none⟩, .unlimited, .start .quiet⟩).map
        (Prod.map (·.limitTo 1 .closed) id) := by
  refine ⟨?_, ?_⟩
  · have hreaches : Reaches ⟨endless, ⟨[], [], none⟩, .unlimited, .start .quiet⟩
        ⟨{ endless with ip := 2 }, ⟨[], [], none⟩, ⟨#["1", "1"], none⟩, .start .quiet⟩ :=
      .head rfl (.head rfl (.head rfl (.refl _)))
    obtain ⟨after, fuel, ending, -, hrun, hcut⟩ :=
      (run_limited endless ⟨[], [], none⟩ (.start .quiet) 1 .full).2 _ hreaches (by decide)
    have hthree : run 3 ⟨endless, ⟨[], [], none⟩, .limited 1 .full, .start .quiet⟩ =
        some (cut ⟨{ endless with ip := 2 }, ⟨[], [], none⟩, ⟨#["1"], some (1, .full)⟩,
          .start .quiet⟩ .full) := rfl
    obtain rfl := iterate_unique hrun hthree
    exact ⟨fuel, _, hrun, hcut.lines, rfl, hcut.code⟩
  · refine (run_limited brief ⟨[], [], none⟩ (.start .quiet) 1 .closed).1 fun t ht => ?_
    have hfirst : advance ⟨brief, ⟨[], [], none⟩, .unlimited, .start .quiet⟩ =
        .inl ⟨{ brief with ip := 2 }, ⟨[], [], none⟩, ⟨#["7"], none⟩, .start .quiet⟩ := rfl
    cases ht with
    | refl => decide
    | head step rest =>
      cases hfirst.symm.trans step
      cases rest with
      | refl => decide
      | head step _ => cases step

end Session

end Intcode.Command
