import Mathlib.Logic.Relation
import Mathlib.Order.Bounds.Basic
import Intcode.Proofs.Failure

/-!
# What memory remembers

Memory answers every request from the words that it has been loaded with and from the writes that
have succeeded since. How far it reaches is told by the same history. A machine changes its memory
by such requests alone, so the bounds on memory are bounds on the memory of a machine, whatever is
done with it.

The requests of a history are all granted the room they ask for. The machines are those of any
allocator, because a write that is refused for want of room is no different for memory from no write.

* `Access`, `serve`, `after` — requests to memory, and memory after a history of them;
* `written`, `lastWritten?` — the writes of a history that succeed;
* `cell_after`, `isGreatest_extent_after` — the cells and the extent, from the history;
* `Machine.Operates`, `Machine.extends_of_operates` — whatever is done with a machine, its memory is
  changed by a history of requests;
* `Machine.patch_eq_ok_iff` — so it is by overrides, if no address is refused;
* `memory_history` — the main statement.
-/

namespace Intcode

namespace Memory

/-! ### Histories

A history is a list of requests, the first one first, with those that are refused among them. Which
of its writes succeed is a matter of their addresses alone, since here every request is granted
room. -/

/-- A request to memory. -/
inductive Access where
  | read (address : Word)
  | write (address value : Word)
  deriving DecidableEq, Repr

/-- Memory after a request, and its answer: the value that is read, nothing for a write, or a
refusal, after which memory is as it was. -/
def serve (m : Memory) : Access → Memory × Except AddressError (Option Word)
  | .read address => (m, some <$> m.read address)
  | .write address value =>
    match m.write address value with
    | .ok written => (written, .ok none)
    | .error e => (m, .error e)

/-- Memory after a history of requests. -/
def after (m : Memory) (history : List Access) : Memory :=
  history.foldl (fun m access => (m.serve access).1) m

/-- The cell that a request writes and the value for it, if its address is one that can be
written. -/
def Access.written? : Access → Option (Nat × Word)
  | .read _ => none
  | .write address value =>
    if 0 ≤ address.toInt ∧ address.toInt ≤ maxAddress.toInt then some (address.toInt.toNat, value)
    else none

/-- The writes of a history that succeed, each with its cell. -/
def written (history : List Access) : List (Nat × Word) := history.filterMap Access.written?

/-- The value of the last write to a cell that succeeds. -/
def lastWritten? (history : List Access) (i : Nat) : Option Word :=
  (written history).reverse.lookup i

/-! ### One request

There are four answers, by the kind of the request and by its address. -/

section Serve

variable {m : Memory} {address value : Word}

/-- A cell is read, whether it exists or not. -/
theorem serve_read (h : 0 ≤ address.toInt) :
    m.serve (.read address) = (m, .ok (some (m.cell address.toInt.toNat))) := by
  have hread : m.read address = .ok (m.cell address.toNatClampNeg) := by
    unfold read
    rw [if_neg (Machine.not_neg_iff_nonneg.mpr h)]
  unfold serve
  dsimp only
  rw [hread, ← Int64.toNat_toInt]
  rfl

/-- There is nothing below address zero. -/
theorem serve_read_of_neg (h : address.toInt < 0) :
    m.serve (.read address) = (m, .error ⟨address⟩) := by
  have hneg : address < 0 := by
    by_contra hnot
    have := Machine.not_neg_iff_nonneg.mp hnot
    omega
  unfold serve read
  dsimp only
  rw [if_pos hneg]
  rfl

/-- A write in range succeeds. -/
theorem serve_write (h : 0 ≤ address.toInt ∧ address.toInt ≤ maxAddress.toInt) :
    m.serve (.write address value) = (m.store address.toInt.toNat value, .ok none) := by
  have haccepts : m.accepts address :=
    (m.accepts_eq_isWritable address).trans (Machine.isWritable_iff.mpr h)
  unfold serve
  dsimp only
  rw [write_of_accepts value haccepts, Int64.toNat_toInt]

/-- A write out of range is refused, and nothing changes. -/
theorem serve_write_of_not (h : ¬ (0 ≤ address.toInt ∧ address.toInt ≤ maxAddress.toInt)) :
    m.serve (.write address value) = (m, .error ⟨address⟩) := by
  have haccepts : ¬ m.accepts address := by
    rw [accepts_eq_isWritable]
    exact fun hwritable => h (Machine.isWritable_iff.mp hwritable)
  unfold serve
  dsimp only
  rw [write_of_not_accepts value haccepts]

/-- A request writes its cell, or leaves memory as it is. -/
theorem serve_fst (m : Memory) (access : Access) :
    (m.serve access).1 =
      match access.written? with
      | none => m
      | some (i, value) => m.store i value := by
  cases access with
  | read address => rfl
  | write address value =>
    unfold Access.written?
    dsimp only
    by_cases h : 0 ≤ address.toInt ∧ address.toInt ≤ maxAddress.toInt
    · rw [if_pos h, serve_write h]
    · rw [if_neg h, serve_write_of_not h]

end Serve

/-! ### All requests

Cells and extent are both told by the writes that succeed: a cell by the last of its own writes, and
the extent by the greatest address. The inductions are along the history, with memory as it is in
front of what is left of it. -/

@[simp] theorem after_nil (m : Memory) : m.after [] = m := rfl

theorem after_cons (m : Memory) (access : Access) (history : List Access) :
    m.after (access :: history) = (m.serve access).1.after history := rfl

theorem after_append (m : Memory) (history more : List Access) :
    m.after (history ++ more) = (m.after history).after more :=
  List.foldl_append

/-- **A cell holds what has been written to it last**, or what it has held at first. -/
theorem cell_after (m : Memory) (history : List Access) (i : Nat) :
    (m.after history).cell i = (lastWritten? history i).getD (m.cell i) := by
  induction history generalizing m with
  | nil => rfl
  | cons access history ih =>
    rw [after_cons, ih, serve_fst]
    unfold lastWritten? written
    cases hwritten : access.written? with
    | none => rw [List.filterMap_cons_none hwritten]
    | some w =>
      obtain ⟨j, value⟩ := w
      dsimp only
      rw [List.filterMap_cons_some hwritten, List.reverse_cons, List.lookup_append, cell_store]
      -- a later write to the cell hides this one
      cases (history.filterMap Access.written?).reverse.lookup i with
      | some later => rfl
      | none =>
        by_cases hij : i = j
        · simp [hij]
        · simp [hij, List.lookup_cons, beq_false_of_ne hij]

/-- **Memory reaches as far as it has been written**, or as far as at first. -/
theorem isGreatest_extent_after (m : Memory) (history : List Access) :
    IsGreatest {n | n = m.extent ∨ ∃ w ∈ written history, n = w.1 + 1}
      (m.after history).extent := by
  induction history generalizing m with
  | nil =>
    refine ⟨Or.inl rfl, ?_⟩
    rintro n (rfl | ⟨w, hw, -⟩)
    · exact Nat.le_refl _
    · contradiction
  | cons access history ih =>
    have ih := ih (m.serve access).1
    rw [serve_fst] at ih
    rw [after_cons, serve_fst]
    unfold written
    cases hwritten : access.written? with
    -- a read, or a write that is refused, leaves memory as it was
    | none =>
      rw [hwritten] at ih
      rw [List.filterMap_cons_none hwritten]
      exact ih
    | some w =>
      obtain ⟨i, value⟩ := w
      rw [hwritten] at ih
      rw [List.filterMap_cons_some hwritten]
      dsimp only at ih ⊢
      rw [extent_store] at ih
      obtain ⟨hmem, hle⟩ := ih
      refine ⟨?_, ?_⟩
      · rcases hmem with hmax | ⟨w, hw, hextent⟩
        · -- nothing further is written, so the extent is the one after this request
          rcases Nat.le_total m.extent (i + 1) with h | h
          · exact Or.inr ⟨_, List.mem_cons_self, by omega⟩
          · exact Or.inl (by omega)
        · exact Or.inr ⟨w, List.mem_cons_of_mem _ hw, hextent⟩
      · have hmax : max m.extent (i + 1) ≤ _ := hle (Or.inl rfl)
        rintro n (rfl | ⟨w, hw, rfl⟩)
        · omega
        · rcases List.mem_cons.mp hw with rfl | hw
          · omega
          · exact hle (Or.inr ⟨w, hw, rfl⟩)

theorem le_extent_after (m : Memory) (history : List Access) :
    m.extent ≤ (m.after history).extent :=
  (isGreatest_extent_after m history).2 (Or.inl rfl)

/-- Nothing is written beyond the greatest address. -/
theorem lt_of_mem_written {history : List Access} {w : Nat × Word} (h : w ∈ written history) :
    w.1 < maxAddress.toInt.toNat + 1 := by
  obtain ⟨access, -, haccess⟩ := List.mem_filterMap.mp h
  cases access with
  | read address => contradiction
  | write address value =>
    unfold Access.written? at haccess
    dsimp only at haccess
    split at haccess
    · cases haccess
      show address.toInt.toNat < _
      omega
    · contradiction

/-- Only the words that memory has been loaded with can make it reach beyond what can be
written. -/
theorem extent_after_le (m : Memory) (history : List Access) :
    (m.after history).extent ≤ max m.extent (maxAddress.toInt.toNat + 1) := by
  rcases (isGreatest_extent_after m history).1 with h | ⟨w, hw, h⟩
  · omega
  · have := lt_of_mem_written hw
    omega

end Memory

/-! ### Machines

A machine changes its memory by what its instructions write and by nothing else. A refused write
leaves memory alone, so these are histories with writes that succeed, whatever an allocator answers
to others. -/

namespace Machine

/-- The memory of the second machine is that of the first one after a history of requests. -/
def Extends (m t : Machine) : Prop := ∃ history, t.memory = m.memory.after history

theorem Extends.of_eq {m t : Machine} (h : t.memory = m.memory) : m.Extends t := ⟨[], h⟩

theorem Extends.trans {m t u : Machine} (hmt : m.Extends t) (htu : t.Extends u) : m.Extends u := by
  obtain ⟨history, hmt⟩ := hmt
  obtain ⟨more, htu⟩ := htu
  exact ⟨history ++ more, by rw [htu, hmt, Memory.after_append]⟩

/-- What each step does to memory, the iteration does, whether the step is followed by others or
ends it. -/
theorem extends_of_iterate {State : Type} {step : State → State ⊕ State × Stop}
    (machine : State → Machine)
    (hstep : ∀ s, (machine s).Extends (machine (Sum.elim id Prod.fst (step s))))
    {fuel : Nat} {s t : State} {stop : Stop} (h : iterate step fuel s = some (t, stop)) :
    (machine s).Extends (machine t) := by
  -- by induction on the rounds that were granted: what one round appends to the requests comes in
  -- front of what the rest appends
  induction fuel generalizing s with
  | zero => contradiction
  | succ fuel ih =>
    have hs := hstep s
    rw [iterate_succ] at h
    cases hnext : step s with
    | inl next =>
      rw [hnext] at h hs
      exact hs.trans (ih h)
    | inr answer =>
      rw [hnext] at h hs
      cases h
      exact hs

section AnyAllocator

variable [Allocator]

/-- What can be done with a machine: one instruction, instructions up to the next event, a run, and
input for it. -/
inductive Operates : Machine → Machine → Prop where
  | execute (m : Machine) : Operates m m.execute.machine
  | step {fuel : Nat} {m t : Machine} {stop : Stop} (stops : m.step fuel = some (t, stop)) :
      Operates m t
  | run {fuel : Nat} {m : Machine} {source : List Word} {r : Run} {stop : Stop}
      (ends : m.run fuel source = some (r, stop)) : Operates m r.machine
  | pushInput (m : Machine) (value : Word) : Operates m (m.pushInput value)
  | extendInput (m : Machine) (values : List Word) : Operates m (m.extendInput values)

/-- A value is written by a request to memory. One that is refused leaves memory as no request
does. -/
theorem extends_store (m : Machine) (ip address value : Word) :
    m.Extends (m.store ip address value).machine := by
  by_cases h : m.memory.accepts address
  · refine ⟨[.write address value], ?_⟩
    rw [store_of_accepts ip value h, Memory.after_cons, Memory.after_nil,
      Memory.serve_write (accepts_iff.mp h).1, Int64.toNat_toInt]
  · rw [store_of_not_accepts ip value h]
    exact .of_eq rfl

/-- The effect of an instruction is at most one write. -/
theorem extends_apply (m : Machine) (next : Word) (effect : Effect) :
    m.Extends (m.apply next effect).machine := by
  cases effect with
  | write address value => exact extends_store { m with ip := next } m.ip address value
  | receive address =>
    unfold apply
    cases m.input with
    | nil => exact .of_eq rfl
    | cons value rest =>
      exact extends_store { m with ip := next, input := rest } m.ip address value
  | emit | jump | pass | rebase | halt => exact .of_eq rfl

/-- An instruction that fails before its effect does not touch memory. -/
theorem extends_execute (m : Machine) : m.Extends m.execute.machine := by
  have hexecutes := m.executes
  generalize m.execute = s at hexecutes ⊢
  cases hexecutes with
  | halted | fails => exact .of_eq rfl
  | acts => exact extends_apply m _ _

/-- Instructions up to the next event, one after the other. -/
theorem extends_step {fuel : Nat} {m t : Machine} {stop : Stop}
    (h : m.step fuel = some (t, stop)) : m.Extends t := by
  refine extends_of_iterate id (fun m => ?_) h
  have hmachine : Sum.elim id Prod.fst m.advance = m.execute.machine := by
    rw [advance_eq]
    rcases m.execute.result with e | _ | event <;> rfl
  rw [hmachine]
  exact m.extends_execute

/-- A run, with its polls. -/
theorem extends_run {fuel : Nat} {m : Machine} {source : List Word} {r : Run} {stop : Stop}
    (h : m.run fuel source = some (r, stop)) : m.Extends r.machine := by
  refine extends_of_iterate Run.machine (fun r => ?_) h
  by_cases hwaits : r.machine.Waits
  · -- a poll leaves memory as it is
    rw [Run.advance_of_waits hwaits]
    cases hsource : r.source with
    | nil =>
      rw [Run.supply_of_nil hsource]
      exact .of_eq rfl
    | cons value source =>
      rw [Run.supply_of_cons hsource]
      exact .of_eq rfl
  · have hnext : Sum.elim id Prod.fst r.advance = r.next := by
      unfold Run.next
      rcases r.advance with s | s <;> rfl
    rw [hnext, (Run.next_of_not_waits hwaits).1]
    exact r.machine.extends_execute

/-- Whatever is done with a machine, its memory is changed by requests. -/
theorem extends_of_operates {m t : Machine} (h : Relation.ReflTransGen Operates m t) :
    m.Extends t := by
  induction h with
  | refl => exact .of_eq rfl
  | tail _ hoperates ih =>
    refine ih.trans ?_
    cases hoperates with
    | execute => exact extends_execute _
    | step stops => exact extends_step stops
    | run ends => exact extends_run ends
    | pushInput | extendInput => exact .of_eq rfl

end AnyAllocator

/-! ### Overrides

Overrides are written before the machine starts, each to the memory that those in front of it have
left. They stop at the first one that is refused. -/

/-- An address that can be written. -/
def InRange (address : Word) : Prop := 0 ≤ address.toInt ∧ address.toInt ≤ Memory.maxAddress.toInt

instance : DecidablePred InRange := fun _ => inferInstanceAs (Decidable (_ ∧ _))

/-- Overrides as requests to memory, made before the machine starts. -/
def writes (overrides : List Override) : List Memory.Access :=
  overrides.map fun o => .write o.1 o.2

section AnyAllocator

variable [Allocator]

/-- Each override is accepted by the memory that the ones in front of it have been written to. -/
def Accepted (memory : Memory) (overrides : List Override) : Prop :=
  ∀ front o rest, overrides = front ++ o :: rest → (memory.after (writes front)).accepts o.1

section Patch

variable {memory : Memory} {overrides front rest : List Override} {o : Override}

/-- An override that is accepted is a request to memory. -/
theorem patch_cons_of_accepts (h : memory.accepts o.1) :
    patch memory (o :: rest) = patch (memory.after (writes [o])) rest := by
  have hafter : memory.after (writes [o]) = memory.store o.1.toNatClampNeg o.2 := by
    show (memory.serve (.write o.1 o.2)).1 = _
    rw [Memory.serve_write (accepts_iff.mp h).1, Int64.toNat_toInt]
  rw [hafter]
  show (memory.write o.1 o.2 >>= fun memory => patch memory rest) = _
  rw [Memory.write_of_accepts o.2 h]
  rfl

/-- An override that is refused is the error. -/
theorem patch_cons_of_not_accepts (h : ¬ memory.accepts o.1) :
    patch memory (o :: rest) = .error ⟨o.1⟩ := by
  show (memory.write o.1 o.2 >>= fun memory => patch memory rest) = _
  rw [Memory.write_of_not_accepts o.2 h]
  rfl

/-- Overrides in a row are written one part after the other. -/
theorem patch_append (memory : Memory) (front rest : List Override) :
    patch memory (front ++ rest) = patch memory front >>= fun memory => patch memory rest := by
  induction front generalizing memory with
  | nil => rfl
  | cons o front ih =>
    by_cases ho : memory.accepts o.1
    · rw [List.cons_append, patch_cons_of_accepts ho, patch_cons_of_accepts ho, ih]
    · rw [List.cons_append, patch_cons_of_not_accepts ho, patch_cons_of_not_accepts ho]
      rfl

/-- The first override meets the memory as it is, the others the one after it. -/
theorem accepted_cons : Accepted memory (o :: rest) ↔
    memory.accepts o.1 ∧ Accepted (memory.after (writes [o])) rest := by
  constructor
  · intro h
    refine ⟨h [] o rest rfl, fun front o' rest' heq => ?_⟩
    exact h (o :: front) o' rest' (by rw [heq, List.cons_append])
  · -- the list in front is empty, or starts with the same override
    rintro ⟨ho, hrest⟩ front o' rest' heq
    cases front with
    | nil =>
      cases heq
      exact ho
    | cons _ front =>
      cases heq
      exact hrest front o' rest' rfl

/-- Overrides that are accepted are requests to memory. -/
theorem patch_of_accepted (h : Accepted memory overrides) :
    patch memory overrides = .ok (memory.after (writes overrides)) := by
  induction overrides generalizing memory with
  | nil => rfl
  | cons o overrides ih =>
    obtain ⟨ho, hrest⟩ := accepted_cons.mp h
    rw [patch_cons_of_accepts ho, ih hrest]
    rfl

/-- All overrides are accepted, or there is a first one that is not. -/
theorem accepted_or_first (memory : Memory) (overrides : List Override) :
    Accepted memory overrides ∨ ∃ front o rest, overrides = front ++ o :: rest ∧
      Accepted memory front ∧ ¬ (memory.after (writes front)).accepts o.1 := by
  induction overrides generalizing memory with
  | nil => exact Or.inl fun front o rest h => absurd h (by simp)
  | cons o overrides ih =>
    by_cases ho : memory.accepts o.1
    · rcases ih (memory.after (writes [o])) with hall | ⟨front, first, rest, rfl, hfront, hfirst⟩
      · exact Or.inl (accepted_cons.mpr ⟨ho, hall⟩)
      · exact Or.inr ⟨o :: front, first, rest, rfl, accepted_cons.mpr ⟨ho, hfront⟩, hfirst⟩
    · exact Or.inr ⟨[], o, overrides, rfl, fun front o rest h => absurd h (by simp), ho⟩

/-- The first override that is refused is the error, whatever comes behind it. -/
theorem patch_of_not_accepts (hfront : Accepted memory front)
    (h : ¬ (memory.after (writes front)).accepts o.1) :
    patch memory (front ++ o :: rest) = .error ⟨o.1⟩ := by
  rw [patch_append, patch_of_accepted hfront]
  exact patch_cons_of_not_accepts h

/-- Overrides succeed if they are all accepted, and they leave what their writes make of memory. -/
theorem patch_eq_ok_iff {patched : Memory} : patch memory overrides = .ok patched ↔
    Accepted memory overrides ∧ patched = memory.after (writes overrides) := by
  rcases accepted_or_first memory overrides with hall | ⟨front, o, rest, rfl, hfront, ho⟩
  · rw [patch_of_accepted hall, Except.ok.injEq, eq_comm]
    exact (and_iff_right hall).symm
  · rw [patch_of_not_accepts hfront ho]
    constructor
    · intro h
      contradiction
    · rintro ⟨hall, -⟩
      exact absurd (hall front o rest rfl) ho

end Patch

/-- A machine starts from the words of its program and the overrides. -/
theorem extends_withOverrides {p : Program} {overrides : List Override} {m : Machine}
    (h : withOverrides p overrides = .ok m) : (ofProgram p).Extends m := by
  obtain ⟨memory, hpatch, h⟩ := bind_eq_ok.mp h
  cases h
  exact ⟨_, (patch_eq_ok_iff.mp hpatch).2⟩

end AnyAllocator

end Machine

/-! ### The main statement

What memory answers is put together from the four answers and from what a history says of cells and
extent. -/

namespace Memory

/-- Memory that has just been made, the words in it, and how many cells it has. -/
inductive Made : Memory → List Word → Nat → Prop where
  | empty : Made empty [] 0
  | load (words : List Word) : Made (load words) words (words.length + headroom)

/-- Memory answers as one that held these words, in this many cells, before a history. -/
structure Answers (m : Memory) (words : List Word) (extent : Nat) (history : List Access) :
    Prop where
  read : ∀ a : Word, 0 ≤ a.toInt → m.serve (.read a) =
    (m, .ok (some ((lastWritten? history a.toInt.toNat).getD (words.getD a.toInt.toNat 0))))
  refuseRead : ∀ a : Word, a.toInt < 0 → m.serve (.read a) = (m, .error ⟨a⟩)
  write : ∀ a v : Word, 0 ≤ a.toInt ∧ a.toInt ≤ maxAddress.toInt →
    (m.serve (.write a v)).2 = .ok none
  refuseWrite : ∀ a v : Word, ¬ (0 ≤ a.toInt ∧ a.toInt ≤ maxAddress.toInt) →
    m.serve (.write a v) = (m, .error ⟨a⟩)
  extent : IsGreatest {n | n = extent ∨ ∃ w ∈ written history, n = w.1 + 1} m.extent

/-- Memory that has just been made holds the words, and zeros behind them. -/
theorem Made.cell_eq {m : Memory} {words : List Word} {extent : Nat} (h : Made m words extent)
    (i : Nat) : m.cell i = words.getD i 0 := by
  cases h with
  | empty => exact cell_empty i
  | load => exact cell_load words i

theorem Made.extent_eq {m : Memory} {words : List Word} {extent : Nat} (h : Made m words extent) :
    m.extent = extent := by
  cases h with
  | empty => rfl
  | load => exact extent_load words

/-- Each answer of memory, after any history. -/
theorem Made.answers {m : Memory} {words : List Word} {extent : Nat} (h : Made m words extent)
    (history : List Access) : (m.after history).Answers words extent history where
  read a ha := by rw [serve_read ha, cell_after, h.cell_eq]
  refuseRead a ha := serve_read_of_neg ha
  write a v ha := by rw [serve_write ha]
  refuseWrite a v ha := serve_write_of_not ha
  extent := by
    have hgreatest := isGreatest_extent_after m history
    rw [h.extent_eq] at hgreatest
    exact hgreatest

end Memory

/-- **Memory is a map with default zero and a bounded extent.**

* After any history of requests, memory answers from the words that it has been loaded with and
  from the writes that have succeeded; a write succeeds if and only if its address is in range. What
  is refused and what is read changes nothing. The number of cells is the one at first or reaches to
  the greatest address written, whichever is more.
* Whatever is done with a machine, its memory does not lose a cell, and it does not grow beyond the
  greatest address that can be written, unless the program is longer with the room behind it. -/
theorem memory_history [Allocator] :
    (∀ m words extent, Memory.Made m words extent → ∀ history,
      (m.after history).Answers words extent history) ∧
    ∀ p overrides m t u, Machine.withOverrides p overrides = .ok m →
      Relation.ReflTransGen Machine.Operates m t → Relation.ReflTransGen Machine.Operates t u →
        t.memory.extent ≤ u.memory.extent ∧
          u.memory.extent ≤
            max (p.words.length + Memory.headroom) (Memory.maxAddress.toInt.toNat + 1) := by
  refine ⟨fun m words extent h history => h.answers history, ?_⟩
  intro p overrides m t u hmade hmt htu
  have hextends := Machine.extends_of_operates htu
  -- the whole history from the load bounds the extent above, its last part alone bounds it below
  obtain ⟨history, hu⟩ := ((Machine.extends_withOverrides hmade).trans
    (Machine.extends_of_operates hmt)).trans hextends
  obtain ⟨more, hmore⟩ := hextends
  constructor
  · rw [hmore]
    exact Memory.le_extent_after t.memory more
  · have hle := Memory.extent_after_le (Machine.ofProgram p).memory history
    rw [← hu] at hle
    rw [← Memory.extent_load]
    exact hle

/-- A cell is written twice, a write is refused, and one goes far beyond the words. -/
def sparseHistory : List Memory.Access :=
  [.write 3 5, .write (-1) 9, .write 2500 1, .write 3 6]

/-- The second value is read back, and memory reaches to the far cell. An instruction that writes
further does not go beyond the bound. -/
theorem memory_history_sparse :
    (((Memory.load [7]).after sparseHistory).serve (.read 3)).2 = .ok (some 6) ∧
    (((Memory.load [7]).after sparseHistory).serve (.read 0)).2 = .ok (some 7) ∧
    (((Memory.load [7]).after sparseHistory).serve (.write 16777216 1)).2 =
      .error ⟨16777216⟩ ∧
    ((Memory.load [7]).after sparseHistory).extent = 2501 ∧
    (Machine.ofProgram ⟨[1101, 1, 1, 3000, 99]⟩).execute.machine.memory.extent ≤ 16777216 := by
  have hanswers := memory_history.1 _ _ _ (.load [7]) sparseHistory
  refine ⟨?_, ?_, ?_, ?_, ?_⟩
  · rw [hanswers.read 3 (by decide)]
    rfl
  · rw [hanswers.read 0 (by decide)]
    rfl
  · rw [hanswers.refuseWrite 16777216 1 (by decide)]
  · have hwritten : Memory.written sparseHistory = [(3, 5), (2500, 1), (3, 6)] := rfl
    refine hanswers.extent.unique ⟨Or.inr ⟨(2500, 1), by simp [hwritten], rfl⟩, ?_⟩
    rintro n (rfl | ⟨w, hw, rfl⟩)
    · decide
    · rw [hwritten] at hw
      simp only [List.mem_cons, List.not_mem_nil, or_false] at hw
      rcases hw with rfl | rfl | rfl <;> decide
  · have hbound := memory_history.2 ⟨[1101, 1, 1, 3000, 99]⟩ [] _ _ _
      (Machine.withOverrides_nil _) .refl (.single (.execute _))
    exact Nat.le_trans hbound.2 (by decide)

end Intcode
