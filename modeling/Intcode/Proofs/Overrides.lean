import Intcode.Proofs.Consumption
import Intcode.Proofs.History

/-!
# What overrides do

Overrides are written into memory one after the other, before the machine starts. The first address
that cannot be written is reported; otherwise the machine is that of its program in everything but
memory, and memory holds at each address the last override for it.

* `withOverrides_eq_ok_iff`, `withOverrides_eq_error_iff` — when a machine is made of them;
* `lastOverride?`, `cell_after_writes` — what a cell holds afterwards;
* `Memory.eq_of_cell` — a memory is told by its cells and its extent;
* `Program.patched` — the program with the overrides in the place of its words;
* `overrides_last_win` — the main statement.
-/

namespace Intcode

namespace Memory

/-- Memories with the same cells and the same extent are the same. -/
theorem eq_of_cell {a b : Memory} (hextent : a.extent = b.extent)
    (hcell : ∀ i, a.cell i = b.cell i) : a = b := by
  obtain ⟨cells⟩ := a
  obtain ⟨cells'⟩ := b
  congr 1
  refine Array.ext hextent fun i hi hi' => ?_
  have hi_eq := hcell i
  unfold cell at hi_eq
  simpa [Array.getElem?_eq_getElem, hi, hi'] using hi_eq

end Memory

namespace Machine

/-! ### Machines with overrides

A machine is made by writing the overrides to the memory of its program. Each of them meets the
memory that those in front of it have left, so whether it is accepted depends on them, but only for
want of room. -/

section Machines

variable {p : Program} {overrides front rest : List Override} {o : Override} {m : Machine}

section AnyAllocator

variable [Allocator]

/-- Overrides that are all accepted are writes to the memory of the program. -/
theorem withOverrides_of_accepted (p : Program) (h : Accepted (.load p.words) overrides) :
    withOverrides p overrides =
      .ok { ofProgram p with memory := (Memory.load p.words).after (writes overrides) } := by
  have hpatch : patch (ofProgram p).memory overrides = _ := patch_of_accepted h
  unfold withOverrides
  rw [hpatch]
  rfl

/-- The first one that is refused is reported. -/
theorem withOverrides_of_not_accepts (p : Program) (hfront : Accepted (.load p.words) front)
    (h : ¬ ((Memory.load p.words).after (writes front)).accepts o.1) :
    withOverrides p (front ++ o :: rest) = .error ⟨o.1⟩ := by
  have hpatch : patch (ofProgram p).memory (front ++ o :: rest) = _ :=
    patch_of_not_accepts hfront h
  unfold withOverrides
  rw [hpatch]
  rfl

/-- When a machine is made, and which one it is. -/
theorem withOverrides_eq_ok_iff :
    withOverrides p overrides = .ok m ↔ Accepted (.load p.words) overrides ∧
      m = { ofProgram p with memory := (Memory.load p.words).after (writes overrides) } := by
  refine bind_eq_ok.trans ?_
  constructor
  · rintro ⟨memory, hpatch, hmachine⟩
    obtain ⟨haccepted, rfl⟩ := patch_eq_ok_iff.mp hpatch
    exact ⟨haccepted, (Except.ok.inj hmachine).symm⟩
  · rintro ⟨haccepted, rfl⟩
    exact ⟨_, patch_of_accepted haccepted, rfl⟩

/-- A machine is made if all overrides are accepted. -/
theorem exists_withOverrides_iff :
    (∃ m, withOverrides p overrides = .ok m) ↔ Accepted (.load p.words) overrides := by
  constructor
  · rintro ⟨m, h⟩
    exact (withOverrides_eq_ok_iff.mp h).1
  · intro h
    exact ⟨_, withOverrides_of_accepted p h⟩

/-- The error names the first address that is refused. -/
theorem withOverrides_eq_error_iff {e : AddressError} :
    withOverrides p overrides = .error e ↔ ∃ front o rest, overrides = front ++ o :: rest ∧
      Accepted (.load p.words) front ∧
        ¬ ((Memory.load p.words).after (writes front)).accepts o.1 ∧ e = ⟨o.1⟩ := by
  constructor
  · intro h
    rcases accepted_or_first (.load p.words) overrides with
      hall | ⟨front, o, rest, rfl, hfront, ho⟩
    · rw [withOverrides_of_accepted p hall] at h
      contradiction
    · rw [withOverrides_of_not_accepts p hfront ho] at h
      exact ⟨front, o, rest, rfl, hfront, ho, (Except.error.inj h).symm⟩
  · rintro ⟨front, o, rest, rfl, hfront, ho, rfl⟩
    exact withOverrides_of_not_accepts p hfront ho

/-! ### Addresses and room

An override is refused for its address, or because there is no room for its cell. Both are said
apart here, since only the address is up to whoever writes the overrides. -/

/-- There is room for the cell of each override after the ones in front of it. -/
def HasRoomFor (memory : Memory) (overrides : List Override) : Prop :=
  ∀ front o rest, overrides = front ++ o :: rest →
    (memory.after (writes front)).hasRoom o.1.toInt.toNat

/-- What is accepted has an address that can be written. -/
theorem inRange_of_accepted {memory : Memory} (h : Accepted memory overrides) :
    ∀ o ∈ overrides, InRange o.1 := by
  intro o ho
  obtain ⟨front, rest, rfl⟩ := List.append_of_mem ho
  exact (accepts_iff.mp (h front o rest rfl)).1

/-- To be accepted takes an address in range, and room. -/
theorem accepted_iff {memory : Memory} : Accepted memory overrides ↔
    (∀ o ∈ overrides, InRange o.1) ∧ HasRoomFor memory overrides := by
  constructor
  · intro h
    exact ⟨inRange_of_accepted h, fun front o rest heq => (accepts_iff.mp (h front o rest heq)).2⟩
  · rintro ⟨hrange, hroom⟩ front o rest rfl
    exact accepts_iff.mpr ⟨hrange o (by simp), hroom front o rest rfl⟩

/-- Who grants every request has room for all overrides. -/
theorem hasRoom_of_grants (h : ∀ memory n, Allocator.grants memory n) (memory : Memory) (i : Nat) :
    memory.hasRoom i := by
  unfold Memory.hasRoom
  rw [h, Bool.or_true]

/-- Where room is always granted, the addresses decide. -/
theorem accepted_iff_inRange (h : ∀ memory n, Allocator.grants memory n) {memory : Memory} :
    Accepted memory overrides ↔ ∀ o ∈ overrides, InRange o.1 :=
  accepted_iff.trans (and_iff_left fun _ _ _ _ => hasRoom_of_grants h _ _)

end AnyAllocator

/-! ### The last override for an address

Overrides are requests to memory, so what a cell holds is known from its history. It only remains to
tell the history in terms of addresses instead of cells. -/

/-- The value of the last override for an address. -/
def lastOverride? (overrides : List Override) (address : Int) : Option Word :=
  (overrides.reverse.find? fun o => o.1.toInt == address).map Prod.snd

/-- In range, every override is a write that succeeds. -/
theorem written_writes (h : ∀ o ∈ overrides, InRange o.1) :
    Memory.written (writes overrides) = overrides.map fun o => (o.1.toInt.toNat, o.2) := by
  induction overrides with
  | nil => rfl
  | cons o overrides ih =>
    obtain ⟨ho, hrest⟩ := List.forall_mem_cons.mp h
    rw [List.map_cons, ← ih hrest]
    exact List.filterMap_cons_some (if_pos ho)

/-- The last write to a cell is the last override for its address. -/
theorem lastWritten?_writes (h : ∀ o ∈ overrides, InRange o.1) (i : Nat) :
    Memory.lastWritten? (writes overrides) i = lastOverride? overrides i := by
  unfold Memory.lastWritten? lastOverride?
  rw [written_writes h, ← List.map_reverse]
  have hreverse : ∀ o ∈ overrides.reverse, InRange o.1 := fun o ho => h o (List.mem_reverse.mp ho)
  generalize overrides.reverse = reversed at hreverse
  induction reversed with
  | nil => rfl
  | cons o reversed ih =>
    obtain ⟨⟨hnonneg, -⟩, hrest⟩ := List.forall_mem_cons.mp hreverse
    rw [List.map_cons, List.lookup_cons, List.find?_cons, ih hrest]
    -- addresses in range are the same if their cells are
    by_cases hi : o.1.toInt = i
    · have hsame : (i == o.1.toInt.toNat) = true := by rw [beq_iff_eq]; omega
      rw [hsame, beq_iff_eq.mpr hi]
      rfl
    · have hother : (i == o.1.toInt.toNat) = false := by rw [beq_eq_false_iff_ne]; omega
      rw [hother, beq_eq_false_iff_ne.mpr hi]

/-- A cell holds the last override for it, or what it has held before. -/
theorem cell_after_writes (memory : Memory) (h : ∀ o ∈ overrides, InRange o.1) (i : Nat) :
    (memory.after (writes overrides)).cell i =
      (lastOverride? overrides i).getD (memory.cell i) := by
  rw [Memory.cell_after, lastWritten?_writes h]

/-- Memory reaches as far as with the program alone, or to the greatest address. -/
theorem isGreatest_extent_of_inRange (h : ∀ o ∈ overrides, InRange o.1) :
    IsGreatest {n | n = p.words.length + Memory.headroom ∨
      ∃ o ∈ overrides, n = o.1.toInt.toNat + 1}
      ((Memory.load p.words).after (writes overrides)).extent := by
  have hgreatest := Memory.isGreatest_extent_after (Memory.load p.words) (writes overrides)
  rw [written_writes h, Memory.extent_load] at hgreatest
  simpa only [List.mem_map, exists_exists_and_eq_and] using hgreatest

/-- An address that is in no override has no last one. -/
theorem lastOverride?_eq_none {address : Int} (h : ∀ o ∈ overrides, o.1.toInt ≠ address) :
    lastOverride? overrides address = none := by
  have hnone : overrides.reverse.find? (fun o => o.1.toInt == address) = none := by
    rw [List.find?_eq_none]
    intro o ho
    simpa using h o (List.mem_reverse.mp ho)
  unfold lastOverride?
  rw [hnone]
  rfl

end Machines

end Machine

/-! ### Programs with overrides in them

If all addresses are inside of the program, there is a program that has the values in their places
to begin with. It is loaded to the same memory, so nothing that is done with the machine afterwards
can tell the two apart. -/

/-- A program with the last overrides in the place of its words. -/
def Program.patched (p : Program) (overrides : List Override) : Program :=
  ⟨p.words.mapIdx fun i word => (Machine.lastOverride? overrides i).getD word⟩

namespace Machine

variable {p : Program} {overrides : List Override} {m : Machine}

/-- Overrides inside a program do what replacing its words does. -/
theorem after_writes_of_inside (h : ∀ o ∈ overrides, InRange o.1)
    (hinside : ∀ o ∈ overrides, o.1.toInt < p.words.length) :
    (Memory.load p.words).after (writes overrides) = .load (p.patched overrides).words := by
  have hlength : (p.patched overrides).words.length = p.words.length := List.length_mapIdx
  refine Memory.eq_of_cell ?_ fun i => ?_
  · -- no override adds a cell
    rw [Memory.extent_load, hlength]
    refine (isGreatest_extent_of_inRange h).unique ⟨Or.inl rfl, ?_⟩
    rintro n (rfl | ⟨o, ho, rfl⟩)
    · exact Nat.le_refl _
    · have hnonneg := (h o ho).1
      have hlt := hinside o ho
      omega
  · rw [cell_after_writes _ h, Memory.cell_load, Memory.cell_load, List.getD_eq_getElem?_getD,
      List.getD_eq_getElem?_getD]
    by_cases hi : i < p.words.length
    · simp [Program.patched, hi]
    · have hlast : lastOverride? overrides i = none := by
        -- behind the program there is no override, and nothing else either
        refine lastOverride?_eq_none fun o ho => ?_
        have hlt := hinside o ho
        omega
      simp [Program.patched, hi, hlast]

/-! ### The main statement -/

/-- A text is parsed first, and then its program is patched. -/
theorem ofSource_eq [Allocator] (source : String) (overrides : List Override) :
    ofSource source overrides =
      match Program.parse source with
      | .error e => .error (.parse e)
      | .ok p => (withOverrides p overrides).mapError .override := by
  unfold ofSource
  cases Program.parse source with
  | error e => rfl
  | ok p =>
    dsimp only
    cases withOverrides p overrides <;> rfl

/-- What a machine with overrides is. -/
structure Overridden (p : Program) (overrides : List Override) (m : Machine) : Prop where
  read : ∀ a : Word, 0 ≤ a.toInt → m.memory.read a =
    .ok ((lastOverride? overrides a.toInt).getD (p.words.getD a.toInt.toNat 0))
  extent : IsGreatest {n | n = p.words.length + Memory.headroom ∨
    ∃ o ∈ overrides, n = o.1.toInt.toNat + 1} m.memory.extent
  rest : m = { ofProgram p with memory := m.memory }
  inside : (∀ o ∈ overrides, o.1.toInt < p.words.length) → m = ofProgram (p.patched overrides)

/-- A machine that is made of overrides is such a machine. -/
theorem overridden_of_withOverrides [Allocator] (h : withOverrides p overrides = .ok m) :
    Overridden p overrides m := by
  obtain ⟨haccepted, rfl⟩ := withOverrides_eq_ok_iff.mp h
  have hrange := inRange_of_accepted haccepted
  refine ⟨fun a ha => ?_, isGreatest_extent_of_inRange hrange, rfl, fun hinside => ?_⟩
  · have hread : ((Memory.load p.words).after (writes overrides)).read a =
        .ok (((Memory.load p.words).after (writes overrides)).cell a.toNatClampNeg) :=
      if_neg (not_neg_iff_nonneg.mpr ha)
    rw [hread, cell_after_writes _ hrange, Memory.cell_load, ← Int64.toNat_toInt,
      Int.toNat_of_nonneg ha]
  · unfold ofProgram
    rw [after_writes_of_inside hrange hinside]

/-- **Overrides are a patch in which the last one wins.**

* A machine is made if and only if every address can be written and there is room for each cell.
  Otherwise the error names the first override that is refused, after others of which a machine is
  made. So if every request for room is granted, it is the addresses alone that decide.
* The machine reads at each address the last override for it, or else the word of the program, or
  else zero. Its memory reaches as far as the program with the room behind it, or to the greatest
  address of an override, whichever is more. Nothing else is changed.
* If no address is beyond the program, the machine is that of the program with the overrides in the
  place of its words, and so is every run of it.
* Made from a text, it is the text that is complained about first. -/
theorem overrides_last_win [Allocator] (overrides : List Override) :
    (∀ p, (∃ m, withOverrides p overrides = .ok m) ↔
      (∀ o ∈ overrides, InRange o.1) ∧ HasRoomFor (.load p.words) overrides) ∧
    (∀ p e, withOverrides p overrides = .error e ↔ ∃ front o rest m,
      overrides = front ++ o :: rest ∧ withOverrides p front = .ok m ∧
        (¬ InRange o.1 ∨ ¬ m.memory.hasRoom o.1.toInt.toNat) ∧ e = ⟨o.1⟩) ∧
    ((∀ memory n, Allocator.grants memory n) → ∀ p,
      ((∃ m, withOverrides p overrides = .ok m) ↔ ∀ o ∈ overrides, InRange o.1) ∧
      ∀ e, withOverrides p overrides = .error e ↔ ∃ front o rest, overrides = front ++ o :: rest ∧
        (∀ o' ∈ front, InRange o'.1) ∧ ¬ InRange o.1 ∧ e = ⟨o.1⟩) ∧
    (∀ p m, withOverrides p overrides = .ok m → Overridden p overrides m ∧
      ((∀ o ∈ overrides, o.1.toInt < p.words.length) → ∀ fuel inputs,
        (∀ source, m.run fuel source = (ofProgram (p.patched overrides)).run fuel source) ∧
        (((m.extendInput inputs).run fuel []).map Run.verdict =
          runProgram fuel (p.patched overrides) inputs))) ∧
    ∀ source,
      (∀ e, ofSource source overrides = .error (.parse e) ↔ Program.parse source = .error e) ∧
      ∀ p, Program.parse source = .ok p →
        ofSource source overrides = (withOverrides p overrides).mapError .override := by
  refine ⟨fun p => exists_withOverrides_iff.trans accepted_iff, fun p e => ?_, fun hgrants p => ?_,
    fun p m h => ?_, fun source => ?_⟩
  · rw [withOverrides_eq_error_iff]
    constructor
    · rintro ⟨front, o, rest, heq, hfront, ho, he⟩
      rw [accepts_iff, not_and_or] at ho
      exact ⟨front, o, rest, _, heq, withOverrides_of_accepted p hfront, ho, he⟩
    · rintro ⟨front, o, rest, m, heq, hfront, ho, he⟩
      obtain ⟨haccepted, rfl⟩ := withOverrides_eq_ok_iff.mp hfront
      refine ⟨front, o, rest, heq, haccepted, ?_, he⟩
      rw [accepts_iff, not_and_or]
      exact ho
  · -- with room for everything it is the same to be accepted and to be in range
    refine ⟨exists_withOverrides_iff.trans (accepted_iff_inRange hgrants), fun e => ?_⟩
    rw [withOverrides_eq_error_iff]
    have haccepts : ∀ {memory : Memory} {a : Word}, memory.accepts a ↔ InRange a :=
      accepts_iff.trans (and_iff_left (hasRoom_of_grants hgrants _ _))
    simp only [accepted_iff_inRange hgrants, haccepts]
  · have hoverridden := overridden_of_withOverrides h
    refine ⟨hoverridden, fun hinside fuel inputs => ?_⟩
    rw [hoverridden.inside hinside]
    exact ⟨fun _ => rfl, (runProgram_eq ..).symm⟩
  · rw [ofSource_eq]
    cases hparse : Program.parse source with
    | error e => simp
    | ok p =>
      refine ⟨fun e => ?_, ?_⟩
      · dsimp only
        cases withOverrides p overrides <;> simp [Except.mapError]
      · rintro _ ⟨⟩
        rfl

/-- The second override for an address counts. One beyond the memory of the program is no fault, but
the negative one behind it is, and comes in front of one that is too great. In a text that is no
program no override is looked at. Where no more than some cells are granted, an override for which
there is no room is refused although its address is in range. -/
theorem overrides_last_win_twice :
    withOverrides ⟨[1, 0, 0, 0, 99]⟩ [(1, 12), (2, 2), (1, 7)] =
      .ok (ofProgram ⟨[1, 7, 2, 0, 99]⟩) ∧
    withOverrides ⟨[99]⟩ [(2500, 9), (-1, 0), (16777216, 1)] = .error ⟨-1⟩ ∧
    ofSource "1,x" [(-1, 0)] = .error (.parse (.invalidWord 1 "x")) ∧
    @withOverrides (.upTo 100000) ⟨[99]⟩ [(16777215, 1), (-1, 0)] = .error ⟨16777215⟩ := by
  refine ⟨?_, ?_, ?_, ?_⟩
  · obtain ⟨-, -, hgranted, hmachine, -⟩ := overrides_last_win [(1, 12), (2, 2), (1, 7)]
    have hinside : ∀ o ∈ [((1 : Word), (12 : Word)), (2, 2), (1, 7)],
        InRange o.1 ∧ o.1.toInt < 5 := by
      simp only [List.forall_mem_cons]
      exact ⟨by decide, by decide, by decide, by simp⟩
    obtain ⟨m, hm⟩ := (hgranted (fun _ _ => rfl) ⟨[1, 0, 0, 0, 99]⟩).1.mpr fun o ho =>
      (hinside o ho).1
    rw [hm, (hmachine _ m hm).1.inside fun o ho => (hinside o ho).2]
    rfl
  · have hfront : ∀ o ∈ [((2500 : Word), (9 : Word))], InRange o.1 := by
      simp only [List.forall_mem_cons]
      exact ⟨by decide, by simp⟩
    exact (((overrides_last_win _).2.2.1 (fun _ _ => rfl) _).2 _).mpr
      ⟨[(2500, 9)], (-1, 0), [(16777216, 1)], rfl, hfront, by decide, rfl⟩
  · exact (((overrides_last_win _).2.2.2.2 _).1 _).mpr rfl
  · -- an allocator with room for a hundred thousand cells refuses an address in range
    let _ : Allocator := .upTo 100000
    have hroom : ¬ (Memory.load [99]).hasRoom 16777215 := by
      unfold Memory.hasRoom
      rw [Memory.extent_load]
      decide
    exact ((overrides_last_win _).2.1 _ _).mpr
      ⟨[], (16777215, 1), [(-1, 0)], _, rfl, withOverrides_nil _, Or.inr hroom, rfl⟩

end Machine

end Intcode
