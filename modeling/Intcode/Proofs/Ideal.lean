import Mathlib.Algebra.Group.Int.Defs
import Intcode.Machine.Run

/-!
# The ideal machine

The machine that programs are written for. Its cells hold integers of any size, there is a cell for
every address from zero on, and a cell that has not been written holds zero. A machine on words
approximates it: it fails where a result is no word or a cell is out of reach, and otherwise does
the same.

* `Ideal.step` — one instruction, with the event that it ends in; `none` if there is no such
  instruction, or if it reaches for a negative address;
* `Ideal.Execution` — a run up to the event that ends it, with all that is emitted on the way;
* `Machine.ideal` — the ideal machine in the state of a machine on words.
-/

namespace Intcode

/-- The state of an ideal machine. -/
structure Ideal where
  ip : Int
  relativeBase : Int
  /-- The contents of each cell. -/
  cell : Nat → Int
  /-- The input values that wait to be read, the next one first. -/
  input : List Int
  halted : Bool

namespace Ideal

/-- What an ideal machine tells whoever drives it. -/
inductive Event where
  | awaitInput
  | output (value : Int)
  | halted
  deriving DecidableEq, Repr

/-! ### Memory

There is no end to memory, so an address can only be negative. -/

/-- The value at an address, which must not be negative. -/
def read (s : Ideal) (address : Int) : Option Int :=
  if 0 ≤ address then some (s.cell address.toNat) else none

/-- The cells after one of them has been set. -/
def update (cell : Nat → Int) (i : Nat) (value : Int) : Nat → Int :=
  fun j => if j = i then value else cell j

/-- Writes a value to an address, which must not be negative. -/
def write (s : Ideal) (address value : Int) : Option Ideal :=
  if 0 ≤ address then some { s with cell := update s.cell address.toNat value } else none

/-! ### Instruction words

The digits of an instruction word are those of the program text, found by division. -/

/-- The opcode in the last two decimal digits of a word. -/
def opcode? (word : Int) : Option Opcode :=
  match word.tmod 100 with
  | 1 => some .add
  | 2 => some .mul
  | 3 => some .input
  | 4 => some .output
  | 5 => some .jumpIfTrue
  | 6 => some .jumpIfFalse
  | 7 => some .lessThan
  | 8 => some .equals
  | 9 => some .adjustBase
  | 99 => some .halt
  | _ => none

/-- The decimal digit of a word that tells the mode of the operand at `index`. -/
def modeDigit (word : Int) (index : Nat) : Int := (word.tdiv (10 ^ (index + 2))).tmod 10

/-- The address that the operand at `index` of an instruction stands for. -/
def address (s : Ideal) (word : Int) (op : Opcode) (index : Nat) : Option Int :=
  let cell := s.ip + index + 1
  match modeDigit word index with
  | 0 => s.read cell
  | 1 => if op.writeOperand? = some index then none else some cell
  | 2 => (s.read cell).map (s.relativeBase + ·)
  | _ => none

/-- The addresses of all operands of an instruction. -/
def addresses (s : Ideal) (word : Int) (op : Opcode) : Option (List Int) :=
  (List.range op.operandCount).mapM (s.address word op)

/-! ### Execution

An instruction is given by what it reads and writes. Whatever it cannot do is `none`, so there are
no errors to be told apart. -/

/-- Reads two operands and writes what `f` makes of them. -/
def combine (s next : Ideal) (f : Int → Int → Int) (a b c : Int) :
    Option (Option Event × Ideal) := do
  let x ← s.read a
  let y ← s.read b
  let t ← next.write c (f x y)
  return (none, t)

/-- Reads an operand and goes on at the second one if the first one passes a test. -/
def jumpIf (s next : Ideal) (test : Int → Bool) (a b : Int) : Option (Option Event × Ideal) := do
  let x ← s.read a
  if test x then
    let target ← s.read b
    return (none, { next with ip := target })
  else
    return (none, next)

/-- Writes the next input value. A machine without input stays as it is. -/
def receive (s next : Ideal) (a : Int) : Option (Option Event × Ideal) :=
  match s.input with
  | [] => some (some .awaitInput, s)
  | value :: rest => do
    let t ← { next with input := rest }.write a value
    return (none, t)

/-- What an opcode does with operands at these addresses. In `next` the machine stands behind the
instruction already; `s` is the machine in front of it. -/
def act (s next : Ideal) : Opcode → List Int → Option (Option Event × Ideal)
  | .add, [a, b, c] => s.combine next (· + ·) a b c
  | .mul, [a, b, c] => s.combine next (· * ·) a b c
  | .input, [a] => s.receive next a
  | .output, [a] => do
    let x ← s.read a
    return (some (.output x), next)
  | .jumpIfTrue, [a, b] => s.jumpIf next (· ≠ 0) a b
  | .jumpIfFalse, [a, b] => s.jumpIf next (· = 0) a b
  | .lessThan, [a, b, c] => s.combine next (fun x y => if x < y then 1 else 0) a b c
  | .equals, [a, b, c] => s.combine next (fun x y => if x = y then 1 else 0) a b c
  | .adjustBase, [a] => do
    let x ← s.read a
    return (none, { next with relativeBase := s.relativeBase + x })
  | .halt, [] => some (some .halted, { s with halted := true })
  | _, _ => none

/-- Runs one instruction. A machine that has halted stays as it is. -/
def step (s : Ideal) : Option (Option Event × Ideal) :=
  if s.halted then
    some (some .halted, s)
  else do
    let word ← s.read s.ip
    let op ← opcode? word
    let operands ← s.addresses word op
    s.act { s with ip := s.ip + op.operandCount + 1 } op operands

/-- A run from `s` emits `outputs`, and ends in `event` with the machine in state `t`. -/
inductive Execution : Ideal → List Int → Event → Ideal → Prop where
  | quiet {s s' t : Ideal} {outputs : List Int} {event : Event} (h : s.step = some (none, s'))
      (rest : Execution s' outputs event t) : Execution s outputs event t
  | output {s s' t : Ideal} {value : Int} {outputs : List Int} {event : Event}
      (h : s.step = some (some (.output value), s')) (rest : Execution s' outputs event t) :
      Execution s (value :: outputs) event t
  | awaitInput {s t : Ideal} (h : s.step = some (some .awaitInput, t)) :
      Execution s [] .awaitInput t
  | halted {s t : Ideal} (h : s.step = some (some .halted, t)) : Execution s [] .halted t

/-- A run ends in one way only. -/
theorem Execution.unique {s t t' : Ideal} {outputs outputs' : List Int} {event event' : Event}
    (h : Execution s outputs event t) (h' : Execution s outputs' event' t') :
    outputs' = outputs ∧ event' = event ∧ t' = t := by
  -- one step of this machine has one outcome, which decides with which constructor the other run
  -- goes on
  induction h generalizing outputs' event' t' with
  | quiet hstep _ ih =>
    cases h' with
    | quiet hstep' rest' =>
      rw [hstep] at hstep'
      cases hstep'
      exact ih rest'
    | output hstep' _ | awaitInput hstep' | halted hstep' =>
      rw [hstep] at hstep'
      cases hstep'
  | output hstep _ ih =>
    cases h' with
    | output hstep' rest' =>
      rw [hstep] at hstep'
      cases hstep'
      obtain ⟨houtputs, hrest⟩ := ih rest'
      exact ⟨by rw [houtputs], hrest⟩
    | quiet hstep' _ | awaitInput hstep' | halted hstep' =>
      rw [hstep] at hstep'
      cases hstep'
  | awaitInput hstep =>
    cases h' with
    | awaitInput hstep' =>
      rw [hstep] at hstep'
      cases hstep'
      exact ⟨rfl, rfl, rfl⟩
    | quiet hstep' _ | output hstep' _ | halted hstep' =>
      rw [hstep] at hstep'
      cases hstep'
  | halted hstep =>
    cases h' with
    | halted hstep' =>
      rw [hstep] at hstep'
      cases hstep'
      exact ⟨rfl, rfl, rfl⟩
    | quiet hstep' _ | output hstep' _ | awaitInput hstep' =>
      rw [hstep] at hstep'
      cases hstep'

/-- No run ends in an output. -/
theorem Execution.ne_output {s t : Ideal} {outputs : List Int} {event : Event}
    (h : Execution s outputs event t) (value : Int) : event ≠ .output value := by
  induction h with
  | quiet _ _ ih | output _ _ ih => exact ih
  | awaitInput | halted => simp

/-! ### Loading

A program fills the first cells, and overrides replace some of them, also beyond the program. -/

/-- An ideal machine at the start of a program: the program stands from address zero on, and each
override has replaced a cell, the later ones over the earlier ones. -/
def start (words : List Int) (overrides : List (Int × Int)) (input : List Int) : Ideal where
  ip := 0
  relativeBase := 0
  cell := overrides.foldl (fun cell o => update cell o.1.toNat o.2) (words.getD · 0)
  input := input
  halted := false

end Ideal

/-! ### From words to integers

A machine on words is in a state of the ideal machine: words are read as integers, and cells that do
not exist hold zero. -/

/-- The event of the ideal machine. -/
def Event.ideal : Event → Ideal.Event
  | .awaitInput => .awaitInput
  | .output value => .output value.toInt
  | .halted => .halted

/-- The ideal machine in the same state. -/
def Machine.ideal (m : Machine) : Ideal where
  ip := m.ip.toInt
  relativeBase := m.relativeBase.toInt
  cell i := (m.memory.cell i).toInt
  input := m.input.map Int64.toInt
  halted := m.halted

end Intcode
