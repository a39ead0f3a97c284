import Intcode.Machine.Run

/-!
# Rings of machines

Machines in a ring: what each one emits is input of the next one, and what the last one emits is
input of the first. The machines take turns. A turn runs a machine until it halts or waits for
input, then hands over all it has emitted; a round gives every machine one turn.

The ring comes to its end when every machine has halted in a round. A round in which some machine
still waits and no machine has emitted anything would repeat for ever, and is reported as deadlock.
-/

namespace Intcode.Ring

open Intcode.Machine (Run)

variable [Allocator]

/-- What a round leads to. -/
structure Round where
  machines : List Machine
  /-- What the last machine has emitted, which nobody has received yet. -/
  outgoing : List Word
  /-- Whether any machine has emitted a value. -/
  produced : Bool
  /-- Whether any machine waits for input. -/
  waiting : Bool
  deriving DecidableEq, Repr

/-- A round that broke off: the machines as they are then, and the error. -/
structure Failure where
  machines : List Machine
  error : RuntimeError
  deriving DecidableEq, Repr

/-- Puts the turn of one machine in front of the turns behind it. -/
def Round.cons (m : Machine) (emitted waiting : Bool) (r : Round) : Round :=
  { r with
    machines := m :: r.machines
    produced := emitted || r.produced
    waiting := waiting || r.waiting }

/-- Puts a machine that has had its turn in front of machines that broke off. -/
def Failure.cons (m : Machine) (f : Failure) : Failure := { f with machines := m :: f.machines }

/-- Gives each machine its turn, the first one with `incoming` behind its input. -/
def round (fuel : Nat) (incoming : List Word) : List Machine → Option (Except Failure Round)
  | [] => some (.ok ⟨[], incoming, false, false⟩)
  | m :: ms =>
    match (m.extendInput incoming).run fuel [] with
    | none => none
    | some (⟨m, _, _, _⟩, .error e) => some (.error ⟨m :: ms, e⟩)
    | some (⟨m, _, outputs, _⟩, .ok event) =>
      match round fuel outputs.toList ms with
      | none => none
      | some (.error f) => some (.error (f.cons m))
      | some (.ok r) => some (.ok (r.cons m (!outputs.isEmpty) (event == .awaitInput)))

/-- Puts values behind the input of the first machine. -/
def feed (values : List Word) : List Machine → List Machine
  | [] => []
  | m :: ms => m.extendInput values :: ms

/-! ### Going from round to round

A ring goes on as long as some machine waits and some machine has emitted a value in the round that
is over. One round is one step of an iteration, `Config.advance`, so that what is said of the rounds
of a ring is said of the states of that iteration. -/

/-- A ring that is run: its machines, and what the last one has emitted last. -/
@[ext]
structure Config where
  machines : List Machine
  /-- What the last machine has emitted last. -/
  last : Option Word
  deriving DecidableEq, Repr

/-- The machines at the end, and the last value that the last machine has emitted. -/
abbrev Outcome := List Machine × Except RuntimeError (Option Word)

namespace Config

/-- A ring after its first machine has got a first value. -/
def start (ms : List Machine) (seed : Word) : Config := ⟨feed [seed] ms, none⟩

/-- The ring after a round. What the last machine has emitted waits at the first one. -/
def after (c : Config) (r : Round) : Config :=
  ⟨feed r.outgoing r.machines, r.outgoing.getLast?.or c.last⟩

/-- Goes through one round, each turn of it with this fuel. The ring comes to an end if its fuel
does not suffice for some turn, if a machine fails, if none waits any more, or if those that wait
have got nothing. -/
def advance (fuel : Nat) (c : Config) : Config ⊕ Option Outcome :=
  match round fuel [] c.machines with
  | none => .inr none
  | some (.error f) => .inr (some (f.machines, .error f.error))
  | some (.ok r) =>
    if !r.waiting then .inr (some ((c.after r).machines, .ok (c.after r).last))
    else if !r.produced then .inr (some ((c.after r).machines, .error .deadlock))
    else .inl (c.after r)

end Config

/-- Goes through rounds, at most `rounds` of them, each turn with this fuel. -/
def loop (fuel rounds : Nat) (c : Config) : Option Outcome :=
  (iterate (Config.advance fuel) rounds c).join

/-- Runs a ring of machines after giving a first value to the first one. -/
def run (fuel : Nat) (ms : List Machine) (seed : Word) : Option Outcome :=
  match ms with
  | [] => some ([], .ok none)
  | ms => loop fuel fuel (.start ms seed)

end Intcode.Ring
