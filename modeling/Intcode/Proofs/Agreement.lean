import Mathlib.Algebra.Group.Nat.Defs
import Mathlib.Data.List.Forall2
import Intcode.Proofs.RoundTrip
import Intcode.Proofs.Simulation

/-!
# Listings show what a machine does

The disassembler and the machine take instruction words apart on their own: the one all at once,
the other no further than an instruction gets. Where a word is shown as an instruction, the machine
does what the line says, with the operands that the line shows. Where it is shown as data, the
machine fails, or the line would be assembled to another word, or the line would be cut off.

* `Machine.Names`, `Machine.Means` — the cell and the value that an operand stands for as shown;
* `Machine.Performs`, `Machine.Faults` — what a line does, by its opcode and its operands;
* `Machine.operandAddress_eq` — where the machine finds an operand that is shown;
* `performs_of_shows`, `faults_of_shows` — the machine does what the line says;
* `error_of_instructionAhead?_eq_none` — words that are not shown;
* `execute_agrees` — the main statement.
-/

namespace Intcode

/-! ### Operands as they are shown

A line shows of an operand its number and a mark. What these stand for is said here without the
words of the instruction: by the registers and the memory of a machine alone. -/

namespace Machine

/-- The cell that an operand names: a bare number is the address of the cell, and a number behind
`@` is its distance from the relative base. -/
inductive Names (m : Machine) : Operand → Word → Prop where
  | bare (n : Word) : Names m ⟨.position, n⟩ n
  | based {n a : Word} (h : a.toInt = m.relativeBase.toInt + n.toInt) : Names m ⟨.relative, n⟩ a

/-- The value that an operand stands for: a number behind `#` is the value, and any other operand
stands for the value in the cell that it names. -/
inductive Means (m : Machine) : Operand → Word → Prop where
  | literal (n : Word) : Means m ⟨.immediate, n⟩ n
  | held {o : Operand} {a v : Word} (names : m.Names o a) (holds : m.load a = .ok v) : Means m o v

/-- The address that the machine works with for an operand: that of the cell which it names, or
that of a cell which holds its value. -/
inductive Locates (m : Machine) : Operand → Word → Prop where
  | named {o : Operand} {a : Word} (names : m.Names o a) : Locates m o a
  | literal {n a : Word} (holds : m.load a = .ok n) : Locates m ⟨.immediate, n⟩ a

namespace Locates

variable {m : Machine} {o : Operand} {a : Word}

/-- The value that is loaded for an operand is the one that the operand stands for. -/
theorem means {v : Word} (h : m.Locates o a) (hload : m.load a = .ok v) : m.Means o v := by
  cases h with
  | named names => exact .held names hload
  | literal holds =>
    cases holds.symm.trans hload
    exact .literal v

/-- The address for an operand that is written to is that of the cell which it names. -/
theorem names {op : Opcode} {index : Nat} (h : m.Locates o a) (hadmits : op.admits index o.mode)
    (hwrite : op.writeOperand? = some index) : m.Names o a := by
  cases h with
  | named names => exact names
  | literal =>
    -- an operand that is written to cannot be a value
    simp [Opcode.admits, hwrite] at hadmits

/-- An address that cannot be loaded from is not where the operand itself stands. -/
theorem names_of_error {e : RuntimeError} (h : m.Locates o a) (hload : m.load a = .error e) :
    m.Names o a := by
  cases h with
  | named names => exact names
  | literal holds => cases holds.symm.trans hload

end Locates

end Machine

/-! ### What a line does

The meaning of a line is given a second time here, for its opcode and its operands as they are
shown. It owes nothing to how the machine gets at them. -/

namespace Opcode

/-- What an opcode that takes two values to a third one makes of them, if it is a word. -/
def result? : Opcode → Word → Word → Option Word
  | .add, x, y => Word.add? x y
  | .mul, x, y => Word.mul? x y
  | .lessThan, x, y => some (.ofBool (x < y))
  | .equals, x, y => some (.ofBool (x = y))
  | _, _, _ => none

/-- Whether a jump is taken, by the value that it tests. -/
def taken? : Opcode → Word → Option Bool
  | .jumpIfTrue, x => some (x ≠ 0)
  | .jumpIfFalse, x => some (x = 0)
  | _, _ => none

end Opcode

namespace Machine

/-- What a line does when it does not fail: the event that it ends in, and the machine after it.
The next line is at `next`. -/
inductive Performs [Allocator] (m : Machine) (next : Word) :
    Opcode → List Operand → Option Event → Machine → Prop where
  | combine {op : Opcode} {a b c : Operand} {x y z address : Word} (hx : m.Means a x)
      (hy : m.Means b y) (hz : op.result? x y = some z) (hc : m.Names c address)
      (writable : m.memory.accepts address) :
      Performs m next op [a, b, c] none
        { m with ip := next, memory := m.memory.store address.toNatClampNeg z }
  | receive {a : Operand} {address value : Word} {rest : List Word}
      (hinput : m.input = value :: rest) (ha : m.Names a address)
      (writable : m.memory.accepts address) :
      Performs m next .input [a] none
        { m with
          ip := next, input := rest, memory := m.memory.store address.toNatClampNeg value }
  | await {a : Operand} {address : Word} (hinput : m.input = []) (ha : m.Names a address) :
      Performs m next .input [a] (some .awaitInput) m
  | emit {a : Operand} {x : Word} (hx : m.Means a x) :
      Performs m next .output [a] (some (.output x)) { m with ip := next }
  | jump {op : Opcode} {a b : Operand} {x target : Word} (hx : m.Means a x)
      (htaken : op.taken? x = some true) (htarget : m.Means b target) :
      Performs m next op [a, b] none { m with ip := target }
  | stay {op : Opcode} {a b : Operand} {x : Word} (hx : m.Means a x)
      (htaken : op.taken? x = some false) : Performs m next op [a, b] none { m with ip := next }
  | rebase {a : Operand} {x base : Word} (hx : m.Means a x)
      (hbase : base.toInt = m.relativeBase.toInt + x.toInt) :
      Performs m next .adjustBase [a] none { m with ip := next, relativeBase := base }
  | halt : Performs m next .halt [] (some .halted) { m with halted := true }

/-- A line that is a jump, with a value to test for which it is taken. -/
def Jumps (m : Machine) (op : Opcode) (operands : List Operand) : Prop :=
  ∃ a b x, operands = [a, b] ∧ m.Means a x ∧ op.taken? x = some true

/-- An integer that a line has to compute is no word: its result, the new relative base, the
address of an operand, or the address of a word in the line or behind it. -/
inductive Overflows (m : Machine) : Opcode → List Operand → Prop where
  | result {op : Opcode} {a b c : Operand} {x y : Word} (hx : m.Means a x) (hy : m.Means b y)
      (h : op.result? x y = none) : Overflows m op [a, b, c]
  | rebase {a : Operand} {x : Word} (hx : m.Means a x) (h : Word.add? m.relativeBase x = none) :
      Overflows m .adjustBase [a]
  | based {op : Opcode} {operands : List Operand} {n : Word} (hmem : ⟨.relative, n⟩ ∈ operands)
      (h : Word.add? m.relativeBase n = none) : Overflows m op operands
  | behind {op : Opcode} {operands : List Operand} {distance : Nat}
      (hle : distance ≤ 1 + op.operandCount) (h : Word.add? m.ip (Int64.ofNat distance) = none) :
      Overflows m op operands

/-- The errors of a line: it overflows, or one of its operands names a cell that is refused. -/
inductive Faults [Allocator] (m : Machine) (op : Opcode) (operands : List Operand) :
    RuntimeError → Prop where
  | overflow (h : m.Overflows op operands) : Faults m op operands (.overflow m.ip)
  | invalidAddress {o : Operand} {a : Word} (hmem : o ∈ operands) (names : m.Names o a)
      (refused : ¬ m.memory.accepts a) : Faults m op operands (.invalidAddress m.ip a)

/-- Only a jump that is taken, a line that waits and a line that halts do not lead to the next
line. -/
theorem Performs.ip_eq [Allocator] {m t : Machine} {next : Word} {op : Opcode}
    {operands : List Operand} {event : Option Event} (h : m.Performs next op operands event t)
    (hevent : event = none ∧ ¬ m.Jumps op operands ∨ ∃ value, event = some (.output value)) :
    t.ip = next := by
  cases h with
  | combine | receive | emit | stay | rebase => rfl
  | jump hx htaken =>
    rcases hevent with ⟨-, hstay⟩ | ⟨value, hvalue⟩
    · exact absurd ⟨_, _, _, rfl, hx, htaken⟩ hstay
    · contradiction
  | await | halt =>
    rcases hevent with ⟨hnone, -⟩ | ⟨value, hvalue⟩
    · contradiction
    · cases hvalue

/-! ### From operands to lines

Let the machine have found an address for each operand that is shown. From there on each case of
what an opcode does is a case of what the line does, with the same values. -/

section Lines

variable {m : Machine} {o : Operands} {op : Opcode} {operands : List Operand}

/-- A store that does not fail has changed one cell and nothing else. -/
theorem accepts_of_store [Allocator] {t : Machine} {ip a v : Word} {event : Option Event}
    (h : (t.store ip a v).result = .ok event) : t.memory.accepts a ∧ event = none ∧
      (t.store ip a v).machine = { t with memory := t.memory.store a.toNatClampNeg v } := by
  by_cases haccepts : t.memory.accepts a
  · rw [store_of_accepts ip v haccepts] at h ⊢
    cases h
    exact ⟨haccepts, rfl, rfl⟩
  · rw [store_of_not_accepts ip v haccepts] at h
    contradiction

/-- There is no cell below the first one, whatever the allocator says. -/
theorem not_accepts_of_neg [Allocator] {memory : Memory} {a : Word} (h : a < 0) :
    ¬ memory.accepts a := by
  intro haccepts
  exact not_neg_iff_nonneg.mpr (accepts_iff.mp haccepts).1.1 h

variable (hlocates : List.Forall₂ m.Locates operands (o.addresses op))
  (hadmits : ∀ k shown, operands[k]? = some shown → op.admits k shown.mode)
include hlocates

include hadmits in
/-- A line does what its opcode does with the addresses of its operands. There is one case for each
way in which an opcode finds its effect. -/
theorem performs_of_finds [Allocator] {next : Word} {effect : Effect} {event : Option Event}
    (hfinds : m.Finds o op effect) (h : (m.apply next effect).result = .ok event) :
    m.Performs next op operands event (m.apply next effect).machine := by
  -- the opcodes that write do so after they have computed their result
  have hcombine : ∀ {x y z : Word}, o.addresses op = [o.first, o.second, o.third] →
      op.writeOperand? = some 2 → m.load o.first = .ok x → m.load o.second = .ok y →
        op.result? x y = some z → (m.apply next (.write o.third z)).result = .ok event →
          m.Performs next op operands event (m.apply next (.write o.third z)).machine := by
    intro x y z haddresses hwrite hx hy hz hresult
    rw [haddresses] at hlocates
    rcases hlocates with _ | ⟨ha, _ | ⟨hb, _ | ⟨hc, _ | _⟩⟩⟩
    obtain ⟨haccepts, rfl, hmachine⟩ := accepts_of_store hresult
    rw [show (m.apply next (.write o.third z)).machine = _ from hmachine]
    exact .combine (ha.means hx) (hb.means hy) hz (hc.names (hadmits 2 _ rfl) hwrite) haccepts
  cases hfinds with
  | add hx hy hz => exact hcombine rfl rfl hx hy (Word.add?_eq_some_iff.mpr hz) h
  | mul hx hy hz => exact hcombine rfl rfl hx hy (Word.mul?_eq_some_iff.mpr hz) h
  | lessThan hx hy => exact hcombine rfl rfl hx hy rfl h
  | equals hx hy => exact hcombine rfl rfl hx hy rfl h
  | input =>
    rcases hlocates with _ | ⟨ha, _ | _⟩
    have hnames := ha.names (hadmits 0 _ rfl) rfl
    unfold apply at h ⊢
    cases hinput : m.input with
    | nil =>
      simp only [hinput] at h ⊢
      cases h
      exact .await hinput hnames
    | cons value rest =>
      simp only [hinput] at h ⊢
      obtain ⟨haccepts, rfl, hmachine⟩ := accepts_of_store h
      rw [hmachine]
      exact .receive hinput hnames haccepts
  | output hx =>
    rcases hlocates with _ | ⟨ha, _ | _⟩
    cases h
    exact .emit (ha.means hx)
  | jumpIfTrue hx hne hy =>
    rcases hlocates with _ | ⟨ha, _ | ⟨hb, _ | _⟩⟩
    cases h
    exact .jump (ha.means hx) (by simp [Opcode.taken?, hne]) (hb.means hy)
  | jumpIfFalse hx heq hy =>
    rcases hlocates with _ | ⟨ha, _ | ⟨hb, _ | _⟩⟩
    cases h
    exact .jump (ha.means hx) (by simp [Opcode.taken?, heq]) (hb.means hy)
  | notTrue hx heq =>
    rcases hlocates with _ | ⟨ha, _ | ⟨hb, _ | _⟩⟩
    cases h
    exact .stay (ha.means hx) (by simp [Opcode.taken?, heq])
  | notFalse hx hne =>
    rcases hlocates with _ | ⟨ha, _ | ⟨hb, _ | _⟩⟩
    cases h
    exact .stay (ha.means hx) (by simp [Opcode.taken?, hne])
  | adjustBase hx hbase =>
    rcases hlocates with _ | ⟨ha, _ | _⟩
    cases h
    exact .rebase (ha.means hx) hbase
  | halt =>
    rcases hlocates with _ | _
    cases h
    exact .halt

/-- The operand that an address stands for. -/
theorem exists_located {k : Nat} {a : Word} (hget : (o.addresses op)[k]? = some a) :
    ∃ shown, operands[k]? = some shown ∧ m.Locates shown a := by
  obtain ⟨hlength, hlocated⟩ := List.forall₂_iff_get.mp hlocates
  obtain ⟨hk, rfl⟩ := List.getElem?_eq_some_iff.mp hget
  exact ⟨_, List.getElem?_eq_getElem (by omega), hlocated k (by omega) hk⟩

/-- An opcode that finds no effect has a result that is no word, or an operand that cannot be
loaded. -/
theorem faults_of_refuses [Allocator] {e : RuntimeError} (h : m.Refuses o op e) :
    m.Faults op operands e := by
  cases h with
  -- a cell below zero is the only one that a load refuses, and no store accepts it either, so the
  -- operand that was read names the address that is invalid
  | @load _ a _ hmem hload =>
    obtain ⟨k, hget⟩ := List.mem_iff_getElem?.mp hmem
    obtain ⟨shown, hshown, hlocated⟩ := exists_located hlocates hget
    obtain ⟨rfl, hneg⟩ := error_of_load hload
    exact .invalidAddress (List.mem_of_getElem? hshown) (hlocated.names_of_error hload)
      (not_accepts_of_neg hneg)
  | add hx hy hz =>
    rcases hlocates with _ | ⟨ha, _ | ⟨hb, _ | ⟨hc, _ | _⟩⟩⟩
    exact .overflow (.result (ha.means hx) (hb.means hy) hz)
  | mul hx hy hz =>
    rcases hlocates with _ | ⟨ha, _ | ⟨hb, _ | ⟨hc, _ | _⟩⟩⟩
    exact .overflow (.result (ha.means hx) (hb.means hy) hz)
  | adjustBase hx hbase =>
    rcases hlocates with _ | ⟨ha, _ | _⟩
    exact .overflow (.rebase (ha.means hx) hbase)

include hadmits in
/-- An effect that fails has a cell that is refused, which is the one that the last operand
names. -/
theorem faults_of_apply [Allocator] {next : Word} {effect : Effect} {e : RuntimeError}
    (hfinds : m.Finds o op effect) (h : (m.apply next effect).result = .error e) :
    m.Faults op operands e := by
  obtain ⟨a, heffect, rfl, hrefused⟩ := error_of_apply h
  -- what has been refused is the address of the operand that is written to
  have hwritten : ∃ k, op.writeOperand? = some k ∧ (o.addresses op)[k]? = some a := by
    rcases heffect with ⟨value, rfl⟩ | rfl
    · exact ⟨2, hfinds.write_inv⟩
    · obtain ⟨rfl, hget⟩ := hfinds.receive_inv
      exact ⟨0, rfl, hget⟩
  obtain ⟨k, hwrite, hget⟩ := hwritten
  obtain ⟨shown, hshown, hlocated⟩ := exists_located hlocates hget
  exact .invalidAddress (List.mem_of_getElem? hshown)
    (hlocated.names (hadmits k _ hshown) hwrite) hrefused

end Lines

/-! ### Machines at a row of words

A row of words may be only the beginning of a memory, and the memory may have changed behind it. All
that counts is that the words are still where the listing has them. -/

/-- A running machine at the word with index `pc` of a row that its memory begins with. -/
structure StandsAt (m : Machine) (w : List Word) (pc : Nat) : Prop where
  running : m.halted = false
  ip_eq : m.ip.toInt = pc
  holds : ∀ i (h : i < w.length), m.memory.cell i = w[i]

/-- The address for an operand as it is shown, whose own word is in `cell`. -/
def shownAddress (m : Machine) (cell : Word) : Operand → Except RuntimeError Word
  | ⟨.position, n⟩ => .ok n
  | ⟨.immediate, _⟩ => .ok cell
  | ⟨.relative, n⟩ => m.exactly (Word.add? m.relativeBase n)

section Operands

variable {m : Machine} {i : Instruction} {index : Nat} {a : Word}

/-- The machine reads the digit for a mode as the instruction does. -/
theorem mode_of_operandMode {mode : Mode} (h : m.operandMode i index = .ok mode) :
    i.mode index = .ok mode := by
  unfold operandMode at h
  split at h
  · next hmode => rw [hmode, Except.ok.inj h]
  · contradiction

/-- An operand that the machine finds has a mode that is allowed in its place. -/
theorem admits_of_operandAddress (h : m.operandAddress i index = .ok a) :
    ∃ mode, i.mode index = .ok mode ∧ i.opcode.admits index mode := by
  obtain ⟨mode, hmode, h⟩ := bind_eq_ok.mp h
  obtain ⟨cell, -, h⟩ := bind_eq_ok.mp h
  refine ⟨mode, mode_of_operandMode hmode, ?_⟩
  cases mode with
  | position | relative => rfl
  | immediate =>
    dsimp only at h
    split at h
    · next hadmits => exact hadmits
    · contradiction

/-- The addresses of an instruction are found one by one. -/
theorem operandAddress_of_operands {o : Operands} (h : m.operands i = .ok o)
    (hindex : index < i.opcode.operandCount) :
    ∃ a, (o.addresses i.opcode)[index]? = some a ∧ m.operandAddress i index = .ok a := by
  obtain ⟨first, hfirst, h⟩ := bind_eq_ok.mp h
  obtain ⟨second, hsecond, h⟩ := bind_eq_ok.mp h
  obtain ⟨third, hthird, h⟩ := bind_eq_ok.mp h
  cases h
  have hcount := i.opcode.operandCount_le
  -- operands that the opcode has are not left out
  have hfound : ∀ {a}, m.operandOrZero i index = .ok a → m.operandAddress i index = .ok a := by
    intro a ha
    unfold operandOrZero at ha
    rw [if_pos hindex] at ha
    exact ha
  unfold Operands.addresses
  rw [List.getElem?_take_of_lt hindex]
  match index, hindex with
  | 0, _ => exact ⟨first, rfl, hfound hfirst⟩
  | 1, _ => exact ⟨second, rfl, hfound hsecond⟩
  | 2, _ => exact ⟨third, rfl, hfound hthird⟩
  | index + 3, hindex => omega

end Operands

namespace StandsAt

variable {m : Machine} {w : List Word} {pc : Nat} (hat : m.StandsAt w pc)
include hat

/-- The words of the row are what the machine loads at their addresses. -/
theorem load_eq {a v : Word} {i : Nat} (hi : w[i]? = some v) (ha : a.toInt = i) :
    m.load a = .ok v := by
  obtain ⟨hlt, rfl⟩ := List.getElem?_eq_some_iff.mp hi
  have hneg : ¬ a < 0 := not_neg_iff_nonneg.mpr (by omega)
  have hindex : a.toNatClampNeg = i := by
    show a.toInt.toNat = i
    omega
  unfold load Memory.read
  rw [if_neg hneg, hindex, hat.holds i hlt]

/-- The instruction that is run next is the word at which the machine stands. -/
theorem fetch_eq (hpc : pc < w.length) : m.fetch = .ok w[pc] :=
  hat.load_eq (List.getElem?_eq_getElem hpc) hat.ip_eq

/-- An operand that is shown is found by what is shown of it. -/
theorem operandAddress_eq {i : Instruction} {k : Nat} {o : Operand} (hk : k < 3)
    (hheld : w[pc + 1 + k]? = some o.value) (hmode : i.mode k = .ok o.mode)
    (hadmits : i.opcode.admits k o.mode) :
    m.operandAddress i k = (m.ahead (k + 1) >>= fun cell => m.shownAddress cell o) := by
  have hmode' : m.operandMode i k = .ok o.mode := by
    unfold operandMode
    rw [hmode]
  unfold operandAddress
  rw [hmode']
  cases hcell : m.ahead (k + 1) with
  | error e => rfl
  | ok cell =>
    -- the word of the operand is the one in the row
    have hload : m.load cell = .ok o.value := by
      have hindex := toInt_of_ahead (by omega) hcell
      rw [hat.ip_eq] at hindex
      exact hat.load_eq hheld (by push_cast at hindex ⊢; omega)
    obtain ⟨mode, value⟩ := o
    cases mode with
    | position => exact hload
    | immediate => exact if_pos hadmits
    | relative =>
      show (m.load cell >>= fun distance => m.exactly (Word.add? m.relativeBase distance)) =
        m.exactly (Word.add? m.relativeBase value)
      rw [hload]
      rfl

end StandsAt

end Machine

/-! ### Instructions that are shown

For a line to be shown the words have to be an instruction that is encoded again to the same word,
with allowed modes and enough words behind. The machine asks for less, so it comes at least as far.
-/

namespace Assembly

/-- The instruction at `pc` in a row of words is `i`, which has these operands. -/
structure Shows (w : List Word) (pc : Nat) (i : Instruction) (operands : List Operand) : Prop where
  decoded : ∃ word, w[pc]? = some word ∧ Instruction.decode word = .ok i
  count : operands.length = i.opcode.operandCount
  held : ∀ k o, operands[k]? = some o → w[pc + 1 + k]? = some o.value
  moded : ∀ k o, operands[k]? = some o → i.mode k = .ok o.mode ∧ i.opcode.admits k o.mode

/-- No instruction has more than three operands. -/
theorem Shows.lt {w : List Word} {pc : Nat} {i : Instruction} {operands : List Operand}
    (h : Shows w pc i operands) {k : Nat} {o : Operand} (hk : operands[k]? = some o) : k < 3 := by
  have hlength := (List.getElem?_eq_some_iff.mp hk).1
  have hcount := h.count
  have hle := i.opcode.operandCount_le
  omega

/-- The line for the words from `pc` on and the number of words that it stands for, if an
instruction can be shown there. -/
def instructionAt? (w : List Word) (pc : Nat) : Option (List Char × Nat) :=
  (instructionAhead? (w.drop pc)).map fun (op, operands) =>
    ((Statement.instruction op operands).chars, 1 + op.operandCount)

/-- What is shown is an instruction with its operands in the words behind it. -/
theorem shows_of_instructionAhead? {w : List Word} {pc : Nat} {op : Opcode}
    {operands : List Operand} (hpc : pc < w.length)
    (h : instructionAhead? (w.drop pc) = some (op, operands)) :
    ∃ i, i.opcode = op ∧ Shows w pc i operands := by
  rw [List.drop_eq_getElem_cons hpc] at h
  obtain ⟨i, hdecode, rfl, -, hlength, hshown⟩ := of_instructionAhead? h
  obtain ⟨hvalues, hmodes⟩ := shownOperands?_spec hshown
  have hcount : operands.length = i.opcode.operandCount := by
    rw [← List.length_map Operand.value, hvalues, List.length_take]
    exact Nat.min_eq_left hlength
  refine ⟨i, rfl, ⟨_, List.getElem?_eq_getElem hpc, hdecode⟩, hcount, ?_, ?_⟩
  · -- the values are the words after the first one, cut to the number of operands
    intro k o hk
    have hlt : k < i.opcode.operandCount := hcount ▸ (List.getElem?_eq_some_iff.mp hk).1
    have hvalue : (operands.map Operand.value)[k]? = some o.value := by
      rw [List.getElem?_map, hk]
      rfl
    rw [hvalues, List.getElem?_take_of_lt hlt, List.getElem?_drop] at hvalue
    exact hvalue
  · intro k o hk
    have hmode := hmodes k o hk
    rw [Nat.zero_add] at hmode
    exact hmode

section Shown

variable {m : Machine} {w : List Word} {pc : Nat} {i : Instruction} {operands : List Operand}
  (hat : m.StandsAt w pc) (hshows : Shows w pc i operands)
include hat hshows

/-- The machine reads the instruction that is shown. -/
theorem fetch_of_shows : ∃ word, m.fetch = .ok word ∧ m.decode word = .ok i := by
  obtain ⟨word, hword, hdecode⟩ := hshows.decoded
  refine ⟨word, hat.load_eq hword hat.ip_eq, ?_⟩
  unfold Machine.decode
  rw [hdecode]

/-- An operand is found by its number and its mark. -/
theorem operandAddress_of_shows {k : Nat} {o : Operand} (hk : operands[k]? = some o) :
    m.operandAddress i k = (m.ahead (k + 1) >>= fun cell => m.shownAddress cell o) := by
  obtain ⟨hmode, hadmits⟩ := hshows.moded k o hk
  exact hat.operandAddress_eq (hshows.lt hk) (hshows.held k o hk) hmode hadmits

/-- The address that is found for an operand fits what is shown of it. -/
theorem locates_of_operandAddress {k : Nat} {o : Operand} {a : Word} (hk : operands[k]? = some o)
    (h : m.operandAddress i k = .ok a) : m.Locates o a := by
  have hlt := hshows.lt hk
  have hheld := hshows.held k o hk
  rw [operandAddress_of_shows hat hshows hk] at h
  obtain ⟨cell, hcell, h⟩ := bind_eq_ok.mp h
  obtain ⟨mode, value⟩ := o
  cases mode with
  | position =>
    cases h
    exact .named (.bare _)
  | immediate =>
    cases h
    have hindex := Machine.toInt_of_ahead (by omega) hcell
    rw [hat.ip_eq] at hindex
    -- the value is in the word of the operand itself
    exact .literal (hat.load_eq hheld (by push_cast at hindex ⊢; omega))
  | relative =>
    have hbased := Word.add?_eq_some_iff.mp (Machine.exactly_eq_ok.mp h)
    exact .named (.based hbased)

/-- All operands are found where they are shown. -/
theorem locates_of_operands {o : Machine.Operands} (h : m.operands i = .ok o) :
    List.Forall₂ m.Locates operands (o.addresses i.opcode) := by
  have hlength : (o.addresses i.opcode).length = i.opcode.operandCount := by
    have hle := i.opcode.operandCount_le
    unfold Machine.Operands.addresses
    rw [List.length_take]
    exact Nat.min_eq_left hle
  refine List.forall₂_iff_get.mpr ⟨by rw [hlength, hshows.count], fun k hk hk' => ?_⟩
  obtain ⟨a, hget, haddress⟩ := Machine.operandAddress_of_operands h (hlength ▸ hk')
  have ha : (o.addresses i.opcode).get ⟨k, hk'⟩ = a :=
    Option.some.inj ((List.getElem?_eq_getElem hk').symm.trans hget)
  rw [ha]
  exact locates_of_operandAddress hat hshows (List.getElem?_eq_getElem hk) haddress

/-- Looking for the operands fails only if an address is no word. -/
theorem faults_of_operands [Allocator] : ErrorsIn (m.Faults i.opcode operands) (m.operands i) := by
  refine Machine.errorsIn_operands fun k hk => ?_
  obtain ⟨o, hget⟩ : ∃ o, operands[k]? = some o :=
    ⟨_, List.getElem?_eq_getElem (hshows.count ▸ hk)⟩
  have hmem := List.mem_of_getElem? hget
  rw [operandAddress_of_shows hat hshows hget]
  refine (Machine.errorsIn_exactly fun h => .overflow (.behind (by omega) h)).bind fun cell _ => ?_
  obtain ⟨mode, value⟩ := o
  cases mode with
  | position | immediate => exact .ok _
  | relative => exact Machine.errorsIn_exactly fun h => .overflow (.based hmem h)

/-- **A machine fails where the line says so**, and never because the instruction cannot be read. -/
theorem faults_of_shows [Allocator] {e : RuntimeError} (h : m.execute.result = .error e) :
    m.Faults i.opcode operands e := by
  obtain ⟨word, hfetch, hdecode⟩ := fetch_of_shows hat hshows
  -- whatever instruction the machine has read, it is the one that is shown
  have hsame : ∀ {word' i'}, m.fetch = .ok word' → m.decode word' = .ok i' → i' = i := by
    intro word' i' hfetch' hdecode'
    cases hfetch.symm.trans hfetch'
    exact Except.ok.inj (hdecode'.symm.trans hdecode)
  have hadmits := fun k o hk => (hshows.moded k o hk).2
  rcases Machine.fails_or_apply_of_error h with
    ⟨ip, notices, hfails⟩ | ⟨word', i', o, next, effect, hprepared, hresult⟩
  · cases hfails with
    | fetch failed => cases hfetch.symm.trans failed
    | decode fetched failed =>
      cases hfetch.symm.trans fetched
      cases hdecode.symm.trans failed
    | operands fetched decoded failed =>
      cases hsame fetched decoded
      exact faults_of_operands hat hshows e failed
    | ahead fetched decoded _ failed =>
      cases hsame fetched decoded
      exact Machine.errorsIn_exactly (fun h => .overflow (.behind le_rfl h)) e failed
    | evaluate fetched decoded addressed _ failed =>
      cases hsame fetched decoded
      exact Machine.faults_of_refuses (locates_of_operands hat hshows addressed)
        (Machine.refuses_of_evaluate e failed)
  · cases hsame hprepared.fetched hprepared.decoded
    exact Machine.faults_of_apply (locates_of_operands hat hshows hprepared.addressed) hadmits
      (Machine.finds_of_evaluate hprepared.evaluated) hresult

/-- **A machine that does not fail does what the line says.** -/
theorem performs_of_shows [Allocator] {event : Option Event} (h : m.execute.result = .ok event) :
    ∃ next : Word, next.toInt = pc + (1 + i.opcode.operandCount : Nat) ∧
      m.Performs next i.opcode operands event m.execute.machine := by
  obtain ⟨word, hfetch, hdecode⟩ := fetch_of_shows hat hshows
  obtain ⟨word', i', o, next, effect, hprepared, hresult⟩ :=
    Machine.exists_prepared_of_ok hat.running h
  cases hfetch.symm.trans hprepared.fetched
  cases hdecode.symm.trans hprepared.decoded
  have hcount := i.opcode.operandCount_le
  refine ⟨next, ?_, ?_⟩
  · rw [Machine.toInt_of_ahead (by omega) hprepared.advanced, hat.ip_eq]
  · rw [Machine.execute_of_prepared hat.running hprepared]
    exact Machine.performs_of_finds (locates_of_operands hat hshows hprepared.addressed)
      (fun k o hk => (hshows.moded k o hk).2) (Machine.finds_of_evaluate hprepared.evaluated)
      hresult

end Shown

end Assembly

/-! ### Words that are not shown

A word may be read as an instruction and still not be shown as one, because it would not be
assembled to itself. There is then a digit in it that has no part in what the instruction does. -/

/-- A decimal digit of a word, counted from the right. -/
def Word.decimal (w : Word) (k : Nat) : Nat := w.toInt.natAbs / 10 ^ k % 10

namespace Assembly

/-- A number that is not zero has a digit that is not zero. -/
theorem exists_digit_of_pos {n : Nat} (h : 0 < n) : ∃ k, n / 10 ^ k % 10 ≠ 0 := by
  induction n using Nat.strongRecOn with
  | ind n ih =>
    by_cases hlast : n % 10 = 0
    · -- the digits in front of a last zero are those of a smaller number
      obtain ⟨k, hk⟩ := ih (n / 10) (by omega) (by omega)
      refine ⟨k + 1, ?_⟩
      rw [Nat.pow_succ', ← Nat.div_div_eq_div_mul]
      exact hk
    · exact ⟨0, by simpa using hlast⟩

/-- A number with many digits has one that is not zero in front of the last few. -/
theorem exists_decimal_of_le {w : Word} {j : Nat} (h : 10 ^ j ≤ w.toInt.natAbs) :
    ∃ k, j ≤ k ∧ w.decimal k ≠ 0 := by
  obtain ⟨k, hk⟩ := exists_digit_of_pos (Nat.div_pos h (Nat.pow_pos (by decide)))
  refine ⟨j + k, Nat.le_add_right j k, ?_⟩
  unfold Word.decimal
  rw [Nat.pow_add, ← Nat.div_div_eq_div_mul]
  exact hk

section Digits

variable {m : Machine} {word : Word} {i : Instruction} (hdecode : m.decode word = .ok i)
include hdecode

theorem toInt_pos_of_decode : 0 < word.toInt :=
  Instruction.pos_of_decode (Machine.instruction_of_decode hdecode)

/-- The modes of an instruction are digits of its word. -/
theorem toInt_mode_of_decode {k : Nat} (hk : k < 3) :
    i.modes[k].toInt = word.decimal (k + 2) := by
  obtain ⟨n, hn⟩ : ∃ n : Nat, word.toInt = n :=
    Int.eq_ofNat_of_zero_le (Int.le_of_lt (toInt_pos_of_decode hdecode))
  rw [← Machine.modeDigit_of_decode hk hdecode]
  unfold Ideal.modeDigit Word.decimal
  rw [hn, show (10 : Int) ^ (k + 2) = (10 ^ (k + 2) : Nat) from (Int.natCast_pow 10 _).symm,
    ← Int.ofNat_tdiv]
  rfl

/-- A word of five digits is encoded again to itself. -/
theorem encode_of_lt (hlt : word.toInt < 100000) : i.encode = word := by
  have hpos := toInt_pos_of_decode hdecode
  rw [← Int64.toInt_inj,
    (Instruction.encode_of_decode (Machine.instruction_of_decode hdecode)).2]
  omega

/-- A word that is not encoded again has a digit that no operand of its opcode uses. -/
theorem exists_decimal_of_not_isCanonical (h : ¬ isCanonical i word) :
    ∃ k, 2 + i.opcode.operandCount ≤ k ∧ word.decimal k ≠ 0 := by
  have hcount := i.opcode.operandCount_le
  by_cases hencode : i.encode = word
  · -- the digit stands among those for operands
    have hstray : ¬ (i.modes.toList.drop i.opcode.operandCount).all (· == 0) := by
      intro hall
      exact h (by simp [isCanonical, hencode, hall])
    obtain ⟨digit, hmem, hne⟩ : ∃ digit ∈ i.modes.toList.drop i.opcode.operandCount, digit ≠ 0 := by
      simpa using hstray
    obtain ⟨k, hk, rfl⟩ := List.mem_drop_iff_getElem.mp hmem
    have hk3 : i.opcode.operandCount + k < 3 := by simpa [Nat.add_comm] using hk
    refine ⟨i.opcode.operandCount + k + 2, by omega, fun hzero => hne ?_⟩
    have hmode := toInt_mode_of_decode hdecode hk3
    rw [hzero] at hmode
    exact Machine.toInt_eq_zero_iff.mp hmode
  · -- the digit stands in front of those for operands
    have hlarge : 10 ^ 5 ≤ word.toInt.natAbs := by
      by_contra hsmall
      exact hencode (encode_of_lt hdecode (by omega))
    obtain ⟨k, hk, hne⟩ := exists_decimal_of_le hlarge
    exact ⟨k, by omega, hne⟩

end Digits

/-- If the operands cannot be shown, one of them has a mode that is no mode or is not allowed
there. -/
theorem exists_of_shownOperands?_eq_none {i : Instruction} {index : Nat} {values : List Word}
    (h : shownOperands? i index values = none) :
    ∃ k < values.length, ∀ mode, i.mode (index + k) = .ok mode →
      ¬ i.opcode.admits (index + k) mode := by
  induction values generalizing index with
  | nil => contradiction
  | cons value values ih =>
    -- the operand in front either has a bad mode itself, and is the one looked for, or it is fine
    -- and the one looked for stands further on
    rw [shownOperands?] at h
    split at h
    · next e hmode =>
      refine ⟨0, Nat.succ_pos _, fun mode hmode' => ?_⟩
      cases hmode.symm.trans hmode'
    · next mode hmode =>
      split at h
      · obtain ⟨k, hk, hnone⟩ := ih (Option.map_eq_none_iff.mp h)
        refine ⟨k + 1, Nat.succ_lt_succ hk, ?_⟩
        rw [show index + (k + 1) = index + 1 + k by omega]
        exact hnone
      · next hadmits =>
        refine ⟨0, Nat.succ_pos _, fun mode' hmode' => ?_⟩
        cases hmode.symm.trans hmode'
        exact hadmits

/-- **Words that are not shown.** Where no instruction is shown a machine fails, or the word has a
digit that its instruction does not use, or its operands are cut off. -/
theorem error_of_instructionAhead?_eq_none [Allocator] {m : Machine} {w : List Word} {pc : Nat}
    (hat : m.StandsAt w pc) (hpc : pc < w.length) (h : instructionAhead? (w.drop pc) = none) :
    (∃ e, m.execute.result = .error e) ∨
      ∃ i, Instruction.decode w[pc] = .ok i ∧
        ((∃ k, 2 + i.opcode.operandCount ≤ k ∧ w[pc].decimal k ≠ 0) ∨
          w.length < pc + 1 + i.opcode.operandCount) := by
  have hfetch := hat.fetch_eq hpc
  have hfails : ∀ {ip e notices}, m.Fails ip e notices → ∃ e, m.execute.result = .error e := by
    intro ip e notices hfails
    rw [Machine.execute_of_fails hat.running hfails]
    exact ⟨e, rfl⟩
  rw [List.drop_eq_getElem_cons hpc, instructionAhead?] at h
  rcases hdecode : Instruction.decode w[pc] with e | i
  · have hdecode' : m.decode w[pc] = .error (e.atInstruction m.ip) := by
      unfold Machine.decode
      rw [hdecode]
    exact Or.inl (hfails (.decode hfetch hdecode'))
  · have hdecode' : m.decode w[pc] = .ok i := by
      unfold Machine.decode
      rw [hdecode]
    rw [hdecode] at h
    dsimp only at h
    by_cases hcanonical : isCanonical i w[pc]
    · by_cases hlength : i.opcode.operandCount ≤ (w.drop (pc + 1)).length
      · -- an operand cannot be shown, and the machine cannot find it either
        rw [if_pos (by simp [hcanonical] at hlength ⊢; omega)] at h
        obtain ⟨k, hk, hmodes⟩ := exists_of_shownOperands?_eq_none (Option.map_eq_none_iff.mp h)
        rw [List.length_take, Nat.min_eq_left hlength] at hk
        rw [Nat.zero_add] at hmodes
        rcases hoperands : m.operands i with e | o
        · exact Or.inl (hfails (.operands hfetch hdecode' hoperands))
        · obtain ⟨a, -, haddress⟩ := Machine.operandAddress_of_operands hoperands hk
          obtain ⟨mode, hmode, hadmits⟩ := Machine.admits_of_operandAddress haddress
          exact absurd hadmits (hmodes mode hmode)
      · rw [List.length_drop] at hlength
        exact Or.inr ⟨i, rfl, Or.inr (by omega)⟩
    · exact Or.inr ⟨i, rfl, Or.inl (exists_decimal_of_not_isCanonical hdecode' hcanonical)⟩

/-! ### The main statement -/

/-- **Listings agree with machines.** Let a machine stand at a word of a row that its memory begins
with.

If an instruction is shown there, then the line is read as an opcode and operands; the machine
finds the instruction, and fails only where the line overflows or names a cell that is refused;
when it does not fail it does what the line says; and unless it waits, halts or jumps it then stands
behind the words of the line.

If no instruction is shown there, then the machine fails, or the word has a digit that its
instruction does not use, or the row ends before the operands do. -/
theorem execute_agrees [Allocator] {m : Machine} {w : List Word} {pc : Nat} (hat : m.StandsAt w pc)
    (hpc : pc < w.length) :
    (∀ line width, instructionAt? w pc = some (line, width) → ∃ op operands,
      line = (Statement.instruction op operands).chars ∧
      Statement.ofLine line = .ok (some (.instruction op operands)) ∧
      (∀ ip code, m.execute.result ≠ .error (.invalidOpcode ip code) ∧
        m.execute.result ≠ .error (.invalidMode ip code)) ∧
      (∀ e, m.execute.result = .error e → m.Faults op operands e) ∧
      ∀ event, m.execute.result = .ok event → ∃ next : Word, next.toInt = pc + width ∧
        m.Performs next op operands event m.execute.machine ∧
        (event = none ∧ ¬ m.Jumps op operands ∨ (∃ value, event = some (.output value)) →
          m.execute.machine.ip = next)) ∧
    (instructionAt? w pc = none →
      (∃ e, m.execute.result = .error e) ∨
        ∃ i, Instruction.decode w[pc] = .ok i ∧
          ((∃ k, 2 + i.opcode.operandCount ≤ k ∧ w[pc].decimal k ≠ 0) ∨
            w.length < pc + 1 + i.opcode.operandCount)) := by
  constructor
  · intro line width h
    obtain ⟨⟨op, operands⟩, hahead, heq⟩ := Option.map_eq_some_iff.mp h
    cases heq
    have hwords := hahead
    rw [List.drop_eq_getElem_cons hpc] at hwords
    obtain ⟨i, rfl, hshows⟩ := shows_of_instructionAhead? hpc hahead
    have hfaults := fun e => faults_of_shows (e := e) hat hshows
    refine ⟨i.opcode, operands, rfl, Statement.ofLine_chars (words_of_instructionAhead? hwords).1,
      fun ip code => ⟨fun herror => ?_, fun herror => ?_⟩, hfaults, fun event hevent => ?_⟩
    · cases hfaults _ herror
    · cases hfaults _ herror
    · obtain ⟨next, hnext, hperforms⟩ := performs_of_shows hat hshows hevent
      exact ⟨next, hnext, hperforms, hperforms.ip_eq⟩
  · intro h
    exact error_of_instructionAhead?_eq_none hat hpc (Option.map_eq_none_iff.mp h)

/-- A machine in front of an addition whose result goes to a cell that does not exist yet. -/
def adder : Machine := ⟨1, 2, ⟨#[99, 21101, 5, -3, 7]⟩, [], false⟩

/-- The machine does what is shown: the sum goes to the cell which is seven behind the relative
base. -/
theorem execute_agrees_adder :
    instructionAt? [99, 21101, 5, -3, 7] 1 = some ("ADD #5 #-3 @7".toList, 4) ∧
      ∃ next : Word, next.toInt = 5 ∧
        adder.Performs next .add [⟨.immediate, 5⟩, ⟨.immediate, -3⟩, ⟨.relative, 7⟩] none
          ⟨5, 2, ⟨#[99, 21101, 5, -3, 7, 0, 0, 0, 0, 2]⟩, [], false⟩ := by
  have hat : adder.StandsAt [99, 21101, 5, -3, 7] 1 := ⟨rfl, by decide, by decide⟩
  have hline : instructionAt? [99, 21101, 5, -3, 7] 1 = some ("ADD #5 #-3 @7".toList, 4) := by
    decide
  have hread : Statement.ofLine "ADD #5 #-3 @7".toList = .ok (some (.instruction .add
      [⟨.immediate, 5⟩, ⟨.immediate, -3⟩, ⟨.relative, 7⟩])) := by
    decide
  obtain ⟨op, operands, -, hstatement, -, -, hevents⟩ :=
    (execute_agrees hat (by decide)).1 _ _ hline
  cases hread.symm.trans hstatement
  obtain ⟨next, hnext, hperforms, -⟩ := hevents none rfl
  exact ⟨hline, next, hnext, hperforms⟩

end Assembly

end Intcode
