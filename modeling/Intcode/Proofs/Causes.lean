import Intcode.Proofs.Agreement

/-!
# Why an instruction fails

An instruction fails if and only if there is a cause, and its error names one. The causes are said
with exact integers, about the addresses and values that the instruction has on the ideal machine.
That the words of an instruction lie at the end of the address space is none of them: a word that
can be decoded is not zero, so it lies in a cell that exists, and memory ends far from there.

One more cause does not lie in the machine: there is no room for a cell that is to be written. It has
a name of its own, so that what it takes to rule it out can be said.

* `Ideal.Dereferences`, `Ideal.Computes` — the operands that an instruction reads or writes, and the
  integers that it needs;
* `Cause` — the causes in the machine, each with its error;
* `Denied` — the cause that lies with the allocator;
* `lt_extent_of_decode` — instructions lie in cells that exist;
* `cause_of_fails`, `cause_of_apply` — an error names a cause;
* `not_cause_of_prepared`, `not_denied_of_prepared` — an instruction that succeeds has none;
* `execute_ok_iff` — the main statement.
-/

namespace Intcode

/-! ### What an instruction reads and computes

The causes are to be said without repeating how an instruction is executed. What is needed for that
is which operands an opcode reads or writes, and which integers have to be words, both on the ideal
machine where nothing else can go wrong. -/

/-- How many operands an opcode reads in any case. They come first. -/
def Opcode.valueCount : Opcode → Nat
  | .add | .mul | .lessThan | .equals => 2
  | .output | .jumpIfTrue | .jumpIfFalse | .adjustBase => 1
  | .input | .halt => 0

/-- What is written to stands behind what is read. -/
theorem Opcode.writeOperand?_ne_of_lt {op : Opcode} {index : Nat} (h : index < op.valueCount) :
    op.writeOperand? ≠ some index := by
  cases op with
  | add | mul | lessThan | equals =>
    intro hwrite
    cases hwrite
    exact Nat.lt_irrefl 2 h
  | input => exact absurd h (Nat.not_lt_zero index)
  | output | jumpIfTrue | jumpIfFalse | adjustBase | halt => nofun

/-- A digit that is refused is of no mode, and is the one that is reported. -/
theorem Mode.error_of_decode {digit : Word} {e : DecodeError} (h : Mode.decode digit = .error e) :
    e = .invalidMode digit ∧ ∀ mode : Mode, mode.code ≠ digit := by
  refine ⟨?_, ?_⟩
  · unfold Mode.decode at h
    split at h
    · contradiction
    · split at h
      · contradiction
      · split at h
        · contradiction
        · exact (Except.error.inj h).symm
  · rintro mode rfl
    rw [Mode.decode_code] at h
    contradiction

namespace Ideal

/-- The value that the operand at `index` of an instruction stands for. -/
def value? (s : Ideal) (word : Int) (op : Opcode) (index : Nat) : Option Int :=
  (s.address word op index).bind s.read

/-- The instruction reads or writes the cell that its operand at `index` stands for. The target of a
jump is read if the jump is taken, and the operand of an input instruction is written to if there is
a value for it. -/
inductive Dereferences (s : Ideal) (word : Int) : Opcode → Nat → Prop where
  | value {op : Opcode} {index : Nat} (read : index < op.valueCount) :
      Dereferences s word op index
  | jumpIfTrue {x : Int} (test : s.value? word .jumpIfTrue 0 = some x) (taken : x ≠ 0) :
      Dereferences s word .jumpIfTrue 1
  | jumpIfFalse (test : s.value? word .jumpIfFalse 0 = some 0) :
      Dereferences s word .jumpIfFalse 1
  | result {op : Opcode} (written : op.writeOperand? = some 2) : Dereferences s word op 2
  | receive (waiting : s.input ≠ []) : Dereferences s word .input 0

/-- The integers that an instruction has to compute: relative addresses, and the results of
arithmetic. -/
inductive Computes (s : Ideal) (word : Int) : Opcode → Int → Prop where
  | address {op : Opcode} {index : Nat} {d : Int} (used : index < op.operandCount)
      (mode : modeDigit word index = 2) (distance : s.read (s.ip + index + 1) = some d) :
      Computes s word op (s.relativeBase + d)
  | sum {x y : Int} (first : s.value? word .add 0 = some x)
      (second : s.value? word .add 1 = some y) : Computes s word .add (x + y)
  | product {x y : Int} (first : s.value? word .mul 0 = some x)
      (second : s.value? word .mul 1 = some y) : Computes s word .mul (x * y)
  | base {x : Int} (first : s.value? word .adjustBase 0 = some x) :
      Computes s word .adjustBase (s.relativeBase + x)

/-- Only an operand that the opcode has is read or written. -/
theorem Dereferences.lt {s : Ideal} {word : Int} {op : Opcode} {index : Nat}
    (h : s.Dereferences word op index) : index < op.operandCount := by
  cases h with
  | value read =>
    have hle : op.valueCount ≤ op.operandCount := by
      cases op <;> decide
    exact Nat.lt_of_lt_of_le read hle
  | jumpIfTrue | jumpIfFalse | receive => decide
  | result written => cases op <;> first | contradiction | decide

end Ideal

/-! ### Causes

Each constructor is one reason, with the error that names it. They do not exclude each other: an
instruction may have several causes, and its error names one of them. -/

namespace Machine

/-- The word at the instruction pointer is an instruction with this opcode. -/
structure StandsOn (m : Machine) (word : Word) (op : Opcode) : Prop where
  fetched : m.ideal.read m.ip.toInt = some word.toInt
  opcode : Ideal.opcode? word.toInt = some op

/-- The causes for which an instruction fails, with the errors that name them. -/
inductive Cause (m : Machine) : RuntimeError → Prop where
  | ip (neg : m.ip.toInt < 0) : Cause m (.invalidAddress m.ip m.ip)
  | opcode {word code : Word} (fetched : m.ideal.read m.ip.toInt = some word.toInt)
      (remainder : code.toInt = word.toInt.tmod 100) (unknown : ∀ op : Opcode, op.code ≠ code) :
      Cause m (.invalidOpcode m.ip code)
  | mode {word digit : Word} {op : Opcode} {index : Nat} (stands : m.StandsOn word op)
      (used : index < op.operandCount) (digit_eq : digit.toInt = Ideal.modeDigit word.toInt index)
      (refused : 2 < digit.toInt ∨ digit.toInt = 1 ∧ op.writeOperand? = some index) :
      Cause m (.invalidMode m.ip digit)
  | negative {word a : Word} {op : Opcode} {index : Nat} (stands : m.StandsOn word op)
      (dereferenced : m.ideal.Dereferences word.toInt op index)
      (effective : m.ideal.address word.toInt op index = some a.toInt) (neg : a.toInt < 0) :
      Cause m (.invalidAddress m.ip a)
  | tooHigh {word a : Word} {op : Opcode} {index : Nat} (stands : m.StandsOn word op)
      (dereferenced : m.ideal.Dereferences word.toInt op index)
      (written : op.writeOperand? = some index)
      (effective : m.ideal.address word.toInt op index = some a.toInt)
      (above : Memory.maxAddress.toInt < a.toInt) : Cause m (.invalidAddress m.ip a)
  | overflow {word : Word} {op : Opcode} {n : Int} (stands : m.StandsOn word op)
      (computed : m.ideal.Computes word.toInt op n) (outside : n < Word.least ∨ Word.greatest < n) :
      Cause m (.overflow m.ip)

/-- An instruction writes to a cell that does not exist yet, at an address that can be written, and
the room for it is not granted. -/
inductive Denied [Allocator] (m : Machine) : RuntimeError → Prop where
  | intro {word a : Word} {op : Opcode} {index : Nat} (stands : m.StandsOn word op)
      (dereferenced : m.ideal.Dereferences word.toInt op index)
      (written : op.writeOperand? = some index)
      (effective : m.ideal.address word.toInt op index = some a.toInt)
      (inRange : 0 ≤ a.toInt ∧ a.toInt ≤ Memory.maxAddress.toInt)
      (beyond : m.memory.extent ≤ a.toInt.toNat)
      (refused : Allocator.grants m.memory (a.toInt.toNat + 1) = false) :
      Denied m (.invalidAddress m.ip a)

variable {m : Machine}

theorem Operands.length_addresses (o : Operands) (op : Opcode) :
    (o.addresses op).length = op.operandCount := by
  unfold addresses
  rw [List.length_take]
  exact Nat.min_eq_left op.operandCount_le

/-- A write is refused for its address, or there is no cell and no room for one. -/
theorem not_accepts_iff [Allocator] {memory : Memory} {a : Word} : ¬ memory.accepts a ↔
    a.toInt < 0 ∨ Memory.maxAddress.toInt < a.toInt ∨
      (0 ≤ a.toInt ∧ a.toInt ≤ Memory.maxAddress.toInt) ∧ memory.extent ≤ a.toInt.toNat ∧
        Allocator.grants memory (a.toInt.toNat + 1) = false := by
  have hroom : ¬ memory.hasRoom a.toInt.toNat ↔ memory.extent ≤ a.toInt.toNat ∧
      Allocator.grants memory (a.toInt.toNat + 1) = false := by
    unfold Memory.hasRoom
    rw [Bool.or_eq_true, decide_eq_true_iff, not_or, Nat.not_lt, Bool.not_eq_true]
  rw [accepts_iff, not_and, hroom]
  constructor
  · intro h
    by_cases hneg : a.toInt < 0
    · exact Or.inl hneg
    by_cases habove : Memory.maxAddress.toInt < a.toInt
    · exact Or.inr (Or.inl habove)
    · have hrange : 0 ≤ a.toInt ∧ a.toInt ≤ Memory.maxAddress.toInt := by omega
      exact Or.inr (Or.inr ⟨hrange, h hrange⟩)
  · rintro (hneg | habove | ⟨-, hdenied⟩) hrange
    · omega
    · omega
    · exact hdenied

/-! ### Instructions lie in cells that exist

The words of an instruction behind the first one need not lie in cells that exist, but their
addresses are close to one that does. So they can be computed and read without a failure. -/

/-- What has been read had no negative address. -/
theorem nonneg_of_load {a v : Word} (h : m.load a = .ok v) : 0 ≤ a.toInt := by
  have hread := read_of_load h
  unfold Ideal.read at hread
  split at hread
  · next hnonneg => exact hnonneg
  · contradiction

theorem exists_load {a : Word} (h : 0 ≤ a.toInt) : ∃ v, m.load a = .ok v := by
  cases hload : m.load a with
  | ok v => exact ⟨v, rfl⟩
  | error e => exact absurd (error_of_load hload).2 (not_neg_iff_nonneg.mpr h)

/-- Beyond the last cell there are zeros. -/
theorem fetch_of_extent_le (h : m.memory.extent ≤ m.ip.toInt) : m.fetch = .ok 0 := by
  have hnonneg : 0 ≤ m.ip.toInt := by omega
  have hcell : m.memory.cell m.ip.toNatClampNeg = 0 := by
    have hle : m.memory.cells.size ≤ m.ip.toNatClampNeg := by
      rw [← Int64.toNat_toInt]
      unfold Memory.extent at h
      omega
    unfold Memory.cell
    rw [Array.getD_eq_getD_getElem?, Array.getElem?_eq_none hle]
    rfl
  unfold fetch load Memory.read
  rw [if_neg (not_neg_iff_nonneg.mpr hnonneg), hcell]

/-- A word that can be decoded is not zero, so it lies in a cell that exists. -/
theorem lt_extent_of_decode {word : Word} {i : Instruction} (hfetch : m.fetch = .ok word)
    (hdecode : m.decode word = .ok i) : m.ip.toInt < m.memory.extent := by
  by_contra hle
  cases (fetch_of_extent_le (by omega)).symm.trans hfetch
  cases hdecode

/-- The addresses of the words of an instruction can be computed. -/
theorem exists_ahead (distance : Nat) (hnonneg : 0 ≤ m.ip.toInt) (hlt : m.ip.toInt < 2 ^ 60)
    (hsmall : distance ≤ 4) :
    ∃ cell, m.ahead distance = .ok cell ∧ cell.toInt = m.ip.toInt + distance := by
  have hadd : Word.add? m.ip (Int64.ofNat distance) =
      some (Int64.ofInt (m.ip.toInt + distance)) := by
    rw [Word.add?_eq_some_iff, Int64.toInt_ofNat_of_lt (by omega)]
    refine Word.toInt_ofInt ?_ ?_
    · unfold Word.least
      omega
    · unfold Word.greatest
      omega
  have hahead : m.ahead distance = .ok (Int64.ofInt (m.ip.toInt + distance)) :=
    exactly_eq_ok.mpr hadd
  exact ⟨_, hahead, toInt_of_ahead hsmall hahead⟩

/-! ### Errors name a cause

An instruction is a sequence of looks, and each of them may fail. For each one the errors that it
can fail with have a cause, given what the looks before it have found. -/

theorem cause_of_fetch : ErrorsIn m.Cause m.fetch := by
  intro e h
  obtain ⟨rfl, hneg⟩ := error_of_load h
  exact .ip (Int64.lt_iff_toInt_lt.mp hneg)

/-- A word is not decoded because its code is unknown. -/
theorem cause_of_decode {word : Word} (hfetch : m.fetch = .ok word) :
    ErrorsIn m.Cause (m.decode word) := by
  intro e h
  have hremainder : (word % 100).toInt = word.toInt.tmod 100 := by
    rw [Int64.toInt_mod]
    rfl
  unfold decode at h
  split at h
  · contradiction
  · next fault hfault =>
    cases h
    obtain ⟨rfl, hunknown⟩ := Instruction.decode_eq_error hfault
    exact .opcode (read_of_load hfetch) hremainder hunknown

section Decoded

variable {word : Word} {i : Instruction} (hfetch : m.fetch = .ok word)
  (hdecode : m.decode word = .ok i)
include hfetch hdecode

theorem standsOn_of_decode : m.StandsOn word i.opcode :=
  ⟨read_of_load hfetch, opcode?_of_decode hdecode⟩

/-- A mode is refused because its digit is none of a mode. -/
theorem cause_of_operandMode {index : Nat} (hindex : index < i.opcode.operandCount) :
    ErrorsIn m.Cause (m.operandMode i index) := by
  have hthree : index < 3 := Nat.lt_of_lt_of_le hindex i.opcode.operandCount_le
  intro e h
  unfold operandMode Instruction.mode at h
  rw [Vector.getElem?_eq_getElem hthree] at h
  dsimp only at h
  split at h
  · contradiction
  · next fault hfault =>
    cases h
    obtain ⟨rfl, hunknown⟩ := Mode.error_of_decode hfault
    -- the digits of a positive word are not negative
    have hdigit := Assembly.toInt_mode_of_decode hdecode hthree
    have hne : ∀ mode : Mode, i.modes[index].toInt ≠ mode.code.toInt := fun mode heq =>
      hunknown mode (Int64.toInt_inj.mp heq.symm)
    have hzero : i.modes[index].toInt ≠ 0 := hne .position
    have hone : i.modes[index].toInt ≠ 1 := hne .immediate
    have htwo : i.modes[index].toInt ≠ 2 := hne .relative
    exact .mode (standsOn_of_decode hfetch hdecode) hindex
      (modeDigit_of_decode hthree hdecode).symm (Or.inl (by omega))

/-- **The address of an operand** is not found because of its mode, or because it is relative and
not a word. -/
theorem cause_of_operandAddress (hextent : m.memory.extent ≤ 2 ^ 60) {index : Nat}
    (hindex : index < i.opcode.operandCount) : ErrorsIn m.Cause (m.operandAddress i index) := by
  have hstands := standsOn_of_decode hfetch hdecode
  have hthree : index < 3 := Nat.lt_of_lt_of_le hindex i.opcode.operandCount_le
  have hnonneg : 0 ≤ m.ip.toInt := nonneg_of_load hfetch
  have hlt := lt_extent_of_decode hfetch hdecode
  obtain ⟨cell, hcell, hvalue⟩ := exists_ahead (index + 1) hnonneg (by omega) (by omega)
  obtain ⟨d, hd⟩ := exists_load (m := m) (a := cell) (by omega)
  refine (cause_of_operandMode hfetch hdecode hindex).bind fun mode hmode => ?_
  have hdigit : Ideal.modeDigit word.toInt index = mode.code.toInt := by
    rw [modeDigit_of_decode hthree hdecode,
      (Instruction.mode_eq_ok_iff hthree).mp (mode_of_operandMode hmode)]
  -- the word of the operand lies in memory, so only its mode and its value matter
  rw [hcell]
  cases mode with
  | position =>
    show ErrorsIn m.Cause (m.load cell)
    rw [hd]
    exact .ok d
  | immediate =>
    show ErrorsIn m.Cause (if i.opcode.admits index .immediate then .ok cell
      else .error (.invalidMode m.ip Mode.immediate.code))
    split
    · exact .ok cell
    · next hadmits =>
      have hwrite : i.opcode.writeOperand? = some index := by
        simpa [Opcode.admits] using hadmits
      exact .error (.mode hstands hindex hdigit.symm (Or.inr ⟨rfl, hwrite⟩))
  | relative =>
    show ErrorsIn m.Cause (m.load cell >>= fun d => m.exactly (Word.add? m.relativeBase d))
    rw [hd]
    refine errorsIn_exactly fun hnone => ?_
    have hread : m.ideal.read (m.ideal.ip + index + 1) = some d.toInt := by
      have hat : m.ideal.ip + index + 1 = cell.toInt := by
        rw [hvalue]
        show m.ip.toInt + index + 1 = _
        omega
      rw [hat, read_of_load hd]
    exact .overflow hstands (.address hindex hdigit hread) (Word.ofInt?_eq_none_iff.mp hnone)

omit hfetch in
/-- The addresses of the operands are those on the ideal machine. -/
theorem address_of_operands {o : Operands} (h : m.operands i = .ok o) {index : Nat} {a : Word}
    (hget : (o.addresses i.opcode)[index]? = some a) :
    m.ideal.address word.toInt i.opcode index = some a.toInt := by
  have hindex : index < i.opcode.operandCount := by
    have hlt := (List.getElem?_eq_some_iff.mp hget).1
    rwa [Operands.length_addresses] at hlt
  obtain ⟨a', hget', haddress⟩ := operandAddress_of_operands h hindex
  cases hget.symm.trans hget'
  exact address_of_operandAddress (Nat.lt_of_lt_of_le hindex i.opcode.operandCount_le) hdecode
    haddress

end Decoded

section Addressed

variable {word : Word} {op : Opcode} {o : Operands} (hstands : m.StandsOn word op)
  (haddress : ∀ {index a}, (o.addresses op)[index]? = some a →
    m.ideal.address word.toInt op index = some a.toInt)
include haddress

/-- What is read at the address of an operand is its value on the ideal machine. -/
theorem value?_of_load {index : Nat} {a v : Word} (hget : (o.addresses op)[index]? = some a)
    (hload : m.load a = .ok v) : m.ideal.value? word.toInt op index = some v.toInt := by
  unfold Ideal.value?
  rw [haddress hget]
  exact read_of_load hload

include hstands

/-- What an opcode reads or computes before it acts fails for a cause. -/
theorem cause_of_evaluate : ErrorsIn m.Cause (m.evaluate o op) := by
  have hload : ∀ {index a}, (o.addresses op)[index]? = some a →
      m.ideal.Dereferences word.toInt op index → ErrorsIn m.Cause (m.load a) := by
    intro index a hget hdereferences e h
    obtain ⟨rfl, hneg⟩ := error_of_load h
    exact .negative hstands hdereferences (haddress hget) (Int64.lt_iff_toInt_lt.mp hneg)
  have hoverflow : ∀ {n}, m.ideal.Computes word.toInt op n → ErrorsIn m.Cause
      (m.exactly (Word.ofInt? n)) := fun hcomputes => errorsIn_exactly fun hnone =>
    .overflow hstands hcomputes (Word.ofInt?_eq_none_iff.mp hnone)
  have hvalue : ∀ {index a v}, (o.addresses op)[index]? = some a → m.load a = .ok v →
      m.ideal.value? word.toInt op index = some v.toInt := value?_of_load haddress
  have hfirst : (0 < op.valueCount) → (o.addresses op)[0]? = some o.first →
      ErrorsIn m.Cause (m.load o.first) := fun hlt hget => hload hget (.value hlt)
  have hsecond : (1 < op.valueCount) → (o.addresses op)[1]? = some o.second →
      ErrorsIn m.Cause (m.load o.second) := fun hlt hget => hload hget (.value hlt)
  -- each operation looks at its first value, then at its second, then at what it makes of them; a
  -- look that fails ends the operation, so every cause may use the looks in front of it
  cases op with
  | add =>
    refine (hfirst (by decide) rfl).bind fun a ha => (hsecond (by decide) rfl).bind fun b hb => ?_
    exact (hoverflow (.sum (hvalue rfl ha) (hvalue rfl hb))).bind fun c _ => .ok _
  | mul =>
    refine (hfirst (by decide) rfl).bind fun a ha => (hsecond (by decide) rfl).bind fun b hb => ?_
    exact (hoverflow (.product (hvalue rfl ha) (hvalue rfl hb))).bind fun c _ => .ok _
  | lessThan | equals =>
    exact (hfirst (by decide) rfl).bind fun a _ => (hsecond (by decide) rfl).bind fun b _ => .ok _
  | input | halt => exact .ok _
  | output => exact (hfirst (by decide) rfl).bind fun a _ => .ok _
  | jumpIfTrue =>
    refine (hfirst (by decide) rfl).bind fun a ha => ?_
    split
    · next hne =>
      have htaken : a.toInt ≠ 0 := fun heq => hne (Int64.toInt_inj.mp heq)
      exact (hload rfl (.jumpIfTrue (hvalue rfl ha) htaken)).bind fun b _ => .ok _
    · exact .ok _
  | jumpIfFalse =>
    refine (hfirst (by decide) rfl).bind fun a ha => ?_
    split
    · next heq =>
      subst heq
      exact (hload rfl (.jumpIfFalse (hvalue rfl ha))).bind fun b _ => .ok _
    · exact .ok _
  | adjustBase =>
    refine (hfirst (by decide) rfl).bind fun a ha => ?_
    exact (hoverflow (.base (hvalue rfl ha))).bind fun base _ => .ok _

/-- A write that is refused has a cause, or is denied. -/
theorem cause_of_apply [Allocator] {next : Word} {effect : Effect} (hfinds : m.Finds o op effect) :
    ErrorsIn (fun e => m.Cause e ∨ m.Denied e) (m.apply next effect).result := by
  intro e h
  obtain ⟨a, heffect, rfl, hrefused⟩ := error_of_apply h
  -- what has been refused is the address of the operand that is written to
  have hwritten : ∃ index, op.writeOperand? = some index ∧ (o.addresses op)[index]? = some a ∧
      m.ideal.Dereferences word.toInt op index := by
    rcases heffect with ⟨value, rfl⟩ | rfl
    · obtain ⟨hwrite, hget⟩ := hfinds.write_inv
      exact ⟨2, hwrite, hget, .result hwrite⟩
    · obtain ⟨rfl, hget⟩ := hfinds.receive_inv
      refine ⟨0, rfl, hget, .receive fun hnil => ?_⟩
      -- without a value the instruction would wait
      unfold apply at h
      rw [List.map_eq_nil_iff.mp hnil] at h
      contradiction
  obtain ⟨index, hwrite, hget, hdereferences⟩ := hwritten
  rcases not_accepts_iff.mp hrefused with hneg | habove | ⟨hrange, hbeyond, hdenied⟩
  · exact Or.inl (.negative hstands hdereferences (haddress hget) hneg)
  · exact Or.inl (.tooHigh hstands hdereferences hwrite (haddress hget) habove)
  · exact Or.inr (.intro hstands hdereferences hwrite (haddress hget) hrange hbeyond hdenied)

/-! ### An instruction that succeeds has no cause

In the other direction every cause is contradicted by a look that has succeeded, or by the write
that has not been refused. -/

omit hstands

omit haddress in
/-- What an opcode reads in any case has been read when its effect is found. -/
theorem exists_load_of_finds {effect : Effect} {index : Nat} {a : Word}
    (hfinds : m.Finds o op effect) (hlt : index < op.valueCount)
    (hget : (o.addresses op)[index]? = some a) : ∃ v, m.load a = .ok v := by
  -- an operand that is a value has been loaded by then, whatever the effect is
  cases hfinds with
  | add ha hb | mul ha hb | lessThan ha hb | equals ha hb =>
    match index, hlt with
    | 0, _ =>
      cases hget
      exact ⟨_, ha⟩
    | 1, _ =>
      cases hget
      exact ⟨_, hb⟩
  | output ha | jumpIfTrue ha | jumpIfFalse ha | notTrue ha | notFalse ha | adjustBase ha =>
    match index, hlt with
    | 0, _ =>
      cases hget
      exact ⟨_, ha⟩
  | input | halt => contradiction

/-- A cell that a successful instruction reads or writes is not refused. -/
theorem of_dereferences [Allocator] {next : Word} {effect : Effect} {event : Option Event}
    {index : Nat} {a : Word} (hfinds : m.Finds o op effect)
    (h : (m.apply next effect).result = .ok event)
    (hdereferences : m.ideal.Dereferences word.toInt op index)
    (hget : (o.addresses op)[index]? = some a) :
    0 ≤ a.toInt ∧ (op.writeOperand? = some index → m.memory.accepts a) := by
  have hwritten : ∀ {a}, m.memory.accepts a →
      0 ≤ a.toInt ∧ (op.writeOperand? = some index → m.memory.accepts a) :=
    fun haccepts => ⟨(accepts_iff.mp haccepts).1.1, fun _ => haccepts⟩
  cases hdereferences with
  | value hlt =>
    obtain ⟨v, hload⟩ := exists_load_of_finds hfinds hlt hget
    exact ⟨nonneg_of_load hload, fun hwrite => absurd hwrite (Opcode.writeOperand?_ne_of_lt hlt)⟩
  | jumpIfTrue test taken =>
    cases hfinds with
    | jumpIfTrue _ _ hb =>
      cases hget
      exact ⟨nonneg_of_load hb, nofun⟩
    -- the jump was not taken, yet the operand of its target is said to be dereferenced
    | notTrue ha heq =>
      have hzero := Option.some.inj ((value?_of_load haddress rfl ha).symm.trans test)
      rw [heq] at hzero
      exact absurd hzero.symm taken
  | jumpIfFalse test =>
    cases hfinds with
    | jumpIfFalse _ _ hb =>
      cases hget
      exact ⟨nonneg_of_load hb, nofun⟩
    | notFalse ha hne =>
      have hzero := Option.some.inj ((value?_of_load haddress rfl ha).symm.trans test)
      exact absurd (Int64.toInt_inj.mp hzero) hne
  | result written =>
    cases hfinds with
    | add | mul | lessThan | equals =>
      cases hget
      exact hwritten (accepts_of_store h).1
    | input | output | jumpIfTrue | jumpIfFalse | notTrue | notFalse | adjustBase | halt =>
      contradiction
  | receive waiting =>
    cases hfinds
    cases hget
    obtain ⟨value, rest, hinput⟩ := List.exists_cons_of_ne_nil
      fun hnil => waiting (List.map_eq_nil_iff.mpr hnil)
    unfold apply at h
    rw [hinput] at h
    exact hwritten (accepts_of_store h).1

/-- What a successful instruction computes is a word. -/
theorem exists_word_of_computes {effect : Effect} {n : Int} (hfinds : m.Finds o op effect)
    (hcomputes : m.ideal.Computes word.toInt op n) : ∃ w : Word, w.toInt = n := by
  have hvalue : ∀ {index a v x}, (o.addresses op)[index]? = some a → m.load a = .ok v →
      m.ideal.value? word.toInt op index = some x → v.toInt = x := by
    intro index a v x hget hload hx
    exact Option.some.inj ((value?_of_load haddress hget hload).symm.trans hx)
  cases hcomputes with
  | @address _ index d used mode distance =>
    have hlength : index < (o.addresses op).length := by
      rw [Operands.length_addresses]
      exact used
    have haddressed := haddress (List.getElem?_eq_getElem hlength)
    unfold Ideal.address at haddressed
    simp only [mode, distance] at haddressed
    exact ⟨_, (Option.some.inj haddressed).symm⟩
  | sum first second =>
    cases hfinds with
    | add ha hb hc => exact ⟨_, by rw [hc, hvalue rfl ha first, hvalue rfl hb second]⟩
  | product first second =>
    cases hfinds with
    | mul ha hb hc => exact ⟨_, by rw [hc, hvalue rfl ha first, hvalue rfl hb second]⟩
  | base first =>
    cases hfinds with
    | adjustBase ha hbase =>
      refine ⟨_, hbase.trans ?_⟩
      rw [hvalue rfl ha first]
      rfl

end Addressed

/-- A machine stands on one instruction. -/
theorem StandsOn.unique {word word' : Word} {op op' : Opcode} (h : m.StandsOn word op)
    (h' : m.StandsOn word' op') : word' = word ∧ op' = op := by
  have hword : word' = word :=
    Int64.toInt_inj.mp (Option.some.inj (h'.fetched.symm.trans h.fetched))
  subst hword
  exact ⟨rfl, Option.some.inj (h'.opcode.symm.trans h.opcode)⟩

section Succeeds

variable [Allocator] {word : Word} {i : Instruction} {o : Operands} {next : Word} {effect : Effect}
  {event : Option Event} (h : m.Prepared word i o next effect)
include h

omit [Allocator] in
/-- An operand that has an address is one that the opcode has. -/
theorem getElem?_of_dereferences {index : Nat} {a : Word}
    (hdereferences : m.ideal.Dereferences word.toInt i.opcode index)
    (heffective : m.ideal.address word.toInt i.opcode index = some a.toInt) :
    (o.addresses i.opcode)[index]? = some a := by
  have hlength : index < (o.addresses i.opcode).length := by
    rw [Operands.length_addresses]
    exact hdereferences.lt
  have hfound := List.getElem?_eq_getElem hlength
  have haddress := address_of_operands h.decoded h.addressed hfound
  rw [hfound, Int64.toInt_inj.mp (Option.some.inj (haddress.symm.trans heffective))]

variable (hresult : (m.apply next effect).result = .ok event)
include hresult

/-- The cells that a prepared instruction reads or writes are not refused if it succeeds. -/
theorem reached_of_prepared {index : Nat} {a : Word}
    (hdereferences : m.ideal.Dereferences word.toInt i.opcode index)
    (heffective : m.ideal.address word.toInt i.opcode index = some a.toInt) :
    0 ≤ a.toInt ∧ (i.opcode.writeOperand? = some index → m.memory.accepts a) :=
  of_dereferences (address_of_operands h.decoded h.addressed) (finds_of_evaluate h.evaluated) hresult
    hdereferences (getElem?_of_dereferences h hdereferences heffective)

/-- An instruction that succeeds has not been denied any room. -/
theorem not_denied_of_prepared (e : RuntimeError) : ¬ m.Denied e := by
  rintro ⟨stands, dereferenced, written, effective, inRange, beyond, refused⟩
  obtain ⟨rfl, rfl⟩ := (standsOn_of_decode h.fetched h.decoded).unique stands
  have haccepts := (reached_of_prepared h hresult dereferenced effective).2 written
  exact not_accepts_iff.mpr (Or.inr (Or.inr ⟨inRange, beyond, refused⟩)) haccepts

/-- An instruction that succeeds has no cause to fail. -/
theorem not_cause_of_prepared (e : RuntimeError) : ¬ m.Cause e := by
  have hstands := standsOn_of_decode h.fetched h.decoded
  intro hcause
  cases hcause with
  | ip neg => exact absurd neg (by have := nonneg_of_load h.fetched; omega)
  | @opcode word' code fetched remainder unknown =>
    have hword : word' = word :=
      Int64.toInt_inj.mp (Option.some.inj (fetched.symm.trans (read_of_load h.fetched)))
    subst hword
    refine unknown i.opcode ?_
    rw [(of_decode h.decoded).1, ← Int64.toInt_inj, remainder, Int64.toInt_mod]
    rfl
  | mode stands used digit_eq refused =>
    obtain ⟨rfl, rfl⟩ := hstands.unique stands
    obtain ⟨a, -, hoperand⟩ := operandAddress_of_operands h.addressed used
    obtain ⟨mode, hmode, hadmits⟩ := admits_of_operandAddress hoperand
    have hthree := Nat.lt_of_lt_of_le used i.opcode.operandCount_le
    rw [modeDigit_of_decode hthree h.decoded, (Instruction.mode_eq_ok_iff hthree).mp hmode]
      at digit_eq
    rcases refused with hlarge | ⟨hone, hwrite⟩
    · -- two is the greatest of the modes
      rw [digit_eq] at hlarge
      cases mode <;> contradiction
    · rw [digit_eq] at hone
      cases mode with
      | position | relative => contradiction
      | immediate => simp [Opcode.admits, hwrite] at hadmits
  | negative stands dereferenced effective neg =>
    obtain ⟨rfl, rfl⟩ := hstands.unique stands
    have hreached := (reached_of_prepared h hresult dereferenced effective).1
    omega
  | tooHigh stands dereferenced written effective above =>
    obtain ⟨rfl, rfl⟩ := hstands.unique stands
    have haccepts := (reached_of_prepared h hresult dereferenced effective).2 written
    exact not_accepts_iff.mpr (Or.inr (Or.inl above)) haccepts
  | overflow stands computed outside =>
    obtain ⟨rfl, rfl⟩ := hstands.unique stands
    obtain ⟨w, rfl⟩ := exists_word_of_computes (address_of_operands h.decoded h.addressed)
      (finds_of_evaluate h.evaluated) computed
    have hlo := Word.least_le_toInt w
    have hhi := Word.toInt_le_greatest w
    omega

end Succeeds

/-! ### The main statement

Failing looks have a cause in the machine, and a refused write has one there or lies with the
allocator. -/

/-- A look that fails has a cause. -/
theorem cause_of_fails (hextent : m.memory.extent ≤ 2 ^ 60) {ip : Word} {e : RuntimeError}
    {notices : List Notice} (h : m.Fails ip e notices) : m.Cause e := by
  cases h with
  | fetch failed => exact cause_of_fetch e failed
  | decode fetched failed => exact cause_of_decode fetched e failed
  | operands fetched decoded failed =>
    exact errorsIn_operands
      (fun index hindex => cause_of_operandAddress fetched decoded hextent hindex) e failed
  | @ahead word i _ _ fetched decoded addressed failed =>
    -- the instruction is in a cell that exists, so the one behind it has an address
    have hlt := lt_extent_of_decode fetched decoded
    have hcount := i.opcode.operandCount_le
    obtain ⟨cell, hcell, -⟩ := exists_ahead (1 + i.opcode.operandCount) (nonneg_of_load fetched)
      (by omega) (by omega)
    cases hcell.symm.trans failed
  | evaluate fetched decoded addressed _ failed =>
    exact cause_of_evaluate (standsOn_of_decode fetched decoded)
      (address_of_operands decoded addressed) e failed

/-- **An instruction that fails** has a cause or has been denied room. -/
theorem cause_of_execute [Allocator] (hextent : m.memory.extent ≤ 2 ^ 60) :
    ErrorsIn (fun e => m.Cause e ∨ m.Denied e) m.execute.result := by
  intro e h
  rcases fails_or_apply_of_error h with
    ⟨ip, notices, hfails⟩ | ⟨word, i, o, next, effect, hprepared, hresult⟩
  · exact Or.inl (cause_of_fails hextent hfails)
  · exact cause_of_apply (standsOn_of_decode hprepared.fetched hprepared.decoded)
      (address_of_operands hprepared.decoded hprepared.addressed)
      (finds_of_evaluate hprepared.evaluated) e hresult

/-- Who is granted every request is not denied any room. -/
theorem not_denied_of_grants [Allocator] (h : ∀ n, Allocator.grants m.memory n) (e : RuntimeError) :
    ¬ m.Denied e := by
  rintro ⟨-, -, -, -, -, -, refused⟩
  rw [h] at refused
  contradiction

/-- **Errors are genuine, and none is missing.** Let a machine run, with its memory far from the end
of the address space, and with any allocator.

* The error of its instruction names a cause or room that has been denied, and is neither that of a
  run without input nor that of a ring.
* The instruction succeeds if and only if there is no cause and no room is denied.
* So with an allocator that grants this memory every request, it is the causes in the machine alone
  that make an instruction fail. -/
theorem execute_ok_iff [Allocator] (hrun : m.halted = false)
    (hextent : m.memory.extent ≤ 2 ^ 60) :
    (∀ e, m.execute.result = .error e →
      (m.Cause e ∨ m.Denied e) ∧ (∀ ip, e ≠ .inputExhausted ip) ∧ e ≠ .deadlock) ∧
    ((∃ event, m.execute.result = .ok event) ↔ ¬ ∃ e, m.Cause e ∨ m.Denied e) ∧
    ((∀ n, Allocator.grants m.memory n) →
      (∀ e, m.execute.result = .error e → m.Cause e) ∧
      ((∃ event, m.execute.result = .ok event) ↔ ¬ ∃ e, m.Cause e)) := by
  have hcause : ErrorsIn (fun e => m.Cause e ∨ m.Denied e) m.execute.result :=
    cause_of_execute hextent
  have hok : (∃ event, m.execute.result = .ok event) ↔ ¬ ∃ e, m.Cause e ∨ m.Denied e := by
    constructor
    · rintro ⟨event, h⟩ ⟨e, he⟩
      obtain ⟨word, i, o, next, effect, hprepared, hresult⟩ := exists_prepared_of_ok hrun h
      exact he.elim (not_cause_of_prepared hprepared hresult e)
        (not_denied_of_prepared hprepared hresult e)
    · intro hnone
      cases hresult : m.execute.result with
      | error e => exact absurd ⟨e, hcause e hresult⟩ hnone
      | ok event => exact ⟨event, rfl⟩
  refine ⟨fun e h => ?_, hok, fun hgrants => ⟨fun e h => ?_, hok.trans ?_⟩⟩
  · have he := hcause e h
    -- both name an address, a mode, an opcode or an integer that is no word
    refine ⟨he, fun ip heq => ?_, fun heq => ?_⟩
    · subst heq
      rcases he with he | he <;> cases he
    · subst heq
      rcases he with he | he <;> cases he
  · exact (hcause e h).resolve_right (not_denied_of_grants hgrants e)
  · simp only [not_denied_of_grants hgrants, or_false]

/-- A machine at a jump to an address that is in a cell that does not exist, with the value that
decides about the jump behind it. -/
def beforeJump (test : Word) : Machine := ⟨0, 0, ⟨#[5, 3, -7, test]⟩, [], false⟩

/-- A machine in front of an addition whose result goes to a cell beyond its memory. -/
def beforeGrowth : Machine := ⟨0, 0, ⟨#[1101, 1, 1, 1000, 99]⟩, [], false⟩

/-- The target of a jump is a cause to fail if the jump is taken, and none if it is not. Where fewer
cells are granted than an addition needs for its result, it has no cause to fail and is denied. -/
theorem execute_ok_iff_jump :
    (¬ ∃ e, (beforeJump 0).Cause e) ∧ (beforeJump 1).Cause (.invalidAddress 0 (-7)) ∧
    (¬ ∃ e, beforeGrowth.Cause e) ∧
    @Denied (.upTo 100) beforeGrowth (.invalidAddress 0 1000) := by
  have hgrants : ∀ (m : Machine) (n : Nat), Allocator.grants m.memory n := fun _ _ => rfl
  have hgrowth : ¬ ∃ e, beforeGrowth.Cause e :=
    ((execute_ok_iff (m := beforeGrowth) rfl (by decide)).2.2 (hgrants _)).2.mp ⟨none, rfl⟩
  refine ⟨?_, ?_, hgrowth, ?_⟩
  · exact ((execute_ok_iff (m := beforeJump 0) rfl (by decide)).2.2 (hgrants _)).2.mp ⟨none, rfl⟩
  · exact ((execute_ok_iff (m := beforeJump 1) rfl (by decide)).2.2 (hgrants _)).1
      (.invalidAddress 0 (-7)) rfl
  · let _ : Allocator := .upTo 100
    have hdenied := ((execute_ok_iff (m := beforeGrowth) rfl (by decide)).1
      (.invalidAddress 0 1000) rfl).1
    exact hdenied.resolve_left fun hcause => hgrowth ⟨_, hcause⟩

end Machine

end Intcode
