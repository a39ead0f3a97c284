import Intcode.Machine.Step

/-!
# What one instruction does

`Machine.execute` looks before it acts. This module says once what the two parts can come to, so
that later proofs take an execution apart without unfolding it.

* `Prepared`, `Fails` — the looking part finds an effect, or fails;
* `Executes` — what an instruction comes to, with `executes` for every machine;
* `Finds` — the effects that each opcode finds;
* `Refuses` — the errors that each opcode can find instead;
* `errorsIn_execute` — what holds of every error of an instruction;
* `RuntimeError.Raised`, `raised_of_execute` — the errors that an instruction can fail with;
* `execute_extendInput` — input that waits behind other input makes no difference to an
  instruction, unless it waits for input itself;
* `execute_pushInput` — the instruction that waits for input consumes the next value to come.
-/

namespace Intcode

/-- A sequence of two parts succeeds if both do. -/
theorem bind_eq_ok {ε α β : Type} {x : Except ε α} {f : α → Except ε β} {b : β} :
    (x >>= f) = .ok b ↔ ∃ a, x = .ok a ∧ f a = .ok b := by
  cases x with
  | error e =>
    constructor
    · intro h
      contradiction
    · rintro ⟨a, ha, -⟩
      contradiction
  | ok a =>
    constructor
    · intro h
      exact ⟨a, rfl, h⟩
    · rintro ⟨a', ha, h⟩
      cases ha
      exact h

/-- A result that is passed on is a result before. -/
theorem map_eq_ok {ε α β : Type} {x : Except ε α} {f : α → β} {b : β} :
    f <$> x = .ok b ↔ ∃ a, x = .ok a ∧ f a = b := by
  cases x with
  | error e =>
    constructor
    · intro h
      contradiction
    · rintro ⟨a, ha, -⟩
      contradiction
  | ok a =>
    constructor
    · intro h
      exact ⟨a, rfl, Except.ok.inj h⟩
    · rintro ⟨a', ha, h⟩
      cases ha
      exact congrArg Except.ok h

/-- A result that is passed on does not turn into an error. -/
theorem map_eq_error {ε α β : Type} {x : Except ε α} {f : α → β} {e : ε} :
    f <$> x = .error e ↔ x = .error e := by
  cases x with
  | error e' => exact ⟨fun h => congrArg Except.error (Except.error.inj h), congrArg _⟩
  | ok a =>
    constructor
    · intro h
      contradiction
    · intro h
      contradiction

/-- Every error that a computation can end in has this property. -/
def ErrorsIn {ε α : Type} (P : ε → Prop) (x : Except ε α) : Prop := ∀ e, x = .error e → P e

namespace ErrorsIn

variable {ε α β : Type} {P : ε → Prop}

theorem ok (a : α) : ErrorsIn P (.ok a) := by
  intro e h
  contradiction

theorem error {e : ε} (h : P e) : ErrorsIn P (.error e : Except ε α) := by
  intro e' heq
  cases heq
  exact h

/-- The errors of a sequence are those of its parts. -/
theorem bind {x : Except ε α} {f : α → Except ε β} (hx : ErrorsIn P x)
    (hf : ∀ a, x = .ok a → ErrorsIn P (f a)) : ErrorsIn P (x >>= f) := by
  cases x with
  | error e => exact error (hx e rfl)
  | ok a => exact hf a rfl

end ErrorsIn

/-- An error that the instruction at `ip` can fail with. -/
inductive RuntimeError.Raised (ip : Word) : RuntimeError → Prop where
  | invalidAddress (address : Word) : Raised ip (.invalidAddress ip address)
  | invalidMode (mode : Word) : Raised ip (.invalidMode ip mode)
  | invalidOpcode (code : Word) : Raised ip (.invalidOpcode ip code)
  | overflow : Raised ip (.overflow ip)

/-! ### Outcomes

An outcome is a machine, a result and notices. The notice of the instruction itself stands in front
of those of its effect. -/

namespace Step

/-- The outcome of an instruction after one more notice. -/
def noting (notice : Notice) (s : Step) : Step := { s with notices := notice :: s.notices }

@[simp] theorem noting_machine (n : Notice) (s : Step) : (noting n s).machine = s.machine := rfl

@[simp] theorem noting_result (n : Notice) (s : Step) : (noting n s).result = s.result := rfl

/-- The same outcome with these values behind the input that is left. -/
def extendInput (s : Step) (values : List Word) : Step :=
  { s with machine := s.machine.extendInput values }

@[simp] theorem extendInput_machine (s : Step) (values : List Word) :
    (s.extendInput values).machine = s.machine.extendInput values := rfl

@[simp] theorem extendInput_result (s : Step) (values : List Word) :
    (s.extendInput values).result = s.result := rfl

end Step

namespace Machine

open Step (noting)

/-! ### Looking and acting

While an instruction looks, it only reads: its word, its operands, the address behind it and the
values that it needs. It looks in this order, and the first look that fails is its error. Once all
looks are done there is an effect, and only the effect changes the machine. -/

/-- The instruction at `m.ip` is `word`, which is decoded as `i`; its operands stand at these
addresses, the instruction behind it stands at `next`, and it is about to have this effect. -/
structure Prepared (m : Machine) (word : Word) (i : Instruction) (operands : Operands)
    (next : Word) (effect : Effect) : Prop where
  fetched : m.fetch = .ok word
  decoded : m.decode word = .ok i
  addressed : m.operands i = .ok operands
  advanced : m.ahead (1 + i.opcode.operandCount) = .ok next
  evaluated : m.evaluate operands i.opcode = .ok effect

/-- The instruction at `m.ip` fails while it looks: with this error, after these notices, and with
the instruction pointer at `ip`. Only the last look finds it behind the instruction. -/
inductive Fails (m : Machine) : Word → RuntimeError → List Notice → Prop where
  | fetch {e : RuntimeError} (failed : m.fetch = .error e) : Fails m m.ip e []
  | decode {word : Word} {e : RuntimeError} (fetched : m.fetch = .ok word)
      (failed : m.decode word = .error e) : Fails m m.ip e []
  | operands {word : Word} {i : Instruction} {e : RuntimeError} (fetched : m.fetch = .ok word)
      (decoded : m.decode word = .ok i) (failed : m.operands i = .error e) :
      Fails m m.ip e [.decode m.ip word i.opcode]
  | ahead {word : Word} {i : Instruction} {operands : Operands} {e : RuntimeError}
      (fetched : m.fetch = .ok word) (decoded : m.decode word = .ok i)
      (addressed : m.operands i = .ok operands)
      (failed : m.ahead (1 + i.opcode.operandCount) = .error e) :
      Fails m m.ip e [.decode m.ip word i.opcode]
  | evaluate {word : Word} {i : Instruction} {operands : Operands} {next : Word}
      {e : RuntimeError} (fetched : m.fetch = .ok word) (decoded : m.decode word = .ok i)
      (addressed : m.operands i = .ok operands)
      (advanced : m.ahead (1 + i.opcode.operandCount) = .ok next)
      (failed : m.evaluate operands i.opcode = .error e) :
      Fails m next e [.decode m.ip word i.opcode]

section Acting

variable [Allocator]

/-- A machine that has halted says so again and stays as it is. -/
theorem execute_of_halted {m : Machine} (h : m.halted) :
    m.execute = ⟨m, .ok (some .halted), []⟩ := by
  unfold execute
  rw [if_pos h]

/-- A machine that runs goes by the word that it has fetched. -/
theorem execute_eq_executeWord {m : Machine} {word : Word} (hrun : m.halted = false)
    (h : m.fetch = .ok word) : m.execute = m.executeWord word := by
  unfold execute
  rw [if_neg (by simp [hrun]), h]

/-- A word that is an instruction is announced, and then carried out. -/
theorem executeWord_eq_executeDecoded {m : Machine} {word : Word} {i : Instruction}
    (h : m.decode word = .ok i) :
    m.executeWord word = noting (.decode m.ip word i.opcode) (m.executeDecoded i) := by
  unfold executeWord
  rw [h]
  rfl

/-- All looks have succeeded, and the effect takes place. -/
theorem execute_of_prepared {m : Machine} {word : Word} {i : Instruction} {operands : Operands}
    {next : Word} {effect : Effect} (hrun : m.halted = false)
    (h : m.Prepared word i operands next effect) :
    m.execute = noting (.decode m.ip word i.opcode) (m.apply next effect) := by
  rw [execute_eq_executeWord hrun h.fetched, executeWord_eq_executeDecoded h.decoded]
  unfold executeDecoded
  simp only [h.addressed, h.advanced, h.evaluated]

/-- A look has failed, and nothing has changed but perhaps the instruction pointer. -/
theorem execute_of_fails {m : Machine} {ip : Word} {e : RuntimeError} {notices : List Notice}
    (hrun : m.halted = false) (h : m.Fails ip e notices) :
    m.execute = ⟨{ m with ip }, .error e, notices⟩ := by
  -- each way to fail fixes every look before it, so the definition is opened exactly as far as the
  -- look that failed
  cases h with
  | fetch failed =>
    unfold execute
    rw [if_neg (by simp [hrun]), failed]
  | decode fetched failed =>
    rw [execute_eq_executeWord hrun fetched]
    unfold executeWord
    rw [failed]
  | operands fetched decoded failed =>
    rw [execute_eq_executeWord hrun fetched, executeWord_eq_executeDecoded decoded]
    unfold executeDecoded
    rw [failed]
    rfl
  | ahead fetched decoded addressed failed =>
    rw [execute_eq_executeWord hrun fetched, executeWord_eq_executeDecoded decoded]
    unfold executeDecoded
    simp only [addressed, failed]
    rfl
  | evaluate fetched decoded addressed advanced failed =>
    rw [execute_eq_executeWord hrun fetched, executeWord_eq_executeDecoded decoded]
    unfold executeDecoded
    simp only [addressed, advanced, failed]
    rfl

/-- What an instruction comes to: the machine has halted before, or the instruction fails while it
looks, or the effect that it finds is carried out. -/
inductive Executes (m : Machine) : Step → Prop where
  | halted (halted : m.halted) : Executes m ⟨m, .ok (some .halted), []⟩
  | fails {ip : Word} {e : RuntimeError} {notices : List Notice} (running : m.halted = false)
      (failed : m.Fails ip e notices) : Executes m ⟨{ m with ip }, .error e, notices⟩
  | acts {word : Word} {i : Instruction} {operands : Operands} {next : Word} {effect : Effect}
      (running : m.halted = false) (prepared : m.Prepared word i operands next effect) :
      Executes m (noting (.decode m.ip word i.opcode) (m.apply next effect))

/-- **Every instruction comes to one of these.** Later proofs take it apart with this and nothing
else. -/
theorem executes (m : Machine) : m.Executes m.execute := by
  cases hhalted : m.halted with
  | true =>
    rw [execute_of_halted hhalted]
    exact .halted hhalted
  | false =>
    have hfails : ∀ {ip : Word} {e : RuntimeError} {notices : List Notice},
        m.Fails ip e notices → m.Executes m.execute := by
      intro ip e notices h
      rw [execute_of_fails hhalted h]
      exact .fails hhalted h
    -- one look after the other, up to the first one that fails
    rcases hfetch : m.fetch with e | word
    · exact hfails (.fetch hfetch)
    rcases hdecode : m.decode word with e | i
    · exact hfails (.decode hfetch hdecode)
    rcases hoperands : m.operands i with e | operands
    · exact hfails (.operands hfetch hdecode hoperands)
    rcases hahead : m.ahead (1 + i.opcode.operandCount) with e | next
    · exact hfails (.ahead hfetch hdecode hoperands hahead)
    rcases hevaluate : m.evaluate operands i.opcode with e | effect
    · exact hfails (.evaluate hfetch hdecode hoperands hahead hevaluate)
    · have hprepared : m.Prepared word i operands next effect :=
        ⟨hfetch, hdecode, hoperands, hahead, hevaluate⟩
      rw [execute_of_prepared hhalted hprepared]
      exact .acts hhalted hprepared

/-- An instruction that succeeds has had an effect. -/
theorem exists_prepared_of_ok {m : Machine} {e : Option Event} (hrun : m.halted = false)
    (h : m.execute.result = .ok e) :
    ∃ word i operands next effect, m.Prepared word i operands next effect ∧
      (m.apply next effect).result = .ok e := by
  have hexecutes := m.executes
  generalize m.execute = s at h hexecutes
  cases hexecutes with
  | halted hhalted =>
    rw [hrun] at hhalted
    contradiction
  | fails => contradiction
  | acts _ hprepared => exact ⟨_, _, _, _, _, hprepared, h⟩

end Acting

/-! ### The effect of each opcode

What an opcode finds depends on the values at the addresses of its operands. The relation has a case
for each opcode and each way in which a jump can go, so that a proof about effects is a case
analysis over them. -/

/-- An integer that is no word is an overflow. -/
theorem exactly_eq_ok {m : Machine} {value? : Option Word} {value : Word} :
    m.exactly value? = .ok value ↔ value? = some value := by
  unfold exactly
  cases value? <;> simp

/-- The effects that the opcodes find with operands at these addresses. -/
inductive Finds (m : Machine) (o : Operands) : Opcode → Effect → Prop where
  | add {a b c : Word} (ha : m.load o.first = .ok a) (hb : m.load o.second = .ok b)
      (hc : c.toInt = a.toInt + b.toInt) : Finds m o .add (.write o.third c)
  | mul {a b c : Word} (ha : m.load o.first = .ok a) (hb : m.load o.second = .ok b)
      (hc : c.toInt = a.toInt * b.toInt) : Finds m o .mul (.write o.third c)
  | input : Finds m o .input (.receive o.first)
  | output {a : Word} (ha : m.load o.first = .ok a) : Finds m o .output (.emit a)
  | jumpIfTrue {a b : Word} (ha : m.load o.first = .ok a) (hne : a ≠ 0)
      (hb : m.load o.second = .ok b) : Finds m o .jumpIfTrue (.jump b)
  | notTrue {a : Word} (ha : m.load o.first = .ok a) (heq : a = 0) : Finds m o .jumpIfTrue .pass
  | jumpIfFalse {a b : Word} (ha : m.load o.first = .ok a) (heq : a = 0)
      (hb : m.load o.second = .ok b) : Finds m o .jumpIfFalse (.jump b)
  | notFalse {a : Word} (ha : m.load o.first = .ok a) (hne : a ≠ 0) :
      Finds m o .jumpIfFalse .pass
  | lessThan {a b : Word} (ha : m.load o.first = .ok a) (hb : m.load o.second = .ok b) :
      Finds m o .lessThan (.write o.third (.ofBool (a < b)))
  | equals {a b : Word} (ha : m.load o.first = .ok a) (hb : m.load o.second = .ok b) :
      Finds m o .equals (.write o.third (.ofBool (a = b)))
  | adjustBase {a base : Word} (ha : m.load o.first = .ok a)
      (hbase : base.toInt = m.relativeBase.toInt + a.toInt) : Finds m o .adjustBase (.rebase base)
  | halt : Finds m o .halt .halt

/-- What an opcode evaluates to is one of these effects. -/
theorem finds_of_evaluate {m : Machine} {o : Operands} {op : Opcode} {effect : Effect}
    (h : m.evaluate o op = .ok effect) : m.Finds o op effect := by
  -- the bind of each operation is taken apart look by look, in the order in which they are made
  cases op with
  | add =>
    obtain ⟨a, ha, h⟩ := bind_eq_ok.mp h
    obtain ⟨b, hb, h⟩ := bind_eq_ok.mp h
    obtain ⟨c, hc, h⟩ := bind_eq_ok.mp h
    cases h
    exact .add ha hb (Word.add?_eq_some_iff.mp (exactly_eq_ok.mp hc))
  | mul =>
    obtain ⟨a, ha, h⟩ := bind_eq_ok.mp h
    obtain ⟨b, hb, h⟩ := bind_eq_ok.mp h
    obtain ⟨c, hc, h⟩ := bind_eq_ok.mp h
    cases h
    exact .mul ha hb (Word.mul?_eq_some_iff.mp (exactly_eq_ok.mp hc))
  | input =>
    cases h
    exact .input
  | output =>
    obtain ⟨a, ha, h⟩ := bind_eq_ok.mp h
    cases h
    exact .output ha
  | jumpIfTrue =>
    obtain ⟨a, ha, h⟩ := bind_eq_ok.mp h
    split at h
    · next hne =>
      obtain ⟨b, hb, h⟩ := bind_eq_ok.mp h
      cases h
      exact .jumpIfTrue ha hne hb
    · next heq =>
      cases h
      exact .notTrue ha (by simpa using heq)
  | jumpIfFalse =>
    obtain ⟨a, ha, h⟩ := bind_eq_ok.mp h
    split at h
    · next heq =>
      obtain ⟨b, hb, h⟩ := bind_eq_ok.mp h
      cases h
      exact .jumpIfFalse ha heq hb
    · next hne =>
      cases h
      exact .notFalse ha hne
  | lessThan =>
    obtain ⟨a, ha, h⟩ := bind_eq_ok.mp h
    obtain ⟨b, hb, h⟩ := bind_eq_ok.mp h
    cases h
    exact .lessThan ha hb
  | equals =>
    obtain ⟨a, ha, h⟩ := bind_eq_ok.mp h
    obtain ⟨b, hb, h⟩ := bind_eq_ok.mp h
    cases h
    exact .equals ha hb
  | adjustBase =>
    obtain ⟨a, ha, h⟩ := bind_eq_ok.mp h
    obtain ⟨base, hbase, h⟩ := bind_eq_ok.mp h
    cases h
    exact .adjustBase ha (Word.add?_eq_some_iff.mp (exactly_eq_ok.mp hbase))
  | halt =>
    cases h
    exact .halt

/-! ### Writing

A store is refused because of its address or for want of room, and the machine does not tell which.
Later proofs only ask whether the memory accepts the address. -/

/-- The addresses that can be written, by their values. -/
theorem isWritable_iff {a : Word} :
    Memory.isWritable a ↔ 0 ≤ a.toInt ∧ a.toInt ≤ Memory.maxAddress.toInt := by
  unfold Memory.isWritable
  rw [Bool.and_eq_true, decide_eq_true_iff, decide_eq_true_iff, Int64.le_iff_toInt_le,
    Int64.le_iff_toInt_le]
  rfl

section Writing

variable [Allocator]

/-- An address at which a value can be written is one that can be written, and there is room for its
cell. -/
theorem accepts_iff {memory : Memory} {a : Word} : memory.accepts a ↔
    (0 ≤ a.toInt ∧ a.toInt ≤ Memory.maxAddress.toInt) ∧ memory.hasRoom a.toInt.toNat := by
  unfold Memory.accepts
  rw [Bool.and_eq_true, isWritable_iff, Int64.toNat_toInt]

/-- A value that is accepted changes its cell. -/
theorem store_of_accepts {m : Machine} (ip : Word) {address : Word} (value : Word)
    (h : m.memory.accepts address) :
    m.store ip address value =
      ⟨{ m with memory := m.memory.store address.toNatClampNeg value }, .ok none,
        [.store address value]⟩ := by
  unfold store
  rw [if_pos h]

/-- A value that is refused has been noticed and changes nothing. -/
theorem store_of_not_accepts {m : Machine} (ip : Word) {address : Word} (value : Word)
    (h : ¬ m.memory.accepts address) :
    m.store ip address value =
      ⟨m, .error (.invalidAddress ip address), [.store address value]⟩ := by
  unfold store
  rw [if_neg h]

/-- Whether a value is written or refused, nothing but the memory changes, and no event comes of
it. -/
theorem store_cases (m : Machine) (ip address value : Word) :
    (m.store ip address value).machine.input = m.input ∧
      ((m.store ip address value).result = .ok none ∨
        ∃ error, (m.store ip address value).result = .error error) := by
  by_cases h : m.memory.accepts address
  · rw [store_of_accepts ip value h]
    exact ⟨rfl, Or.inl rfl⟩
  · rw [store_of_not_accepts ip value h]
    exact ⟨rfl, Or.inr ⟨_, rfl⟩⟩

/-- No event comes of a store. -/
theorem store_result_ne (m : Machine) (ip address value : Word) (event : Event) :
    (m.store ip address value).result ≠ .ok (some event) := by
  intro h
  rcases (store_cases m ip address value).2 with hok | ⟨error, herror⟩
  · rw [hok] at h
    simp at h
  · rw [herror] at h
    contradiction

end Writing

/-! ### Errors

A property of all errors of an instruction is shown look by look. `ErrorsIn` goes along the sequence
of looks as the instruction does, so no proof has to take the sequence apart. -/

/-- The addresses of the operands that an opcode has. -/
def Operands.addresses (o : Operands) (op : Opcode) : List Word :=
  [o.first, o.second, o.third].take op.operandCount

namespace Finds

variable {m : Machine} {o : Operands} {op : Opcode} {a : Word}

/-- An opcode that computes a result writes it to its third operand. -/
theorem write_inv {value : Word} (h : m.Finds o op (.write a value)) :
    op.writeOperand? = some 2 ∧ (o.addresses op)[2]? = some a := by
  cases h <;> exact ⟨rfl, rfl⟩

/-- Only an input instruction takes a value. -/
theorem receive_inv (h : m.Finds o op (.receive a)) :
    op = .input ∧ (o.addresses .input)[0]? = some a := by
  cases h
  exact ⟨rfl, rfl⟩

end Finds

section Errors

variable {m : Machine} {P : RuntimeError → Prop}

/-- Only a negative address cannot be loaded from. -/
theorem error_of_load {a : Word} {e : RuntimeError} (h : m.load a = .error e) :
    e = .invalidAddress m.ip a ∧ a < 0 := by
  unfold load Memory.read at h
  by_cases hneg : a < 0
  · rw [if_pos hneg] at h
    exact ⟨(Except.error.inj h).symm, hneg⟩
  · rw [if_neg hneg] at h
    contradiction

/-- The only error of an integer that has to be a word is the overflow. -/
theorem errorsIn_exactly {value? : Option Word} (hoverflow : value? = none → P (.overflow m.ip)) :
    ErrorsIn P (m.exactly value?) := by
  cases value? with
  | none => exact .error (hoverflow rfl)
  | some value => exact .ok value

/-- The errors of the opcodes with operands at these addresses, while they look for their effect. -/
inductive Refuses (m : Machine) (o : Operands) : Opcode → RuntimeError → Prop where
  | load {op : Opcode} {a : Word} {e : RuntimeError} (hmem : a ∈ o.addresses op)
      (h : m.load a = .error e) : Refuses m o op e
  | add {a b : Word} (ha : m.load o.first = .ok a) (hb : m.load o.second = .ok b)
      (h : Word.add? a b = none) : Refuses m o .add (.overflow m.ip)
  | mul {a b : Word} (ha : m.load o.first = .ok a) (hb : m.load o.second = .ok b)
      (h : Word.mul? a b = none) : Refuses m o .mul (.overflow m.ip)
  | adjustBase {a : Word} (ha : m.load o.first = .ok a)
      (h : Word.add? m.relativeBase a = none) : Refuses m o .adjustBase (.overflow m.ip)

/-- The errors of an opcode are those of the loads it makes and of the result it computes. -/
theorem refuses_of_evaluate {o : Operands} {op : Opcode} :
    ErrorsIn (m.Refuses o op) (m.evaluate o op) := by
  -- an operand is only loaded if the opcode has it
  have hfirst : 0 < op.operandCount → ErrorsIn (m.Refuses o op) (m.load o.first) := by
    intro hlt e
    exact .load (List.mem_take_iff_getElem.mpr ⟨0, Nat.lt_min.mpr ⟨hlt, by simp⟩, rfl⟩)
  have hsecond : 1 < op.operandCount → ErrorsIn (m.Refuses o op) (m.load o.second) := by
    intro hlt e
    exact .load (List.mem_take_iff_getElem.mpr ⟨1, Nat.lt_min.mpr ⟨hlt, by simp⟩, rfl⟩)
  cases op with
  | add =>
    exact (hfirst (by decide)).bind fun a ha => (hsecond (by decide)).bind fun b hb =>
      (errorsIn_exactly (.add ha hb)).bind fun c _ => .ok _
  | mul =>
    exact (hfirst (by decide)).bind fun a ha => (hsecond (by decide)).bind fun b hb =>
      (errorsIn_exactly (.mul ha hb)).bind fun c _ => .ok _
  | lessThan | equals =>
    exact (hfirst (by decide)).bind fun a _ => (hsecond (by decide)).bind fun b _ => .ok _
  | input | halt => exact .ok _
  | output => exact (hfirst (by decide)).bind fun a _ => .ok _
  | jumpIfTrue | jumpIfFalse =>
    refine (hfirst (by decide)).bind fun a _ => ?_
    split
    · exact (hsecond (by decide)).bind fun b _ => .ok _
    · exact .ok _
  | adjustBase =>
    exact (hfirst (by decide)).bind fun a ha =>
      (errorsIn_exactly (.adjustBase ha)).bind fun base _ => .ok _

/-- The operands fail where one of them does. -/
theorem errorsIn_operands {i : Instruction}
    (h : ∀ index < i.opcode.operandCount, ErrorsIn P (m.operandAddress i index)) :
    ErrorsIn P (m.operands i) := by
  have hoperand : ∀ index, ErrorsIn P (m.operandOrZero i index) := by
    intro index
    unfold operandOrZero
    split
    · next hlt => exact h index hlt
    · exact .ok 0
  exact (hoperand 0).bind fun first _ => (hoperand 1).bind fun second _ =>
    (hoperand 2).bind fun third _ => .ok _

/-- Only a write can still be refused when an instruction acts, and memory is then as it was. -/
theorem error_of_apply [Allocator] {next : Word} {effect : Effect} {e : RuntimeError}
    (h : (m.apply next effect).result = .error e) :
    ∃ a, ((∃ value, effect = .write a value) ∨ effect = .receive a) ∧
      e = .invalidAddress m.ip a ∧ ¬ m.memory.accepts a := by
  -- both effects that write go through the same store, the second one after a value has left the
  -- queue
  have hstore : ∀ {t : Machine} {a value : Word}, (t.store m.ip a value).result = .error e →
      t.memory = m.memory → e = .invalidAddress m.ip a ∧ ¬ m.memory.accepts a := by
    intro t a value hresult hmemory
    rw [← hmemory]
    by_cases haccepts : t.memory.accepts a
    · rw [store_of_accepts m.ip value haccepts] at hresult
      contradiction
    · rw [store_of_not_accepts m.ip value haccepts] at hresult
      exact ⟨(Except.error.inj hresult).symm, haccepts⟩
  cases effect with
  | write a value => exact ⟨a, Or.inl ⟨value, rfl⟩, hstore h rfl⟩
  | receive a =>
    unfold apply at h
    cases hinput : m.input with
    | nil => simp [hinput] at h
    | cons value rest =>
      simp only [hinput] at h
      exact ⟨a, Or.inr rfl, hstore h rfl⟩
  | emit | jump | pass | rebase | halt => contradiction

/-- An instruction fails while it looks or while it acts. -/
theorem fails_or_apply_of_error [Allocator] {e : RuntimeError} (h : m.execute.result = .error e) :
    (∃ ip notices, m.Fails ip e notices) ∨
      ∃ word i operands next effect, m.Prepared word i operands next effect ∧
        (m.apply next effect).result = .error e := by
  have hexecutes := m.executes
  generalize m.execute = s at h hexecutes
  cases hexecutes with
  | halted => contradiction
  | fails _ hfails =>
    cases h
    exact Or.inl ⟨_, _, hfails⟩
  | acts _ hprepared => exact Or.inr ⟨_, _, _, _, _, hprepared, h⟩

section Uniform

variable (haddress : ∀ a, P (.invalidAddress m.ip a)) (hoverflow : P (.overflow m.ip))

include haddress in
/-- A load fails for its address. -/
theorem errorsIn_load (a : Word) : ErrorsIn P (m.load a) := by
  intro e h
  rw [(error_of_load h).1]
  exact haddress a

include haddress hoverflow

/-- An operand whose mode can be read, and is allowed, fails for an address or an overflow. -/
theorem errorsIn_operandAddress {i : Instruction} {index : Nat}
    (hread : ErrorsIn P (m.operandMode i index))
    (hallowed : m.operandMode i index = .ok .immediate → i.opcode.admits index .immediate = false →
      P (.invalidMode m.ip Mode.immediate.code)) :
    ErrorsIn P (m.operandAddress i index) := by
  refine hread.bind fun mode hmode => (errorsIn_exactly fun _ => hoverflow).bind fun cell _ => ?_
  cases mode with
  | position => exact errorsIn_load haddress cell
  | immediate =>
    dsimp only
    split
    · exact .ok cell
    · next hadmits => exact .error (hallowed hmode (by simpa using hadmits))
  | relative =>
    exact (errorsIn_load haddress cell).bind fun distance _ => errorsIn_exactly fun _ => hoverflow

/-- An opcode fails for an address or an overflow. -/
theorem errorsIn_evaluate (o : Operands) (op : Opcode) : ErrorsIn P (m.evaluate o op) := by
  intro e h
  cases refuses_of_evaluate e h with
  | load _ hload => exact errorsIn_load haddress _ e hload
  | add | mul | adjustBase => exact hoverflow

/-- **The errors of an instruction** are those of its word and of its operands, and errors for an
address or an overflow. -/
theorem errorsIn_execute [Allocator]
    (hdecode : ∀ word, m.fetch = .ok word → ErrorsIn P (m.decode word))
    (hoperands : ∀ word i, m.fetch = .ok word → m.decode word = .ok i → ErrorsIn P (m.operands i)) :
    ErrorsIn P m.execute.result := by
  intro e h
  rcases fails_or_apply_of_error h with ⟨ip, notices, hfails⟩ | ⟨_, _, _, _, _, -, hresult⟩
  · cases hfails with
    | fetch failed => exact errorsIn_load haddress _ e failed
    | decode fetched failed => exact hdecode _ fetched e failed
    | operands fetched decoded failed => exact hoperands _ _ fetched decoded e failed
    | ahead _ _ _ failed => exact errorsIn_exactly (fun _ => hoverflow) e failed
    | evaluate _ _ _ _ failed => exact errorsIn_evaluate haddress hoverflow _ _ e failed
  · obtain ⟨a, -, rfl, -⟩ := error_of_apply hresult
    exact haddress a

end Uniform

/-- A word that cannot be read, or a digit that is no mode, is an error at the instruction. -/
theorem raised_atInstruction (ip : Word) (e : DecodeError) :
    RuntimeError.Raised ip (e.atInstruction ip) := by
  cases e with
  | invalidOpcode code => exact .invalidOpcode code
  | invalidMode code => exact .invalidMode code
  | noSuchParameter index => exact .invalidMode _

/-- The error of an instruction is one that an instruction at its address can fail with. -/
theorem raised_of_execute [Allocator] {e : RuntimeError} (h : m.execute.result = .error e) :
    e.Raised m.ip := by
  have hdecode : ∀ word, m.fetch = .ok word →
      ErrorsIn (RuntimeError.Raised m.ip) (m.decode word) := by
    intro word _
    unfold decode
    split
    · exact .ok _
    · exact .error (raised_atInstruction m.ip _)
  have hmode : ∀ i index, ErrorsIn (RuntimeError.Raised m.ip) (m.operandMode i index) := by
    intro i index
    unfold operandMode
    split
    · exact .ok _
    · exact .error (raised_atInstruction m.ip _)
  refine errorsIn_execute .invalidAddress .overflow hdecode (fun word i _ _ => ?_) e h
  exact errorsIn_operands fun index _ =>
    errorsIn_operandAddress .invalidAddress .overflow (hmode i index) fun _ _ => .invalidMode _

end Errors

/-! ### The input that waits

Input is looked at only when a value is taken, and then only at its front. So more input behind
makes no difference to any instruction but one that waits. -/

section Input

variable (m : Machine) (values : List Word)

@[simp] theorem extendInput_nil : m.extendInput [] = m := by
  simp [extendInput]

@[simp] theorem extendInput_extendInput (more : List Word) :
    (m.extendInput values).extendInput more = m.extendInput (values ++ more) := by
  simp [extendInput]

@[simp] theorem extendInput_halted : (m.extendInput values).halted = m.halted := rfl

@[simp] theorem extendInput_input : (m.extendInput values).input = m.input ++ values := rfl

/-- Input is not looked at before an instruction acts. -/
theorem evaluate_extendInput (operands : Operands) (op : Opcode) :
    (m.extendInput values).evaluate operands op = m.evaluate operands op := by
  cases op <;> rfl

/-- The looks find what they found before. -/
theorem Prepared.extendInput {m : Machine} {word : Word} {i : Instruction} {operands : Operands}
    {next : Word} {effect : Effect} (h : m.Prepared word i operands next effect)
    (values : List Word) : (m.extendInput values).Prepared word i operands next effect where
  fetched := h.fetched
  decoded := h.decoded
  addressed := h.addressed
  advanced := h.advanced
  evaluated := (evaluate_extendInput m values operands i.opcode).trans h.evaluated

/-- A look that fails does not depend on input. -/
theorem Fails.extendInput {m : Machine} {ip : Word} {e : RuntimeError} {notices : List Notice}
    (h : m.Fails ip e notices) (values : List Word) :
    (m.extendInput values).Fails ip e notices := by
  cases h with
  | fetch failed => exact .fetch failed
  | decode fetched failed => exact .decode fetched failed
  | operands fetched decoded failed => exact .operands fetched decoded failed
  | ahead fetched decoded addressed failed => exact .ahead fetched decoded addressed failed
  | evaluate fetched decoded addressed advanced failed =>
    refine .evaluate fetched decoded addressed advanced ?_
    rw [evaluate_extendInput]
    exact failed

/-- A store has nothing to do with input. -/
theorem store_extendInput [Allocator] (ip address value : Word) :
    (m.extendInput values).store ip address value =
      (m.store ip address value).extendInput values := by
  by_cases h : m.memory.accepts address
  · rw [store_of_accepts ip value h, store_of_accepts (m := m.extendInput values) ip value h]
    rfl
  · rw [store_of_not_accepts ip value h,
      store_of_not_accepts (m := m.extendInput values) ip value h]
    rfl

/-- An effect that does not end in waiting is the same with more input behind. -/
theorem apply_extendInput [Allocator] {next : Word} {effect : Effect}
    (h : (m.apply next effect).result ≠ .ok (some .awaitInput)) :
    (m.extendInput values).apply next effect = (m.apply next effect).extendInput values := by
  cases effect with
  | write address value => exact store_extendInput { m with ip := next } values m.ip address value
  | receive address =>
    unfold apply at h ⊢
    simp only [extendInput_input]
    cases hinput : m.input with
    | nil => simp [hinput] at h
    | cons value rest =>
      exact store_extendInput { m with ip := next, input := rest } values m.ip address value
  | emit | jump | pass | rebase | halt => rfl

/-- An instruction that does not wait for input does the same with more input behind what waits,
also when it fails. -/
theorem execute_extendInput [Allocator] (h : m.execute.result ≠ .ok (some .awaitInput)) :
    (m.extendInput values).execute = m.execute.extendInput values := by
  have hexecutes := m.executes
  generalize m.execute = s at h hexecutes ⊢
  cases hexecutes with
  | halted hhalted => exact execute_of_halted hhalted
  | fails hrun hfails => exact execute_of_fails hrun (hfails.extendInput values)
  | acts hrun hprepared =>
    rw [execute_of_prepared (by exact hrun) (hprepared.extendInput values),
      apply_extendInput m values h]
    rfl

end Input

/-! ### Waiting for input

A machine that waits has looked at everything and found an address to write to, but no value. When a
value comes it goes through the same looks again, and then takes the value. -/

variable [Allocator]

/-- A machine whose next instruction takes an input value when none waits. -/
def Waits (m : Machine) : Prop := m.execute.result = .ok (some .awaitInput)

/-- An effect that ends in waiting is to take a value where there is none, and changes nothing. -/
theorem effect_of_awaitInput {m : Machine} {next : Word} {effect : Effect}
    (h : (m.apply next effect).result = .ok (some .awaitInput)) :
    (∃ address, effect = .receive address) ∧ m.input = [] ∧ (m.apply next effect).machine = m := by
  cases effect with
  | write address value => exact absurd h (store_result_ne _ _ _ _ _)
  | receive address =>
    unfold apply at h ⊢
    cases hinput : m.input with
    | nil => exact ⟨⟨address, rfl⟩, rfl, rfl⟩
    | cons value rest =>
      -- a value waits: it is written, or refused, and neither is an event
      simp only [hinput] at h
      exact absurd h (store_result_ne _ _ _ _ _)
  | emit | jump | pass | rebase | halt => simp [apply] at h

/-- An effect that ends in halting is to halt. -/
theorem effect_of_halted {m : Machine} {next : Word} {effect : Effect}
    (h : (m.apply next effect).result = .ok (some .halted)) : effect = .halt := by
  cases effect with
  | write address value => exact absurd h (store_result_ne _ _ _ _ _)
  | receive address =>
    unfold apply at h
    cases hinput : m.input with
    | nil => simp [hinput] at h
    | cons value rest =>
      simp only [hinput] at h
      exact absurd h (store_result_ne _ _ _ _ _)
  | halt => rfl
  | emit | jump | pass | rebase => simp [apply] at h

/-- The machine after the instruction that halts it has halted, and nothing else has changed. -/
theorem execute_machine_of_halted {m : Machine} (h : m.execute.result = .ok (some .halted)) :
    m.execute.machine = { m with halted := true } := by
  by_cases hhalted : m.halted
  · rw [execute_of_halted hhalted, ← hhalted]
  · -- only an instruction has an effect, and to halt is the only one that ends in this event
    have hrun : m.halted = false := by simpa using hhalted
    obtain ⟨word, i, operands, next, effect, hprepared, hresult⟩ := exists_prepared_of_ok hrun h
    cases effect_of_halted hresult
    rw [execute_of_prepared hrun hprepared]
    rfl

namespace Waits

variable {m : Machine}

/-- A machine that waits has not halted. -/
theorem halted_eq (h : m.Waits) : m.halted = false := by
  cases hhalted : m.halted with
  | false => rfl
  | true =>
    unfold Waits at h
    rw [execute_of_halted hhalted] at h
    simp at h

/-- A machine that waits has found an input instruction, with an address to write to. -/
theorem exists_prepared (h : m.Waits) :
    m.input = [] ∧ m.execute.machine = m ∧ ∃ word i operands next address,
      m.Prepared word i operands next (.receive address) ∧ i.opcode = .input := by
  obtain ⟨word, i, operands, next, effect, hprepared, hresult⟩ :=
    exists_prepared_of_ok h.halted_eq h
  obtain ⟨⟨address, rfl⟩, hinput, hmachine⟩ := effect_of_awaitInput hresult
  refine ⟨hinput, ?_, word, i, operands, next, address, hprepared, ?_⟩
  · rw [execute_of_prepared h.halted_eq hprepared]
    exact hmachine
  · exact (finds_of_evaluate hprepared.evaluated).receive_inv.1

/-- A machine that waits has no input. -/
theorem input_eq (h : m.Waits) : m.input = [] := h.exists_prepared.1

/-- Waiting changes nothing. -/
theorem execute_machine (h : m.Waits) : m.execute.machine = m := h.exists_prepared.2.1

/-- It is one that has an input instruction in front of it. -/
theorem wantsInput (h : m.Waits) : m.wantsInput := by
  obtain ⟨hinput, -, word, i, operands, next, address, hprepared, hop⟩ := h.exists_prepared
  unfold Machine.wantsInput
  simp [hinput, h.halted_eq, hprepared.fetched, hprepared.decoded, hop]

/-- The next value to come is consumed by the instruction that waits for it, whether or not it can
be written. -/
theorem execute_pushInput (h : m.Waits) (value : Word) :
    (m.pushInput value).execute.machine.input = [] ∧ ¬ (m.pushInput value).Waits := by
  obtain ⟨hinput, -, word, i, operands, next, address, hprepared, -⟩ := h.exists_prepared
  -- the same looks, after which the effect finds a value
  have hexecute := execute_of_prepared (m := m.pushInput value) h.halted_eq
    (hprepared.extendInput [value])
  have happly : (m.pushInput value).apply next (.receive address) =
      { m with ip := next, input := [] }.store m.ip address value := by
    unfold apply pushInput
    simp [hinput]
    rfl
  obtain ⟨hrest, hresult⟩ := store_cases { m with ip := next, input := [] } m.ip address value
  unfold Waits
  rw [hexecute, happly]
  refine ⟨hrest, ?_⟩
  rcases hresult with hok | ⟨error, herror⟩
  · simp [hok]
  · simp [herror]

end Waits

end Machine

end Intcode
