import Intcode.Proofs.Spelling

/-!
# The grammar of a line

The tokens of a line stand for words exactly if they follow the grammar: the name of the data
statement and bare numbers behind it, or a mnemonic and as many operands as the opcode takes, of
which the one that is written to is not immediate. Nothing of an instruction line is lost in its
words, and a machine can always read the instruction that it has put there.

* `Packs`, `packs_iff` — the words that hold an opcode and modes, of which there is one for each;
* `IsLine`, `Denotes` — the grammar, without and with the words;
* `isLine_iff`, `denotes_iff` — the lines of the grammar are the tokens of statements;
* `Machine.raisedWhenRead_of_execute` — the errors of an instruction that can be read;
* `tokens_grammar` — the main statement.
-/

namespace Intcode

/-! ### Words that hold an instruction

What an instruction word has to be is said by how it is read: the opcode and the modes of the
operands, with zeros everywhere else. `packs_iff` turns this into the word that the assembler
writes. -/

/-- A word that holds an opcode and modes. It is read as this opcode with these modes, the digits
of other operands are zero, and no digit stands in front of them. -/
inductive Packs (word : Word) (op : Opcode) (modes : List Mode) : Prop where
  | intro {i : Instruction} (decoded : Instruction.decode word = .ok i) (opcode : i.opcode = op)
      (used : ∀ k mode, modes[k]? = some mode → i.mode k = .ok mode)
      (unused : ∀ k (hk : k < 3), modes.length ≤ k → i.modes[k] = 0)
      (short : word.toInt < 100000)

section Packs

variable {word : Word} {op : Opcode} {modes : List Mode}

/-- The word that is made from an opcode and modes holds them. -/
theorem packs_ofModes (op : Opcode) (h : modes.length ≤ 3) :
    Packs (Instruction.ofModes op modes).encode op modes := by
  have hdecode := Instruction.decode_encode_ofModes op modes
  have hvalue := (Instruction.encode_of_decode hdecode).2
  refine .intro hdecode rfl ?_ ?_ (by omega)
  · intro k mode hk
    have hlt := (List.getElem?_eq_some_iff.mp hk).1
    rw [Instruction.mode_ofModes op modes (by omega), List.getD_eq_getElem?_getD, hk]
    rfl
  · intro k hk hlength
    have hmode := Instruction.mode_ofModes op modes hk
    rw [List.getD_eq_default _ _ hlength] at hmode
    exact (Instruction.mode_eq_ok_iff hk).mp hmode

/-- **Opcodes and modes have one word** that holds them. -/
theorem packs_iff (h : modes.length ≤ 3) :
    Packs word op modes ↔ word = (Instruction.ofModes op modes).encode := by
  constructor
  · rintro ⟨decoded, rfl, used, unused, short⟩
    next i =>
    -- every digit is that of the mode at its place, or of the mode of an operand without one
    have hmode : ∀ k (hk : k < 3), i.mode k = .ok (modes.getD k .fallback) := by
      intro k hk
      rw [List.getD_eq_getElem?_getD]
      cases hget : modes[k]? with
      | some mode => exact used k mode hget
      | none =>
        rw [Instruction.mode_eq_ok_iff hk]
        exact unused k hk (List.getElem?_eq_none_iff.mp hget)
    have hmodes : i.modes = (Instruction.ofModes i.opcode modes).modes := by
      apply Vector.ext
      intro k hk
      rw [(Instruction.mode_eq_ok_iff hk).mp (hmode k hk), eq_comm]
      exact (Instruction.mode_eq_ok_iff hk).mp (Instruction.mode_ofModes i.opcode modes hk)
    have hi : i = Instruction.ofModes i.opcode modes := congrArg (Instruction.mk i.opcode) hmodes
    have hpos := Instruction.pos_of_decode decoded
    have hvalue := (Instruction.encode_of_decode decoded).2
    rw [← hi, ← Int64.toInt_inj, hvalue]
    omega
  · rintro rfl
    exact packs_ofModes op h

end Packs

namespace Assembly

/-! ### The grammar

`IsLine` and `Denotes` speak of tokens and words alone, and not of statements. Statements are what
connects them with assembly: a line of the grammar is the tokens of a statement that a line can
hold, and its words are the words of this statement. -/

/-- The tokens of a line that stands for words. -/
inductive IsLine : List Token → Prop where
  | data {values : List Word} (ne_nil : values ≠ []) :
      IsLine (.name "DATA" :: values.map fun v => .operand ⟨.position, v⟩)
  | instruction {op : Opcode} {operands : List Operand}
      (count : operands.length = op.operandCount)
      (writes : ∀ k o, op.writeOperand? = some k → operands[k]? = some o → o.mode ≠ .immediate) :
      IsLine (.name op.mnemonic :: operands.map .operand)

/-- The tokens of a line and the words that it stands for: those of the data, or a word that holds
the opcode and the modes of the operands and, behind it, the operands. -/
inductive Denotes : List Token → List Word → Prop where
  | data {values : List Word} (ne_nil : values ≠ []) :
      Denotes (.name "DATA" :: values.map fun v => .operand ⟨.position, v⟩) values
  | instruction {op : Opcode} {operands : List Operand} {word : Word}
      (count : operands.length = op.operandCount)
      (writes : ∀ k o, op.writeOperand? = some k → operands[k]? = some o → o.mode ≠ .immediate)
      (packs : Packs word op (operands.map Operand.mode)) :
      Denotes (.name op.mnemonic :: operands.map .operand) (word :: operands.map Operand.value)

/-- Assembles the tokens of a line. A line without tokens has no words, not even none at all. -/
def assembleTokens (tokens : List Token) : Except Fault (Option (List Word)) :=
  Option.map Statement.words <$> Statement.ofTokens tokens

section Lines

variable {tokens : List Token} {words : List Word}

/-- Tokens have words exactly if a statement that a line can hold has these tokens and these
words. -/
theorem assembleTokens_eq_some_iff : assembleTokens tokens = .ok (some words) ↔
    ∃ s : Statement, s.WellFormed ∧ tokens = s.tokens ∧ s.words = words := by
  constructor
  · intro h
    obtain ⟨statement, hstatement, hwords⟩ := map_eq_ok.mp h
    obtain ⟨s, rfl, hs⟩ := Option.map_eq_some_iff.mp hwords
    obtain ⟨hwell, htokens⟩ := Statement.ofTokens_eq_some_iff.mp hstatement
    exact ⟨s, hwell, htokens, hs⟩
  · rintro ⟨s, hwell, htokens, rfl⟩
    exact map_eq_ok.mpr ⟨some s, Statement.ofTokens_eq_some_iff.mpr ⟨hwell, htokens⟩, rfl⟩

/-- Only a line without tokens is no statement. -/
theorem assembleTokens_eq_none_iff : assembleTokens tokens = .ok none ↔ tokens = [] := by
  rw [← Statement.ofTokens_eq_none_iff]
  constructor
  · intro h
    obtain ⟨statement, hstatement, hnone⟩ := map_eq_ok.mp h
    rw [Option.map_eq_none_iff.mp hnone] at hstatement
    exact hstatement
  · intro h
    exact map_eq_ok.mpr ⟨none, h, rfl⟩

/-- **The lines of the grammar** are the tokens of statements that a line can hold. -/
theorem isLine_iff : IsLine tokens ↔ ∃ s : Statement, s.WellFormed ∧ tokens = s.tokens := by
  constructor
  · intro h
    cases h with
    | @data values ne_nil => exact ⟨.data values, wellFormed_data_iff.mpr ne_nil, rfl⟩
    | @instruction op operands count writes =>
      exact ⟨.instruction op operands, wellFormed_instruction_iff.mpr ⟨count, writes⟩, rfl⟩
  · rintro ⟨s, hwell, rfl⟩
    cases s with
    | data words => exact .data (wellFormed_data_iff.mp hwell)
    | instruction op operands =>
      obtain ⟨hcount, hwrites⟩ := wellFormed_instruction_iff.mp hwell
      exact .instruction hcount hwrites

/-- **The words of a line of the grammar** are the words of its statement. -/
theorem denotes_iff : Denotes tokens words ↔
    ∃ s : Statement, s.WellFormed ∧ tokens = s.tokens ∧ s.words = words := by
  -- the word of an instruction has no freedom left once the modes are given
  have hpacks : ∀ {op : Opcode} {operands : List Operand} {word : Word},
      operands.length = op.operandCount → (Packs word op (operands.map Operand.mode) ↔
        word = (Instruction.ofModes op (operands.map Operand.mode)).encode) := by
    intro op operands word hcount
    apply packs_iff
    rw [List.length_map, hcount]
    exact op.operandCount_le
  constructor
  · intro h
    cases h with
    | data ne_nil => exact ⟨.data words, wellFormed_data_iff.mpr ne_nil, rfl, rfl⟩
    | @instruction op operands word count writes packs =>
      refine ⟨.instruction op operands, wellFormed_instruction_iff.mpr ⟨count, writes⟩, rfl, ?_⟩
      rw [(hpacks count).mp packs]
      rfl
  · rintro ⟨s, hwell, rfl, rfl⟩
    cases s with
    | data words => exact .data (wellFormed_data_iff.mp hwell)
    | instruction op operands =>
      obtain ⟨hcount, hwrites⟩ := wellFormed_instruction_iff.mp hwell
      exact .instruction hcount hwrites ((hpacks hcount).mpr rfl)

/-- An instruction line is the only one that stands for its words. -/
theorem eq_of_words_eq {s t : Statement} (hs : s.WellFormed) (ht : t.WellFormed)
    (hsd : ¬ s.IsData) (htd : ¬ t.IsData) (h : s.words = t.words) : s = t := by
  cases s with
  | data ws => exact absurd ⟨ws, rfl⟩ hsd
  | instruction op operands =>
    cases t with
    | data ws => exact absurd ⟨ws, rfl⟩ htd
    | instruction op' operands' =>
      -- the disassembler finds the instruction again in its words, so they determine it
      have hshown := instructionAhead?_words hs []
      rw [h, instructionAhead?_words ht []] at hshown
      cases hshown
      rfl

/-- A statement whose line does not begin with the name of the data statement is not one of data. -/
theorem not_isData {s : Statement} (h : s.tokens.head? ≠ some (.name "DATA")) : ¬ s.IsData := by
  rintro ⟨ws, rfl⟩
  exact h rfl

end Lines

end Assembly

/-! ### Instructions that can be read

An instruction word that the assembler has made names an opcode, and every mode in it is one that
its operand admits. So of the four errors of an instruction two are left, those of an address and of
an overflow. -/

/-- An error that the instruction at `ip` can fail with when it can be read. -/
inductive RuntimeError.RaisedWhenRead (ip : Word) : RuntimeError → Prop where
  | invalidAddress (address : Word) : RaisedWhenRead ip (.invalidAddress ip address)
  | overflow : RaisedWhenRead ip (.overflow ip)

namespace Machine

open RuntimeError (RaisedWhenRead)

variable {m : Machine} {i : Instruction}

/-- **An instruction that can be read** fails for an address or for an overflow only. -/
theorem raisedWhenRead_of_execute {word : Word} (hfetch : m.fetch = .ok word)
    (hdecode : Instruction.decode word = .ok i)
    (hmodes : ∀ k < i.opcode.operandCount, ∃ mode, i.mode k = .ok mode ∧ i.opcode.admits k mode) :
    ErrorsIn (RaisedWhenRead m.ip) m.execute.result := by
  have hread : m.decode word = .ok i := by
    unfold decode
    rw [hdecode]
  refine errorsIn_execute .invalidAddress .overflow ?_ ?_
  · intro word' hfetch'
    cases hfetch.symm.trans hfetch'
    rw [hread]
    exact .ok i
  · intro word' i' hfetch' hread'
    cases hfetch.symm.trans hfetch'
    cases hread.symm.trans hread'
    -- the modes were checked when the line was read, so none of the operands can be refused now
    refine errorsIn_operands fun k hk => ?_
    obtain ⟨mode, hmode, hadmits⟩ := hmodes k hk
    have hoperand : m.operandMode i k = .ok mode := by
      unfold operandMode
      rw [hmode]
    refine errorsIn_operandAddress .invalidAddress .overflow (by rw [hoperand]; exact .ok mode) ?_
    intro himmediate hrefused
    cases hoperand.symm.trans himmediate
    rw [hrefused] at hadmits
    contradiction

/-- The word of an instruction line can be read. -/
theorem raisedWhenRead_of_words {op : Opcode} {operands : List Operand} {word : Word}
    (h : (Assembly.Statement.instruction op operands).WellFormed)
    (hword : (Assembly.Statement.instruction op operands).words.head? = some word)
    (hfetch : m.fetch = .ok word) : ErrorsIn (RaisedWhenRead m.ip) m.execute.result := by
  cases hword
  refine raisedWhenRead_of_execute hfetch (Instruction.decode_encode_ofModes _ _) ?_
  cases h with
  | instruction _ _ hcount hmodes =>
    intro k hk
    replace hk : k < op.operandCount := hk
    have hle := op.operandCount_le
    have hget : operands[k]? = some operands[k] := List.getElem?_eq_getElem (by omega)
    refine ⟨operands[k].mode, ?_, hmodes k _ hget⟩
    rw [Instruction.mode_ofModes _ _ (by omega), List.getD_eq_getElem?_getD, List.getElem?_map,
      hget]
    rfl

end Machine

namespace Assembly

/-! ### The main statement

Both halves come from the statement behind the tokens. Where the words of a line are given, this
statement is unique unless it is one of data. -/

/-- **The grammar of a line, and that its words lose nothing.**

* A line has no words, and no fault, if and only if it has no tokens.
* The tokens of a line stand for words if and only if they follow the grammar, and these words are
  the data, or the word that holds the opcode and the modes of the operands and, behind it, the
  operands.
* A line that is not one of data is the only such line that stands for its words. A machine whose
  next word is the first of them never fails because the instruction or a mode is invalid, whatever
  stands behind it and wherever it is. -/
theorem tokens_grammar (tokens : List Token) :
    (assembleTokens tokens = .ok none ↔ tokens = []) ∧
    ((∃ words, assembleTokens tokens = .ok (some words)) ↔ IsLine tokens) ∧
    ∀ words, (assembleTokens tokens = .ok (some words) ↔ Denotes tokens words) ∧
      (assembleTokens tokens = .ok (some words) → tokens.head? ≠ some (.name "DATA") →
        (∀ other, assembleTokens other = .ok (some words) → other.head? ≠ some (.name "DATA") →
          other = tokens) ∧
        ∃ word, words.head? = some word ∧ ∀ m : Machine, m.fetch = .ok word → ∀ ip code,
          m.execute.result ≠ .error (.invalidOpcode ip code) ∧
            m.execute.result ≠ .error (.invalidMode ip code)) := by
  refine ⟨assembleTokens_eq_none_iff, ?_, fun words => ⟨?_, ?_⟩⟩
  · rw [isLine_iff]
    constructor
    · rintro ⟨words, h⟩
      obtain ⟨s, hwell, htokens, -⟩ := assembleTokens_eq_some_iff.mp h
      exact ⟨s, hwell, htokens⟩
    · rintro ⟨s, hwell, htokens⟩
      exact ⟨s.words, assembleTokens_eq_some_iff.mpr ⟨s, hwell, htokens, rfl⟩⟩
  · exact assembleTokens_eq_some_iff.trans denotes_iff.symm
  · intro h hhead
    obtain ⟨s, hwell, rfl, rfl⟩ := assembleTokens_eq_some_iff.mp h
    refine ⟨?_, ?_⟩
    · intro other hother hhead'
      obtain ⟨t, hwell', rfl, hwords⟩ := assembleTokens_eq_some_iff.mp hother
      rw [eq_of_words_eq hwell' hwell (not_isData hhead') (not_isData hhead) hwords]
    · -- a line that is no data has an instruction word in front, which is then decoded as it was
      -- written
      cases s with
      | data ws => exact absurd ⟨ws, rfl⟩ (not_isData hhead)
      | instruction op operands =>
        refine ⟨_, rfl, fun m hfetch ip code => ⟨fun herror => ?_, fun herror => ?_⟩⟩
        · cases Machine.raisedWhenRead_of_words hwell rfl hfetch _ herror
        · cases Machine.raisedWhenRead_of_words hwell rfl hfetch _ herror

/-- A machine in front of the word of `ADD 5 #7 @9`, with other words behind it and a relative base
that leads out of memory. -/
def misplaced : Machine := ⟨1, -9, ⟨#[99, 21001, 0, 3, 8]⟩, [], false⟩

theorem tokens_grammar_addition :
    assembleTokens [.name "ADD", .operand ⟨.position, 5⟩, .operand ⟨.immediate, 7⟩,
      .operand ⟨.relative, 9⟩] = .ok (some [21001, 5, 7, 9]) ∧
    Denotes [.name "ADD", .operand ⟨.position, 5⟩, .operand ⟨.immediate, 7⟩,
      .operand ⟨.relative, 9⟩] [21001, 5, 7, 9] ∧
    misplaced.fetch = .ok 21001 ∧
    misplaced.execute.result = .error (.invalidAddress 1 (-1)) ∧
    misplaced.execute.result ≠ .error (.invalidMode 1 2) := by
  have hwords : assembleTokens [.name "ADD", .operand ⟨.position, 5⟩, .operand ⟨.immediate, 7⟩,
      .operand ⟨.relative, 9⟩] = .ok (some [21001, 5, 7, 9]) := by decide
  have hfetch : misplaced.fetch = .ok 21001 := by decide
  obtain ⟨-, -, hline⟩ := tokens_grammar [.name "ADD", .operand ⟨.position, 5⟩,
    .operand ⟨.immediate, 7⟩, .operand ⟨.relative, 9⟩]
  obtain ⟨hdenotes, hinstruction⟩ := hline [21001, 5, 7, 9]
  obtain ⟨-, word, hword, hread⟩ := hinstruction hwords (by decide)
  cases hword
  exact ⟨hwords, hdenotes.mp hwords, hfetch, by decide, (hread misplaced hfetch 1 2).2⟩

end Assembly

end Intcode
