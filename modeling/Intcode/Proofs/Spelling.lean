import Intcode.Proofs.Listing

/-!
# Instructions and the lines that spell them

A line can spell an instruction in many ways: with commas or blanks between its words, in capitals
or not, with numbers in decimal or hexadecimal, and with a comment. What it stands for is a row of
words. An instruction is shown at an address exactly if such a row begins there, and the line that
is shown is one of those that spell it.

* `readOperands_eq_ok`, `readArguments_eq_ok`, `read_eq_ok` — what the tokens of an instruction line
  are, and what is read from them;
* `ofTokens_eq_some_iff` — a statement is read from its own tokens only;
* `Spells`, `Spells.exists_wellFormed` — lines that spell an instruction;
* `Spells.exists_instructionAt?` — its words are shown as an instruction, whatever the spelling;
* `spells_chars`, `spells_of_instructionAt?` — the line that is shown spells the words that it is
  shown for;
* `instruction_spelled` — the main statement.
-/

namespace Intcode.Assembly

open Text

/-! ### What is read from tokens

The parser is inverted here: when it succeeds, the tokens were those of the statement that it has
read, and this is a statement that a line can hold. -/

namespace Statement

variable {op : Opcode} {tokens : List Token}

/-- Operands are read from their own tokens, in modes that they may have. -/
theorem readOperands_eq_ok {index : Nat} {operands : List Operand}
    (h : readOperands op index tokens = .ok operands) :
    tokens = operands.map Token.operand ∧
      ∀ k o, operands[k]? = some o → op.admits (index + k) o.mode := by
  induction tokens generalizing index operands with
  | nil =>
    cases h
    exact ⟨rfl, fun k o hk => by simp at hk⟩
  | cons token tokens ih =>
    cases token with
    | name name => contradiction
    | operand first =>
      rw [readOperands] at h
      split at h
      · next hadmits =>
        obtain ⟨rest, hrest, h⟩ := bind_eq_ok.mp h
        cases h
        obtain ⟨htokens, hmodes⟩ := ih hrest
        refine ⟨by rw [htokens, List.map_cons], ?_⟩
        intro k o hk
        -- the index of the operand in front is the one just checked; the others are counted from
        -- the next one
        cases k with
        | zero =>
          cases hk
          exact hadmits
        | succ k =>
          have hnext : index + 1 + k = index + (k + 1) := by omega
          rw [← hnext]
          exact hmodes k o hk
      · contradiction

/-- An opcode and arguments make an instruction that a line can hold. -/
theorem readArguments_eq_ok {s : Statement} (h : readArguments op tokens = .ok s) :
    ∃ operands, tokens = operands.map Token.operand ∧ s = .instruction op operands ∧
      s.WellFormed := by
  unfold readArguments at h
  split at h
  · contradiction
  · next henough =>
    split at h
    · contradiction
    · next hextra =>
      cases hread : readOperands op 0 tokens with
      | error fault =>
        rw [hread] at h
        contradiction
      | ok operands =>
        rw [hread] at h
        cases h
        obtain ⟨htokens, hmodes⟩ := readOperands_eq_ok hread
        -- neither too few arguments nor one too many
        have hlength := List.getElem?_eq_none_iff.mp hextra
        have hcount : operands.length = op.operandCount := by
          rw [htokens, List.length_map] at henough hlength
          omega
        refine ⟨operands, htokens, rfl, .instruction op operands hcount ?_⟩
        intro k o hk
        rw [← Nat.zero_add k]
        exact hmodes k o hk

/-- A name other than that of the data statement is a mnemonic, with its arguments behind it. -/
theorem read_eq_ok {name : String} {s : Statement} (hname : name ≠ dataName)
    (h : read (.name name) tokens = .ok s) :
    ∃ op operands, op.mnemonic = name ∧ tokens = operands.map Token.operand ∧
      s = .instruction op operands ∧ s.WellFormed := by
  unfold read at h
  dsimp only at h
  rw [if_neg hname] at h
  split at h
  · contradiction
  · next op hop =>
    obtain ⟨operands, htokens, rfl, hwell⟩ := readArguments_eq_ok h
    exact ⟨op, operands, Opcode.ofMnemonic?_eq_some_iff.mp hop, htokens, rfl, hwell⟩

/-- Data are read from bare numbers. -/
theorem readData_eq_ok {words : List Word} (h : readData tokens = .ok words) :
    tokens = words.map fun w => .operand ⟨.position, w⟩ := by
  induction tokens generalizing words with
  | nil =>
    cases h
    rfl
  | cons token tokens ih =>
    rcases token with ⟨_ | _ | _, value⟩ | name
    · obtain ⟨values, hvalues, h⟩ := bind_eq_ok.mp h
      cases h
      rw [ih hvalues, List.map_cons]
    all_goals contradiction

/-- Data that are read have a word, and their tokens are its own. -/
theorem readDataArguments_eq_ok {s : Statement} (h : readDataArguments tokens = .ok s) :
    s.WellFormed ∧ .name dataName :: tokens = s.tokens := by
  cases tokens with
  | nil => contradiction
  | cons token tokens =>
    obtain ⟨words, hwords, rfl⟩ := map_eq_ok.mp h
    have htokens := readData_eq_ok hwords
    refine ⟨.data words ?_, by rw [htokens]; rfl⟩
    rintro rfl
    contradiction

/-- **Statements are read from their tokens**, and from no others. -/
theorem ofTokens_eq_some_iff {s : Statement} :
    ofTokens tokens = .ok (some s) ↔ s.WellFormed ∧ tokens = s.tokens := by
  constructor
  · intro h
    cases tokens with
    | nil => cases h
    | cons first arguments =>
      obtain ⟨s', hread, hs⟩ := map_eq_ok.mp h
      cases hs
      cases first with
      | operand o => contradiction
      | name name =>
        -- data is the one name that takes any number of operands
        by_cases hname : name = dataName
        · unfold read at hread
          dsimp only at hread
          rw [if_pos hname] at hread
          rw [hname]
          exact readDataArguments_eq_ok hread
        · obtain ⟨op, operands, rfl, rfl, rfl, hwell⟩ := read_eq_ok hname hread
          exact ⟨hwell, rfl⟩
  · rintro ⟨hwell, rfl⟩
    exact ofTokens_tokens hwell

/-- No statement is read exactly if there are no tokens. -/
theorem ofTokens_eq_none_iff : ofTokens tokens = .ok none ↔ tokens = [] := by
  constructor
  · intro h
    cases tokens with
    | nil => rfl
    | cons first arguments =>
      obtain ⟨s, -, hs⟩ := map_eq_ok.mp h
      contradiction
  · rintro rfl
    rfl

end Statement

/-- An instruction has one word more than operands. -/
theorem Statement.WellFormed.length_words {op : Opcode} {operands : List Operand}
    (h : (Statement.instruction op operands).WellFormed) :
    (Statement.instruction op operands).words.length = 1 + op.operandCount := by
  cases h with
  | instruction _ _ hcount _ =>
    rw [Statement.words, List.length_cons, List.length_map, hcount, Nat.add_comm]

/-! ### Lines that spell an instruction

`Spells` refers to the reading of a line as far as its words, and not to the listing. All that
matters of the spelling is the statement that is read. -/

/-- A text of one line that is read as an instruction, with a name that is not the one of the data
statement, and stands for these words. -/
inductive Spells (line : List Char) (v : List Word) : Prop where
  | intro {name : String} {arguments : List Token} {s : Statement} (oneLine : '\n' ∉ line)
      (tokens : readTokens (lineWords line) = .ok (.name name :: arguments))
      (mnemonic : name ≠ Statement.dataName)
      (statement : Statement.ofTokens (.name name :: arguments) = .ok (some s))
      (words : s.words = v)

namespace Spells

variable {line : List Char} {v : List Word}

theorem exists_wellFormed (h : Spells line v) :
    ∃ op operands, (Statement.instruction op operands).WellFormed ∧
      (Statement.instruction op operands).words = v := by
  cases h with
  | @intro name arguments s _ _ mnemonic statement words =>
    obtain ⟨hwell, htokens⟩ := Statement.ofTokens_eq_some_iff.mp statement
    cases s with
    | instruction op operands => exact ⟨op, operands, hwell, words⟩
    | data ws =>
      -- the tokens of data start with the name that is excluded
      cases htokens
      exact absurd rfl mnemonic

/-- **What a line spells is shown**, whatever the spelling and whatever stands around it. -/
theorem exists_instructionAt? {w : List Word} {pc : Nat} (h : Spells line v)
    (hbegins : v <+: w.drop pc) : ∃ shown, instructionAt? w pc = some (shown, v.length) := by
  obtain ⟨op, operands, hwell, rfl⟩ := h.exists_wellFormed
  obtain ⟨rest, hrest⟩ := hbegins
  refine ⟨(Statement.instruction op operands).chars, ?_⟩
  unfold instructionAt?
  rw [← hrest, instructionAhead?_words hwell rest, hwell.length_words]
  rfl

/-- A line that spells an instruction assembles to its words. -/
theorem assemble_eq (h : Spells line v) : assemble (String.ofList line) = .ok ⟨v⟩ := by
  cases h with
  | @intro name arguments s oneLine tokens _ statement words =>
    have hlines : lines line = [line] := List.splitOn_eq_singleton oneLine
    have hline : Statement.ofLine line = .ok (some s) := by
      unfold Statement.ofLine
      rw [tokens]
      exact statement
    unfold assemble
    rw [String.toList_ofList, hlines, assembleLines, hline]
    show Except.ok (Program.mk (s.words ++ [])) = _
    rw [List.append_nil, words]

end Spells

/-! ### The line that is shown

The listing shows an instruction in its canonical text, and this is one of the lines that spell it.
-/

/-- The canonical text of an instruction spells it. -/
theorem spells_chars {op : Opcode} {operands : List Operand}
    (h : (Statement.instruction op operands).WellFormed) :
    Spells (Statement.instruction op operands).chars
      (Statement.instruction op operands).words :=
  .intro (Statement.newline_notMem_chars _) (Statement.readTokens_chars _)
    (Statement.mnemonic_ne_dataName op) (Statement.ofTokens_tokens h) rfl

/-- **What is shown is spelt** by the line that is shown. -/
theorem spells_of_instructionAt? {w : List Word} {pc : Nat} {line : List Char} {width : Nat}
    (h : instructionAt? w pc = some (line, width)) :
    ∃ v, Spells line v ∧ width = v.length ∧ v <+: w.drop pc := by
  obtain ⟨⟨op, operands⟩, hahead, heq⟩ := Option.map_eq_some_iff.mp h
  cases heq
  cases hdrop : w.drop pc with
  | nil =>
    rw [hdrop] at hahead
    contradiction
  | cons word rest =>
    rw [hdrop] at hahead
    obtain ⟨hwell, hwords⟩ := words_of_instructionAhead? hahead
    refine ⟨_, spells_chars hwell, hwell.length_words.symm, ?_⟩
    rw [hwords]
    exact ⟨rest.drop op.operandCount, by rw [List.cons_append, List.take_append_drop]⟩

/-! ### The main statement

At one address there can be several spellings, but all of them have the words that are shown there,
because what is shown at an address does not depend on the spelling. -/

/-- **Instructions are shown exactly where a line could have put them.**

* An instruction is shown at an address if and only if the words from there on begin with words that
  some line spells, in whatever spelling.
* There is only one such row of words. The line that is shown spells it and assembles to it, and the
  width that is shown is its length. -/
theorem instruction_spelled (w : List Word) (pc : Nat) :
    ((∃ line width, instructionAt? w pc = some (line, width)) ↔
      ∃ text v, Spells text v ∧ v <+: w.drop pc) ∧
    ∀ line width, instructionAt? w pc = some (line, width) →
      ∃ v, Spells line v ∧ assemble (String.ofList line) = .ok ⟨v⟩ ∧ width = v.length ∧
        v <+: w.drop pc ∧ ∀ text v', Spells text v' → v' <+: w.drop pc → v' = v := by
  refine ⟨⟨?_, ?_⟩, ?_⟩
  · rintro ⟨line, width, h⟩
    obtain ⟨v, hspells, -, hbegins⟩ := spells_of_instructionAt? h
    exact ⟨line, v, hspells, hbegins⟩
  · rintro ⟨text, v, hspells, hbegins⟩
    obtain ⟨line, hline⟩ := hspells.exists_instructionAt? hbegins
    exact ⟨line, v.length, hline⟩
  · intro line width h
    obtain ⟨v, hspells, hwidth, hbegins⟩ := spells_of_instructionAt? h
    refine ⟨v, hspells, hspells.assemble_eq, hwidth, hbegins, ?_⟩
    intro text v' hspells' hbegins'
    -- both rows begin at the address, and what is shown there has one width
    obtain ⟨line', hline'⟩ := hspells'.exists_instructionAt? hbegins'
    have hlength : v'.length = v.length := by
      rw [h, hwidth] at hline'
      exact (congrArg Prod.snd (Option.some.inj hline')).symm
    exact (List.prefix_of_prefix_length_le hbegins' hbegins hlength.le).eq_of_length hlength

theorem instruction_spelled_addition :
    Spells "add, #0x5 #-3,@07 ; sum".toList [21101, 5, -3, 7] ∧
      instructionAt? [99, 21101, 5, -3, 7] 1 = some ("ADD #5 #-3 @7".toList, 4) ∧
      assemble (String.ofList "ADD #5 #-3 @7".toList) = .ok ⟨[21101, 5, -3, 7]⟩ := by
  have hspells : Spells "add, #0x5 #-3,@07 ; sum".toList [21101, 5, -3, 7] :=
    @Spells.intro _ _ "ADD"
      [.operand ⟨.immediate, 5⟩, .operand ⟨.immediate, -3⟩, .operand ⟨.relative, 7⟩]
      (.instruction .add [⟨.immediate, 5⟩, ⟨.immediate, -3⟩, ⟨.relative, 7⟩])
      (by decide) (by decide +kernel) (by decide) (by decide) (by decide)
  have hshown : instructionAt? [99, 21101, 5, -3, 7] 1 = some ("ADD #5 #-3 @7".toList, 4) := by
    decide
  obtain ⟨v, -, hassemble, -, -, hunique⟩ := (instruction_spelled _ _).2 _ _ hshown
  obtain rfl := hunique _ _ hspells (by decide)
  exact ⟨hspells, hshown, hassemble⟩

end Intcode.Assembly
