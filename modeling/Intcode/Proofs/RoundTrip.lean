import Intcode.Assembly.Listing
import Intcode.Assembly.Source
import Intcode.Proofs.Statement

/-!
# Listings assemble to their program

A program is disassembled by a sweep that shows some words as instructions and the others as data.
Whatever the sweep chooses, the listing assembles to the same program.

* `words_of_instructionAhead?` — an instruction that is shown stands for exactly the words that it
  is shown for;
* `flatMap_words_statements` — the statements of a listing stand for all words, in order;
* `wellFormed_of_mem_statements` — each of them is one that a line can hold;
* `assembleLines_map_chars` — canonical lines assemble to the words of their statements;
* `assemble_disassemble` — the round trip.
-/

namespace Intcode.Assembly

open Text

/-! ### Instructions that are shown

An instruction is shown only after it has been checked that its word can be made again from its
opcode and modes. So the words of what is shown are the ones that it is shown for. -/

/-- The operands that are shown keep their values, and each has the mode that the instruction word
gives it and that its place admits. -/
theorem shownOperands?_spec {i : Instruction} {index : Nat} {values : List Word}
    {operands : List Operand} (h : shownOperands? i index values = some operands) :
    operands.map Operand.value = values ∧
      ∀ k o, operands[k]? = some o →
        i.mode (index + k) = .ok o.mode ∧ i.opcode.admits (index + k) o.mode := by
  induction values generalizing index operands with
  | nil =>
    cases h
    exact ⟨rfl, fun k o hk => by simp at hk⟩
  | cons value values ih =>
    rw [shownOperands?] at h
    split at h
    · contradiction
    · next mode hmode =>
      split at h
      · next hadmits =>
        obtain ⟨rest, hrest, rfl⟩ := Option.map_eq_some_iff.mp h
        obtain ⟨hvalues, hmodes⟩ := ih hrest
        refine ⟨by rw [List.map_cons, hvalues], ?_⟩
        intro k o hk
        cases k with
        | zero =>
          cases hk
          exact ⟨hmode, hadmits⟩
        | succ k =>
          -- the rest has been shown from the next index on
          have hnext : index + 1 + k = index + (k + 1) := by omega
          rw [← hnext]
          exact hmodes k o hk
      · contradiction

/-- An instruction word without stray digits is made again from the opcode and the modes of the
operands it has. -/
theorem eq_ofModes {i : Instruction} {operands : List Operand}
    (hcount : operands.length = i.opcode.operandCount)
    (hmodes : ∀ k o, operands[k]? = some o → i.mode k = .ok o.mode)
    (hstray : (i.modes.toList.drop i.opcode.operandCount).all (· == 0)) :
    Instruction.ofModes i.opcode (operands.map Operand.mode) = i := by
  have hdigit : ∀ k (hk : k < 3),
      Instruction.modeDigit (operands.map Operand.mode) k = i.modes[k] := by
    intro k hk
    unfold Instruction.modeDigit
    by_cases hlt : k < operands.length
    · -- an operand that the instruction has: its digit is the one of its mode
      have hget : operands[k]? = some operands[k] := List.getElem?_eq_getElem hlt
      rw [(Instruction.mode_eq_ok_iff hk).mp (hmodes k _ hget)]
      simp [hlt]
    · -- no operand: the digit is zero, as that of the fallback is
      have hmem : i.modes[k] ∈ i.modes.toList.drop i.opcode.operandCount := by
        have hk' : i.opcode.operandCount + (k - i.opcode.operandCount) = k := by omega
        rw [List.mem_drop_iff_getElem]
        exact ⟨k - i.opcode.operandCount, by simp; omega, by simp [hk']⟩
      have hzero : i.modes[k] = 0 := by simpa using List.all_eq_true.mp hstray _ hmem
      have hnone : (operands.map Operand.mode)[k]? = none := by simp; omega
      rw [hzero, List.getD_eq_getElem?_getD, hnone]
      rfl
  obtain ⟨op, modes⟩ := i
  unfold Instruction.ofModes
  congr 1
  ext k hk
  match k, hk with
  | 0, hk => exact hdigit 0 hk
  | 1, hk => exact hdigit 1 hk
  | 2, hk => exact hdigit 2 hk

/-- What an instruction that is shown has been checked for: it is decoded from a word without stray
digits, and has all of its operands. -/
theorem of_instructionAhead? {word : Word} {rest : List Word} {op : Opcode}
    {operands : List Operand} (h : instructionAhead? (word :: rest) = some (op, operands)) :
    ∃ i, Instruction.decode word = .ok i ∧ i.opcode = op ∧ isCanonical i word ∧
      op.operandCount ≤ rest.length ∧
      shownOperands? i 0 (rest.take op.operandCount) = some operands := by
  rw [instructionAhead?] at h
  split at h
  · contradiction
  · next i hdecode =>
    split at h
    · next hchecked =>
      obtain ⟨shown, hshown, heq⟩ := Option.map_eq_some_iff.mp h
      cases heq
      rw [Bool.and_eq_true, decide_eq_true_eq] at hchecked
      exact ⟨i, hdecode, rfl, hchecked.1, hchecked.2, hshown⟩
    · contradiction

/-- An instruction that is shown for a row of words is one that a line can hold, and it stands for
the words at the head of the row. -/
theorem words_of_instructionAhead? {word : Word} {rest : List Word} {op : Opcode}
    {operands : List Operand} (h : instructionAhead? (word :: rest) = some (op, operands)) :
    (Statement.instruction op operands).WellFormed ∧
      (Statement.instruction op operands).words = word :: rest.take op.operandCount := by
  -- what has been checked is turned into equations between modes and digits
  obtain ⟨i, -, rfl, hcanonical, hlength, hshown⟩ := of_instructionAhead? h
  simp only [isCanonical, Bool.and_eq_true, beq_iff_eq] at hcanonical
  obtain ⟨hencode, hstray⟩ := hcanonical
  obtain ⟨hvalues, hmodes⟩ := shownOperands?_spec hshown
  simp only [Nat.zero_add] at hmodes
  have hcount : operands.length = i.opcode.operandCount := by
    have := congrArg List.length hvalues
    simpa [Nat.min_eq_left hlength] using this
  refine ⟨.instruction _ _ hcount fun k o hk => (hmodes k o hk).2, ?_⟩
  rw [Statement.words, eq_ofModes hcount (fun k o hk => (hmodes k o hk).1) hstray, hencode,
    hvalues]

/-! ### The sweep

The sweep goes through the words once, and shows each of them in an instruction or as data. The
induction is on the words, for any number of them that are to be skipped. -/

/-- The sweep loses no word but those that it is told to skip. -/
theorem flatMap_words_sweep (skip : Nat) (words : List Word) :
    (sweep skip words).flatMap Statement.words = words.drop skip := by
  induction words generalizing skip with
  | nil => rw [sweep, List.drop_nil]; rfl
  | cons word rest ih =>
    cases skip with
    | succ skip => rw [sweep, ih, List.drop_succ_cons]
    | zero =>
      rw [sweep]
      split
      · next op operands hahead =>
        -- the instruction stands for the words that the sweep skips after it
        rw [List.flatMap_cons, (words_of_instructionAhead? hahead).2, ih, List.cons_append,
          List.take_append_drop]
        rfl
      · rw [List.flatMap_cons, ih]
        rfl

theorem wellFormed_of_mem_sweep {skip : Nat} {words : List Word} {s : Statement}
    (h : s ∈ sweep skip words) : s.WellFormed := by
  induction words generalizing skip with
  | nil => simp [sweep] at h
  | cons word rest ih =>
    cases skip with
    | succ skip => exact ih h
    | zero =>
      rw [sweep] at h
      split at h
      · next op operands hahead =>
        rcases List.mem_cons.mp h with rfl | h
        · exact (words_of_instructionAhead? hahead).1
        · exact ih h
      · rcases List.mem_cons.mp h with rfl | h
        · exact .data _ (List.cons_ne_nil _ _)
        · exact ih h

/-! ### Neighbouring data

Joining data changes how many lines there are, and not the words. -/

theorem wellFormed_of_mem_joinData {s : Statement} {ss : List Statement} (hs : s.WellFormed)
    (hss : ∀ t ∈ ss, t.WellFormed) : ∀ t ∈ joinData s ss, t.WellFormed := by
  unfold joinData
  split
  · next a b rest =>
    -- two rows of data make one, which is not empty since the first one is not
    intro t ht
    rcases List.mem_cons.mp ht with rfl | ht
    · cases hs with
      | data _ hne => exact .data _ (List.append_ne_nil_of_left_ne_nil hne b)
    · exact hss t (List.mem_cons_of_mem _ ht)
  · intro t ht
    rcases List.mem_cons.mp ht with rfl | ht
    · exact hs
    · exact hss t ht

theorem flatMap_words_foldr_joinData (ss : List Statement) :
    (ss.foldr joinData []).flatMap Statement.words = ss.flatMap Statement.words := by
  induction ss with
  | nil => rfl
  | cons s ss ih => rw [List.foldr_cons, words_joinData, ih, List.flatMap_cons]

theorem wellFormed_of_mem_foldr_joinData {ss : List Statement} (h : ∀ t ∈ ss, t.WellFormed) :
    ∀ t ∈ ss.foldr joinData [], t.WellFormed := by
  induction ss with
  | nil => exact h
  | cons s ss ih =>
    rw [List.foldr_cons]
    exact wellFormed_of_mem_joinData (h s List.mem_cons_self)
      (ih fun t ht => h t (List.mem_cons_of_mem _ ht))

/-- The statements of a listing stand for all words, in order. -/
theorem flatMap_words_statements (words : List Word) :
    (statements words).flatMap Statement.words = words := by
  unfold statements
  rw [flatMap_words_foldr_joinData, flatMap_words_sweep, List.drop_zero]

/-- **The statements of a listing** can be held by a line. -/
theorem wellFormed_of_mem_statements {words : List Word} {s : Statement}
    (h : s ∈ statements words) : s.WellFormed :=
  wellFormed_of_mem_foldr_joinData (fun _ ht => wellFormed_of_mem_sweep ht) s h

/-! ### Lines

A listing has a line feed behind each line, so behind the last one there is an empty line, which has
no words. -/

/-- A listing has one line for each statement, and an empty one behind the last line feed. -/
theorem lines_renderStatements (ss : List Statement) :
    lines (renderStatements ss) = ss.map Statement.chars ++ [[]] := by
  unfold lines renderStatements
  induction ss with
  | nil => rfl
  | cons s ss ih =>
    -- the first line feed is the one behind the first statement
    rw [List.flatMap_cons, List.append_assoc, List.singleton_append,
      List.splitOn_append_cons_self_of_not_mem (Statement.newline_notMem_chars s), ih]
    rfl

/-- Canonical lines, and then an empty one, assemble to the words of their statements. -/
theorem assembleLines_map_chars {ss : List Statement} (h : ∀ s ∈ ss, s.WellFormed) (number : Nat) :
    assembleLines number (ss.map Statement.chars ++ [[]]) = .ok (ss.flatMap Statement.words) := by
  induction ss generalizing number with
  | nil => rfl
  | cons s ss ih =>
    rw [List.map_cons, List.cons_append, assembleLines,
      Statement.ofLine_chars (h s List.mem_cons_self)]
    dsimp only
    rw [ih fun t ht => h t (List.mem_cons_of_mem _ ht)]
    rfl

/-- **The round trip.** The listing of any program assembles to this program: each word comes back,
in order, whether it is shown in an instruction or as data. -/
theorem assemble_disassemble (p : Program) : assemble (disassemble p) = .ok p := by
  have hlines : lines (disassemble p).toList = (statements p.words).map Statement.chars ++ [[]] := by
    unfold disassemble
    rw [String.toList_ofList, lines_renderStatements]
  unfold assemble
  rw [hlines, assembleLines_map_chars fun s hs => wellFormed_of_mem_statements hs,
    flatMap_words_statements]
  rfl

end Intcode.Assembly
