import Mathlib.Data.List.Chain
import Intcode.Proofs.Agreement
import Intcode.Proofs.CanonicalLine
import Intcode.Proofs.Encoding

/-!
# Which texts are listings

A listing is a text of canonical lines in which no line of data follows another one, and no word of
data could be shown as an instruction. Every such text is the listing of the program that it
assembles to. The sweep stays in step with the lines: where an instruction line has put its words,
the sweep finds this instruction, and where a line of data has put a word, it finds none.

* `IsListing` — the texts that are meant, said without the disassembler;
* `instructionAhead?_words` — the words of an instruction line are shown as this line;
* `Hidden`, `hidesData_iff` — no word of data is at the head of words that can be shown, by address
  and by recursion on the statements;
* `statements_flatMap_words` — the words of such statements are shown as these statements;
* `hidden_sweep`, `isChain_foldr_joinData` — what the sweep and the joining of data bring about;
* `disassemble_image` — the main statement.
-/

namespace Intcode.Assembly

/-! ### Listings

What a listing is can be said by its lines, without the disassembler. Only the last condition speaks
of the words that the text assembles to, because whether a number is shown as data depends on what
stands behind it. -/

/-- The text of lines, with a line feed behind each of them. -/
def unlines (lines : List (List Char)) : String := String.ofList (lines.flatMap (· ++ ['\n']))

/-- A statement of data. -/
def Statement.IsData (s : Statement) : Prop := ∃ ws, s = .data ws

/-- At the address of a word of data no instruction can be shown. -/
def HidesData (words : List Word) (ss : List Statement) : Prop :=
  ∀ before ws after, ss = before ++ .data ws :: after → ∀ k < ws.length,
    instructionAt? words ((before.flatMap Statement.words).length + k) = none

/-- Lines and the statements that they stand for make a listing. -/
structure MakesListing (text : String) (lines : List (List Char)) (ss : List Statement) :
    Prop where
  text_eq : text = unlines lines
  canonical : List.Forall₂ CanonicalLine lines ss
  apart : ss.IsChain fun s t => ¬ (s.IsData ∧ t.IsData)
  hidden : ∀ p, assemble text = .ok p → HidesData p.words ss

/-- A text that looks like a listing. -/
def IsListing (text : String) : Prop := ∃ lines ss, MakesListing text lines ss

/-- Canonical lines stand for statements that a line can hold. -/
theorem wellFormed_of_forall₂ {lines : List (List Char)} {ss : List Statement}
    (h : List.Forall₂ CanonicalLine lines ss) : ∀ s ∈ ss, s.WellFormed := by
  induction h with
  | nil =>
    intro s hs
    contradiction
  | cons hline _ ih =>
    intro s hs
    rcases List.mem_cons.mp hs with rfl | hs
    · exact (canonicalLine_iff.mp hline).1
    · exact ih s hs

/-- The text of canonical lines is the text that their statements are rendered as. -/
theorem unlines_of_forall₂ {lines : List (List Char)} {ss : List Statement}
    (h : List.Forall₂ CanonicalLine lines ss) :
    unlines lines = String.ofList (renderStatements ss) := by
  unfold unlines renderStatements
  congr 1
  induction h with
  | nil => rfl
  | cons hline _ ih => rw [List.flatMap_cons, List.flatMap_cons, ih, (canonicalLine_iff.mp hline).2]

/-- A text of statements that a line can hold assembles to their words. -/
theorem assemble_renderStatements {ss : List Statement} (h : ∀ s ∈ ss, s.WellFormed) :
    assemble (String.ofList (renderStatements ss)) = .ok ⟨ss.flatMap Statement.words⟩ := by
  unfold assemble
  rw [String.toList_ofList, lines_renderStatements, assembleLines_map_chars h]
  rfl

/-! ### Instruction lines are recognised

The disassembler shows an instruction at a word if the word decodes, has no stray digit, and the
operands behind it are there and admit their modes. All of this holds for the words of an
instruction line, whatever stands behind them. -/

/-- Operands are shown with the modes that they have, if the instruction word gives these modes and
admits them. -/
theorem shownOperands?_map {i : Instruction} {index : Nat} {operands : List Operand}
    (h : ∀ k o, operands[k]? = some o →
      i.mode (index + k) = .ok o.mode ∧ i.opcode.admits (index + k) o.mode) :
    shownOperands? i index (operands.map Operand.value) = some operands := by
  induction operands generalizing index with
  | nil => rfl
  | cons o operands ih =>
    obtain ⟨hmode, hadmits⟩ := h 0 o rfl
    -- the index moves along with the list, so what holds of the operands holds of the tail from the
    -- next index on
    have hrest : shownOperands? i (index + 1) (operands.map Operand.value) = some operands := by
      apply ih
      intro k o' hk
      rw [Nat.add_right_comm]
      exact h (k + 1) o' hk
    rw [Nat.add_zero] at hmode hadmits
    rw [List.map_cons, shownOperands?, hmode]
    dsimp only
    rw [if_pos hadmits, hrest]
    rfl

/-- An instruction made from as many modes as it has operands has no stray digit. -/
theorem isCanonical_ofModes {op : Opcode} {modes : List Mode}
    (h : modes.length = op.operandCount) :
    isCanonical (Instruction.ofModes op modes) (Instruction.ofModes op modes).encode := by
  have hstray : ∀ k, op.operandCount ≤ k → Instruction.modeDigit modes k = 0 := by
    intro k hk
    unfold Instruction.modeDigit
    rw [List.getD_eq_getElem?_getD, List.getElem?_eq_none (by omega)]
    rfl
  unfold isCanonical
  rw [beq_self_eq_true, Bool.true_and, List.all_eq_true]
  intro digit hdigit
  obtain ⟨k, hk, rfl⟩ := List.mem_drop_iff_getElem.mp hdigit
  have hcount : (Instruction.ofModes op modes).opcode.operandCount = op.operandCount := rfl
  have hk3 : op.operandCount + k < 3 := by
    rw [Vector.length_toList, hcount] at hk
    omega
  rw [beq_iff_eq, Vector.getElem_toList]
  show (#v[Instruction.modeDigit modes 0, Instruction.modeDigit modes 1,
    Instruction.modeDigit modes 2] : Vector Word 3)[op.operandCount + k] = 0
  have hzero := hstray (op.operandCount + k) (by omega)
  -- there are three digits, and which of them are stray depends on the opcode
  generalize op.operandCount + k = j at hk3 hzero
  match j, hk3 with
  | 0, _ => exact hzero
  | 1, _ => exact hzero
  | 2, _ => exact hzero

/-- **The words of an instruction line are shown as this line**, whatever stands behind them. -/
theorem instructionAhead?_words {op : Opcode} {operands : List Operand}
    (h : (Statement.instruction op operands).WellFormed) (rest : List Word) :
    instructionAhead? ((Statement.instruction op operands).words ++ rest) =
      some (op, operands) := by
  cases h with
  | instruction _ _ hcount hmodes =>
    have hle := op.operandCount_le
    have hcanonical : isCanonical (Instruction.ofModes op (operands.map Operand.mode))
        (Instruction.ofModes op (operands.map Operand.mode)).encode :=
      isCanonical_ofModes (by rw [List.length_map, hcount])
    have htake : (operands.map Operand.value ++ rest).take op.operandCount =
        operands.map Operand.value := by
      rw [← hcount, ← List.length_map Operand.value, List.take_left]
    have hshown : shownOperands? (Instruction.ofModes op (operands.map Operand.mode)) 0
        (operands.map Operand.value) = some operands := by
      apply shownOperands?_map
      intro k o hk
      rw [Nat.zero_add]
      have hlt := (List.getElem?_eq_some_iff.mp hk).1
      refine ⟨?_, hmodes k o hk⟩
      rw [Instruction.mode_ofModes op _ (by omega), List.getD_eq_getElem?_getD, List.getElem?_map,
        hk]
      rfl
    have hlength : op.operandCount ≤ (operands.map Operand.value ++ rest).length := by
      rw [List.length_append, List.length_map, hcount]
      omega
    show instructionAhead? ((Instruction.ofModes op (operands.map Operand.mode)).encode ::
      (operands.map Operand.value ++ rest)) = _
    -- both conditions under which a word is shown as an instruction hold: it is canonical, and
    -- enough words follow it
    rw [instructionAhead?, Instruction.decode_encode_ofModes]
    dsimp only
    show (if _ && decide (op.operandCount ≤ _) then Option.map _ (shownOperands? _ 0
      (List.take op.operandCount _)) else none) = _
    rw [hcanonical, decide_eq_true hlength, htake, hshown]
    rfl

/-! ### Hidden data

The sweep goes through words and drops them one by one, so for an induction the condition on data
has to be stated by what is still ahead. `hidesData_iff` connects this form with the one by
addresses. -/

/-- No word of data stands at the head of words that can be shown as an instruction. -/
inductive Hidden : List Statement → Prop where
  | nil : Hidden []
  | instruction {op : Opcode} {operands : List Operand} {ss : List Statement}
      (rest : Hidden ss) : Hidden (.instruction op operands :: ss)
  | data {ws : List Word} {ss : List Statement}
      (none : ∀ k < ws.length,
        instructionAhead? ((ws ++ ss.flatMap Statement.words).drop k) = none)
      (rest : Hidden ss) : Hidden (.data ws :: ss)

/-- What is shown at an address is what is shown at the head of the words from there on. -/
theorem instructionAt?_eq_none_iff {words : List Word} {pc : Nat} :
    instructionAt? words pc = none ↔ instructionAhead? (words.drop pc) = none := by
  unfold instructionAt?
  exact Option.map_eq_none_iff

/-- What is hidden remains hidden when statements in front are left out. -/
theorem Hidden.of_append {before ss : List Statement} (h : Hidden (before ++ ss)) : Hidden ss := by
  induction before with
  | nil => exact h
  | cons s before ih =>
    cases h with
    | instruction rest => exact ih rest
    | data _ rest => exact ih rest

/-- Data that are hidden by address are hidden behind any statements in front of them. -/
theorem hidden_of_hidesData (before : List Statement) {ss : List Statement}
    (h : HidesData ((before ++ ss).flatMap Statement.words) (before ++ ss)) : Hidden ss := by
  induction ss generalizing before with
  | nil => exact .nil
  | cons s ss ih =>
    have hrest : Hidden ss := by
      apply ih (before ++ [s])
      rw [List.append_assoc]
      exact h
    cases s with
    | instruction op operands => exact .instruction hrest
    | data ws =>
      refine .data ?_ hrest
      intro k hk
      have hnone := instructionAt?_eq_none_iff.mp (h before ws ss rfl k hk)
      rw [List.flatMap_append, List.drop_length_add_append, List.flatMap_cons] at hnone
      exact hnone

/-- Data that are hidden by address are hidden word by word. -/
theorem hidesData_iff {ss : List Statement} :
    HidesData (ss.flatMap Statement.words) ss ↔ Hidden ss := by
  constructor
  · intro h
    exact hidden_of_hidesData [] h
  · rintro h before ws after rfl k hk
    cases h.of_append with
    | data hnone _ =>
      rw [instructionAt?_eq_none_iff, List.flatMap_append, List.drop_length_add_append,
        List.flatMap_cons]
      exact hnone k hk

/-! ### The sweep stays in step

The sweep takes words and knows nothing about lines. It stays in step because an instruction line is
recognised at its first word and skips exactly its operands, and because nothing is recognised at a
word of data. -/

/-- A statement as the sweep shows it: each word of data on its own. -/
def Statement.apart : Statement → List Statement
  | .instruction op operands => [.instruction op operands]
  | .data ws => ws.map fun w => .data [w]

/-- The words to skip do not matter. -/
theorem sweep_append (front rest : List Word) :
    sweep front.length (front ++ rest) = sweep 0 rest := by
  induction front with
  | nil => rfl
  | cons word front ih =>
    rw [List.cons_append, List.length_cons, sweep]
    exact ih

/-- Words of data that are hidden are swept one by one. -/
theorem sweep_data {ws rest : List Word}
    (h : ∀ k < ws.length, instructionAhead? ((ws ++ rest).drop k) = none) :
    sweep 0 (ws ++ rest) = (Statement.data ws).apart ++ sweep 0 rest := by
  induction ws with
  | nil => rfl
  | cons w ws ih =>
    have hfirst : instructionAhead? (w :: (ws ++ rest)) = none := h 0 (Nat.succ_pos _)
    have hrest := ih fun k hk => h (k + 1) (Nat.succ_lt_succ hk)
    rw [List.cons_append, sweep, hfirst]
    dsimp only
    rw [hrest]
    rfl

/-- The words of an instruction line are swept as this line. -/
theorem sweep_instruction {op : Opcode} {operands : List Operand}
    (h : (Statement.instruction op operands).WellFormed) (rest : List Word) :
    sweep 0 ((Statement.instruction op operands).words ++ rest) =
      .instruction op operands :: sweep 0 rest := by
  have hahead := instructionAhead?_words h rest
  have hlength : (operands.map Operand.value).length = op.operandCount := by
    cases h with
    | instruction _ _ hcount _ => rw [List.length_map, hcount]
  unfold Statement.words at hahead ⊢
  rw [List.cons_append] at hahead ⊢
  rw [sweep, hahead]
  dsimp only
  rw [← hlength, sweep_append]

/-- **The sweep stays in step with the statements** whose words it goes through. -/
theorem sweep_flatMap_words {ss : List Statement} (hwell : ∀ s ∈ ss, s.WellFormed)
    (hhidden : Hidden ss) :
    sweep 0 (ss.flatMap Statement.words) = ss.flatMap Statement.apart := by
  induction hhidden with
  | nil => rfl
  | instruction _ ih =>
    rw [List.flatMap_cons, List.flatMap_cons, sweep_instruction (hwell _ List.mem_cons_self),
      ih fun s hs => hwell s (List.mem_cons_of_mem _ hs)]
    rfl
  | @data ws ss hnone _ ih =>
    rw [List.flatMap_cons, List.flatMap_cons]
    show sweep 0 (ws ++ ss.flatMap Statement.words) = _
    rw [sweep_data hnone, ih fun s hs => hwell s (List.mem_cons_of_mem _ hs)]

/-! ### Joining data

The sweep shows each word of data on its own. Joining them gives back the statements, provided that
no two statements of data stood next to each other. -/

/-- Words of data that are joined one by one are joined as one statement. -/
theorem foldr_joinData_apart {s : Statement} (h : s.WellFormed) (ss : List Statement) :
    s.apart.foldr joinData ss = joinData s ss := by
  cases h with
  | instruction => rfl
  | data ws hne =>
    induction ws with
    | nil => exact absurd rfl hne
    | cons w ws ih =>
      by_cases hnil : ws = []
      · subst hnil
        rfl
      · have hrest : (Statement.data ws).apart.foldr joinData ss = joinData (.data ws) ss :=
          ih hnil
        show joinData (.data [w]) ((Statement.data ws).apart.foldr joinData ss) = _
        rw [hrest]
        -- what comes behind is data, or it is not, for the last word as for all of them
        rcases ss with _ | ⟨_ | b, ss⟩ <;> rfl

/-- Joining statements that are shown apart is joining the statements. -/
theorem foldr_joinData_flatMap_apart {ss : List Statement} (h : ∀ s ∈ ss, s.WellFormed) :
    (ss.flatMap Statement.apart).foldr joinData [] = ss.foldr joinData [] := by
  induction ss with
  | nil => rfl
  | cons s ss ih =>
    rw [List.flatMap_cons, List.foldr_append, ih fun t ht => h t (List.mem_cons_of_mem _ ht),
      foldr_joinData_apart (h s List.mem_cons_self), List.foldr_cons]

/-- Where no two statements of data are neighbours there is nothing to join. -/
theorem foldr_joinData_eq_self {ss : List Statement}
    (h : ss.IsChain fun s t => ¬ (s.IsData ∧ t.IsData)) : ss.foldr joinData [] = ss := by
  induction ss with
  | nil => rfl
  | cons s ss ih =>
    rw [List.foldr_cons, ih h.tail]
    unfold joinData
    split
    · next a b rest =>
      -- two neighbours that are both data
      exact absurd ⟨⟨a, rfl⟩, ⟨b, rfl⟩⟩ (List.isChain_cons_cons.mp h).1
    · rfl

/-- Without data there are no two neighbours that are both data. -/
theorem isChain_of_forall_not_isData {ss : List Statement} (h : ∀ s ∈ ss, ¬ s.IsData) :
    ss.IsChain fun s t => ¬ (s.IsData ∧ t.IsData) := by
  apply List.Pairwise.isChain
  rw [List.pairwise_iff_forall_sublist]
  intro s t hsublist hdata
  exact h s (hsublist.subset List.mem_cons_self) hdata.1

/-- Statements that make a listing are what their words are shown as. -/
theorem statements_flatMap_words {ss : List Statement} (hwell : ∀ s ∈ ss, s.WellFormed)
    (hapart : ss.IsChain fun s t => ¬ (s.IsData ∧ t.IsData)) (hhidden : Hidden ss) :
    statements (ss.flatMap Statement.words) = ss := by
  unfold statements
  rw [sweep_flatMap_words hwell hhidden, foldr_joinData_flatMap_apart hwell,
    foldr_joinData_eq_self hapart]

/-! ### What the sweep brings about

For the other direction the listing of any program has to meet the conditions. The sweep brings
about that data are hidden, and joining that no two of them are neighbours and that they stay
hidden. -/

/-- The sweep shows a word as data only where it finds no instruction. -/
theorem hidden_sweep (skip : Nat) (words : List Word) : Hidden (sweep skip words) := by
  induction words generalizing skip with
  | nil => exact .nil
  | cons word rest ih =>
    cases skip with
    | succ skip => exact ih skip
    | zero =>
      rw [sweep]
      split
      · exact .instruction (ih _)
      · next hnone =>
        refine .data ?_ (ih 0)
        intro k hk
        have hzero : k = 0 := by simpa using hk
        -- the words that are shown behind are the ones that stand behind
        rw [hzero, flatMap_words_sweep]
        exact hnone

/-- Joining two statements of data leaves their words hidden. -/
theorem hidden_joinData {s : Statement} {ss : List Statement} (h : Hidden (s :: ss)) :
    Hidden (joinData s ss) := by
  unfold joinData
  split
  · next a b rest =>
    cases h with
    | data hfirst hrest =>
      cases hrest with
      | data hsecond hrest =>
        refine .data ?_ hrest
        intro k hk
        rw [List.append_assoc]
        by_cases hlt : k < a.length
        · exact hfirst k hlt
        · -- a word of the second statement
          obtain ⟨j, rfl⟩ : ∃ j, k = a.length + j := ⟨k - a.length, by omega⟩
          rw [List.length_append] at hk
          rw [List.drop_length_add_append]
          exact hsecond j (by omega)
  · exact h

/-- Joining all neighbours leaves all data hidden. -/
theorem hidden_foldr_joinData {ss : List Statement} (h : Hidden ss) :
    Hidden (ss.foldr joinData []) := by
  induction h with
  | nil => exact .nil
  | instruction _ ih => exact hidden_joinData (.instruction ih)
  | data hnone _ ih =>
    refine hidden_joinData (.data ?_ ih)
    rw [flatMap_words_foldr_joinData]
    exact hnone

/-- **After joining** no two statements of data are neighbours. -/
theorem isChain_foldr_joinData (ss : List Statement) :
    (ss.foldr joinData []).IsChain fun s t => ¬ (s.IsData ∧ t.IsData) := by
  induction ss with
  | nil => exact .nil
  | cons s ss ih =>
    rw [List.foldr_cons]
    generalize ss.foldr joinData [] = joined at ih
    unfold joinData
    split
    · next a b rest =>
      -- the next statement was no data already for the second one
      cases rest with
      | nil => exact .singleton _
      | cons t rest =>
        obtain ⟨hnext, hrest⟩ := List.isChain_cons_cons.mp ih
        exact .cons_cons (fun hdata => hnext ⟨⟨b, rfl⟩, hdata.2⟩) hrest
    · next hother =>
      cases joined with
      | nil => exact .singleton _
      | cons t rest =>
        refine .cons_cons ?_ ih
        rintro ⟨⟨a, rfl⟩, b, rfl⟩
        exact hother a b rest rfl rfl

/-! ### The main statement

Both directions go through `MakesListing`: from a text that looks like a listing to the program that
it assembles to, and from a program to the lines and statements of its listing. -/

/-- A text that looks like a listing is the one of the program that it assembles to. -/
theorem disassemble_of_makesListing {text : String} {lines : List (List Char)}
    {ss : List Statement} (h : MakesListing text lines ss) :
    ∃ p, assemble text = .ok p ∧ disassemble p = text := by
  have hwell := wellFormed_of_forall₂ h.canonical
  have htext : text = String.ofList (renderStatements ss) := by
    rw [h.text_eq, unlines_of_forall₂ h.canonical]
  have hassemble : assemble text = .ok ⟨ss.flatMap Statement.words⟩ := by
    rw [htext]
    exact assemble_renderStatements hwell
  have hhidden := hidesData_iff.mp (h.hidden _ hassemble)
  refine ⟨_, hassemble, ?_⟩
  unfold disassemble
  rw [statements_flatMap_words hwell h.apart hhidden, htext]

/-- The listing of a program looks like a listing. -/
theorem makesListing_disassemble (p : Program) :
    MakesListing (disassemble p) ((statements p.words).map Statement.chars)
      (statements p.words) := by
  have hwell : ∀ s ∈ statements p.words, s.WellFormed := fun s hs =>
    wellFormed_of_mem_statements hs
  have hcanonical : List.Forall₂ CanonicalLine ((statements p.words).map Statement.chars)
      (statements p.words) := by
    rw [List.forall₂_map_left_iff, List.forall₂_same]
    intro s hs
    exact canonicalLine_iff.mpr ⟨hwell s hs, rfl⟩
  refine ⟨(unlines_of_forall₂ hcanonical).symm, hcanonical, isChain_foldr_joinData _, ?_⟩
  intro q hq
  have hassemble : assemble (disassemble p) = .ok ⟨(statements p.words).flatMap Statement.words⟩ :=
    assemble_renderStatements hwell
  cases hassemble.symm.trans hq
  exact hidesData_iff.mpr (hidden_foldr_joinData (hidden_sweep 0 p.words))

/-- **The image of the disassembler.**

* A text is the listing of a program if and only if it consists of canonical lines, no two of them
  in a row are data, and in the words that it assembles to no instruction can be shown at the
  address of a word of data.
* Such a text can be assembled, and is the listing of what it assembles to.
* So is every text that consists of canonical instruction lines alone. -/
theorem disassemble_image :
    (∀ text, (∃ p, text = disassemble p) ↔ IsListing text) ∧
    (∀ text, IsListing text → ∃ p, assemble text = .ok p ∧ disassemble p = text) ∧
    ∀ lines ss, List.Forall₂ CanonicalLine lines ss → (∀ s ∈ ss, ¬ s.IsData) →
      ∃ p, assemble (unlines lines) = .ok p ∧ disassemble p = unlines lines := by
  refine ⟨?_, ?_, ?_⟩
  · intro text
    constructor
    · rintro ⟨p, rfl⟩
      exact ⟨_, _, makesListing_disassemble p⟩
    · rintro ⟨lines, ss, h⟩
      obtain ⟨p, -, hp⟩ := disassemble_of_makesListing h
      exact ⟨p, hp.symm⟩
  · rintro text ⟨lines, ss, h⟩
    exact disassemble_of_makesListing h
  · intro lines ss hcanonical hinstructions
    -- without data nothing can be hidden in a line that reads as an instruction
    have hhidden : ∀ p, assemble (unlines lines) = .ok p → HidesData p.words ss := by
      rintro p - before ws after rfl k -
      exact absurd ⟨ws, rfl⟩ (hinstructions (.data ws) (by simp))
    exact disassemble_of_makesListing
      ⟨rfl, hcanonical, isChain_of_forall_not_isData hinstructions, hhidden⟩

/-- Data may look like the beginning of an instruction whose operands are missing. What looks like
an instruction with its operands is no data of a listing. -/
theorem disassemble_image_halt :
    (∃ p, assemble "HALT\nDATA 1 -5\n" = .ok p ∧ disassemble p = "HALT\nDATA 1 -5\n") ∧
    (∃ p, assemble "HALT\n" = .ok p ∧ disassemble p = "HALT\n") ∧
    ¬ IsListing "DATA 99\n" := by
  have hhalt : CanonicalLine "HALT".toList (.instruction .halt []) :=
    canonicalLine_iff.mpr ⟨.instruction _ _ rfl (by simp), rfl⟩
  have hdata : CanonicalLine "DATA 1 -5".toList (.data [1, -5]) :=
    canonicalLine_iff.mpr ⟨.data _ (by simp), rfl⟩
  refine ⟨disassemble_image.2.1 _ ⟨["HALT".toList, "DATA 1 -5".toList],
    [.instruction .halt [], .data [1, -5]], rfl, .cons hhalt (.cons hdata .nil), ?_, ?_⟩,
    disassemble_image.2.2 ["HALT".toList] [.instruction .halt []] (.cons hhalt .nil) ?_, ?_⟩
  · refine .cons_cons ?_ (.singleton _)
    rintro ⟨⟨ws, hws⟩, -⟩
    contradiction
  · intro p hp
    cases (show assemble "HALT\nDATA 1 -5\n" = .ok ⟨[99, 1, -5]⟩ by decide +kernel).symm.trans hp
    exact hidesData_iff.mpr (.instruction (.data (by decide +kernel) .nil))
  · rintro s hs ⟨ws, rfl⟩
    simp at hs
  · intro hlisting
    obtain ⟨p, hp, htext⟩ := disassemble_image.2.1 _ hlisting
    cases (show assemble "DATA 99\n" = .ok ⟨[99]⟩ by decide +kernel).symm.trans hp
    exact absurd htext (by decide +kernel)

end Intcode.Assembly
