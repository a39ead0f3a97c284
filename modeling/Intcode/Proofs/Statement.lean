import Intcode.Assembly.Statement
import Intcode.Proofs.Numeral
import Mathlib.Data.List.TakeWhile

/-!
# Statements are read back

The canonical text of a statement is read as this statement, provided that it is one that a line
can hold: an instruction with as many operands as its opcode has, each in a mode that it may have,
or at least one word of data (`Statement.WellFormed`).

* `IsPlainWord` — what a word of a line looks like: not empty, without separators and comments;
* `lineWords_comment`, `lineWords_separator`, `lineWords_word` — the words of a line, from its front;
* `lineWords_spaced` — plain words with spaces between them are the words of the line;
* `read?_chars`, `read?_mnemonic` — the tokens of operands and of names;
* `Statement.tokens`, `ofTokens_tokens` — the tokens of a statement, and that it is read from them;
* `ofLine_chars` — a statement is read from its canonical text.
-/

namespace Intcode.Text

/-! ### Fields

The words of a line are the runs of characters between separators, where runs of length zero do not
count. -/

/-- A separator cuts the fields into those in front of it and those behind it. -/
theorem fields_append_cons (isSeparator : Char → Bool) (cs ds : List Char) {c : Char}
    (h : isSeparator c) :
    fields isSeparator (cs ++ c :: ds) = fields isSeparator cs ++ fields isSeparator ds := by
  unfold fields
  rw [List.splitOnP_append_cons cs ds h, List.filter_append]

end Intcode.Text

namespace Intcode.Assembly

open Text

/-! ### Words of a line

How a line falls into words is told from its front: it starts with a comment, with a separator, or
with a plain word that goes as far as it can. Canonical lines are plain words with one space between
them. -/

/-- Whether a character neither separates words nor starts a comment. -/
def isPlain (c : Char) : Bool := !isSeparator c && !isComment c

/-- A text that is one word of a line. -/
def IsPlainWord (word : List Char) : Prop := word ≠ [] ∧ word.all isPlain

instance (word : List Char) : Decidable (IsPlainWord word) := inferInstanceAs (Decidable (_ ∧ _))

theorem IsPlainWord.isPlain {word : List Char} (h : IsPlainWord word) {c : Char} (hc : c ∈ word) :
    isPlain c :=
  List.all_eq_true.mp h.2 c hc

theorem isSeparator_of_isPlain {c : Char} (h : isPlain c) : isSeparator c = false := by
  unfold isPlain at h
  simp at h
  exact h.1

theorem isComment_of_isPlain {c : Char} (h : isPlain c) : isComment c = false := by
  unfold isPlain at h
  simp at h
  exact h.2

theorem isBlank_of_isPlain {c : Char} (h : isPlain c) : isBlank c = false := by
  have hseparator := isSeparator_of_isPlain h
  unfold isSeparator at hseparator
  exact (Bool.or_eq_false_iff.mp hseparator).1

/-- Letters, digits, signs and most marks are plain. -/
theorem isPlain_of_range {c : Char} (h : 0x2D ≤ c.toNat ∧ c.toNat ≤ 0x7E ∧ c.toNat ≠ 0x3B) :
    isPlain c := by
  have hcomma : c ≠ ',' := by rintro rfl; exact absurd h.1 (by decide)
  have hsemicolon : c ≠ ';' := by rintro rfl; exact h.2.2 rfl
  unfold isPlain isSeparator isComment isBlank
  simp [hcomma, hsemicolon]
  omega

theorem isPlain_of_isDigit {c : Char} (h : c.isDigit) : isPlain c := by
  obtain ⟨hlo, hhi⟩ := Numeral.isDigit_iff.mp h
  exact isPlain_of_range ⟨by omega, by omega, by omega⟩

/-- The characters of an operand are its sigil, a minus sign and digits. -/
theorem isPlainWord_chars (o : Operand) : IsPlainWord o.chars := by
  refine ⟨?_, ?_⟩
  · exact List.append_ne_nil_of_right_ne_nil _ (Numeral.digits_ne_nil o.value)
  · refine List.all_eq_true.mpr fun c hc => ?_
    rcases List.mem_append.mp hc with hsigil | hdigits
    · have hall : ∀ mode : Mode, mode.sigil.all isPlain := by
        intro mode
        cases mode <;> decide
      exact List.all_eq_true.mp (hall o.mode) c hsigil
    · rcases Numeral.mem_digits hdigits with rfl | hdigit
      · decide
      · exact isPlain_of_isDigit hdigit

theorem isPlainWord_digits (w : Word) : IsPlainWord w.digits :=
  isPlainWord_chars ⟨.position, w⟩

theorem isPlainWord_mnemonic (op : Opcode) : IsPlainWord op.mnemonic.toList := by
  cases op <;> decide

theorem isPlainWord_dataName : IsPlainWord Statement.dataName.toList := by
  decide

theorem isComment_of_isSeparator {c : Char} (h : isSeparator c) : isComment c = false := by
  rw [← Bool.not_eq_true]
  intro hcomment
  rw [eq_of_beq hcomment] at h
  exact absurd h (by decide)

/-- Nothing behind a comment sign counts. -/
theorem lineWords_comment {c : Char} (h : isComment c) (rest : List Char) :
    lineWords (c :: rest) = [] := by
  unfold lineWords
  rw [List.takeWhile_cons_of_neg (by simpa using h)]
  rfl

/-- A separator in front of a line changes nothing. -/
theorem lineWords_separator {c : Char} (h : isSeparator c) (rest : List Char) :
    lineWords (c :: rest) = lineWords rest := by
  unfold lineWords
  rw [List.takeWhile_cons_of_pos (by simp [isComment_of_isSeparator h])]
  exact fields_append_cons isSeparator [] _ h

/-- A plain word is a word of the line, if the line does not go on with a plain character. -/
theorem lineWords_word {word rest : List Char} (hword : IsPlainWord word)
    (hend : ∀ c ∈ rest.head?, isPlain c = false) :
    lineWords (word ++ rest) = word :: lineWords rest := by
  -- the word alone has no separator in it, so it is its only field
  have hsingle : fields isSeparator word = [word] := by
    unfold fields
    rw [List.splitOnP_eq_singleton fun c hc => isSeparator_of_isPlain (hword.isPlain hc)]
    simp [hword.1]
  have hfront : lineWords (word ++ rest) =
      fields isSeparator (word ++ rest.takeWhile fun c => !isComment c) := by
    unfold lineWords
    rw [List.takeWhile_append_of_pos fun c hc => by simp [isComment_of_isPlain (hword.isPlain hc)]]
  cases rest with
  | nil =>
    rw [hfront, List.takeWhile_nil, List.append_nil, hsingle]
    rfl
  | cons c rest =>
    by_cases hcomment : isComment c
    · rw [hfront, lineWords_comment hcomment,
        List.takeWhile_cons_of_neg (by simpa using hcomment), List.append_nil, hsingle]
    · -- a character that is neither plain nor the start of a comment separates words
      have hseparator : isSeparator c := by
        have hplain := hend c rfl
        unfold isPlain at hplain
        simpa [hcomment] using hplain
      rw [hfront, lineWords_separator hseparator,
        List.takeWhile_cons_of_pos (by simpa using hcomment), fields_append_cons _ _ _ hseparator,
        hsingle]
      rfl

/-- Plain words with one space between them are the words of the line. -/
theorem lineWords_spaces {words : List (List Char)} (h : ∀ word ∈ words, IsPlainWord word)
    {first : List Char} (hfirst : IsPlainWord first) :
    lineWords (first ++ words.flatMap (' ' :: ·)) = first :: words := by
  induction words generalizing first with
  | nil => exact lineWords_word hfirst (by simp)
  | cons word words ih =>
    have hend : ∀ c ∈ ((word :: words).flatMap (' ' :: ·)).head?, isPlain c = false := by
      intro c hc
      cases hc
      decide
    rw [lineWords_word hfirst hend, List.flatMap_cons, List.cons_append,
      lineWords_separator (by decide), ih (fun w hw => h w (List.mem_cons_of_mem _ hw))
        (h word List.mem_cons_self)]

section Spaced

variable {α : Type} {name : String} {text : α → List Char} (hname : IsPlainWord name.toList)
  (htext : ∀ x, IsPlainWord (text x))
include hname htext

/-- Every character of a canonical line is a space or stands in one of its words. -/
theorem mem_spaced {xs : List α} {c : Char} (h : c ∈ Statement.spaced name (xs.map text)) :
    c = ' ' ∨ isPlain c := by
  rcases List.mem_append.mp h with hc | hc
  · exact Or.inr (hname.isPlain hc)
  · obtain ⟨a, ha, hc⟩ := List.mem_flatMap.mp hc
    obtain ⟨x, -, rfl⟩ := List.mem_map.mp ha
    rcases List.mem_cons.mp hc with hc | hc
    · exact Or.inl hc
    · exact Or.inr ((htext x).isPlain hc)

/-- A canonical line is one line. -/
theorem newline_notMem_spaced (xs : List α) : '\n' ∉ Statement.spaced name (xs.map text) := by
  intro hmem
  rcases mem_spaced hname htext hmem with h | h
  · exact absurd h (by decide)
  · exact absurd h (by decide)

/-- The words of a canonical line are the name and the arguments. -/
theorem lineWords_spaced (xs : List α) :
    lineWords (Statement.spaced name (xs.map text)) = name.toList :: xs.map text := by
  apply lineWords_spaces _ hname
  intro word hword
  obtain ⟨x, -, rfl⟩ := List.mem_map.mp hword
  exact htext x

end Spaced

/-! ### Tokens

Every word is read by itself. The first character decides between an operand behind its sigil, a
number and a name, and canonical words are told apart by it. -/

/-- A number that starts with a digit or a minus sign and does not go on with `x` is decimal. -/
theorem readNumber_digits (w : Word) : Token.readNumber w.digits = .ok w := by
  rw [← Numeral.readDecimal_digits w]
  unfold Token.readNumber
  split
  · -- a numeral of a word has no letter
    next rest heq =>
    have hmem : 'x' ∈ w.digits := by rw [heq]; simp
    exact absurd (Numeral.mem_digits hmem) (by decide)
  · next rest heq =>
    have hmem : 'X' ∈ w.digits := by rw [heq]; simp
    exact absurd (Numeral.mem_digits hmem) (by decide)
  · rfl

/-- A numeral is read as an operand of the mode that it stands behind. -/
theorem readOperand?_digits (mode : Mode) (w : Word) :
    Token.readOperand? mode w.digits = some (.operand ⟨mode, w⟩) := by
  unfold Token.readOperand?
  rw [readNumber_digits]

/-- A numeral consists of characters that a number can start with. -/
theorem startsNumber_of_mem_digits {w : Word} {c : Char} (h : c ∈ w.digits) :
    Token.startsNumber c := by
  rcases Numeral.mem_digits h with rfl | hdigit
  · decide
  · simp [Token.startsNumber, hdigit]

/-- The first character of a word tells what it is. -/
theorem Token.read?_cons (c : Char) (cs : List Char) :
    read? (c :: cs) =
      if c = '#' then readOperand? .immediate cs
      else if c = '@' then readOperand? .relative cs
      else if startsNumber c then readOperand? .position (c :: cs)
      else some (ofName (c :: cs)) := by
  by_cases himmediate : c = '#'
  · rw [if_pos himmediate, himmediate]
    rfl
  · by_cases hrelative : c = '@'
    · rw [if_neg himmediate, if_pos hrelative, hrelative]
      rfl
    · rw [if_neg himmediate, if_neg hrelative]
      -- neither sigil: the match on the literals is opened and its first two arms are impossible
      unfold read?
      split
      · next heq => exact absurd (List.cons.inj heq).1 himmediate
      · next heq => exact absurd (List.cons.inj heq).1 hrelative
      · next heq =>
        cases heq
        rfl
      · contradiction

/-- A word that starts like a number has no sigil. -/
theorem Token.read?_of_startsNumber {c : Char} (h : startsNumber c) (cs : List Char) :
    read? (c :: cs) = readOperand? .position (c :: cs) := by
  have hsigil : ∀ s : Char, startsNumber s = false → c ≠ s := by
    rintro s hs rfl
    rw [h] at hs
    contradiction
  rw [read?_cons, if_neg (hsigil '#' (by decide)), if_neg (hsigil '@' (by decide)), if_pos h]

/-- The canonical text of an operand is read as this operand. -/
theorem read?_chars (o : Operand) : Token.read? o.chars = some (.operand o) := by
  obtain ⟨mode, value⟩ := o
  cases mode with
  | immediate => exact readOperand?_digits .immediate value
  | relative => exact readOperand?_digits .relative value
  | position =>
    show Token.read? value.digits = _
    obtain ⟨c, cs, hcs⟩ := List.exists_cons_of_ne_nil (Numeral.digits_ne_nil value)
    have hstart : Token.startsNumber c := startsNumber_of_mem_digits (w := value) (by simp [hcs])
    rw [← readOperand?_digits .position value, hcs, Token.read?_of_startsNumber hstart]

/-- A mnemonic is read as a name. -/
theorem read?_mnemonic (op : Opcode) :
    Token.read? op.mnemonic.toList = some (.name op.mnemonic) := by
  cases op <;> decide

/-- So is the name of data. -/
theorem read?_dataName :
    Token.read? Statement.dataName.toList = some (.name Statement.dataName) := by
  decide

/-- Words that are read one by one are the tokens of the line. -/
theorem readTokens_map {α : Type} {text : α → List Char} {token : α → Token}
    (h : ∀ x, Token.read? (text x) = some (token x)) (xs : List α) :
    readTokens (xs.map text) = .ok (xs.map token) := by
  induction xs with
  | nil => rfl
  | cons x xs ih =>
    rw [List.map_cons, readTokens, h x]
    dsimp only
    rw [ih]
    rfl

/-- The tokens of a canonical line, whose name and arguments are each read as a token. -/
theorem readTokens_spaced {α : Type} {name : String} {text : α → List Char} {token : α → Token}
    (hname : IsPlainWord name.toList) (hread : Token.read? name.toList = some (.name name))
    (htext : ∀ x, IsPlainWord (text x)) (htoken : ∀ x, Token.read? (text x) = some (token x))
    (xs : List α) :
    readTokens (lineWords (Statement.spaced name (xs.map text))) =
      .ok (.name name :: xs.map token) := by
  rw [lineWords_spaced hname htext, readTokens, hread]
  dsimp only
  rw [readTokens_map htoken]
  rfl

/-! ### Statements

From the tokens the statement is read off. Where a line holds more or fewer operands than its opcode
has, or one in a mode that is not allowed, it is no statement, and the well-formed ones are those
where none of this happens. -/

namespace Statement

/-- A statement that a line can hold. -/
inductive WellFormed : Statement → Prop where
  | instruction (op : Opcode) (operands : List Operand)
      (hcount : operands.length = op.operandCount)
      (hmodes : ∀ k o, operands[k]? = some o → op.admits k o.mode) :
      WellFormed (.instruction op operands)
  | data (words : List Word) (hne : words ≠ []) : WellFormed (.data words)

/-- Operands in modes that they may have are read from their tokens. -/
theorem readOperands_map {op : Opcode} {index : Nat} {operands : List Operand}
    (h : ∀ k o, operands[k]? = some o → op.admits (index + k) o.mode) :
    readOperands op index (operands.map Token.operand) = .ok operands := by
  induction operands generalizing index with
  | nil => rfl
  | cons o operands ih =>
    have hfirst : op.admits index o.mode := h 0 o rfl
    have hrest : readOperands op (index + 1) (operands.map Token.operand) = .ok operands := by
      apply ih
      intro k o' hk
      rw [Nat.add_right_comm]
      exact h (k + 1) o' hk
    rw [List.map_cons, readOperands, if_pos hfirst, hrest]
    rfl

/-- Data are operands without a mark. -/
theorem readData_map (words : List Word) :
    readData (words.map fun w => Token.operand ⟨.position, w⟩) = .ok words := by
  induction words with
  | nil => rfl
  | cons w words ih =>
    rw [List.map_cons, readData, ih]
    rfl

/-- As many operands as the opcode has, each in a mode that it may have, are its arguments. -/
theorem readArguments_map {op : Opcode} {operands : List Operand}
    (hcount : operands.length = op.operandCount)
    (hmodes : ∀ k o, operands[k]? = some o → op.admits k o.mode) :
    readArguments op (operands.map Token.operand) = .ok (.instruction op operands) := by
  have hnext : (operands.map Token.operand)[op.operandCount]? = none := by
    simp [hcount]
  have hread : readOperands op 0 (operands.map Token.operand) = .ok operands := by
    apply readOperands_map
    intro k o hk
    rw [Nat.zero_add]
    exact hmodes k o hk
  unfold readArguments
  rw [if_neg (by simp [hcount]), hnext]
  dsimp only
  rw [hread]
  rfl

/-- Data cannot be mistaken for an instruction. -/
theorem mnemonic_ne_dataName (op : Opcode) : op.mnemonic ≠ dataName := by
  cases op <;> decide

/-- The tokens that a statement is read from. -/
def tokens : Statement → List Token
  | .instruction op operands => .name op.mnemonic :: operands.map .operand
  | .data words => .name dataName :: words.map fun w => .operand ⟨.position, w⟩

/-- A well-formed statement is read from its tokens. -/
theorem ofTokens_tokens {s : Statement} (h : s.WellFormed) : ofTokens s.tokens = .ok (some s) := by
  cases h with
  | instruction op operands hcount hmodes =>
    show some <$> read (.name op.mnemonic) (operands.map .operand) = _
    unfold read
    dsimp only
    rw [if_neg (mnemonic_ne_dataName op), Opcode.ofMnemonic?_eq_some_iff.mpr rfl]
    dsimp only
    rw [readArguments_map hcount hmodes]
    rfl
  | data words hne =>
    -- a line of data without a word would be refused
    obtain ⟨w, ws, rfl⟩ := List.exists_cons_of_ne_nil hne
    show some <$> data <$> readData ((w :: ws).map fun w => .operand ⟨.position, w⟩) = _
    rw [readData_map]
    rfl

/-- The canonical text of a statement has these tokens. -/
theorem readTokens_chars (s : Statement) : readTokens (lineWords s.chars) = .ok s.tokens := by
  cases s with
  | instruction op operands =>
    exact readTokens_spaced (isPlainWord_mnemonic op) (read?_mnemonic op) isPlainWord_chars
      read?_chars operands
  | data words =>
    exact readTokens_spaced isPlainWord_dataName read?_dataName isPlainWord_digits
      (fun w => read?_chars ⟨.position, w⟩) words

/-- The canonical text of a statement is read as this statement. -/
theorem ofLine_chars {s : Statement} (h : s.WellFormed) : ofLine s.chars = .ok (some s) := by
  unfold ofLine
  rw [readTokens_chars]
  exact ofTokens_tokens h

/-- No line feed stands in the canonical text of a statement. -/
theorem newline_notMem_chars (s : Statement) : '\n' ∉ s.chars := by
  cases s with
  | instruction op operands =>
    exact newline_notMem_spaced (isPlainWord_mnemonic op) isPlainWord_chars operands
  | data words => exact newline_notMem_spaced isPlainWord_dataName isPlainWord_digits words

end Statement

end Intcode.Assembly
