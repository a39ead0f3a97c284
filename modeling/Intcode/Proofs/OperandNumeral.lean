import Mathlib.Data.Nat.Digits.Defs
import Intcode.Proofs.Concatenation
import Intcode.Proofs.NumeralGrammar

/-!
# The numbers of operands

A word of a line that is marked as an operand, or starts like a number, must be a number: decimal,
or hexadecimal behind `0x`, with a sign in front of the digits or without one. Every such word that
denotes an integer in range is the operand with this value. Any other is refused with the line it is
on, and the fault shows the whole word, the mark of its mode included.

* `Numeral.Hexadecimal`, `Numeral.read_sixteen_eq_ok_iff` — hexadecimal numerals;
* `Numeric`, `Token.readNumber_eq_ok_iff` — the texts that are numbers;
* `Marked`, `read?_of_marked` — the words that are to be operands;
* `readTokens_of_numeric`, `Refused` — what becomes of such a word;
* `operand_numbers` — the main statement.
-/

namespace Intcode

namespace Text.Numeral

/-! ### Hexadecimal numerals

Hexadecimal numerals are described by their characters and by the sum that their digits make up,
without a word about how they are read. -/

/-- A hexadecimal digit of either case, and its value. -/
inductive HexDigit : Char → Nat → Prop where
  | digit {c : Char} (lo : '0'.toNat ≤ c.toNat) (hi : c.toNat ≤ '9'.toNat) :
      HexDigit c (c.toNat - '0'.toNat)
  | small {c : Char} (lo : 'a'.toNat ≤ c.toNat) (hi : c.toNat ≤ 'f'.toNat) :
      HexDigit c (c.toNat - 'a'.toNat + 10)
  | capital {c : Char} (lo : 'A'.toNat ≤ c.toNat) (hi : c.toNat ≤ 'F'.toNat) :
      HexDigit c (c.toNat - 'A'.toNat + 10)

/-- Hexadecimal digits, with a sign in front of them or without one, and the integer they denote. -/
inductive Hexadecimal (cs : List Char) (n : Int) : Prop where
  | intro {sign : Sign} {ds : List Char} {values : List Nat} (signed : Signed cs sign ds)
      (ne_nil : ds ≠ []) (digits : List.Forall₂ HexDigit ds values)
      (value : n = sign.apply (Nat.ofDigits 16 values.reverse))

/-- The digits in base sixteen are these characters, with these values. -/
theorem digitValue?_sixteen_eq_some_iff {c : Char} {d : Nat} :
    digitValue? 16 c = some d ↔ HexDigit c d := by
  constructor
  · intro h
    unfold digitValue? at h
    simp only [Option.filter_eq_some_iff, decide_eq_true_eq] at h
    obtain ⟨hvalue, hlt⟩ := h
    -- the branches are the digits, the capitals and the small letters, in this order
    split_ifs at hvalue with hdigit hcapital hsmall
    · cases hvalue
      exact .digit hdigit.1 hdigit.2
    · cases hvalue
      exact .capital hcapital.1 (show c.toNat ≤ 0x46 by omega)
    · cases hvalue
      exact .small hsmall.1 (show c.toNat ≤ 0x66 by omega)
  · intro h
    unfold digitValue?
    simp only [Option.filter_eq_some_iff, decide_eq_true_eq]
    cases h with
    | digit lo hi =>
      replace lo : 0x30 ≤ c.toNat := lo
      replace hi : c.toNat ≤ 0x39 := hi
      show _ ∧ c.toNat - 0x30 < 16
      rw [if_pos ⟨lo, hi⟩]
      exact ⟨rfl, by omega⟩
    | small lo hi =>
      replace lo : 0x61 ≤ c.toNat := lo
      replace hi : c.toNat ≤ 0x66 := hi
      show _ ∧ c.toNat - 0x61 + 10 < 16
      rw [if_neg (by omega), if_neg (by omega), if_pos ⟨lo, by omega⟩]
      exact ⟨rfl, by omega⟩
    | capital lo hi =>
      replace lo : 0x41 ≤ c.toNat := lo
      replace hi : c.toNat ≤ 0x46 := hi
      show _ ∧ c.toNat - 0x41 + 10 < 16
      rw [if_neg (by omega), if_pos ⟨lo, by omega⟩]
      exact ⟨rfl, by omega⟩

/-- Reading digits from the left gives the sum of digits times powers of the base. -/
theorem positional_eq_ofDigits (base : Nat) (ds : List Nat) :
    positional base 0 ds = Nat.ofDigits base ds.reverse := by
  unfold positional
  rw [Nat.ofDigits_eq_foldr, List.foldr_reverse]
  congr 1
  funext n d
  simp [Nat.add_comm, Nat.mul_comm]

/-- **Hexadecimal numerals** of words are what is read in base sixteen. -/
theorem read_sixteen_eq_ok_iff {cs : List Char} {w : Word} :
    read 16 cs = .ok w ↔ Hexadecimal cs w.toInt := by
  have hdigits : ∀ {sign : Sign} {ds : List Char}, readDigits 16 sign 0 ds = .ok w ↔
      ∃ values, List.Forall₂ HexDigit ds values ∧
        w.toInt = sign.apply (Nat.ofDigits 16 values.reverse) := by
    intro sign ds
    -- nothing read so far counts as zero, with either sign
    have hzero : (0 : Word).toInt = sign.apply 0 := by
      cases sign <;> rfl
    rw [readDigits_eq_ok_iff (by decide) hzero]
    unfold Digits
    simp only [digitValue?_sixteen_eq_some_iff, positional_eq_ofDigits]
  rw [read_eq_ok_iff]
  simp only [hdigits]
  constructor
  · rintro ⟨sign, ds, hsigned, hne, values, hvalues, hvalue⟩
    exact .intro hsigned hne hvalues hvalue
  · rintro ⟨hsigned, hne, hvalues, hvalue⟩
    exact ⟨_, _, hsigned, hne, _, hvalues, hvalue⟩

/-- A signed text consists of a sign and of what is behind it. -/
theorem Signed.mem {cs ds : List Char} {sign : Sign} (h : Signed cs sign ds) {c : Char}
    (hc : c ∈ cs) : c = '+' ∨ c = '-' ∨ c ∈ ds := by
  cases h with
  | bare => exact Or.inr (Or.inr hc)
  | plus => simpa using Or.imp_right Or.inr (List.mem_cons.mp hc)
  | minus => simpa using Or.inr (List.mem_cons.mp hc)

end Text.Numeral

namespace Assembly

open Text Numeral

/-! ### Numbers

A prefix decides which kind of numeral is read. There is nothing to choose, since no decimal numeral
begins with the prefix. -/

/-- A text that is the number of an operand, and the integer that it denotes. -/
inductive Numeric : List Char → Int → Prop where
  | decimal {text : List Char} {n : Int} (numeral : Decimal text n) : Numeric text n
  | hexadecimal {x : Char} {text : List Char} {n : Int} (sign : x = 'x' ∨ x = 'X')
      (numeral : Hexadecimal text n) : Numeric ('0' :: x :: text) n

/-- The letter of the hexadecimal prefix is no decimal digit. -/
theorem not_decimal_of_hexMark {x : Char} {text : List Char} {n : Int} (hx : x = 'x' ∨ x = 'X') :
    ¬ Decimal ('0' :: x :: text) n := by
  intro h
  have hletter := h.mem (c := x) (by simp)
  rcases hx with rfl | rfl
  · exact absurd hletter (by decide)
  · exact absurd hletter (by decide)

/-- Behind the prefix there is a hexadecimal numeral, or the text is no number. -/
theorem numeric_prefix_iff {x : Char} {text : List Char} {n : Int} (hx : x = 'x' ∨ x = 'X') :
    Numeric ('0' :: x :: text) n ↔ Hexadecimal text n := by
  constructor
  · intro h
    cases h with
    | decimal numeral => exact absurd numeral (not_decimal_of_hexMark hx)
    | hexadecimal _ numeral => exact numeral
  · exact .hexadecimal hx

/-- **Numbers** are what is read as the number of an operand. -/
theorem Token.readNumber_eq_ok_iff {text : List Char} {w : Word} :
    readNumber text = .ok w ↔ Numeric text w.toInt := by
  unfold readNumber
  split
  · rw [read_sixteen_eq_ok_iff, numeric_prefix_iff (Or.inl rfl)]
  · rw [read_sixteen_eq_ok_iff, numeric_prefix_iff (Or.inr rfl)]
  · next hsmall hcapital =>
    rw [readDecimal_eq_ok_iff]
    constructor
    · exact .decimal
    · intro h
      cases h with
      | decimal numeral => exact numeral
      | @hexadecimal x text _ sign _ =>
        -- a text with the prefix has been read in another branch
        rcases sign with rfl | rfl
        · exact absurd rfl (hsmall text)
        · exact absurd rfl (hcapital text)

/-- A digit neither separates words nor starts a comment. -/
theorem isPlain_of_hexDigit {c : Char} {d : Nat} (h : HexDigit c d) : isPlain c := by
  cases h with
  | digit lo hi =>
    replace lo : 0x30 ≤ c.toNat := lo
    replace hi : c.toNat ≤ 0x39 := hi
    exact isPlain_of_range ⟨by omega, by omega, by omega⟩
  | small lo hi =>
    replace lo : 0x61 ≤ c.toNat := lo
    replace hi : c.toNat ≤ 0x66 := hi
    exact isPlain_of_range ⟨by omega, by omega, by omega⟩
  | capital lo hi =>
    replace lo : 0x41 ≤ c.toNat := lo
    replace hi : c.toNat ≤ 0x46 := hi
    exact isPlain_of_range ⟨by omega, by omega, by omega⟩

theorem isPlain_of_hexDigits {ds : List Char} {values : List Nat}
    (h : List.Forall₂ HexDigit ds values) : ∀ d ∈ ds, isPlain d := by
  induction h with
  | nil => simp
  | cons hfirst _ ih => exact List.forall_mem_cons.mpr ⟨isPlain_of_hexDigit hfirst, ih⟩

/-- A sign does neither. -/
theorem isPlain_of_signed {cs ds : List Char} {sign : Sign} (h : Signed cs sign ds)
    (hds : ∀ d ∈ ds, isPlain d) : ∀ c ∈ cs, isPlain c := by
  intro c hc
  rcases h.mem hc with rfl | rfl | hd
  · decide
  · decide
  · exact hds c hd

/-- A number is all of one word, so a line is not cut inside of one. -/
theorem Numeric.isPlain {text : List Char} {n : Int} (h : Numeric text n) :
    ∀ c ∈ text, isPlain c := by
  cases h with
  | decimal numeral =>
    obtain ⟨signed, -, isDigit, -⟩ := numeral
    exact isPlain_of_signed signed fun d hd => isPlain_of_isDigit (isDigit d hd)
  | hexadecimal sign numeral =>
    obtain ⟨signed, -, digits, -⟩ := numeral
    intro c hc
    rcases List.mem_cons.mp hc with rfl | hc
    · decide
    · rcases List.mem_cons.mp hc with rfl | hc
      · rcases sign with rfl | rfl <;> decide
      · exact isPlain_of_signed signed (isPlain_of_hexDigits digits) c hc

/-! ### Words that are to be operands

The first character of a word tells whether it is to be an operand. From then on the word is an
operand or a fault, never a name. -/

/-- A word that is to be an operand of this mode with this number: it starts with the mark of the
mode, or without a mark it starts like a number. -/
inductive Marked : Mode → List Char → List Char → Prop where
  | immediate (text : List Char) : Marked .immediate text ('#' :: text)
  | relative (text : List Char) : Marked .relative text ('@' :: text)
  | position {c : Char} {rest : List Char} (starts : c.isDigit ∨ c = '-' ∨ c = '+') :
      Marked .position (c :: rest) (c :: rest)

section Words

variable {mode : Mode} {text word : List Char}

theorem startsNumber_iff {c : Char} :
    Token.startsNumber c ↔ c.isDigit ∨ c = '-' ∨ c = '+' := by
  unfold Token.startsNumber
  simp [or_assoc]

/-- A marked word is read as an operand. -/
theorem read?_of_marked (h : Marked mode text word) :
    Token.read? word = Token.readOperand? mode text := by
  cases h with
  | immediate | relative => rfl
  | position starts => exact Token.read?_of_startsNumber (startsNumber_iff.mpr starts) _

/-- Behind the mark of a mode a number is marked with this mode. -/
theorem marked_sigil {n : Int} (h : Numeric text n) (mode : Mode) :
    Marked mode text (mode.sigil ++ text) := by
  cases mode with
  | immediate => exact .immediate text
  | relative => exact .relative text
  | position =>
    -- the first character of a number is a sign or a digit
    cases h with
    | hexadecimal => exact .position (Or.inl (by decide))
    | decimal numeral =>
      obtain ⟨signed, ne_nil, isDigit, -⟩ := numeral
      cases signed with
      | plus => exact .position (Or.inr (Or.inr rfl))
      | minus => exact .position (Or.inr (Or.inl rfl))
      | bare =>
        obtain ⟨c, rest, rfl⟩ := List.exists_cons_of_ne_nil ne_nil
        exact .position (Or.inl (isDigit c List.mem_cons_self))

/-- An operand is read from the numbers that denote its value. -/
theorem readOperand?_eq_some_iff {w : Word} :
    Token.readOperand? mode text = some (.operand ⟨mode, w⟩) ↔ Numeric text w.toInt := by
  rw [← Token.readNumber_eq_ok_iff]
  unfold Token.readOperand?
  cases Token.readNumber text <;> simp

/-- A text is refused if no word is denoted by it. -/
theorem readOperand?_eq_none_iff :
    Token.readOperand? mode text = none ↔ ¬ ∃ w : Word, Numeric text w.toInt := by
  simp only [← Token.readNumber_eq_ok_iff]
  unfold Token.readOperand?
  cases Token.readNumber text <;> simp

/-- **A number is an operand.** The word alone makes a line with this token. -/
theorem readTokens_of_numeric {w : Word} (hmarked : Marked mode text word)
    (h : Numeric text w.toInt) : readTokens (lineWords word) = .ok [.operand ⟨mode, w⟩] := by
  have hread := read?_of_marked hmarked
  rw [readOperand?_eq_some_iff.mpr h] at hread
  have hplain : IsPlainWord word := by
    refine ⟨?_, List.all_eq_true.mpr ?_⟩
    · cases hmarked <;> exact List.cons_ne_nil _ _
    · intro c hc
      cases hmarked with
      | immediate | relative =>
        rcases List.mem_cons.mp hc with rfl | hc
        · decide
        · exact h.isPlain c hc
      | position => exact h.isPlain c hc
  -- a plain word is the only word of its line
  have hwords : lineWords word = [word] := by
    have hone : lineWords (word ++ []) = word :: lineWords [] := lineWords_word hplain (by simp)
    rwa [List.append_nil] at hone
  rw [hwords, readTokens, hread]
  rfl

/-- A word is refused where it is the first one of its line, and of its text, that is faulty: the
fault shows the whole word, and the error the line that it is on. -/
structure Refused (word : List Char) : Prop where
  tokens : ∀ before rest tokens, readTokens before = .ok tokens →
    readTokens (before ++ word :: rest) = .error (.invalidNumber (String.ofList word))
  assemble : ∀ source front line back words, lines source.toList = front ++ line :: back →
    assembleLines 1 front = .ok words →
    ∀ before rest tokens, lineWords line = before ++ word :: rest → readTokens before = .ok tokens →
      assemble source = .error ⟨front.length + 1, .invalidNumber (String.ofList word)⟩

/-- The words in front have been read, so it is this one that is reported. -/
theorem readTokens_append_of_none (h : Token.read? word = none) {before : List (List Char)}
    {tokens : List Token} (hbefore : readTokens before = .ok tokens) (rest : List (List Char)) :
    readTokens (before ++ word :: rest) = .error (.invalidNumber (String.ofList word)) := by
  -- the words in front were read, so the bad one is the first that fails, wherever it stands
  induction before generalizing tokens with
  | nil => rw [List.nil_append, readTokens, h]
  | cons first before ih =>
    rw [readTokens] at hbefore
    rw [List.cons_append, readTokens]
    cases hfirst : Token.read? first with
    | none =>
      rw [hfirst] at hbefore
      contradiction
    | some token =>
      rw [hfirst] at hbefore
      dsimp only at hbefore ⊢
      cases hread : readTokens before with
      | error fault =>
        rw [hread] at hbefore
        contradiction
      | ok tokens =>
        rw [ih hread]
        rfl

/-- The lines in front have been assembled, so it is this line that is reported. -/
theorem refused_of_none (h : Token.read? word = none) : Refused word where
  tokens := fun _ rest _ hbefore => readTokens_append_of_none h hbefore rest
  assemble := by
    intro source front line back words hlines hfront before rest tokens hwords hbefore
    have hline : Statement.ofLine line = .error (.invalidNumber (String.ofList word)) := by
      unfold Statement.ofLine
      rw [hwords, readTokens_append_of_none h hbefore rest]
      rfl
    unfold Assembly.assemble
    rw [hlines, assembleLines_append, hfront, assembleLines, hline, Nat.add_comm]
    rfl

/-! ### The main statement -/

/-- The decimal numeral of a word is a number. -/
theorem numeric_digits (w : Word) : Numeric w.digits w.toInt :=
  .decimal (readDecimal_eq_ok_iff.mp (readDecimal_digits w))

/-- So is its hexadecimal numeral behind the prefix. -/
theorem numeric_signedDigits (w : Word) : Numeric ('0' :: 'x' :: signedDigits 16 w) w.toInt :=
  .hexadecimal (Or.inl rfl)
    (read_sixteen_eq_ok_iff.mp (read_signedDigits (by decide) (by decide) w))

end Words

/-- **The numbers of operands.**

* A text is read as the number of an operand if and only if it is a number, and then as the word
  that it denotes.
* A word that is to be an operand is one if its text is a number that denotes a word. If there is no
  word that its text denotes, because it is no number or is out of range, then it is refused.
* The decimal numeral of a word, and its hexadecimal numeral behind `0x`, are the operand with this
  value in every mode. -/
theorem operand_numbers :
    (∀ text (w : Word), Token.readNumber text = .ok w ↔ Numeric text w.toInt) ∧
    (∀ mode text word, Marked mode text word →
      (∀ w : Word, Numeric text w.toInt →
        readTokens (lineWords word) = .ok [.operand ⟨mode, w⟩]) ∧
      ((¬ ∃ w : Word, Numeric text w.toInt) → Refused word)) ∧
    ∀ (w : Word) (mode : Mode),
      readTokens (lineWords (mode.sigil ++ w.digits)) = .ok [.operand ⟨mode, w⟩] ∧
      readTokens (lineWords (mode.sigil ++ '0' :: 'x' :: signedDigits 16 w)) =
        .ok [.operand ⟨mode, w⟩] := by
  refine ⟨fun text w => Token.readNumber_eq_ok_iff, fun mode text word hmarked => ⟨?_, ?_⟩, ?_⟩
  · intro w h
    exact readTokens_of_numeric hmarked h
  · intro h
    refine refused_of_none ?_
    rw [read?_of_marked hmarked]
    exact readOperand?_eq_none_iff.mpr h
  · intro w mode
    have hdecimal := numeric_digits w
    have hhexadecimal := numeric_signedDigits w
    exact ⟨readTokens_of_numeric (marked_sigil hdecimal mode) hdecimal,
      readTokens_of_numeric (marked_sigil hhexadecimal mode) hhexadecimal⟩

/-- The least word has no counterpart: with the other sign the number is out of range, and the error
is on the third line. -/
theorem operand_numbers_least :
    Numeric "0X-8000000000000000".toList Word.least ∧
      readTokens (lineWords "@0X-8000000000000000".toList) =
        .ok [.operand ⟨.relative, -9223372036854775808⟩] ∧
      (¬ ∃ w : Word, Numeric "0x8000000000000000".toList w.toInt) ∧
      assemble "halt\n\nadd 1 #0x8000000000000000 2" =
        .error ⟨3, .invalidNumber "#0x8000000000000000"⟩ := by
  obtain ⟨hnumber, hwords, -⟩ := operand_numbers
  have hleast : Numeric "0X-8000000000000000".toList (-9223372036854775808 : Word).toInt :=
    (hnumber _ _).mp (by decide +kernel)
  have hnone : ¬ ∃ w : Word, Numeric "0x8000000000000000".toList w.toInt := by
    rintro ⟨w, hw⟩
    have hfault : Token.readNumber "0x8000000000000000".toList = .error .tooLarge := by
      decide +kernel
    cases hfault.symm.trans ((hnumber _ w).mpr hw)
  have hrefused : Refused "#0x8000000000000000".toList :=
    (hwords .immediate "0x8000000000000000".toList _ (.immediate _)).2 hnone
  refine ⟨hleast, (hwords .relative _ _ (.relative _)).1 _ hleast, hnone, ?_⟩
  exact hrefused.assemble _ ["halt".toList, []] "add 1 #0x8000000000000000 2".toList [] [99]
    (by decide +kernel) (by decide +kernel) ["add".toList, "1".toList] ["2".toList]
    [.name "ADD", .operand ⟨.position, 1⟩] (by decide +kernel) (by decide +kernel)

end Assembly

end Intcode
