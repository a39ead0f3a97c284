import Mathlib.Data.List.Forall2
import Mathlib.Data.List.Induction
import Intcode.Proofs.Statement

/-!
# Canonical lines

What canonical text looks like, said about its characters and without a word about how it is
written. A canonical numeral has no plus sign, no minus sign in front of zero, and no zero in front
of other digits. A canonical line is a name and what belongs to it, with one space in front of each:
a mnemonic and its operands, or the name of the data statement and numerals.

* `Numeral.IsPlain`, `Numeral.Canonical` — digits and numerals, with `canonical_iff`: each word has
  one canonical numeral, the one that is written for it;
* `CanonicalOperand`, `CanonicalLine` — operands and lines, with `canonicalLine_iff`: they are the
  texts of the statements that a line can hold.
-/

namespace Intcode

/-! ### Numerals

A number is written from its last digit, by division, and a numeral is read from its first one, by
multiplication. That a plain numeral is the one that is written for its value is therefore an
induction from the right, where the first digit stays what it is. -/

namespace Text.Numeral

/-- Digits without a superfluous zero: no zero stands in front of another digit. -/
structure IsPlain (ds : List Char) : Prop where
  ne_nil : ds ≠ []
  isDigit : ∀ d ∈ ds, d.isDigit
  eq_zero : ds.head? = some '0' → ds = ['0']

/-- A text that denotes a word in decimal, without a superfluous sign or zero. -/
inductive Canonical : List Char → Word → Prop where
  | plus {ds : List Char} {w : Word} (plain : IsPlain ds)
      (value : w.toInt = Nat.ofDigitChars 10 ds 0) : Canonical ds w
  | minus {ds : List Char} {w : Word} (plain : IsPlain ds) (nonzero : ds ≠ ['0'])
      (value : w.toInt = -Nat.ofDigitChars 10 ds 0) : Canonical ('-' :: ds) w

/-- The digits of a positive number do not start with zero. -/
theorem head?_toDigits_ne_zero {n : Nat} (h : 0 < n) : (Nat.toDigits 10 n).head? ≠ some '0' := by
  induction n using Nat.strongRecOn with
  | ind n ih =>
    by_cases hn : n < 10
    · rw [Nat.toDigits_of_lt_base hn, List.head?_cons]
      intro hzero
      have : n = 0 := Nat.digitChar_eq_zero.mp (Option.some.inj hzero)
      omega
    · -- the first digit is that of the number without its last one
      have hfront := ih (n / 10) (by omega) (by omega)
      rw [Nat.toDigits_of_base_le (by decide) (by omega),
        List.head?_append_of_ne_nil _ Nat.toDigits_ne_nil]
      exact hfront

/-- The digits of a number are plain. -/
theorem isPlain_toDigits (n : Nat) : IsPlain (Nat.toDigits 10 n) where
  ne_nil := Nat.toDigits_ne_nil
  isDigit := fun _ hd => Nat.isDigit_of_mem_toDigits (by decide) (by decide) hd
  eq_zero := by
    intro hzero
    rcases Nat.eq_zero_or_pos n with rfl | hpos
    · rfl
    · exact absurd hzero (head?_toDigits_ne_zero hpos)

/-- A digit is the one that is written for its value. -/
theorem toDigits_of_isDigit {d : Char} (h : d.isDigit) :
    d.toNat - '0'.toNat < 10 ∧ Nat.toDigits 10 (d.toNat - '0'.toNat) = [d] := by
  obtain ⟨hlo, hhi⟩ := Char.isDigit_iff_toNat.mp h
  have hzero : '0'.toNat = 48 := rfl
  have hnine : '9'.toNat = 57 := rfl
  have hlt : d.toNat - '0'.toNat < 10 := by omega
  refine ⟨hlt, ?_⟩
  have hchar : (Nat.digitChar (d.toNat - '0'.toNat)).toNat = d.toNat := by
    rw [Nat.toNat_digitChar_of_lt_ten hlt]
    omega
  rw [Nat.toDigits_of_lt_base hlt, Char.toNat_inj.mp hchar]

/-- Plain digits are the ones that are written for their value. The induction is on the digits from
the right, as they are written. -/
theorem IsPlain.toDigits_eq {ds : List Char} (h : IsPlain ds) :
    Nat.toDigits 10 (Nat.ofDigitChars 10 ds 0) = ds := by
  induction ds using List.reverseRecOn with
  | nil => exact absurd rfl h.ne_nil
  | append_singleton front d ih =>
    have hdigit : d.isDigit := h.isDigit d (by simp)
    obtain ⟨hlt, hd⟩ := toDigits_of_isDigit hdigit
    by_cases hnil : front = []
    · rw [hnil, List.nil_append, Nat.ofDigitChars_cons, Nat.ofDigitChars_nil, Nat.mul_zero,
        Nat.zero_add]
      exact hd
    · -- the digits in front do not start with zero, since they stand in front of another digit
      have hhead : front.head? ≠ some '0' := by
        intro hzero
        have hall := h.eq_zero (by rw [List.head?_append_of_ne_nil _ hnil, hzero])
        have hlength := congrArg List.length hall
        rw [List.length_append] at hlength
        exact hnil (List.length_eq_zero_iff.mp (by simpa using hlength))
      have hfront := ih ⟨hnil, fun c hc => h.isDigit c (by simp [hc]), fun hz => absurd hz hhead⟩
      have hpos : 0 < Nat.ofDigitChars 10 front 0 := by
        by_contra hzero
        rw [Nat.eq_zero_of_not_pos hzero] at hfront
        exact hhead (by rw [← hfront]; rfl)
      rw [Nat.ofDigitChars_append, Nat.ofDigitChars_cons, Nat.ofDigitChars_nil,
        ← Nat.toDigits_append_toDigits (by decide) hpos hlt, hfront, hd]

/-- Plain digits other than zero have a positive value. -/
theorem IsPlain.pos_of_ne_zero {ds : List Char} (h : IsPlain ds) (hne : ds ≠ ['0']) :
    0 < Nat.ofDigitChars 10 ds 0 := by
  by_contra hzero
  have hds := h.toDigits_eq
  rw [Nat.eq_zero_of_not_pos hzero] at hds
  exact hne hds.symm

/-- **Canonical numerals.** A word has one canonical numeral, the one that is written for it. -/
theorem canonical_iff {cs : List Char} {w : Word} : Canonical cs w ↔ cs = w.digits := by
  -- from left to right a spelling is one of two shapes; from right to left it is the sign of the
  -- number that chooses the shape
  constructor
  · intro h
    unfold Word.digits
    cases h with
    | plus plain value =>
      rw [if_neg (by omega), value, Int.natAbs_natCast, plain.toDigits_eq]
    | minus plain nonzero value =>
      have hpos := plain.pos_of_ne_zero nonzero
      rw [if_pos (by omega), value, Int.natAbs_neg, Int.natAbs_natCast, plain.toDigits_eq]
  · rintro rfl
    have hvalue : Nat.ofDigitChars 10 (Nat.toDigits 10 w.toInt.natAbs) 0 = w.toInt.natAbs :=
      Nat.ofDigitChars_ten_toDigits
    unfold Word.digits
    by_cases hneg : w.toInt < 0
    · rw [if_pos hneg]
      refine .minus (isPlain_toDigits _) ?_ (by rw [hvalue]; omega)
      -- digits of a nonzero number do not start with a zero
      intro hzero
      exact head?_toDigits_ne_zero (n := w.toInt.natAbs) (by omega) (by rw [hzero]; rfl)
    · rw [if_neg hneg]
      exact .plus (isPlain_toDigits _) (by rw [hvalue]; omega)

end Text.Numeral

/-! ### Operands and lines

Operands and lines are put together from canonical numerals, piece by piece, and so each statement
that a line can hold has one canonical line. -/

namespace Assembly

open Text Statement

/-- A text that stands for an operand: the sigil of its mode and a canonical numeral. -/
def CanonicalOperand (cs : List Char) (o : Operand) : Prop :=
  ∃ numeral, cs = o.mode.sigil ++ numeral ∧ Numeral.Canonical numeral o.value

/-- A line that stands for a statement: a mnemonic and as many operands as it takes, of which the
one that is written to is not immediate, or the name of the data statement and at least one
numeral. -/
inductive CanonicalLine : List Char → Statement → Prop where
  | instruction {op : Opcode} {texts : List (List Char)} {operands : List Operand}
      (written : List.Forall₂ CanonicalOperand texts operands)
      (count : operands.length = op.operandCount)
      (writes : ∀ k o, op.writeOperand? = some k → operands[k]? = some o → o.mode ≠ .immediate) :
      CanonicalLine (spaced op.mnemonic texts) (.instruction op operands)
  | data {texts : List (List Char)} {words : List Word}
      (written : List.Forall₂ Numeral.Canonical texts words) (ne_nil : words ≠ []) :
      CanonicalLine (spaced dataName texts) (.data words)

/-- An operand has one canonical text. -/
theorem canonicalOperand_iff {cs : List Char} {o : Operand} :
    CanonicalOperand cs o ↔ cs = o.chars := by
  unfold CanonicalOperand Operand.chars
  constructor
  · rintro ⟨numeral, rfl, hnumeral⟩
    rw [Numeral.canonical_iff.mp hnumeral]
  · intro h
    exact ⟨o.value.digits, h, Numeral.canonical_iff.mpr rfl⟩

/-- Texts that each stand for one thing in one way are the texts of these things. -/
theorem forall₂_iff_eq_map {α : Type} {R : List Char → α → Prop} {text : α → List Char}
    (h : ∀ cs a, R cs a ↔ cs = text a) {texts : List (List Char)} {as : List α} :
    List.Forall₂ R texts as ↔ texts = as.map text := by
  constructor
  · intro hall
    induction hall with
    | nil => rfl
    | cons hfirst _ ih => rw [(h _ _).mp hfirst, ih, List.map_cons]
  · rintro rfl
    rw [List.forall₂_map_left_iff, List.forall₂_same]
    intro a _
    exact (h _ _).mpr rfl

/-- The mode of an operand is admitted unless it is written to and immediate. -/
theorem admits_iff {op : Opcode} {k : Nat} {mode : Mode} :
    op.admits k mode ↔ (op.writeOperand? = some k → mode ≠ .immediate) := by
  unfold Opcode.admits
  by_cases hmode : mode = .immediate <;> simp [hmode]

/-- An instruction that a line can hold has as many operands as its opcode takes, and does not write
to an immediate one. -/
theorem wellFormed_instruction_iff {op : Opcode} {operands : List Operand} :
    (Statement.instruction op operands).WellFormed ↔ operands.length = op.operandCount ∧
      ∀ k o, op.writeOperand? = some k → operands[k]? = some o → o.mode ≠ .immediate := by
  constructor
  · intro h
    cases h with
    | instruction _ _ hcount hmodes =>
      exact ⟨hcount, fun k o hwrite hk => admits_iff.mp (hmodes k o hk) hwrite⟩
  · rintro ⟨hcount, hwrites⟩
    exact .instruction op operands hcount fun k o hk =>
      admits_iff.mpr fun hwrite => hwrites k o hwrite hk

/-- Data that a line can hold have a word. -/
theorem wellFormed_data_iff {words : List Word} :
    (Statement.data words).WellFormed ↔ words ≠ [] := by
  constructor
  · intro h
    cases h with
    | data _ hne => exact hne
  · exact .data words

/-- **Canonical lines** are the texts of the statements that a line can hold. -/
theorem canonicalLine_iff {line : List Char} {s : Statement} :
    CanonicalLine line s ↔ s.WellFormed ∧ line = s.chars := by
  have hoperands : ∀ {texts : List (List Char)} {operands : List Operand},
      List.Forall₂ CanonicalOperand texts operands ↔ texts = operands.map Operand.chars :=
    forall₂_iff_eq_map fun cs o => @canonicalOperand_iff cs o
  have hwords : ∀ {texts : List (List Char)} {words : List Word},
      List.Forall₂ Numeral.Canonical texts words ↔ texts = words.map Word.digits :=
    forall₂_iff_eq_map fun cs w => @Numeral.canonical_iff cs w
  constructor
  · intro h
    cases h with
    | @instruction op texts operands written count writes =>
      refine ⟨wellFormed_instruction_iff.mpr ⟨count, writes⟩, ?_⟩
      rw [hoperands.mp written]
      rfl
    | @data texts words written ne_nil =>
      refine ⟨wellFormed_data_iff.mpr ne_nil, ?_⟩
      rw [hwords.mp written]
      rfl
  · rintro ⟨hwell, rfl⟩
    cases s with
    | instruction op operands =>
      obtain ⟨hcount, hwrites⟩ := wellFormed_instruction_iff.mp hwell
      exact .instruction (hoperands.mpr rfl) hcount hwrites
    | data words => exact .data (hwords.mpr rfl) (wellFormed_data_iff.mp hwell)

end Assembly

end Intcode
