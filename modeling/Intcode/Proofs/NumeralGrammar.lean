import Mathlib.Data.List.Forall2
import Intcode.Proofs.Numeral

/-!
# Which texts are numerals

A text is read as a word exactly if it consists of digits, with a sign in front of them or without
one, and the integer that it denotes is a word. The digits are read one after another, and each of
them takes the number away from zero or leaves it where it is. So a numeral whose front part leaves
the range denotes no word as a whole.

* `positional`, `le_positional` — the number that digits denote, and that it only grows;
* `readDigits_eq_ok_iff` — digits behind others, in any base;
* `Signed`, `read_eq_ok_iff` — the sign;
* `Decimal`, `readDecimal_eq_ok_iff` — decimal numerals.
-/

namespace Intcode.Text.Numeral

/-! ### Digits in any base

Each digit moves the number away from zero, or leaves it at zero. So a number that has left the
range does not come back, and it makes no difference that reading stops there. -/

variable {base n : Nat} {sign : Sign} {acc w : Word} {cs : List Char} {ds : List Nat}

/-- The number that digits denote, behind those that denote `n`. -/
def positional (base n : Nat) (ds : List Nat) : Nat := ds.foldl (fun n d => n * base + d) n

/-- Digits behind a number do not make it smaller. -/
theorem le_positional (hbase : 0 < base) : n ≤ positional base n ds := by
  induction ds generalizing n with
  | nil => exact Nat.le_refl n
  | cons d ds ih =>
    calc n ≤ n * base := Nat.le_mul_of_pos_right n hbase
      _ ≤ n * base + d := Nat.le_add_right ..
      _ ≤ positional base (n * base + d) ds := ih

/-- These characters are digits of the base and have these values. -/
def Digits (base : Nat) (cs : List Char) (ds : List Nat) : Prop :=
  List.Forall₂ (fun c d => digitValue? base c = some d) cs ds

theorem exists_digits_cons {c : Char} {P : List Nat → Prop} :
    (∃ ds, Digits base (c :: cs) ds ∧ P ds) ↔
      ∃ d, digitValue? base c = some d ∧ ∃ ds, Digits base cs ds ∧ P (d :: ds) := by
  constructor
  · rintro ⟨_, hdigits, hP⟩
    cases hdigits with
    | cons hfirst hrest => exact ⟨_, hfirst, _, hrest, hP⟩
  · rintro ⟨d, hfirst, ds, hrest, hP⟩
    exact ⟨d :: ds, .cons hfirst hrest, hP⟩

/-- If the front part of a number is out of range, then so is the number, which is further from
zero. -/
theorem toInt_ne_of_ofInt?_eq_none (hbase : 0 < base) (h : Word.ofInt? (sign.apply n) = none) :
    w.toInt ≠ sign.apply (positional base n ds) := by
  intro hvalue
  have hwhole : Word.least ≤ sign.apply (positional base n ds) ∧
      sign.apply (positional base n ds) ≤ Word.greatest := by
    rw [← hvalue]
    exact ⟨w.least_le_toInt, w.toInt_le_greatest⟩
  have hfront := Sign.apply_mem_range (le_positional hbase) hwhole
  have hout := Word.ofInt?_eq_none_iff.mp h
  omega

/-- **Digits are read** exactly if all of them are digits and their number is a word. The induction
is along the digits, with the number read so far in `acc`. -/
theorem readDigits_eq_ok_iff (hbase : 0 < base) (hacc : acc.toInt = sign.apply n) :
    readDigits base sign acc cs = .ok w ↔
      ∃ ds, Digits base cs ds ∧ w.toInt = sign.apply (positional base n ds) := by
  induction cs generalizing acc n with
  | nil =>
    constructor
    · intro h
      cases h
      exact ⟨[], .nil, hacc⟩
    · rintro ⟨ds, hdigits, hvalue⟩
      cases hdigits
      exact congrArg Except.ok (Int64.toInt_inj.mp (hacc.trans hvalue.symm))
  | cons c cs ih =>
    rw [exists_digits_cons, readDigits]
    -- either the next digit is read into a word, or the number has left the range for good
    cases digitValue? base c with
    | none => simp
    | some d =>
      have hnext : acc.toInt * base + sign.apply d = sign.apply (n * base + d) := by
        rw [hacc, Sign.apply_mul_add]
      simp only [Option.some.injEq, exists_eq_left', hnext]
      cases hword : Word.ofInt? (sign.apply (n * base + d)) with
      | none =>
        constructor
        · intro h
          contradiction
        · rintro ⟨ds, -, hvalue⟩
          exact absurd hvalue (toInt_ne_of_ofInt?_eq_none (n := n * base + d) hbase hword)
      | some next => exact ih (Word.ofInt?_eq_some_iff.mp hword)

/-! ### Signs

A sign is taken off the front, and what is left must not be empty. A second sign is then no digit.
-/

/-- A text without its sign, if it has one. -/
inductive Signed : List Char → Sign → List Char → Prop
  | bare (cs : List Char) : Signed cs .plus cs
  | plus (cs : List Char) : Signed ('+' :: cs) .plus cs
  | minus (cs : List Char) : Signed ('-' :: cs) .minus cs

/-- **A numeral is read** as the digits behind its sign, of which there must be one at least. -/
theorem read_eq_ok_iff :
    read base cs = .ok w ↔
      ∃ sign ds, Signed cs sign ds ∧ ds ≠ [] ∧ readDigits base sign 0 ds = .ok w := by
  constructor
  · intro h
    -- a sign alone is no numeral, which is checked only after the sign is read
    have hunsigned : ∀ {sign ds}, readUnsigned base sign ds = .ok w →
        ds ≠ [] ∧ readDigits base sign 0 ds = .ok w := by
      intro sign ds h
      have hne : ds ≠ [] := by
        rintro rfl
        contradiction
      rw [readUnsigned_of_ne_nil base sign hne] at h
      exact ⟨hne, h⟩
    unfold read at h
    split at h
    · contradiction
    · next cs => exact ⟨.plus, cs, .plus cs, hunsigned h⟩
    · next cs => exact ⟨.minus, cs, .minus cs, hunsigned h⟩
    · next hne _ _ => exact ⟨.plus, cs, .bare cs, hne, h⟩
  · rintro ⟨sign, ds, hsigned, hne, h⟩
    cases hsigned with
    | plus => exact (readUnsigned_of_ne_nil base .plus hne).trans h
    | minus => exact (readUnsigned_of_ne_nil base .minus hne).trans h
    | bare => exact read_of_readDigits hne h

/-! ### Decimal numerals

In base ten the values of digits are those of the library, so a numeral can be said with
`Nat.ofDigitChars`. -/

/-- Decimal digits, with a sign in front of them or without one, and the integer they denote. -/
inductive Decimal (cs : List Char) (n : Int) : Prop
  | intro {sign : Sign} {ds : List Char} (signed : Signed cs sign ds) (ne_nil : ds ≠ [])
      (isDigit : ∀ d ∈ ds, d.isDigit) (value : n = sign.apply (Nat.ofDigitChars 10 ds 0))

/-- A digit of base ten is a decimal digit, with its value. -/
theorem digitValue?_ten_eq_some_iff {c : Char} {d : Nat} :
    digitValue? 10 c = some d ↔ c.isDigit ∧ c.toNat - '0'.toNat = d := by
  have hzero : '0'.toNat = 0x30 := rfl
  rw [isDigit_iff, hzero]
  unfold digitValue?
  simp only [Option.filter_eq_some_iff, decide_eq_true_eq]
  -- the value of a letter is ten or more
  split_ifs <;> simp only [Option.some.injEq, false_and, false_iff] <;> omega

theorem digits_ten_iff :
    Digits 10 cs ds ↔ (∀ c ∈ cs, c.isDigit) ∧ cs.map (fun c => c.toNat - '0'.toNat) = ds := by
  unfold Digits
  simp only [digitValue?_ten_eq_some_iff]
  rw [List.forall₂_and_left, ← List.forall₂_map_left_iff, List.forall₂_eq_eq_eq]

theorem positional_ten (n : Nat) (cs : List Char) :
    positional 10 n (cs.map fun c => c.toNat - '0'.toNat) = Nat.ofDigitChars 10 cs n := by
  unfold positional Nat.ofDigitChars
  simp only [List.foldl_map, Nat.mul_comm]

/-- **Decimal numerals** of words are what is read in base ten. -/
theorem readDecimal_eq_ok_iff : readDecimal cs = .ok w ↔ Decimal cs w.toInt := by
  have hdigits : ∀ {sign : Sign} {ds : List Char}, readDigits 10 sign 0 ds = .ok w ↔
      (∀ d ∈ ds, d.isDigit) ∧ w.toInt = sign.apply (Nat.ofDigitChars 10 ds 0) := by
    intro sign ds
    have hzero : (0 : Word).toInt = sign.apply 0 := by
      cases sign <;> rfl
    rw [readDigits_eq_ok_iff (by decide) hzero]
    simp only [digits_ten_iff]
    constructor
    · rintro ⟨values, ⟨hdigit, rfl⟩, hvalue⟩
      rw [positional_ten] at hvalue
      exact ⟨hdigit, hvalue⟩
    · rintro ⟨hdigit, hvalue⟩
      refine ⟨_, ⟨hdigit, rfl⟩, ?_⟩
      rw [positional_ten]
      exact hvalue
  unfold readDecimal
  rw [read_eq_ok_iff]
  simp only [hdigits]
  constructor
  · rintro ⟨sign, ds, hsigned, hne, hdigit, hvalue⟩
    exact .intro hsigned hne hdigit hvalue
  · rintro ⟨hsigned, hne, hdigit, hvalue⟩
    exact ⟨_, _, hsigned, hne, hdigit, hvalue⟩

/-- A decimal numeral consists of signs and digits. -/
theorem Decimal.mem {n : Int} (h : Decimal cs n) {c : Char} (hc : c ∈ cs) :
    c = '+' ∨ c = '-' ∨ c.isDigit := by
  obtain ⟨hsigned, -, hdigit, -⟩ := h
  -- a sign stands in front only, so all other characters are digits
  cases hsigned with
  | bare => exact Or.inr (Or.inr (hdigit c hc))
  | plus ds =>
    rcases List.mem_cons.mp hc with rfl | hc
    · exact Or.inl rfl
    · exact Or.inr (Or.inr (hdigit c hc))
  | minus ds =>
    rcases List.mem_cons.mp hc with rfl | hc
    · exact Or.inr (Or.inl rfl)
    · exact Or.inr (Or.inr (hdigit c hc))

end Intcode.Text.Numeral
