import Intcode.Text.Numeral

/-!
# Numerals are read back

What is written as a numeral is read as the same word. A numeral is built digit by digit from the
left, and so is the word that is read from it; every word on the way lies between zero and the
last one, so none of them leaves the range.

* `readDigits_toDigits` — the digits of a number in a base up to sixteen, with a sign in front;
* `read_signedDigits`, `readDecimal_digits` — the numeral of a word, in any such base and in base ten;
* `mem_digits` — which characters a decimal numeral is made of.
-/

namespace Intcode.Text.Numeral

/-! ### Digits

A digit is written by the library and read by value. Reading goes from the left, so it can be
interrupted between any two digits. -/

theorem isDigit_iff {c : Char} : c.isDigit ↔ 0x30 ≤ c.toNat ∧ c.toNat ≤ 0x39 := by
  unfold Char.isDigit
  simp only [Bool.and_eq_true, decide_eq_true_eq, ge_iff_le, UInt32.le_iff_toNat_le]
  exact Iff.rfl

/-- The character for a digit has the value of the digit. -/
theorem digitValue?_digitChar {base d : Nat} (hbase : base ≤ 16) (hd : d < base) :
    digitValue? base (Nat.digitChar d) = some d := by
  -- the base decides only which digits there are
  have hvalue : ∀ d < 16, digitValue? 16 (Nat.digitChar d) = some d := by decide
  have h := hvalue d (by omega)
  unfold digitValue? at h ⊢
  simp only [Option.filter_eq_some_iff] at h ⊢
  exact ⟨h.1, by simpa using hd⟩

/-- Digits are read in two parts, the second one after what the first one denotes. -/
theorem readDigits_append (base : Nat) (sign : Sign) (acc : Word) (cs ds : List Char) :
    readDigits base sign acc (cs ++ ds) =
      (readDigits base sign acc cs).bind fun next => readDigits base sign next ds := by
  induction cs generalizing acc with
  | nil => rfl
  | cons c cs ih =>
    rw [List.cons_append, readDigits, readDigits]
    cases digitValue? base c with
    | none => rfl
    | some d =>
      dsimp only
      cases Word.ofInt? (acc.toInt * base + sign.apply d) with
      | none => rfl
      | some next => exact ih next

/-! ### Signed values

The sign goes with every digit, not with the whole number, since the least word has no counterpart
above zero. -/

/-- The sign can be applied to each digit or to the number. -/
theorem Sign.apply_mul_add (sign : Sign) (n base d : Nat) :
    sign.apply n * base + sign.apply d = sign.apply (n * base + d) := by
  cases sign with
  | plus => exact (Int.natCast_add (n * base) d).symm
  | minus =>
    show -(n : Int) * base + -(d : Int) = -((n * base + d : Nat) : Int)
    rw [Int.neg_mul, ← Int.neg_add]
    rfl

/-- What is no further from zero than a number in range is in range. -/
theorem Sign.apply_mem_range {sign : Sign} {m n : Nat} (hle : m ≤ n)
    (h : Word.least ≤ sign.apply n ∧ sign.apply n ≤ Word.greatest) :
    Word.least ≤ sign.apply m ∧ sign.apply m ≤ Word.greatest := by
  unfold Word.least Word.greatest at *
  cases sign <;> simp only [Sign.apply] at * <;> omega

/-- The step from the word read so far to the word read with one more digit. -/
theorem readDigits_digitChar {base d : Nat} {sign : Sign} {acc word : Word} (hbase : base ≤ 16)
    (hd : d < base) (h : word.toInt = acc.toInt * base + sign.apply d) :
    readDigits base sign acc [Nat.digitChar d] = .ok word := by
  have hword : Word.ofInt? (acc.toInt * base + sign.apply d) = some word :=
    Word.ofInt?_eq_some_iff.mpr h
  rw [readDigits, digitValue?_digitChar hbase hd]
  simp only [hword]
  rfl

/-! ### Whole numerals

The digits of a number are those of its front part and its last one. The front part is no further
from zero, so it is in range and is read first. -/

/-- The digits of a number are read as the word that it denotes with the sign. The induction is on
the number, whose last digit is read last. -/
theorem readDigits_toDigits {base n : Nat} {sign : Sign} (hlo : 1 < base) (hhi : base ≤ 16)
    (hrange : Word.least ≤ sign.apply n ∧ sign.apply n ≤ Word.greatest) :
    readDigits base sign 0 (Nat.toDigits base n) = .ok (Int64.ofInt (sign.apply n)) := by
  induction n using Nat.strongRecOn with
  | ind n ih =>
    have hword : (Int64.ofInt (sign.apply n)).toInt = sign.apply n :=
      Word.toInt_ofInt hrange.1 hrange.2
    by_cases hn : n < base
    · -- a single digit, read from nothing
      rw [Nat.toDigits_of_lt_base hn]
      apply readDigits_digitChar hhi hn
      rw [hword]
      simp
    · -- the digits in front denote a number no further from zero, so reading them does not fail
      have hfront : n / base < n := Nat.div_lt_self (by omega) hlo
      have hrange' := Sign.apply_mem_range (Nat.le_of_lt hfront) hrange
      rw [Nat.toDigits_of_base_le hlo (by omega), readDigits_append, ih _ hfront hrange']
      apply readDigits_digitChar hhi (Nat.mod_lt n (by omega))
      rw [hword, Word.toInt_ofInt hrange'.1 hrange'.2, Sign.apply_mul_add, Nat.div_add_mod']

/-- The first character of a numeral tells its sign. -/
theorem read_cons (base : Nat) (c : Char) (cs : List Char) :
    read base (c :: cs) =
      if c = '+' then readUnsigned base .plus cs
      else if c = '-' then readUnsigned base .minus cs
      else readDigits base .plus 0 (c :: cs) := by
  by_cases hplus : c = '+'
  · rw [if_pos hplus, hplus]
    rfl
  · by_cases hminus : c = '-'
    · rw [if_neg hplus, if_pos hminus, hminus]
      rfl
    · rw [if_neg hplus, if_neg hminus]
      unfold read
      split
      · contradiction
      · next heq => exact absurd (List.cons.inj heq).1 hplus
      · next heq => exact absurd (List.cons.inj heq).1 hminus
      · rfl

theorem readUnsigned_of_ne_nil (base : Nat) (sign : Sign) {cs : List Char} (hne : cs ≠ []) :
    readUnsigned base sign cs = readDigits base sign 0 cs := by
  unfold readUnsigned
  split
  · contradiction
  · rfl

/-- Digits alone are a numeral, since a sign is no digit. -/
theorem read_of_readDigits {base : Nat} {cs : List Char} {w : Word} (hne : cs ≠ [])
    (h : readDigits base .plus 0 cs = .ok w) : read base cs = .ok w := by
  unfold read
  split
  · contradiction
  · cases h
  · cases h
  · exact h

/-- The numeral of a word in a base: a minus sign if it is negative, then its digits without leading
zeros. -/
def signedDigits (base : Nat) (w : Word) : List Char :=
  if w.toInt < 0 then '-' :: Nat.toDigits base w.toInt.natAbs else Nat.toDigits base w.toInt.natAbs

/-- **Reading inverts writing.** The numeral of a word is read as this word, in any base up to
sixteen. -/
theorem read_signedDigits {base : Nat} (hlo : 1 < base) (hhi : base ≤ 16) (w : Word) :
    read base (signedDigits base w) = .ok w := by
  have hrange : Word.least ≤ w.toInt ∧ w.toInt ≤ Word.greatest :=
    ⟨w.least_le_toInt, w.toInt_le_greatest⟩
  have hdigits : ∀ {sign : Sign}, sign.apply w.toInt.natAbs = w.toInt →
      readDigits base sign 0 (Nat.toDigits base w.toInt.natAbs) = .ok w := by
    intro sign hvalue
    rw [readDigits_toDigits hlo hhi (by rwa [hvalue]), hvalue, Int64.ofInt_toInt]
  unfold signedDigits
  -- the two signs differ only in which digits are read
  by_cases hneg : w.toInt < 0
  · have hvalue : Sign.minus.apply w.toInt.natAbs = w.toInt := by
      show -(w.toInt.natAbs : Int) = w.toInt
      omega
    rw [if_pos hneg]
    exact (readUnsigned_of_ne_nil base .minus Nat.toDigits_ne_nil).trans (hdigits hvalue)
  · have hvalue : Sign.plus.apply w.toInt.natAbs = w.toInt := by
      show (w.toInt.natAbs : Int) = w.toInt
      omega
    rw [if_neg hneg]
    exact read_of_readDigits Nat.toDigits_ne_nil (hdigits hvalue)

/-- **The decimal numeral** of a word is read as this word. -/
theorem readDecimal_digits (w : Word) : readDecimal w.digits = .ok w :=
  read_signedDigits (by decide) (by decide) w

/-- A decimal numeral consists of digits, with at most a minus sign in front. -/
theorem mem_digits {w : Word} {c : Char} (h : c ∈ w.digits) : c = '-' ∨ c.isDigit := by
  unfold Word.digits at h
  split at h
  · rcases List.mem_cons.mp h with rfl | h
    · exact Or.inl rfl
    · exact Or.inr (Nat.isDigit_of_mem_toDigits (by decide) (by decide) h)
  · exact Or.inr (Nat.isDigit_of_mem_toDigits (by decide) (by decide) h)

theorem digits_ne_nil (w : Word) : w.digits ≠ [] := by
  unfold Word.digits
  split
  · exact List.cons_ne_nil _ _
  · exact Nat.toDigits_ne_nil

end Intcode.Text.Numeral
