/-!
# Words

A machine word is a signed 64-bit integer. Arithmetic on words is exact or it fails: an operation
forms the integer result and answers `none` when that integer is not a word.

* `Word.ofInt?` — the word that denotes an integer, with `ofInt?_eq_some_iff` and
  `ofInt?_eq_none_iff`;
* `Word.add?`, `Word.mul?` — exact sum and product;
* `Word.digits` — the decimal numeral of a word.
-/

namespace Intcode

/-- A signed 64-bit integer: the contents of a memory cell, and also an address. -/
abbrev Word := Int64

namespace Word

/-- The least integer that is a word. -/
def least : Int := -9223372036854775808

/-- The greatest integer that is a word. -/
def greatest : Int := 9223372036854775807

/-- The word that denotes `n`, if `n` is in the range of a word. -/
def ofInt? (n : Int) : Option Word :=
  if least ≤ n ∧ n ≤ greatest then some (Int64.ofInt n) else none

theorem least_le_toInt (w : Word) : least ≤ w.toInt := by
  have h := Int64.le_toInt w
  unfold least
  omega

theorem toInt_le_greatest (w : Word) : w.toInt ≤ greatest := by
  have h := Int64.toInt_lt w
  unfold greatest
  omega

/-- The word made from an integer in range denotes that integer. -/
theorem toInt_ofInt {n : Int} (hlo : least ≤ n) (hhi : n ≤ greatest) :
    (Int64.ofInt n).toInt = n := by
  unfold least at hlo
  unfold greatest at hhi
  exact Int64.toInt_ofInt_of_le (by omega) (by omega)

theorem ofInt?_eq_some_iff {n : Int} {w : Word} : ofInt? n = some w ↔ w.toInt = n := by
  unfold ofInt?
  constructor
  · intro h
    split at h
    · next hr =>
      injection h with h
      rw [← h]
      exact toInt_ofInt hr.1 hr.2
    · contradiction
  · rintro rfl
    rw [if_pos ⟨least_le_toInt w, toInt_le_greatest w⟩, Int64.ofInt_toInt]

theorem ofInt?_eq_none_iff {n : Int} : ofInt? n = none ↔ n < least ∨ greatest < n := by
  unfold ofInt?
  split <;> simp <;> omega

@[simp] theorem ofInt?_toInt (w : Word) : ofInt? w.toInt = some w :=
  ofInt?_eq_some_iff.mpr rfl

/-- The exact sum of two words. -/
def add? (a b : Word) : Option Word := ofInt? (a.toInt + b.toInt)

/-- The exact product of two words. -/
def mul? (a b : Word) : Option Word := ofInt? (a.toInt * b.toInt)

theorem add?_eq_some_iff {a b c : Word} : add? a b = some c ↔ c.toInt = a.toInt + b.toInt :=
  ofInt?_eq_some_iff

theorem mul?_eq_some_iff {a b c : Word} : mul? a b = some c ↔ c.toInt = a.toInt * b.toInt :=
  ofInt?_eq_some_iff

/-- The word that answers a test: one if it holds, else zero. -/
def ofBool (b : Bool) : Word := if b then 1 else 0

/-- The decimal numeral of a word: a minus sign if it is negative, then its digits without
leading zeros. -/
def digits (w : Word) : List Char :=
  if w.toInt < 0 then '-' :: Nat.toDigits 10 w.toInt.natAbs else Nat.toDigits 10 w.toInt.natAbs

/-- The decimal numeral of a word, as a string. -/
def render (w : Word) : String := String.ofList w.digits

end Word

end Intcode
