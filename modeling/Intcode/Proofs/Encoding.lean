import Intcode.Instruction.Basic

/-!
# Instruction words, written and read

An instruction word is a sum in which each part has decimal digits of its own, so taking the word
apart gives back the parts. Nothing overflows, since the sum has no more than five digits. In the
other direction, a word is read as an instruction if its last two digits are a code, and what is
read keeps five of its digits.

* `Opcode.exists_code_iff` — the codes;
* `encode_exact` — the sum, as integers and without overflow;
* `decode_encode` — an instruction whose modes are digits is read back from its word;
* `decode_encode_ofModes`, `mode_ofModes` — so is one that is made from modes, with these modes;
* `exists_decode_iff`, `decode_eq_error` — which words are read as instructions, and why the others
  are refused;
* `encode_of_decode` — the word of an instruction that has been read;
* `decode_whole_range` — the main statement.
-/

namespace Intcode

/-! ### Words in range

Sums and products that stay in range do not wrap around, so the checked operations give the values
of the others. -/

namespace Word

variable {a b : Word}

/-- A sum in range is the one that wraps around. -/
theorem add?_eq_some (hlo : least ≤ a.toInt + b.toInt) (hhi : a.toInt + b.toInt ≤ greatest) :
    add? a b = some (a + b) := by
  unfold least at hlo
  unfold greatest at hhi
  rw [add?_eq_some_iff, Int64.toInt_add]
  exact Int.bmod_eq_of_le (by omega) (by omega)

theorem mul?_eq_some (hlo : least ≤ a.toInt * b.toInt) (hhi : a.toInt * b.toInt ≤ greatest) :
    mul? a b = some (a * b) := by
  unfold least at hlo
  unfold greatest at hhi
  rw [mul?_eq_some_iff, Int64.toInt_mul]
  exact Int.bmod_eq_of_le (by omega) (by omega)

end Word

/-! ### Codes

There are ten codes. What is needed of them beyond their values is that they have at most two
digits, so that they do not reach into the digits of the modes. -/

namespace Opcode

/-- **The codes** are 1 to 9 and 99. -/
theorem exists_code_iff {n : Int} :
    (∃ op : Opcode, op.code.toInt = n) ↔ 1 ≤ n ∧ n ≤ 9 ∨ n = 99 := by
  constructor
  · rintro ⟨op, rfl⟩
    cases op <;> decide
  · intro h
    have hcodes : all.map (·.code.toInt) = [1, 2, 3, 4, 5, 6, 7, 8, 9, 99] := by decide
    have hmem : n ∈ all.map (·.code.toInt) := by
      rw [hcodes]
      simp only [List.mem_cons, List.not_mem_nil, or_false]
      omega
    obtain ⟨op, -, hop⟩ := List.mem_map.mp hmem
    exact ⟨op, hop⟩

/-- A code that is refused is in no opcode, and is the one that is reported. -/
theorem error_of_decode {code : Word} {e : DecodeError} (h : Opcode.decode code = .error e) :
    e = .invalidOpcode code ∧ ∀ op : Opcode, op.code ≠ code := by
  refine ⟨?_, ?_⟩
  · unfold Opcode.decode at h
    split at h
    · contradiction
    · exact (Except.error.inj h).symm
  · rintro op rfl
    rw [Opcode.decode_code] at h
    contradiction

theorem toInt_code_range (op : Opcode) : 0 < op.code.toInt ∧ op.code.toInt < 100 := by
  cases op <;> decide

end Opcode

namespace Instruction

/-! ### Writing

An instruction word is a sum of four terms. `encode?` makes the sum with checked operations; that it
succeeds says that `encode`, which does not check, is exact. -/

/-- A word that is one decimal digit. -/
def IsDigit (w : Word) : Prop := 0 ≤ w.toInt ∧ w.toInt < 10

/-- A sum with one more digit at its place, if neither the product nor the sum overflows. -/
def withDigit? (sum digit place : Word) : Option Word := do
  let term ← Word.mul? digit place
  Word.add? sum term

/-- The word of an instruction, if nothing overflows on the way. -/
def encode? (i : Instruction) : Option Word := do
  let sum ← withDigit? i.opcode.code (i.modes.get 0) 100
  let sum ← withDigit? sum (i.modes.get 1) 1000
  withDigit? sum (i.modes.get 2) 10000

/-- A digit at one of the places of a mode is added without overflow. -/
theorem withDigit?_eq {d : Word} (sum place : Word) (hsum : 0 ≤ sum.toInt ∧ sum.toInt ≤ 100000)
    (hd : IsDigit d) (hplace : 0 ≤ place.toInt ∧ place.toInt ≤ 10000) :
    withDigit? sum d place = some (sum + d * place) ∧
      (sum + d * place).toInt = sum.toInt + d.toInt * place.toInt := by
  unfold IsDigit at hd
  -- four digits with their places stay far below the greatest word, so neither the product nor the
  -- sum is out of range
  have hnonneg : 0 ≤ d.toInt * place.toInt := Int.mul_nonneg hd.1 hplace.1
  have hle : d.toInt * place.toInt ≤ 9 * 10000 :=
    Int.mul_le_mul (by omega) hplace.2 hplace.1 (by omega)
  have hmul : Word.mul? d place = some (d * place) :=
    Word.mul?_eq_some (by unfold Word.least; omega) (by unfold Word.greatest; omega)
  have hterm := Word.mul?_eq_some_iff.mp hmul
  have hadd : Word.add? sum (d * place) = some (sum + d * place) :=
    Word.add?_eq_some (by unfold Word.least; omega) (by unfold Word.greatest; omega)
  refine ⟨?_, ?_⟩
  · unfold withDigit?
    rw [hmul]
    exact hadd
  · rw [Word.add?_eq_some_iff.mp hadd, hterm]

variable {op : Opcode} {a b c word : Word} {i : Instruction}

/-- **The word of an instruction** whose modes are digits is their sum, and nothing overflows on the
way to it. -/
theorem encode_exact (op : Opcode) (ha : IsDigit a) (hb : IsDigit b) (hc : IsDigit c) :
    encode? ⟨op, #v[a, b, c]⟩ = some (encode ⟨op, #v[a, b, c]⟩) ∧
      (encode ⟨op, #v[a, b, c]⟩).toInt =
        op.code.toInt + a.toInt * 100 + b.toInt * 1000 + c.toInt * 10000 := by
  -- a sum has no more digits than places so far, and leaves room for the next term
  have hcode := op.toInt_code_range
  have ha' : 0 ≤ a.toInt ∧ a.toInt < 10 := ha
  have hb' : 0 ≤ b.toInt ∧ b.toInt < 10 := hb
  obtain ⟨hfirst, hfirst'⟩ := withDigit?_eq op.code 100 (by omega) ha (by decide)
  replace hfirst' : (op.code + a * 100).toInt = op.code.toInt + a.toInt * 100 := hfirst'
  obtain ⟨hsecond, hsecond'⟩ := withDigit?_eq (op.code + a * 100) 1000 (by omega) hb
    (by decide)
  replace hsecond' : (op.code + a * 100 + b * 1000).toInt =
      (op.code + a * 100).toInt + b.toInt * 1000 := hsecond'
  obtain ⟨hthird, hthird'⟩ := withDigit?_eq (op.code + a * 100 + b * 1000) 10000 (by omega)
    hc (by decide)
  refine ⟨?_, ?_⟩
  · show (withDigit? op.code a 100).bind (fun sum => (withDigit? sum b 1000).bind
      (withDigit? · c 10000)) = some (op.code + a * 100 + b * 1000 + c * 10000)
    rw [hfirst, Option.bind_some, hsecond, Option.bind_some, hthird]
  · show (op.code + a * 100 + b * 1000 + c * 10000).toInt = _
    rw [hthird', hsecond', hfirst']
    rfl

/-! ### Reading what is written

In the sum each part stays within its own digits, so division and remainder find it again. -/

/-- A word is read as the instruction of its code, with the digits in front of the code as modes. -/
theorem decode_of_code (h : word % 100 = op.code) :
    decode word = .ok ⟨op, #v[word / 100 % 10, word / 1000 % 10, word / 10000 % 10]⟩ := by
  unfold decode
  rw [h, Opcode.decode_code]
  rfl

/-- A digit of a word that is not negative, by division of integers. -/
theorem toInt_digit {d : Word} (hword : 0 ≤ word.toInt) (hd : 0 < d.toInt) :
    (word / d % 10).toInt = word.toInt / d.toInt % 10 := by
  have hne : d ≠ -1 := by
    rintro rfl
    exact absurd hd (by decide)
  have hquotient : 0 ≤ word.toInt / d.toInt := Int.ediv_nonneg hword (by omega)
  rw [Int64.toInt_mod, Int64.toInt_div_of_ne_right _ _ hne, Int.tdiv_eq_ediv_of_nonneg hword,
    Int.tmod_eq_emod_of_nonneg hquotient]
  rfl

/-- **Reading inverts writing.** An instruction whose modes are digits is read back from its
word. -/
theorem decode_encode (ha : IsDigit a) (hb : IsDigit b) (hc : IsDigit c) :
    decode (encode ⟨op, #v[a, b, c]⟩) = .ok ⟨op, #v[a, b, c]⟩ := by
  have hsum := (encode_exact op ha hb hc).2
  have hcode := op.toInt_code_range
  unfold IsDigit at ha hb hc
  generalize encode ⟨op, #v[a, b, c]⟩ = word at hsum
  have hnonneg : 0 ≤ word.toInt := by omega
  have hopcode : word % 100 = op.code := by
    rw [← Int64.toInt_inj, Int64.toInt_mod, Int.tmod_eq_emod_of_nonneg hnonneg]
    show word.toInt % 100 = _
    omega
  -- each digit is found where it was put
  have hfirst : word / 100 % 10 = a := by
    rw [← Int64.toInt_inj]
    refine (toInt_digit hnonneg (by decide)).trans ?_
    show word.toInt / 100 % 10 = _
    omega
  have hsecond : word / 1000 % 10 = b := by
    rw [← Int64.toInt_inj]
    refine (toInt_digit hnonneg (by decide)).trans ?_
    show word.toInt / 1000 % 10 = _
    omega
  have hthird : word / 10000 % 10 = c := by
    rw [← Int64.toInt_inj]
    refine (toInt_digit hnonneg (by decide)).trans ?_
    show word.toInt / 10000 % 10 = _
    omega
  rw [decode_of_code hopcode, hfirst, hsecond, hthird]

theorem isDigit_modeDigit (modes : List Mode) (index : Nat) : IsDigit (modeDigit modes index) := by
  have hcode : ∀ mode : Mode, 0 ≤ mode.code.toInt ∧ mode.code.toInt < 10 := by
    intro mode
    cases mode <;> decide
  exact hcode _

/-- An instruction that is made from modes is read back. -/
theorem decode_encode_ofModes (op : Opcode) (modes : List Mode) :
    decode (ofModes op modes).encode = .ok (ofModes op modes) :=
  decode_encode (isDigit_modeDigit modes 0) (isDigit_modeDigit modes 1) (isDigit_modeDigit modes 2)

/-- The mode of an operand is the one that the instruction has been made with. -/
theorem mode_ofModes (op : Opcode) (modes : List Mode) {k : Nat} (hk : k < 3) :
    (ofModes op modes).mode k = .ok (modes.getD k .fallback) := by
  rw [mode_eq_ok_iff hk]
  match k, hk with
  | 0, _ => rfl
  | 1, _ => rfl
  | 2, _ => rfl

theorem mode_of_le (i : Instruction) {k : Nat} (hk : 3 ≤ k) :
    i.mode k = .error (.noSuchParameter k) := by
  unfold mode
  rw [Vector.getElem?_eq_none hk]

/-! ### Reading any word

Division truncates, so the remainder of a negative word is not positive and never a code. For all
the other words it is the division of natural numbers, and the digits of a word are found where they
stand. -/

/-- **What is read from a word** is the opcode with its code and the three digits in front of
that. -/
theorem decode_eq_ok_iff :
    decode word = .ok i ↔ i.opcode.code = word % 100 ∧
      i.modes = #v[word / 100 % 10, word / 1000 % 10, word / 10000 % 10] := by
  constructor
  · intro h
    unfold decode at h
    cases hopcode : Opcode.decode (word % 100) with
    | error e =>
      rw [hopcode] at h
      contradiction
    | ok op =>
      rw [hopcode] at h
      cases h
      exact ⟨Opcode.decode_eq_ok_iff.mp hopcode, rfl⟩
  · rintro ⟨hcode, hmodes⟩
    obtain ⟨op, modes⟩ := i
    cases hmodes
    exact decode_of_code hcode.symm

/-- A word is refused for its remainder by a hundred, if this is no code. -/
theorem decode_eq_error {e : DecodeError} (h : decode word = .error e) :
    e = .invalidOpcode (word % 100) ∧ ∀ op : Opcode, op.code ≠ word % 100 := by
  unfold decode at h
  cases hopcode : Opcode.decode (word % 100) with
  | ok op =>
    rw [hopcode] at h
    contradiction
  | error fault =>
    rw [hopcode] at h
    cases h
    exact Opcode.error_of_decode hopcode

section Decoded

variable (h : decode word = .ok i)
include h

/-- A word that is read as an instruction is positive. -/
theorem pos_of_decode : 0 < word.toInt := by
  have hcode : i.opcode.code.toInt = word.toInt.tmod 100 := by
    rw [(decode_eq_ok_iff.mp h).1, Int64.toInt_mod]
    rfl
  have hpos := i.opcode.toInt_code_range.1
  rcases Int.lt_or_le 0 word.toInt with hword | hword
  · exact hword
  · -- the remainder has the sign of the word, and every code is positive
    have habs : word.toInt = -(word.toInt.natAbs : Int) := by omega
    rw [habs, Int.neg_tmod, Int.tmod_eq_emod_of_nonneg (by omega)] at hcode
    omega

/-- The code is the last two digits. -/
theorem toInt_code_of_decode : i.opcode.code.toInt = word.toInt % 100 := by
  have hpos := pos_of_decode h
  rw [(decode_eq_ok_iff.mp h).1, Int64.toInt_mod]
  exact Int.tmod_eq_emod_of_nonneg (by omega)

/-- The modes are the digits in front of the code. -/
theorem toInt_modes_of_decode :
    (i.modes.get 0).toInt = word.toInt / 100 % 10 ∧
      (i.modes.get 1).toInt = word.toInt / 1000 % 10 ∧
      (i.modes.get 2).toInt = word.toInt / 10000 % 10 := by
  have hnonneg : 0 ≤ word.toInt := Int.le_of_lt (pos_of_decode h)
  have hmodes := (decode_eq_ok_iff.mp h).2
  simp only [hmodes]
  exact ⟨toInt_digit hnonneg (by decide), toInt_digit hnonneg (by decide),
    toInt_digit hnonneg (by decide)⟩

/-- The modes that are read are digits. -/
theorem isDigit_of_decode (k : Fin 3) : IsDigit (i.modes.get k) := by
  obtain ⟨hfirst, hsecond, hthird⟩ := toInt_modes_of_decode h
  unfold IsDigit
  match k with
  | 0 => omega
  | 1 => omega
  | 2 => omega

/-- **Writing after reading** keeps the last five digits of a word, and nothing overflows on the
way. -/
theorem encode_of_decode : i.encode? = some i.encode ∧ i.encode.toInt = word.toInt % 100000 := by
  have hcode := toInt_code_of_decode h
  obtain ⟨hfirst, hsecond, hthird⟩ := toInt_modes_of_decode h
  obtain ⟨hexact, hsum⟩ := encode_exact i.opcode (isDigit_of_decode h 0)
    (isDigit_of_decode h 1) (isDigit_of_decode h 2)
  refine ⟨hexact, hsum.trans ?_⟩
  rw [hcode, hfirst, hsecond, hthird]
  omega

end Decoded

/-- The words that are read as instructions. -/
theorem exists_decode_iff :
    (∃ i, decode word = .ok i) ↔ 0 < word.toInt ∧
      (1 ≤ word.toInt % 100 ∧ word.toInt % 100 ≤ 9 ∨ word.toInt % 100 = 99) := by
  constructor
  · rintro ⟨i, h⟩
    exact ⟨pos_of_decode h, Opcode.exists_code_iff.mp ⟨i.opcode, toInt_code_of_decode h⟩⟩
  · rintro ⟨hpos, hcodes⟩
    obtain ⟨op, hop⟩ := Opcode.exists_code_iff.mpr hcodes
    have hcode : word % 100 = op.code := by
      rw [← Int64.toInt_inj, Int64.toInt_mod, hop]
      exact Int.tmod_eq_emod_of_nonneg (by omega)
    exact ⟨_, decode_of_code hcode⟩

/-! ### The main statement

The parts of it are about one word each, so it only puts together what has been said. -/

/-- **Instruction words over the whole range.**

* A word is read as an instruction if and only if it is positive and its last two digits are 1 to 9
  or 99. Any other word is refused for its remainder by a hundred, which has the sign of the word.
* The modes of an instruction that has been read are decimal digits. Its word is the last five
  digits of the one that it has been read from, without overflow on the way, and so it is the same
  word if and only if that has no more than five digits.
* An instruction that is made from modes, however many, is read back from its word. Its modes are
  the first three of these, the position mode where there are fewer, and no mode stands at any
  other index. -/
theorem decode_whole_range (word : Word) (op : Opcode) (modes : List Mode) :
    ((∃ i, decode word = .ok i) ↔ 0 < word.toInt ∧
      (1 ≤ word.toInt % 100 ∧ word.toInt % 100 ≤ 9 ∨ word.toInt % 100 = 99)) ∧
    ((¬ ∃ i, decode word = .ok i) →
      ∃ r : Word, r.toInt = word.toInt.tmod 100 ∧ decode word = .error (.invalidOpcode r)) ∧
    (∀ i, decode word = .ok i →
      (∀ digit ∈ i.modes, 0 ≤ digit.toInt ∧ digit.toInt ≤ 9) ∧
      i.encode? = some i.encode ∧ i.encode.toInt = word.toInt % 100000 ∧
      (i.encode = word ↔ word.toInt < 100000)) ∧
    decode (ofModes op modes).encode = .ok (ofModes op modes) ∧
    (∀ k mode, k < 3 → modes[k]? = some mode → (ofModes op modes).mode k = .ok mode) ∧
    (∀ k, k < 3 → modes[k]? = none → (ofModes op modes).mode k = .ok .position) ∧
    ∀ k, 3 ≤ k → (ofModes op modes).mode k = .error (.noSuchParameter k) := by
  refine ⟨exists_decode_iff, ?_, ?_, decode_encode_ofModes op modes, ?_, ?_, ?_⟩
  · intro hnone
    cases hdecode : decode word with
    | ok i => exact absurd ⟨i, hdecode⟩ hnone
    | error e =>
      obtain ⟨rfl, -⟩ := decode_eq_error hdecode
      refine ⟨word % 100, ?_, rfl⟩
      rw [Int64.toInt_mod]
      rfl
  · intro i hdecode
    have hpos := pos_of_decode hdecode
    obtain ⟨hexact, hvalue⟩ := encode_of_decode hdecode
    refine ⟨?_, hexact, hvalue, ?_⟩
    · intro digit hmem
      obtain ⟨k, hk, rfl⟩ := Vector.mem_iff_getElem.mp hmem
      have hdigit : IsDigit i.modes[k] := isDigit_of_decode hdecode ⟨k, hk⟩
      unfold IsDigit at hdigit
      omega
    · -- the word comes back exactly if nothing stands above its fifth digit
      rw [← Int64.toInt_inj, hvalue]
      omega
  · intro k mode hk hmode
    rw [mode_ofModes op modes hk, List.getD_eq_getElem?_getD, hmode]
    rfl
  · intro k hk hmode
    rw [mode_ofModes op modes hk, List.getD_eq_getElem?_getD, hmode]
    rfl
  · intro k hk
    exact mode_of_le _ hk

theorem decode_whole_range_stray :
    (¬ ∃ i, decode (-1101) = .ok i) ∧ decode (-1101) = .error (.invalidOpcode (-1)) ∧
      decode 1821203 = .ok ⟨.input, #v[2, 1, 2]⟩ ∧
      (encode ⟨.input, #v[2, 1, 2]⟩).toInt = 21203 ∧ encode ⟨.input, #v[2, 1, 2]⟩ ≠ 1821203 ∧
      (ofModes .output [.relative, .immediate]).mode 1 = .ok .immediate ∧
      (ofModes .output [.relative, .immediate]).mode 2 = .ok .position ∧
      (ofModes .output [.relative, .immediate]).mode 3 = .error (.noSuchParameter 3) := by
  obtain ⟨hcodes, hrefused, -⟩ := decode_whole_range (-1101) .add []
  obtain ⟨-, -, hkept, -, hgiven, hmissing, hbeyond⟩ :=
    decode_whole_range 1821203 .output [.relative, .immediate]
  have hnone : ¬ ∃ i, decode (-1101) = .ok i := fun h => absurd (hcodes.mp h).1 (by decide)
  obtain ⟨r, hr, herror⟩ := hrefused hnone
  have hminus : r = -1 := Int64.toInt_inj.mp hr
  have hread : decode 1821203 = .ok ⟨.input, #v[2, 1, 2]⟩ := decode_eq_ok_iff.mpr (by decide)
  obtain ⟨-, -, hvalue, hsame⟩ := hkept _ hread
  refine ⟨hnone, hminus ▸ herror, hread, hvalue, ?_, hgiven 1 .immediate (by decide) rfl,
    hmissing 2 (by decide) rfl, hbeyond 3 (by decide)⟩
  exact fun heq => absurd (hsame.mp heq) (by decide)

end Instruction

end Intcode
