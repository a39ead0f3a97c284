import Mathlib.Data.List.Forall2
import Mathlib.Tactic.IntervalCases
import Intcode.Proofs.Concatenation

/-!
# Only the words of a line count

What a text assembles to depends on the words of its lines only, and letters of either case are the
same there: texts with as many lines and with the same words on them, but for the case of ASCII
letters, assemble to the same program or fail alike. The one part of a fault that keeps the letters
as they were written is the text of an invalid number.

* `Text.SameLetters`, `Text.apply_toLower` — texts that differ in the case of letters, and what does
  not tell them apart;
* `HasWords`, `hasWords_iff` — the words of a line, said about its characters;
* `Token.read?_lower` — a word is read in the same way whatever the case of its letters;
* `Fault.Alike`, `Alike` — faults that differ in the case of letters, and results that do;
* `assemble_of_sameWords` — the main statement.
-/

namespace Intcode

/-! ### Letters of either case

To see that a function of characters does not depend on the case of letters, it is enough to try it
on the 26 letters. This is done once, and everything below is an instance. -/

namespace Text

/-- A text with its ASCII capitals in lower case. -/
def lower (cs : List Char) : List Char := cs.map Char.toLower

/-- Two texts differ at most in the case of ASCII letters. -/
def SameLetters (a b : List Char) : Prop := lower a = lower b

instance (a b : List Char) : Decidable (SameLetters a b) := inferInstanceAs (Decidable (_ = _))

/-- What tells no small ASCII letter from its capital does not depend on the case of letters. -/
theorem apply_toLower {β : Type} {f : Char → β}
    (h : ∀ n < 26, f (Char.ofNat (n + 97)) = f (Char.ofNat (n + 65))) (c : Char) :
    f c.toLower = f c := by
  by_cases hcapital : 65 ≤ c.toNat ∧ c.toNat ≤ 90
  · have hall : ∀ n < 26, (Char.ofNat (n + 65)).toLower = Char.ofNat (n + 97) := by decide
    have hc : c = Char.ofNat (c.toNat - 65 + 65) := by
      rw [Nat.sub_add_cancel hcapital.1, Char.ofNat_toNat]
    have hn : c.toNat - 65 < 26 := by omega
    rw [hc, hall _ hn, h _ hn]
  · -- no other character is changed
    have hc : c.toLower = c := dif_neg hcapital
    rw [hc]

/-- A character that is no letter has only itself as lower case. -/
theorem toLower_eq_iff {c d : Char} (hd : d.isAlpha = false) : c.toLower = d ↔ c = d := by
  have hletters : ∀ n < 26, (Char.ofNat (n + 97)).isAlpha ∧ (Char.ofNat (n + 65)).isAlpha := by
    decide
  have hsame : (c.toLower = d) = (c = d) := by
    refine apply_toLower (f := (· = d)) (fun n hn => ?_) c
    obtain ⟨hsmall, hcapital⟩ := hletters n hn
    have hne : ∀ {c : Char}, c.isAlpha → c ≠ d := by
      rintro c hc rfl
      rw [hd] at hc
      contradiction
    exact propext ⟨fun h => absurd h (hne hsmall), fun h => absurd h (hne hcapital)⟩
  rw [hsame]

theorem upper_lower (cs : List Char) : upper (lower cs) = upper cs := by
  have hchar : ∀ c : Char, upperChar c.toLower = upperChar c := apply_toLower (by decide)
  unfold upper lower
  rw [List.flatMap_map]
  exact List.flatMap_congr fun c _ => hchar c

/-! ### Numerals

Digits beyond nine and the letter of the prefix are the only letters in a number, and both are read
in either case. -/

namespace Numeral

/-- A digit has the same value in either case. -/
theorem digitValue?_toLower (base : Nat) (c : Char) :
    digitValue? base c.toLower = digitValue? base c := by
  apply apply_toLower
  intro n hn
  interval_cases n <;> rfl

/-- So have digits in a row, with the same fault at the same place. -/
theorem readDigits_lower (base : Nat) (sign : Sign) (acc : Word) (cs : List Char) :
    readDigits base sign acc (lower cs) = readDigits base sign acc cs := by
  induction cs generalizing acc with
  | nil => rfl
  | cons c cs ih =>
    show readDigits base sign acc (c.toLower :: lower cs) = _
    rw [readDigits, readDigits, digitValue?_toLower]
    simp only [ih]

theorem readUnsigned_lower (base : Nat) (sign : Sign) (cs : List Char) :
    readUnsigned base sign (lower cs) = readUnsigned base sign cs := by
  cases cs with
  | nil => rfl
  | cons c cs => exact readDigits_lower base sign 0 (c :: cs)

/-- A sign is no letter. -/
theorem read_lower (base : Nat) (cs : List Char) : read base (lower cs) = read base cs := by
  cases cs with
  | nil => rfl
  | cons c cs =>
    show read base (c.toLower :: lower cs) = _
    have hdigits := readDigits_lower base .plus 0 (c :: cs)
    rw [read_cons, read_cons, readUnsigned_lower, readUnsigned_lower]
    simp only [toLower_eq_iff (d := '+') (by decide), toLower_eq_iff (d := '-') (by decide)]
    rw [← hdigits]
    rfl

end Numeral

end Text

namespace Assembly

open Text

/-! ### Tokens

A word is read by its first character, and then as a number or a name. None of these steps looks at
the case of a letter. -/

namespace Token

/-- The first two characters of a number tell its base. -/
theorem readNumber_cons_cons (c d : Char) (cs : List Char) :
    readNumber (c :: d :: cs) =
      if c = '0' ∧ (d = 'x' ∨ d = 'X') then Numeral.read 16 cs
      else Numeral.readDecimal (c :: d :: cs) := by
  by_cases hprefix : c = '0' ∧ (d = 'x' ∨ d = 'X')
  · rw [if_pos hprefix]
    obtain ⟨rfl, rfl | rfl⟩ := hprefix
    · rfl
    · rfl
  · rw [if_neg hprefix]
    unfold readNumber
    split
    · next heq =>
      cases heq
      exact absurd ⟨rfl, Or.inl rfl⟩ hprefix
    · next heq =>
      cases heq
      exact absurd ⟨rfl, Or.inr rfl⟩ hprefix
    · rfl

/-- A single character has no prefix. -/
theorem readNumber_singleton (c : Char) : readNumber [c] = Numeral.readDecimal [c] := by
  unfold readNumber
  split
  · next heq => cases heq
  · next heq => cases heq
  · rfl

/-- The prefix is tested on two characters, so shorter texts are cases of their own. -/
theorem readNumber_lower (cs : List Char) : readNumber (lower cs) = readNumber cs := by
  have hdecimal : ∀ cs, Numeral.readDecimal (lower cs) = Numeral.readDecimal cs :=
    Numeral.read_lower 10
  match cs with
  | [] => rfl
  | [c] =>
    rw [readNumber_singleton, ← hdecimal [c]]
    exact readNumber_singleton c.toLower
  | c :: d :: cs =>
    show readNumber (c.toLower :: d.toLower :: lower cs) = _
    have hx : (d.toLower = 'x' ∨ d.toLower = 'X') = (d = 'x' ∨ d = 'X') :=
      apply_toLower (f := fun d => d = 'x' ∨ d = 'X') (by decide) d
    rw [readNumber_cons_cons, readNumber_cons_cons, Numeral.read_lower,
      ← hdecimal (c :: d :: cs)]
    simp only [hx, toLower_eq_iff (d := '0') (by decide)]
    rfl

/-- What is read behind a mark does not depend on case. -/
theorem readOperand?_lower (mode : Mode) (cs : List Char) :
    readOperand? mode (lower cs) = readOperand? mode cs := by
  unfold readOperand?
  rw [readNumber_lower]

/-- A number does not start with a letter. -/
theorem startsNumber_toLower (c : Char) : startsNumber c.toLower = startsNumber c :=
  apply_toLower (by decide) c

/-- **A word is read** in the same way whatever the case of its letters. -/
theorem read?_lower (word : List Char) : read? (lower word) = read? word := by
  cases word with
  | nil => rfl
  | cons c cs =>
    show read? (c.toLower :: lower cs) = _
    have hnumber : ∀ mode, readOperand? mode (c.toLower :: lower cs) = readOperand? mode (c :: cs) :=
      fun mode => readOperand?_lower mode (c :: cs)
    have hname : ofName (c.toLower :: lower cs) = ofName (c :: cs) :=
      congrArg (fun cs => Token.name (String.ofList cs)) (upper_lower (c :: cs))
    rw [read?_cons, read?_cons, readOperand?_lower, readOperand?_lower, hnumber, hname,
      startsNumber_toLower]
    simp only [toLower_eq_iff (d := '#') (by decide), toLower_eq_iff (d := '@') (by decide)]

/-- Words that are the same but for case are the same token, or both are none. -/
theorem read?_of_sameLetters {a b : List Char} (h : SameLetters a b) : read? a = read? b := by
  rw [← read?_lower a, ← read?_lower b, h]

end Token

/-! ### The words of a line

The words of a line are said here about its characters, so that what it means for two lines to have
the same words does not rest on how they are read. -/

/-- A line has these words: the longest runs of characters that neither separate words nor start a
comment, up to the comment if there is one. -/
inductive HasWords : List Char → List (List Char) → Prop
  | nil : HasWords [] []
  | comment {c : Char} {rest : List Char} (hcomment : isComment c) : HasWords (c :: rest) []
  | separator {c : Char} {rest : List Char} {words : List (List Char)} (hseparator : isSeparator c)
      (hrest : HasWords rest words) : HasWords (c :: rest) words
  | word {word rest : List Char} {words : List (List Char)} (hword : IsPlainWord word)
      (hend : ∀ c ∈ rest.head?, isPlain c = false) (hrest : HasWords rest words) :
      HasWords (word ++ rest) (word :: words)

/-- These are the words that are read. -/
theorem HasWords.lineWords_eq {line : List Char} {words : List (List Char)}
    (h : HasWords line words) : lineWords line = words := by
  induction h with
  | nil => rfl
  | comment hcomment => exact lineWords_comment hcomment _
  | separator hseparator _ ih => rw [lineWords_separator hseparator, ih]
  | word hword hend _ ih => rw [lineWords_word hword hend, ih]

/-- Every line has words. The induction is on the length, and goes on behind a whole word. -/
theorem exists_hasWords (line : List Char) : ∃ words, HasWords line words := by
  induction hn : line.length using Nat.strongRecOn generalizing line with
  | ind n ih =>
    cases line with
    | nil => exact ⟨[], .nil⟩
    | cons c rest =>
      have hless : rest.length < n := by
        rw [← hn, List.length_cons]
        exact Nat.lt_succ_self _
      by_cases hcomment : isComment c
      · exact ⟨[], .comment hcomment⟩
      by_cases hseparator : isSeparator c
      · obtain ⟨words, hrest⟩ := ih _ hless rest rfl
        exact ⟨words, .separator hseparator hrest⟩
      · -- the character starts a word, which goes as far as it can
        have hplain : isPlain c := by
          unfold isPlain
          simp [hcomment, hseparator]
        have hword : IsPlainWord (c :: rest.takeWhile isPlain) := by
          refine ⟨List.cons_ne_nil _ _, ?_⟩
          rw [List.all_cons, hplain, List.all_takeWhile]
          rfl
        have hend : ∀ d ∈ (rest.dropWhile isPlain).head?, isPlain d = false := by
          intro d hd
          have hhead := List.head?_dropWhile_not isPlain rest
          rw [Option.mem_def.mp hd] at hhead
          simpa using hhead
        have hshorter : (rest.dropWhile isPlain).length < n :=
          Nat.lt_of_le_of_lt (List.length_dropWhile_le isPlain rest) hless
        obtain ⟨words, hrest⟩ := ih _ hshorter _ rfl
        have h := HasWords.word hword hend hrest
        rw [List.cons_append, List.takeWhile_append_dropWhile] at h
        exact ⟨_, h⟩

/-- **The words of a line** are what is read from it. -/
theorem hasWords_iff {line : List Char} {words : List (List Char)} :
    HasWords line words ↔ lineWords line = words := by
  constructor
  · exact HasWords.lineWords_eq
  · rintro rfl
    obtain ⟨words, h⟩ := exists_hasWords line
    rwa [h.lineWords_eq]

/-- Two lines have the same words, but for the case of their letters. -/
def SameWords (a b : List Char) : Prop :=
  ∃ words words', HasWords a words ∧ HasWords b words' ∧ List.Forall₂ SameLetters words words'

/-- Having the same words can be tested by reading them. -/
theorem sameWords_iff {a b : List Char} :
    SameWords a b ↔ List.Forall₂ SameLetters (lineWords a) (lineWords b) := by
  unfold SameWords
  simp only [hasWords_iff]
  constructor
  · rintro ⟨_, _, rfl, rfl, h⟩
    exact h
  · intro h
    exact ⟨_, _, rfl, rfl, h⟩

instance : DecidableRel SameWords := fun _ _ => decidable_of_iff _ sameWords_iff.symm

end Assembly

/-! ### Results that are alike

Two results are alike if they are the same value, or if both are errors that are alike. The steps of
the assembler keep results alike, so it is enough to look at where an error can show the letters as
they were written: in the text of an invalid number. -/

/-- Both are this value, or both are errors, and the relation holds of them. -/
def Alike {ε α : Type} (R : ε → ε → Prop) (x y : Except ε α) : Prop :=
  (∃ a, x = .ok a ∧ y = .ok a) ∨ ∃ e e', x = .error e ∧ y = .error e' ∧ R e e'

namespace Alike

variable {ε α β : Type} {R : ε → ε → Prop} {x y : Except ε α}

theorem error {e e' : ε} (h : R e e') : Alike R (.error e : Except ε α) (.error e') :=
  Or.inr ⟨e, e', rfl, rfl, h⟩

theorem refl (hR : ∀ e, R e e) (x : Except ε α) : Alike R x x := by
  cases x with
  | ok a => exact Or.inl ⟨a, rfl, rfl⟩
  | error e => exact error (hR e)

theorem bind (h : Alike R x y) {f : α → Except ε β} (hf : ∀ a, Alike R (f a) (f a)) :
    Alike R (x >>= f) (y >>= f) := by
  rcases h with ⟨a, rfl, rfl⟩ | ⟨e, e', rfl, rfl, he⟩
  · exact hf a
  · exact error he

end Alike

namespace Assembly

open Text

/-- The same fault, but for the case of the letters of an invalid number. -/
inductive Fault.Alike : Fault → Fault → Prop
  | same (f : Fault) : Fault.Alike f f
  | invalidNumber {word word' : String} (h : SameLetters word.toList word'.toList) :
      Fault.Alike (.invalidNumber word) (.invalidNumber word')

/-- The same words lead to the same tokens, or to a fault at the same word. -/
theorem readTokens_alike {words words' : List (List Char)}
    (h : List.Forall₂ SameLetters words words') :
    Alike Fault.Alike (readTokens words) (readTokens words') := by
  induction h with
  | nil => exact .refl Fault.Alike.same _
  | @cons word word' _ _ hword _ ih =>
    rw [readTokens, readTokens, Token.read?_of_sameLetters hword]
    cases Token.read? word' with
    -- this is the one place where the letters of a word get into a fault
    | none =>
      refine .error (.invalidNumber ?_)
      rwa [String.toList_ofList, String.toList_ofList]
    | some token => exact ih.bind fun _ => .refl Fault.Alike.same _

/-- Behind the tokens of a line nothing of its text is looked at. -/
theorem ofLine_alike {a b : List Char} (h : SameWords a b) :
    Alike Fault.Alike (Statement.ofLine a) (Statement.ofLine b) :=
  (readTokens_alike (sameWords_iff.mp h)).bind fun _ => .refl Fault.Alike.same _

/-- Faults on the same line that are the same but for the case of letters. -/
structure ErrorsAlike (e e' : AssemblyError) : Prop where
  line : e.line = e'.line
  fault : e.fault.Alike e'.fault

/-- Line by line, the words are the same or the first fault is on the same line. -/
theorem assembleLines_alike (number : Nat) {lines lines' : List (List Char)}
    (h : List.Forall₂ SameWords lines lines') :
    Alike ErrorsAlike (assembleLines number lines) (assembleLines number lines') := by
  have hrefl : ∀ e, ErrorsAlike e e := fun e => ⟨rfl, .same e.fault⟩
  induction h generalizing number with
  | nil => exact .refl hrefl _
  | cons hline _ ih =>
    rw [assembleLines, assembleLines]
    rcases ofLine_alike hline with ⟨statement, hleft, hright⟩ | ⟨f, f', hleft, hright, hfault⟩
    · rw [hleft, hright]
      exact (ih (number + 1)).bind fun _ => .refl hrefl _
    · rw [hleft, hright]
      exact .error ⟨rfl, hfault⟩

/-! ### Texts

A text may end with a line end or without one, which makes no difference to what it assembles to. -/

/-- The lines of a text without their line ends. A text that ends with a line end has no line behind
it. -/
def rows (text : String) : List (List Char) := withoutEnds (lines text.toList)

/-- **Layout, comments and case do not matter.** Two texts with as many lines and with the same words
on them, but for the case of ASCII letters, assemble to the same program, or fail on the same line
with the same fault, where the text of an invalid number may differ in the case of letters. -/
theorem assemble_of_sameWords (t₁ t₂ : String)
    (h : List.Forall₂ SameWords (rows t₁) (rows t₂)) :
    (∃ p, assemble t₁ = .ok p ∧ assemble t₂ = .ok p) ∨
      ∃ line f₁ f₂, assemble t₁ = .error ⟨line, f₁⟩ ∧ assemble t₂ = .error ⟨line, f₂⟩ ∧
        f₁.Alike f₂ := by
  rw [assemble_eq_withoutEnds, assemble_eq_withoutEnds]
  rcases assembleLines_alike 1 h with ⟨words, hleft, hright⟩ |
    ⟨⟨line, f₁⟩, ⟨line', f₂⟩, hleft, hright, hline, hfault⟩
  · refine Or.inl ⟨⟨words⟩, ?_, ?_⟩
    · exact congrArg (Program.mk <$> ·) hleft
    · exact congrArg (Program.mk <$> ·) hright
  · obtain rfl : line = line' := hline
    refine Or.inr ⟨line, f₁, f₂, ?_, ?_, hfault⟩
    · exact congrArg (Program.mk <$> ·) hleft
    · exact congrArg (Program.mk <$> ·) hright

/-- Two texts that look different and assemble to the same program, and two that fail on the same
line. -/
theorem assemble_of_sameWords_shouted :
    assemble "  ADD,#0Xa  5\t7\r\n;\n HALT ;x" = .ok ⟨[101, 10, 5, 7, 99]⟩ ∧
      ∃ f, assemble "in 0,\r\n,OUT\t#0X1g" = .error ⟨2, f⟩ ∧
        (Fault.invalidNumber "#0x1G").Alike f := by
  constructor
  · have hwords : List.Forall₂ SameWords (rows "add #0xA 5 , 7 ; sum\n\nhalt\n")
        (rows "  ADD,#0Xa  5\t7\r\n;\n HALT ;x") := by
      decide +kernel
    have hfirst : assemble "add #0xA 5 , 7 ; sum\n\nhalt\n" = .ok ⟨[101, 10, 5, 7, 99]⟩ := by
      decide +kernel
    rcases assemble_of_sameWords _ _ hwords with ⟨p, h₁, h₂⟩ | ⟨_, _, _, h₁, -, -⟩
    · cases hfirst.symm.trans h₁
      exact h₂
    · cases hfirst.symm.trans h₁
  · have hwords : List.Forall₂ SameWords (rows "IN 0\nout #0x1G; five")
        (rows "in 0,\r\n,OUT\t#0X1g") := by
      decide +kernel
    have hfirst : assemble "IN 0\nout #0x1G; five" = .error ⟨2, .invalidNumber "#0x1G"⟩ := by
      decide +kernel
    rcases assemble_of_sameWords _ _ hwords with ⟨p, h₁, -⟩ | ⟨line, f₁, f₂, h₁, h₂, hfault⟩
    · cases hfirst.symm.trans h₁
    · cases hfirst.symm.trans h₁
      exact ⟨f₂, h₂, hfault⟩

end Assembly

end Intcode
