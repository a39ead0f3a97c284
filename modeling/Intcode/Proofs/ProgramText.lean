import Intcode.Program
import Intcode.Proofs.Statement

/-!
# Programs are read back

The text of a program is read as this program, whatever blanks stand in front of it and behind it,
provided that the program has a word. The text of the empty program with such blanks has nothing
else, and is refused.

* `Text.trim_eq_iff` — what is left of a text without the blanks at its ends;
* `Program.readPieces_digits` — numerals are read one by one;
* `Program.parse_render`, `Program.parse_render_nil` — the text of a program with blanks around it.
-/

namespace Intcode

/-! ### Blanks at the ends

`trim` drops from the left, turns the text round, and drops again. `Trimmed` says what comes of it
without turning anything round: blanks, the rest, blanks, where the rest neither starts nor ends
with one. -/

namespace Text

/-- A text that neither starts nor ends with a blank. -/
structure BareEnds (cs : List Char) : Prop where
  head : ∀ c ∈ cs.head?, isBlank c = false
  last : ∀ c ∈ cs.getLast?, isBlank c = false

/-- A text that has no blanks has none at its ends. -/
theorem BareEnds.of_forall {cs : List Char} (h : ∀ c ∈ cs, isBlank c = false) : BareEnds cs where
  head c hc := h c (List.mem_of_mem_head? hc)
  last c hc := h c (List.mem_of_mem_getLast? hc)

theorem trimLeft_append {a : List Char} (h : ∀ c ∈ a, isBlank c) (cs : List Char) :
    trimLeft (a ++ cs) = trimLeft cs :=
  List.dropWhile_append_of_pos h

theorem trimLeft_of_head {cs : List Char} (h : ∀ c ∈ cs.head?, isBlank c = false) :
    trimLeft cs = cs := by
  cases cs with
  | nil => rfl
  | cons c rest =>
    have hc : isBlank c = false := h c rfl
    exact List.dropWhile_cons_of_neg (by simp [hc])

/-- What is left does not start with a blank. -/
theorem isBlank_of_mem_head_trimLeft {cs : List Char} {c : Char}
    (h : c ∈ (trimLeft cs).head?) : isBlank c = false := by
  have hhead := List.head?_dropWhile_not isBlank cs
  have hc : (cs.dropWhile isBlank).head? = some c := h
  rw [hc] at hhead
  simpa using hhead

/-- Blanks go away at both ends, and nothing else does. -/
theorem trim_blanks {a body b : List Char} (ha : ∀ c ∈ a, isBlank c) (hb : ∀ c ∈ b, isBlank c)
    (hbody : BareEnds body) : trim (a ++ body ++ b) = body := by
  have hb' : ∀ c ∈ b.reverse, isBlank c := fun c hc => hb c (List.mem_reverse.mp hc)
  unfold trim
  rw [List.append_assoc, trimLeft_append ha]
  by_cases hnil : body = []
  · -- the blanks behind go away from the front already
    subst hnil
    have hnothing : trimLeft b = [] := by
      have h := trimLeft_append hb []
      rwa [List.append_nil] at h
    rw [List.nil_append, hnothing]
    rfl
  · have hfront : trimLeft (body ++ b) = body ++ b := by
      obtain ⟨c, rest, rfl⟩ := List.exists_cons_of_ne_nil hnil
      exact trimLeft_of_head hbody.head
    have hback : trimLeft body.reverse = body.reverse := by
      apply trimLeft_of_head
      rw [List.head?_reverse]
      exact hbody.last
    rw [hfront, List.reverse_append, trimLeft_append hb', hback, List.reverse_reverse]

/-- The second text is what is left of the first one without the blanks at its ends. -/
inductive Trimmed : List Char → List Char → Prop
  | intro {a body b : List Char} (ha : ∀ c ∈ a, isBlank c) (hb : ∀ c ∈ b, isBlank c)
      (hbody : BareEnds body) : Trimmed (a ++ body ++ b) body

/-- A text is what is left of it, with blanks around it. -/
theorem trimmed_trim (cs : List Char) : Trimmed cs (trim cs) := by
  -- the blanks that have been dropped are put back, at the front and at the end
  have hfront : cs.takeWhile isBlank ++ trimLeft cs = cs := List.takeWhile_append_dropWhile
  have hback : trim cs ++ ((trimLeft cs).reverse.takeWhile isBlank).reverse = trimLeft cs := by
    unfold trim
    rw [← List.reverse_append]
    exact List.reverse_eq_iff.mpr List.takeWhile_append_dropWhile
  have hbare : BareEnds (trim cs) := by
    constructor
    · intro c hc
      have hmem : c ∈ (trimLeft cs).head? := by
        rw [← hback, List.head?_append, Option.mem_def.mp hc]
        rfl
      exact isBlank_of_mem_head_trimLeft hmem
    · intro c hc
      unfold trim at hc
      rw [List.getLast?_reverse] at hc
      exact isBlank_of_mem_head_trimLeft hc
  have h := Trimmed.intro (a := cs.takeWhile isBlank)
    (b := ((trimLeft cs).reverse.takeWhile isBlank).reverse)
    (fun c hc => List.mem_takeWhile_imp hc)
    (fun c hc => List.mem_takeWhile_imp (List.mem_reverse.mp hc)) hbare
  rwa [List.append_assoc, hback, hfront] at h

/-- **Trimming** takes the blanks at the ends and nothing else. -/
theorem trim_eq_iff {cs body : List Char} : trim cs = body ↔ Trimmed cs body := by
  constructor
  · rintro rfl
    exact trimmed_trim cs
  · intro h
    cases h with
    | intro ha hb hbody => exact trim_blanks ha hb hbody

/-- More blanks at the ends make no difference. -/
theorem trim_append_append {a cs b : List Char} (ha : ∀ c ∈ a, isBlank c)
    (hb : ∀ c ∈ b, isBlank c) : trim (a ++ cs ++ b) = trim cs := by
  obtain ⟨body, htrim⟩ : ∃ body, trim cs = body := ⟨_, rfl⟩
  rw [htrim, trim_eq_iff]
  cases trim_eq_iff.mp htrim with
  | @intro a' _ b' ha' hb' hbody =>
    have hassoc : a ++ (a' ++ body ++ b') ++ b = a ++ a' ++ body ++ (b' ++ b) := by
      simp only [List.append_assoc]
    rw [hassoc]
    exact .intro (List.forall_mem_append.mpr ⟨ha, ha'⟩) (List.forall_mem_append.mpr ⟨hb', hb⟩) hbody

/-- What is left has no more blanks to lose. -/
theorem trim_trim (cs : List Char) : trim (trim cs) = trim cs := by
  obtain ⟨body, htrim⟩ : ∃ body, trim cs = body := ⟨_, rfl⟩
  rw [htrim]
  cases trim_eq_iff.mp htrim with
  | intro _ _ hbody =>
    have h := trim_blanks (a := []) (b := []) (by simp) (by simp) hbody
    rwa [List.nil_append, List.append_nil] at h

/-- Nothing is left exactly of a text of blanks. -/
theorem trim_eq_nil_iff {cs : List Char} : trim cs = [] ↔ ∀ c ∈ cs, isBlank c := by
  rw [trim_eq_iff]
  constructor
  · intro h
    cases h with
    | intro ha hb _ =>
      rw [List.append_nil]
      exact List.forall_mem_append.mpr ⟨ha, hb⟩
  · intro h
    have hnil : BareEnds [] := .of_forall (by simp)
    have h := Trimmed.intro (a := cs) (b := []) h (by simp) hnil
    rwa [List.append_nil, List.append_nil] at h

end Text

/-! ### Programs

Numerals have neither blanks nor commas in them, so cutting the text of a program at its commas
gives the numerals, and cutting blanks off takes only those around the text. -/

namespace Program

open Text

theorem isBlank_of_mem_digits (w : Word) : ∀ c ∈ w.digits, isBlank c = false := fun _ hc =>
  Assembly.isBlank_of_isPlain ((Assembly.isPlainWord_digits w).isPlain hc)

theorem comma_notMem_digits (w : Word) : ',' ∉ w.digits := by
  intro hmem
  exact absurd ((Assembly.isPlainWord_digits w).isPlain hmem) (by decide)

/-- The text of a program has no blanks. -/
theorem isBlank_of_mem_render (words : List Word) :
    ∀ c ∈ [','].intercalate (words.map Word.digits), isBlank c = false := by
  induction words with
  | nil =>
    intro c hc
    contradiction
  | cons w words ih =>
    -- a single word has no comma behind it
    by_cases hnil : words = []
    · rw [hnil, List.map_singleton, List.intercalate_singleton]
      exact isBlank_of_mem_digits w
    · rw [List.map_cons, List.intercalate_cons_of_ne_nil (by simpa using hnil)]
      intro c hc
      rcases List.mem_append.mp hc with hfront | hrest
      · rcases List.mem_append.mp hfront with hdigit | hcomma
        · exact isBlank_of_mem_digits w c hdigit
        · rw [List.mem_singleton.mp hcomma]
          decide
      · exact ih c hrest

/-- Numerals are read one by one. -/
theorem readPieces_digits (index : Nat) (words : List Word) :
    readPieces index (words.map Word.digits) = .ok words := by
  induction words generalizing index with
  | nil => rfl
  | cons w words ih =>
    have htrim : trim w.digits = w.digits := by
      simpa using trim_blanks (a := []) (b := []) (by simp) (by simp)
        (.of_forall (isBlank_of_mem_digits w))
    have hpiece : readPiece index w.digits = .ok w := by
      unfold readPiece
      rw [htrim, Numeral.readDecimal_digits]
    rw [List.map_cons, readPieces, hpiece, ih]
    rfl

variable {p : Program} {a b : List Char}

/-- **The text of a program** is read as this program, with any blanks around it. -/
theorem parse_render (hne : p.words ≠ []) (ha : ∀ c ∈ a, isBlank c) (hb : ∀ c ∈ b, isBlank c) :
    parse (String.ofList (a ++ p.render.toList ++ b)) = .ok p := by
  have hrender : p.render.toList = [','].intercalate (p.words.map Word.digits) :=
    String.toList_ofList
  have hsplit : p.render.toList.splitOn ',' = p.words.map Word.digits := by
    rw [hrender]
    refine List.splitOn_intercalate ',' ?_ (by simpa using hne)
    intro piece hpiece
    obtain ⟨w, -, rfl⟩ := List.mem_map.mp hpiece
    exact comma_notMem_digits w
  have hbody : p.render.toList ≠ [] := by
    intro hnil
    rw [hnil] at hsplit
    obtain ⟨w, words, hwords⟩ := List.exists_cons_of_ne_nil hne
    rw [hwords, List.splitOn_nil, List.map_cons] at hsplit
    exact Numeral.digits_ne_nil w (List.cons.inj hsplit).1.symm
  have hbare : BareEnds p.render.toList := by
    rw [hrender]
    exact .of_forall (isBlank_of_mem_render p.words)
  -- the ends of the rendered text are no blanks, so trimming takes off just what was put around it
  unfold parse
  rw [String.toList_ofList, trim_blanks ha hb hbare]
  split
  · contradiction
  · rw [hsplit, readPieces_digits]
    rfl

/-- The text of the empty program has nothing to be read, with any blanks around it. -/
theorem parse_render_nil (hnil : p.words = []) (ha : ∀ c ∈ a, isBlank c)
    (hb : ∀ c ∈ b, isBlank c) :
    parse (String.ofList (a ++ p.render.toList ++ b)) = .error .empty := by
  have hrender : p.render.toList = [] := by
    unfold render
    rw [hnil, String.toList_ofList]
    rfl
  unfold parse
  rw [hrender, String.toList_ofList, trim_blanks ha hb (.of_forall (by simp))]

end Program

end Intcode
