import Mathlib.Data.List.TakeDrop
import Intcode.Assembly.Source
import Intcode.Proofs.Statement

/-!
# Texts one after another

Assembly goes line by line and looks neither back nor ahead. So two texts with a line feed between
them assemble to the words of both, or fail as the first of them that fails, where the second text
counts its lines from the end of the first one.

* `lines_append`, `length_lines` — the lines of the whole are the lines of the parts, and the first
  part has one more than it has line feeds;
* `withoutEnds`, `assemble_eq_withoutEnds` — it makes no difference whether carriage returns and a
  last line end belong to the lines;
* `assembleLines_append`, `assembleLines_add` — rows of lines one after another, and lines that are
  counted from further down;
* `assemble_append_eq` — what two texts come to, as one equation;
* `assemble_append` — the main statement.
-/

namespace Intcode

/-! ### Lines

The lines of a text are what stands between its line feeds, so a text with a line feed at its end
has an empty line behind that. Neither this line nor carriage returns in front of line feeds have a
word, and so they do not count. -/

namespace Text

/-- A line feed cuts the lines into those in front of it and those behind it. -/
theorem lines_append (cs ds : List Char) : lines (cs ++ '\n' :: ds) = lines cs ++ lines ds :=
  List.splitOn_append_cons_self cs ds

/-- There is one line more than there are line feeds. -/
theorem length_lines (cs : List Char) : (lines cs).length = cs.count '\n' + 1 := by
  unfold lines
  induction cs with
  | nil => rfl
  | cons c cs ih =>
    rw [List.splitOn_cons_eq_if_modifyHead, List.count_cons]
    split
    · rw [List.length_cons, ih]
    · rw [List.length_modifyHead, ih, Nat.add_zero]

/-- A line without the carriage return at its end, if it has one. -/
def withoutReturn (line : List Char) : List Char :=
  if line.getLast? = some '\r' then line.dropLast else line

/-- What stands between line feeds, cut at line ends instead: a carriage return in front of a line
feed belongs to the line end, and the last line may have a line end or not. -/
def withoutEnds : List (List Char) → List (List Char)
  | [] => []
  | [last] => if last = [] then [] else [last]
  | line :: next :: rest => withoutReturn line :: withoutEnds (next :: rest)

end Text

namespace Assembly

open Text

/-- A carriage return separates words like any blank, so one at the end of a line adds nothing. -/
theorem lineWords_withoutReturn (line : List Char) :
    lineWords (withoutReturn line) = lineWords line := by
  unfold withoutReturn
  split
  · next hlast =>
    obtain ⟨front, rfl⟩ := List.getLast?_eq_some_iff.mp hlast
    rw [List.dropLast_concat]
    unfold lineWords
    rw [List.takeWhile_append]
    split
    · next hall =>
      -- no comment, so the carriage return is the last character of the words
      have hreturn : List.takeWhile (fun c => !isComment c) ['\r'] = ['\r'] := by decide
      have hblank : isSeparator '\r' := by decide
      rw [hreturn, fields_append_cons isSeparator front [] hblank,
        (List.takeWhile_prefix _).eq_of_length hall]
      exact (List.append_nil _).symm
    · rfl
  · rfl

/-- **Line ends make no difference** to what lines assemble to. -/
theorem assembleLines_withoutEnds (number : Nat) (lines : List (List Char)) :
    assembleLines number (withoutEnds lines) = assembleLines number lines := by
  induction lines using withoutEnds.induct generalizing number with
  | case1 => rfl
  | case2 => rfl
  | case3 last hlast => rw [withoutEnds, if_neg hlast]
  | case4 line next rest ih =>
    have hline : Statement.ofLine (withoutReturn line) = Statement.ofLine line := by
      unfold Statement.ofLine
      rw [lineWords_withoutReturn]
    rw [withoutEnds, assembleLines, assembleLines, hline, ih]

/-- A text is assembled by its lines as they are usually counted. -/
theorem assemble_eq_withoutEnds (text : String) :
    assemble text = Program.mk <$> assembleLines 1 (withoutEnds (lines text.toList)) := by
  rw [assembleLines_withoutEnds]
  rfl

end Assembly

/-! ### Rows of lines

Lines are assembled in order, and the first fault ends it. The lines in front count only by their
number, which the fault reports. -/

/-- The same fault, further down. -/
def AssemblyError.moved (e : AssemblyError) (d : Nat) : AssemblyError :=
  { e with line := e.line + d }

namespace Assembly

open Text

/-- The number of the first line decides where the fault is, and nothing else. -/
theorem assembleLines_add (number d : Nat) (lines : List (List Char)) :
    assembleLines (number + d) lines = (assembleLines number lines).mapError (·.moved d) := by
  induction lines generalizing number with
  | nil => rfl
  | cons line lines ih =>
    rw [assembleLines, assembleLines]
    cases Statement.ofLine line with
    | error fault => rfl
    | ok statement =>
      dsimp only
      rw [Nat.add_right_comm, ih]
      cases assembleLines (number + 1) lines <;> rfl

/-- Two rows of lines one after the other: the words of both, or the first fault. -/
theorem assembleLines_append (number : Nat) (front back : List (List Char)) :
    assembleLines number (front ++ back) = do
      let a ← assembleLines number front
      let b ← assembleLines (number + front.length) back
      return a ++ b := by
  induction front generalizing number with
  | nil =>
    show assembleLines number back = (assembleLines number back >>= pure)
    rw [bind_pure]
  | cons line front ih =>
    have hnumber : number + (line :: front).length = number + 1 + front.length := by
      rw [List.length_cons, Nat.add_assoc, Nat.add_comm 1]
    rw [List.cons_append, assembleLines, assembleLines, hnumber]
    cases Statement.ofLine line with
    | error fault => rfl
    | ok statement =>
      dsimp only
      rw [ih]
      -- the lines in front are assembled or not, and then those behind are
      cases assembleLines (number + 1) front with
      | error e => rfl
      | ok a =>
        cases assembleLines (number + 1 + front.length) back with
        | error e => rfl
        | ok b =>
          show Except.ok (statementWords statement ++ (a ++ b)) = .ok _
          rw [← List.append_assoc]

/-! ### Texts

A line feed between two texts ends the last line of the first one, so the lines of the whole are
those of both. -/

/-- **Two texts with a line feed between them**, as one equation. -/
theorem assemble_append_eq (t₁ t₂ : String) :
    assemble (t₁ ++ "\n" ++ t₂) = do
      let p₁ ← assemble t₁
      let p₂ ← (assemble t₂).mapError (·.moved (1 + t₁.toList.count '\n'))
      return ⟨p₁.words ++ p₂.words⟩ := by
  have hlines : lines (t₁ ++ "\n" ++ t₂).toList = lines t₁.toList ++ lines t₂.toList := by
    rw [String.toList_append, String.toList_append, List.append_assoc]
    exact lines_append _ _
  have hcount : (lines t₁.toList).length = 1 + t₁.toList.count '\n' := by
    rw [length_lines, Nat.add_comm]
  unfold assemble
  rw [hlines, assembleLines_append, hcount, assembleLines_add]
  cases assembleLines 1 (lines t₁.toList) with
  | error e => rfl
  | ok a =>
    cases assembleLines 1 (lines t₂.toList) with
    | error e => rfl
    | ok b => rfl

/-- **Assembly is compositional, with exact line numbers.** For two texts with a line feed between
them:

* if the first one fails, then the whole fails in the same way;
* if both assemble, then the whole assembles to the words of the first and then of the second;
* if only the second one fails, then the whole fails with the same fault, as many lines further down
  as the first text has. -/
theorem assemble_append (t₁ t₂ : String) :
    (∀ e, assemble t₁ = .error e → assemble (t₁ ++ "\n" ++ t₂) = .error e) ∧
    (∀ p₁ p₂, assemble t₁ = .ok p₁ → assemble t₂ = .ok p₂ →
      assemble (t₁ ++ "\n" ++ t₂) = .ok ⟨p₁.words ++ p₂.words⟩) ∧
    ∀ p₁ e, assemble t₁ = .ok p₁ → assemble t₂ = .error e →
      assemble (t₁ ++ "\n" ++ t₂) =
        .error { e with line := e.line + (1 + t₁.toList.count '\n') } := by
  rw [assemble_append_eq]
  refine ⟨?_, ?_, ?_⟩
  · intro e h
    rw [h]
    rfl
  · intro p₁ p₂ h₁ h₂
    rw [h₁, h₂]
    rfl
  · intro p₁ e h₁ h₂
    rw [h₁, h₂]
    rfl

/-- A fault in the first text, two texts that assemble, and a fault on the second line of the second
text. -/
theorem assemble_append_seam :
    assemble ("jump" ++ "\n" ++ "halt") = .error ⟨1, .unknownOpcode "JUMP"⟩ ∧
      assemble ("halt ; end\r" ++ "\n" ++ "out 5") = .ok ⟨[99, 4, 5]⟩ ∧
      assemble ("halt\n\n" ++ "\n" ++ "\r\nout #0x") = .error ⟨5, .invalidNumber "#0x"⟩ := by
  refine ⟨(assemble_append _ _).1 _ ?_, (assemble_append _ _).2.1 ⟨[99]⟩ ⟨[4, 5]⟩ ?_ ?_,
    (assemble_append _ _).2.2 ⟨[99]⟩ ⟨2, .invalidNumber "#0x"⟩ ?_ ?_⟩
  all_goals decide +kernel

end Assembly

end Intcode
