import Intcode.Proofs.Overwrite

/-!
# What invocations do to files

Files are written in one place, behind everything that can go wrong: an assembly writes its program
as the last thing it does, and whether it could is all that is left to tell then. So what has failed
has changed nothing, and what has succeeded has changed one file.

* `FileTree.Writes` — a tree is another one with one file written;
* `savedText_eq_words` — what is written for a program;
* `Invokes.keeps_or_writes` — each way of an invocation, by what it does to files;
* `invoke_files` — the main statement.
-/

namespace Intcode.Command

namespace FileTree

variable {t t' : FileTree} {path : String} {contents : ByteArray} {place : Place}

/-- The second tree is the first one with a file of these contents at the place that a path leads
to, where there has been a file or nothing. There is nothing new at any other place, and a path that
has led to another place reads what it has read. -/
structure Writes (t t' : FileTree) (path : String) (contents : ByteArray) (place : Place) :
    Prop where
  leads : t.locate path = .ok place
  free : t.node? place ≠ some .directory
  present : t'.node? place = some (.file contents)
  kept : ∀ q, q ≠ place → t'.node? q = t.node? q
  read : t'.read path = .ok contents
  readOther : ∀ other q, t.locate other = .ok q → q ≠ place →
    t'.read other = t.read other

/-- A write that succeeds puts one file in its place, and does nothing else. -/
theorem writes_of_write (h : t.write path contents = .ok t') :
    ∃ place, t.Writes t' path contents place := by
  obtain ⟨place, htarget, rfl⟩ := write_eq_ok.mp h
  obtain ⟨hwalk, -, -, -, -, -, -, hfree⟩ := of_target htarget
  exact ⟨place, {
    leads := hwalk
    free := hfree
    present := node?_put_self t _ (names_ne_nil hfree)
    kept := fun q hq => node?_put_of_ne t _ hq
    read := read_put_self hwalk hfree contents
    readOther := fun other q hother hq => read_put_of_ne hother hfree hq _ }⟩

end FileTree

/-- What is written for a program: its words with commas between them, and a line feed. -/
theorem savedText_eq_words (p : Program) :
    savedText p = ",".intercalate (p.words.map Word.render) ++ "\n" := by
  have hrender : p.render = ",".intercalate (p.words.map Word.render) := by
    rw [← String.toList_inj, String.toList_intercalate, List.map_map]
    unfold Program.render
    rw [String.toList_ofList]
    congr 1
    refine List.map_congr_left fun w _ => ?_
    exact (String.toList_ofList (l := w.digits)).symm
  unfold savedText
  rw [hrender]

/-! ### The ways of an invocation

Of all the ways of an invocation one writes a file, and its report is one of success. So what has
been written follows from the exit code. -/

variable {arguments : List String} {around : Surroundings} {fuel : Nat} {report : Report}
  {file : String} {output : Option String}

/-- A command line asks for assembling the text of a file, to this path or to none in particular. -/
def AsksToAssemble (arguments : List String) (file : String) (output : Option String) : Prop :=
  ∃ request, readArguments arguments = .ok request ∧ request.order = .assemble file output

/-- The command line tells which text it assembles, and to which path. -/
theorem AsksToAssemble.eq_of_assembles {request : Request} {file' : String}
    {output' : Option String} {p : Program} (h : AsksToAssemble arguments file output)
    (hassembles : Assembles arguments around request file' output' p) :
    file' = file ∧ output' = output := by
  obtain ⟨request', hread, horder⟩ := h
  cases hread.symm.trans hassembles.understood
  cases horder.symm.trans hassembles.order
  exact ⟨rfl, rfl⟩

/-- An invocation leaves all files alone, and then it is no assembly or it is refused, or it is an
assembly that succeeds, and then it writes the program to its path. -/
theorem Invokes.keeps_or_writes [Allocator] (h : Invokes fuel arguments around report) :
    (report.files = around.files ∧
      ∀ file output, AsksToAssemble arguments file output → report.status = .refused) ∨
    ∃ request file output p place, Assembles arguments around request file output p ∧
      report.status = .success ∧
      around.files.Writes report.files (outputPath file output) (savedText p).toUTF8 place := by
  -- of all the ways only one writes, and the others that end with success are no assembly
  cases h with
  | saved assembles written =>
    obtain ⟨place, hwrites⟩ := FileTree.writes_of_write written
    exact Or.inr ⟨_, _, _, _, place, assembles, rfl, hwrites⟩
  | refused | gaveUp | unsaved => exact Or.inl ⟨rfl, fun _ _ _ => rfl⟩
  | version asked | help asked =>
    refine Or.inl ⟨rfl, ?_⟩
    rintro file output ⟨request, hread, -⟩
    cases asked.symm.trans hread
  | ran launches =>
    refine Or.inl ⟨rfl, ?_⟩
    rintro file output ⟨request, hread, horder⟩
    cases hread.symm.trans launches.understood
    cases horder.symm.trans launches.order
  | printed lists | aborted lists =>
    refine Or.inl ⟨rfl, ?_⟩
    rintro file output ⟨request, hread, horder⟩
    cases hread.symm.trans lists.understood
    cases horder.symm.trans lists.order

/-! ### The main statement

What is asked for is said by the arguments, and what has come of it by the exit code. -/

/-- **The files after an invocation.**

* Whatever ends with a code other than 0 leaves all files as they are.
* So does everything that is not asked to assemble: running and listing a program, help, the
  version, and command lines that are refused.
* An assembly that ends with 0 has had a text that can be assembled, and writes one file, the one
  that its path leads to: the given path, or else that of the text with the extension `int`. What is
  in the file then are the words of the program with commas between them, and one line feed. -/
theorem invoke_files [Allocator] (h : invoke fuel arguments around = some report) :
    (report.status.code ≠ 0 → report.files = around.files) ∧
    ((∀ file output, ¬ AsksToAssemble arguments file output) → report.files = around.files) ∧
    ∀ file output, AsksToAssemble arguments file output → report.status.code = 0 →
      ∃ text p place, around.files.readText file = .ok text ∧ Assembly.assemble text = .ok p ∧
        around.files.Writes report.files (output.getD (Path.withExtension file "int"))
          (",".intercalate (p.words.map Word.render) ++ "\n").toUTF8 place := by
  -- a request either leaves every file alone or is one that assembles, and then it is the only one
  -- that the arguments can be read as
  rcases (invoke_eq_some_iff.mp h).keeps_or_writes with
    ⟨hkept, hrefused⟩ | ⟨request, file', output', p, place, hassembles, hstatus, hwrites⟩
  · refine ⟨fun _ => hkept, fun _ => hkept, ?_⟩
    intro file output hasks hcode
    rw [hrefused file output hasks] at hcode
    cases hcode
  · refine ⟨?_, ?_, ?_⟩
    · intro hcode
      rw [hstatus] at hcode
      exact absurd rfl hcode
    · intro hnot
      exact absurd ⟨request, hassembles.understood, hassembles.order⟩ (hnot file' output')
    · intro file output hasks _
      obtain ⟨rfl, rfl⟩ := hasks.eq_of_assembles hassembles
      obtain ⟨text, htext, hassemble⟩ := hassembles.program
      rw [savedText_eq_words] at hwrites
      exact ⟨text, p, place, htext, hassemble, hwrites⟩

/-- The program of a text goes to the file beside it. The command refuses the path of the text
itself, and printing a program that is not there leaves the files alone as well. -/
theorem invoke_files_beside :
    (∃ report, invoke 0 ["assemble", "a.asm"] halting = some report ∧ report.status.code = 0 ∧
      ∃ p place, Assembly.assemble "HALT" = .ok p ∧
        halting.files.Writes report.files "a.int"
          (",".intercalate (p.words.map Word.render) ++ "\n").toUTF8 place) ∧
    (∃ report, invoke 0 ["assemble", "a.asm", "-o", "a.asm"] halting = some report ∧
      report.status.code ≠ 0 ∧ report.files = halting.files) ∧
    ∃ report, invoke 0 ["disassemble", "a.int"] halting = some report ∧
      report.files = halting.files := by
  have hreport : invoke 0 ["assemble", "a.asm"] halting = some
      { status := .success, output := .unlimited, errors := [.message "assembled 1 words -> a.int"],
        files := halting.files.put (.ofNames ["a.int".toList]) (.file "99\n".toUTF8),
        refusal := none } := rfl
  have hrefused : invoke 0 ["assemble", "a.asm", "-o", "a.asm"] halting = some
      { status := .refused, output := .unlimited,
        errors := [.message "error: refusing to overwrite input 'a.asm'; pass -o"],
        files := halting.files, refusal := none } := rfl
  have hlisted : invoke 0 ["disassemble", "a.int"] halting = some
      { status := .refused, output := .unlimited,
        errors := [.message
          "error: cannot read 'a.int': No such file or directory (os error 2)"],
        files := halting.files, refusal := none } := rfl
  refine ⟨⟨_, hreport, rfl, ?_⟩, ⟨_, hrefused, by decide, ?_⟩, ⟨_, hlisted, ?_⟩⟩
  · obtain ⟨text, p, place, htext, hassemble, hwrites⟩ :=
      (invoke_files hreport).2.2 "a.asm" none ⟨_, rfl, rfl⟩ rfl
    have htext' : halting.files.readText "a.asm" = .ok "HALT" := rfl
    obtain rfl := Except.ok.inj (htext'.symm.trans htext)
    exact ⟨p, place, hassemble, hwrites⟩
  · exact (invoke_files hrefused).1 (by decide)
  · refine (invoke_files hlisted).2.1 ?_
    rintro file output ⟨request, hread, horder⟩
    cases hread
    cases horder

end Intcode.Command
