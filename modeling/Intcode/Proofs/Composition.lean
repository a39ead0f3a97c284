import Intcode.Proofs.Listing
import Intcode.Proofs.Overwrite
import Intcode.Proofs.ProgramText
import Intcode.Proofs.RunCommand

/-!
# How the commands fit together

A text that can be assembled to another file gives a file that the other two commands read as the
assembled program, and the listing that is printed for that file assembles to the same bytes. The
empty program is the exception: it can be assembled, but the file with it is refused.

* `FileTree.eq_of_alike` — paths that are spelt alike lead to one place, so a file with another
  place has another spelling;
* `programOf_saved` — the program in the file that an assembly has written;
* `Output.pushAll_of_unlimited`, `join_listing` — a listing is printed as it is;
* `Translates`, `Accepts`, `Rejects` — what is asked of an assembly, and what the other commands
  make of its file;
* `commands_compose` — the main statement.
-/

namespace Intcode.Command

open Intcode.Command.Path (Piece)

/-! ### Paths that are spelt alike

A path means names from the root, which its spelling determines and the tree does not. -/

theorem Path.foldl_follow_filter (names pieces : List Piece) :
    (pieces.filter fun piece => !isIdle piece).foldl follow names = pieces.foldl follow names := by
  induction pieces generalizing names with
  | nil => rfl
  | cons piece pieces ih =>
    cases hidle : isIdle piece with
    | true =>
      have hstay : follow names piece = names := by
        unfold follow
        rw [if_pos hidle]
      rw [List.filter_cons_of_neg (by simp [hidle]), List.foldl_cons, hstay, ih]
    | false =>
      rw [List.filter_cons_of_pos (by simp [hidle]), List.foldl_cons, List.foldl_cons, ih]

namespace FileTree

variable {t : FileTree} {p q r : Place}

/-- A walk comes to a proper place, and to the names that its pieces mean. -/
theorem absolute_of_walk {pieces : List Piece} (hp : p.Proper t.home)
    (h : t.walk p pieces = .ok q) :
    q.Proper t.home ∧ q.absolute t.home = pieces.foldl Path.follow (p.absolute t.home) := by
  induction pieces generalizing p with
  | nil =>
    cases h
    exact ⟨hp, rfl⟩
  | cons piece pieces ih =>
    obtain ⟨next, hpiece, hrest⟩ := walk_cons_eq_ok.mp h
    obtain ⟨-, hnext⟩ := walkPiece_eq_ok.mp hpiece
    obtain ⟨hproper, habsolute⟩ := hp.follow piece
    rw [hnext] at hproper habsolute
    rw [List.foldl_cons, ← habsolute]
    exact ih hproper hrest

/-- **Paths lead to one place if they mean the same names.** -/
theorem eq_of_locate {a b : String} (ha : t.locate a = .ok q) (hb : t.locate b = .ok r)
    (h : (Path.pieces a).foldl Path.follow ((Place.start t.home a).absolute t.home) =
      (Path.pieces b).foldl Path.follow ((Place.start t.home b).absolute t.home)) : q = r := by
  obtain ⟨hq, hqabsolute⟩ := absolute_of_walk (Place.proper_start t.home a) ha
  obtain ⟨hr, hrabsolute⟩ := absolute_of_walk (Place.proper_start t.home b) hb
  exact hq.eq_of_absolute hr (by rw [hqabsolute, hrabsolute, h])

/-- Paths that are spelt alike lead to one place. -/
theorem eq_of_alike {a b : String} (h : Path.alike a b = true) (ha : t.locate a = .ok q)
    (hb : t.locate b = .ok r) : q = r := by
  have hspelling := Path.alike_iff.mp h
  have hstart : Place.start t.home a = Place.start t.home b := by
    unfold Place.start
    rw [show Path.isAbsolute a = Path.isAbsolute b from congrArg Path.Spelling.absolute hspelling]
  have hnames : (Path.pieces a).filter (fun piece => !Path.isIdle piece) =
      (Path.pieces b).filter fun piece => !Path.isIdle piece :=
    congrArg Path.Spelling.names hspelling
  refine eq_of_locate ha hb ?_
  rw [← Path.foldl_follow_filter, ← Path.foldl_follow_filter _ (Path.pieces b), hstart, hnames]

end FileTree

/-! ### The file with a program

An assembly writes the text of the program and a line feed, and the other commands trim what they
read. So the file is read as the program, except that a file with nothing but a line feed counts as
empty. -/

theorem textOf_toUTF8 (text : String) : textOf text.toUTF8 = .ok text := by
  have hback : String.fromUTF8? text.toUTF8 = some text := dif_pos text.isValidUTF8
  unfold textOf
  rw [hback]

/-- A file that holds the bytes of a text is read as this text. -/
theorem FileTree.readText_of_read {t : FileTree} {path text : String}
    (h : t.read path = .ok text.toUTF8) : t.readText path = .ok text :=
  readText_eq_ok.mpr ⟨_, h, textOf_toUTF8 text⟩

/-- What is written for a program is its text, and a line feed behind it. -/
theorem savedText_eq (p : Program) :
    savedText p = String.ofList ([] ++ p.render.toList ++ ['\n']) := by
  rw [← String.toList_inj]
  simp [savedText]

theorem isBlank_of_mem_lineFeed : ∀ c ∈ ['\n'], Text.isBlank c := by
  intro c hc
  rw [List.mem_singleton.mp hc]
  rfl

/-- What is written for a program is read as this program, if it has a word. -/
theorem parse_savedText {p : Program} (h : p.words ≠ []) : Program.parse (savedText p) = .ok p := by
  rw [savedText_eq]
  exact Program.parse_render h (by simp) isBlank_of_mem_lineFeed

theorem parse_savedText_nil {p : Program} (h : p.words = []) :
    Program.parse (savedText p) = .error .empty := by
  rw [savedText_eq]
  exact Program.parse_render_nil h (by simp) isBlank_of_mem_lineFeed

/-- What is said about a file without a program in it. -/
def emptyMessage (file : String) : String :=
  "error: invalid program '" ++ file ++ "': " ++ "empty program source"

/-- The program in the file that an assembly has written is the one that was written, if it has a
word. -/
theorem programOf_saved (file : String) (p : Program) :
    programOf file (.ok (savedText p)) =
      if p.words = [] then .error (emptyMessage file) else .ok p := by
  unfold programOf
  dsimp only
  by_cases hnil : p.words = []
  · rw [if_pos hnil, parse_savedText_nil hnil]
    rfl
  · rw [if_neg hnil, parse_savedText hnil]

/-! ### Printed listings

Where standard output takes everything, what is printed is the text of the listing, which is what
the assembler reads. -/

/-- An output without a limit takes all lines. -/
theorem Output.pushAll_of_unlimited {o : Output} (h : o.limit = none) (lines : List String) :
    o.pushAll lines = ({ o with lines := o.lines ++ lines.toArray }, none) := by
  induction lines generalizing o with
  | nil => simp [pushAll]
  | cons line lines ih =>
    have hfault : o.fault? = none := by
      unfold fault?
      rw [h]
    rw [pushAll, hfault]
    dsimp only
    rw [ih (by exact h)]
    simp [push]

/-- The lines of a listing make up its text. -/
theorem join_listing (p : Program) :
    String.join ((listing p).map (· ++ "\n")) = Assembly.disassemble p := by
  rw [← String.toList_inj]
  unfold Assembly.disassemble Assembly.renderStatements listing
  rw [String.toList_join, String.toList_ofList, List.map_map, List.flatMap_map]
  simp

/-! ### What the commands make of a file

What is asked of a command line is stated by what it is understood as, so it covers every spelling
of the arguments. Nothing is said about other files in the surroundings, which may be different for
each command. -/

/-- A command line asks for assembling the text of a file, and a file can be written at the path for
the program, which is not the one with the text. -/
structure Translates (arguments : List String) (around : Surroundings) (file : String)
    (output : Option String) (text : String) : Prop where
  understood : ∃ verbosity, readArguments arguments = .ok ⟨verbosity, .assemble file output⟩
  text : around.files.readText file = .ok text
  writable : ∃ place, around.files.target (outputPath file output) = .ok place ∧
    around.files.locate file ≠ .ok place

section Commands

variable [Allocator]

/-- An invocation succeeds and leaves a file with these contents at a path. -/
def Saves (arguments : List String) (around : Surroundings) (path : String)
    (contents : ByteArray) : Prop :=
  ∃ report, (∀ fuel, invoke fuel arguments around = some report) ∧ report.status.code = 0 ∧
    report.files.read path = .ok contents

/-- The commands `disassemble` and `run` load a program from a file: the first one prints the
listing of just this program, and the second one runs the machine with just this program in it. -/
structure Accepts (around : Surroundings) (file : String) (p : Program) : Prop where
  listed : ∀ {arguments verbosity}, readArguments arguments = .ok ⟨verbosity, .disassemble file⟩ →
    around.output.limit = none → ∃ report, (∀ fuel, invoke fuel arguments around = some report) ∧
      report.status.code = 0 ∧
      report.output.text = around.output.text ++ Assembly.disassemble p
  ran : ∀ {arguments verbosity options m},
    readArguments arguments = .ok ⟨verbosity, .run options⟩ → options.file = file →
    Machine.withOverrides p options.overrides = .ok m →
    ∀ fuel, invoke fuel arguments around =
      ((startSession ⟨verbosity, .run options⟩ m p.words.length
        ⟨options.inputs, options.lines around.stdin, none⟩ around.output).run fuel).map
          around.conclude

/-- The commands `disassemble` and `run` give up since there is no program in a file. -/
def Rejects (around : Surroundings) (file : String) : Prop :=
  ∀ arguments request, readArguments arguments = .ok request →
    (request.order = .disassemble file ∨
      ∃ options, request.order = .run options ∧ options.file = file) →
    ∃ report, (∀ fuel, invoke fuel arguments around = some report) ∧ report.status.code = 1 ∧
      ErrorLine.messages report.errors = [emptyMessage file] ∧ report.output = around.output

variable {arguments : List String} {around : Surroundings} {file : String}
  {output : Option String} {text : String} {p : Program}

/-- A path to another place is not spelt like that of the text, so the program is written. -/
theorem Translates.saves (h : Translates arguments around file output text)
    (hassemble : Assembly.assemble text = .ok p) :
    Saves arguments around (outputPath file output) (savedText p).toUTF8 := by
  obtain ⟨verbosity, hread⟩ := h.understood
  obtain ⟨place, htarget, hother⟩ := h.writable
  obtain ⟨hwalk, -, -, -, -, -, -, hplace⟩ := FileTree.of_target htarget
  obtain ⟨contents, hcontents, -⟩ := FileTree.readText_eq_ok.mp h.text
  obtain ⟨source, hsource, -⟩ := FileTree.read_eq_ok.mp hcontents
  have hapart : Path.alike (outputPath file output) file = false := by
    rw [Bool.eq_false_iff]
    intro halike
    rw [FileTree.eq_of_alike halike hwalk hsource] at hother
    exact hother hsource
  have hassembles : Assembles arguments around ⟨verbosity, .assemble file output⟩ file output p :=
    ⟨hread, rfl, ⟨text, h.text, hassemble⟩, hapart⟩
  have hwritten : around.files.write (outputPath file output) (savedText p).toUTF8 =
      .ok (around.files.put place (.file (savedText p).toUTF8)) :=
    FileTree.write_eq_ok.mpr ⟨place, htarget, rfl⟩
  exact ⟨_, fun fuel => invoke_eq_some_iff.mpr (.saved hassembles hwritten), rfl,
    FileTree.read_put_self hwalk hplace _⟩

/-- **A file with a program** is accepted, if the program has a word. -/
theorem accepts_of_read (h : around.files.read file = .ok (savedText p).toUTF8)
    (hne : p.words ≠ []) : Accepts around file p where
  listed := by
    intro arguments verbosity hread hopen
    have hlists : Lists arguments around ⟨verbosity, .disassemble file⟩ file p :=
      ⟨hread, rfl, savedText p, FileTree.readText_of_read h, parse_savedText hne⟩
    have hprinted := Output.pushAll_of_unlimited hopen (listing p)
    refine ⟨_, fun fuel => invoke_eq_some_iff.mpr (.printed hlists hprinted), rfl, ?_⟩
    rw [← join_listing]
    exact Output.text_append around.output _
  ran := by
    rintro arguments verbosity options m hread rfl hpatched fuel
    have hlaunches : Launches arguments around ⟨verbosity, .run options⟩ options p m :=
      ⟨hread, rfl, ⟨savedText p, FileTree.readText_of_read h, parse_savedText hne⟩, hpatched⟩
    exact hlaunches.invoke_eq fuel

/-- **A file with the empty program** is rejected. -/
theorem rejects_of_read (h : around.files.read file = .ok (savedText p).toUTF8)
    (hnil : p.words = []) : Rejects around file := by
  intro arguments request hread horder
  have htext : programOf file (around.files.readText file) = .error (emptyMessage file) := by
    rw [FileTree.readText_of_read h, programOf_saved, if_pos hnil]
  -- both commands load the program first, and nothing else tells them apart
  have hplan : request.order.plan (around.files.readText request.order.file) =
      .giveUp (emptyMessage file) := by
    rcases horder with horder | ⟨options, horder, rfl⟩
    · rw [horder]
      show planDisassemble file (around.files.readText file) = _
      unfold planDisassemble
      rw [htext]
    · rw [horder]
      show planRun options (around.files.readText options.file) = _
      unfold planRun
      rw [htext]
  refine ⟨_, fun fuel => invoke_eq_some_iff.mpr (.gaveUp hread hplan), rfl, ?_, rfl⟩
  show ((Journal.start request.verbosity).say (emptyMessage file)).messages = _
  rw [Journal.messages_say, Journal.messages_start]
  rfl

/-- **The commands compose.** Let a text be assembled to another file.

* The command succeeds, and writes the words of the program with a line feed behind them.
* As long as the file has these contents, the program that is loaded from it is the one that was
  assembled, if and only if that one has a word. The other commands then accept the file; otherwise
  they give up with a message about an empty program source.
* What `disassemble` prints for a program with a word, saved and assembled to another file, leads
  to the same contents. -/
theorem commands_compose (h : Translates arguments around file output text)
    (hassemble : Assembly.assemble text = .ok p) :
    Saves arguments around (outputPath file output) (savedText p).toUTF8 ∧
    ∀ later : Surroundings,
      later.files.read (outputPath file output) = .ok (savedText p).toUTF8 →
      (∀ q, programOf (outputPath file output) (later.files.readText (outputPath file output)) =
        .ok q ↔ p.words ≠ [] ∧ q = p) ∧
      (p.words ≠ [] → Accepts later (outputPath file output) p) ∧
      (p.words = [] → Rejects later (outputPath file output)) ∧
      (p.words ≠ [] → ∀ arguments' verbosity fuel listed,
        readArguments arguments' = .ok ⟨verbosity, .disassemble (outputPath file output)⟩ →
        later.output = .unlimited → invoke fuel arguments' later = some listed →
        ∀ again around' file' output', Translates again around' file' output' listed.output.text →
          Saves again around' (outputPath file' output') (savedText p).toUTF8) := by
  refine ⟨h.saves hassemble, fun later hfile => ⟨?_, fun hne => accepts_of_read hfile hne,
    fun hnil => rejects_of_read hfile hnil, ?_⟩⟩
  · intro q
    rw [FileTree.readText_of_read hfile, programOf_saved]
    by_cases hnil : p.words = []
    · simp [hnil]
    · simp [hnil, eq_comm]
  · intro hne arguments' verbosity fuel listed hread hopen hlisted again around' file' output'
      hagain
    obtain ⟨report, hreport, -, htext⟩ :=
      (accepts_of_read hfile hne).listed hread (by rw [hopen]; rfl)
    obtain rfl := Option.some.inj (hlisted.symm.trans (hreport fuel))
    -- the listing assembles to the words of its statements, which are those of the program
    have hback : Assembly.assemble listed.output.text = .ok p := by
      rw [htext, hopen]
      show Assembly.assemble ("" ++ Assembly.disassemble p) = _
      rw [String.empty_append]
      unfold Assembly.disassemble
      rw [Assembly.assemble_renderStatements fun s hs => Assembly.wellFormed_of_mem_statements hs,
        Assembly.flatMap_words_statements]
    exact hagain.saves hback

end Commands

/-- A file with a text that has no statement. -/
def remark : Surroundings :=
  ⟨FileTree.empty.addFile (.ofNames ["a.asm".toList]) "; nothing".toUTF8, .empty, .unlimited⟩

/-- A program of one word is accepted, and its listing assembles to the same file again. A text of
a comment alone can be assembled too, but the file with the empty program is refused. -/
theorem commands_compose_halt :
    (∃ saved, invoke 0 ["assemble", "a.asm"] halting = some saved ∧
      saved.files.read "a.int" = .ok "99\n".toUTF8 ∧
      Accepts { halting with files := saved.files } "a.int" ⟨[99]⟩ ∧
      ∃ listed, invoke 0 ["disassemble", "a.int"] { halting with files := saved.files } =
        some listed ∧ listed.output.text = "HALT\n" ∧
        Saves ["assemble", "b.asm", "-o", "b"]
          { halting with files :=
              saved.files.put (.ofNames ["b.asm".toList]) (.file listed.output.text.toUTF8) }
          "b" "99\n".toUTF8) ∧
    ∃ saved, invoke 0 ["assemble", "a.asm"] remark = some saved ∧
      saved.files.read "a.int" = .ok "\n".toUTF8 ∧
      Rejects { remark with files := saved.files } "a.int" := by
  have hhalting : Translates ["assemble", "a.asm"] halting "a.asm" none "HALT" :=
    ⟨⟨.quiet, rfl⟩, rfl, .ofNames ["a.int".toList], rfl, by rintro ⟨⟩⟩
  have hremark : Translates ["assemble", "a.asm"] remark "a.asm" none "; nothing" :=
    ⟨⟨.quiet, rfl⟩, rfl, .ofNames ["a.int".toList], rfl, by rintro ⟨⟩⟩
  have hreport : invoke 0 ["assemble", "a.asm"] halting = some
      { status := .success, output := .unlimited, errors := [.message "assembled 1 words -> a.int"],
        files := halting.files.put (.ofNames ["a.int".toList]) (.file "99\n".toUTF8),
        refusal := none } := rfl
  refine ⟨?_, ?_⟩
  · obtain ⟨⟨saved, hsaved, -, hfile⟩, hlater⟩ := commands_compose (p := ⟨[99]⟩) hhalting rfl
    obtain rfl := Option.some.inj (hreport.symm.trans (hsaved 0))
    obtain ⟨-, haccepts, -, hagain⟩ := hlater { halting with files := _ } hfile
    have haccepted := haccepts (by decide)
    obtain ⟨listed, hlisted, -, htext⟩ := haccepted.listed
      (show readArguments ["disassemble", "a.int"] = .ok ⟨.quiet, .disassemble "a.int"⟩ from rfl)
      rfl
    have htext' : listed.output.text = "HALT\n" := htext
    refine ⟨_, hreport, hfile, haccepted, listed, hlisted 0, htext', ?_⟩
    refine hagain (by decide) _ .quiet 0 listed rfl rfl (hlisted 0) _ _ "b.asm" (some "b") ?_
    rw [htext']
    exact ⟨⟨.quiet, rfl⟩, rfl, .ofNames ["b".toList], rfl, by rintro ⟨⟩⟩
  · obtain ⟨⟨saved, hsaved, -, hfile⟩, hlater⟩ := commands_compose (p := ⟨[]⟩) hremark rfl
    obtain ⟨-, -, hrejects, -⟩ := hlater { remark with files := saved.files } hfile
    exact ⟨saved, hsaved 0, hfile, hrejects rfl⟩

end Intcode.Command
