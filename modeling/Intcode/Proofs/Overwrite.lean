import Mathlib.Data.List.TakeWhile
import Intcode.Proofs.Invocation
import Intcode.Proofs.Place

/-!
# Assembling a file onto itself

The command `assemble` does not write to a path that is spelt like that of its text. Which file a
path leads to is a matter of the file tree, though, and a text whose file has another spelling is
replaced by its own program.

* `Path.withExtension_cases`, `Path.pieces_withExtension` — the path with another extension, by its
  pieces;
* `FileTree.walk_put`, `FileTree.target_inv` — what a write leaves alone, and where it goes;
* `FileTree.Disguises` — a path leads to a file and is not spelt like it;
* `FileTree.not_disguises_withExtension` — the path with another extension is no disguise;
* `assemble_source` — the main statement;
* `assemble_source_lost` — a text is lost.
-/

namespace Intcode.Command

/-! ### Pieces of paths

The path for the program is made from the path of the text by taking the text of its last name
apart. To say where it leads, it has to be known by its pieces: it has those of the path of the
text, with another last name and nothing behind it. -/

/-- There is no separator in a piece. -/
theorem notMem_of_mem_splitOn {sep : Char} {cs piece : List Char} (h : piece ∈ cs.splitOn sep) :
    sep ∉ piece := by
  induction cs generalizing piece with
  | nil =>
    rw [List.splitOn_nil, List.mem_singleton] at h
    rw [h]
    exact List.not_mem_nil
  | cons c cs ih =>
    rw [List.splitOn_cons_eq_if_modifyHead] at h
    split at h
    · rcases List.mem_cons.mp h with rfl | hmem
      · exact List.not_mem_nil
      · exact ih hmem
    · next hc =>
      cases hsplit : cs.splitOn sep with
      | nil => exact absurd hsplit (List.splitOn_ne_nil sep cs)
      | cons first rest =>
        -- the character goes to the first piece, and is no separator
        rw [hsplit] at h ih
        rcases List.mem_cons.mp h with rfl | hmem
        · rintro (_ | ⟨_, hmem⟩)
          · exact hc (beq_self_eq_true _)
          · exact ih (List.mem_cons_self ..) hmem
        · exact ih (List.mem_cons_of_mem _ hmem)

namespace Path

theorem pieces_intercalate {ps : List Piece} (h : ∀ piece ∈ ps, '/' ∉ piece) (hne : ps ≠ []) :
    pieces (String.ofList (['/'].intercalate ps)) = ps := by
  unfold pieces
  rw [String.toList_ofList]
  exact List.splitOn_intercalate '/' h hne

/-- A path starts at the root if its first piece is empty and is not the only one. -/
theorem isAbsolute_iff {path : String} :
    isAbsolute path = true ↔ ∃ piece rest, pieces path = [] :: piece :: rest := by
  unfold isAbsolute pieces
  cases path.toList with
  | nil => simp
  | cons c cs =>
    rw [List.splitOn_cons_eq_if_modifyHead]
    cases hsplit : cs.splitOn '/' with
    | nil => exact absurd hsplit (List.splitOn_ne_nil '/' cs)
    | cons first rest =>
      by_cases hc : c = '/'
      · simp [hc]
      · simp [hc]

/-- A stem is the beginning of its name. -/
theorem stem?_isPrefix {name stem : Piece} (h : stem? name = some stem) : stem <+: name := by
  unfold stem? at h
  split at h
  · next dot c rest heq =>
    cases h
    have hsuffix : c :: rest <:+ name.reverse :=
      (List.suffix_cons dot _).trans (heq ▸ List.dropWhile_suffix _)
    simpa using List.reverse_prefix.mpr hsuffix
  · cases h

theorem renamed_ne_nil (name extension : Piece) (closed : Bool) :
    renamed name extension closed ≠ [] := by
  unfold renamed
  split
  · simp
  · split
    · exact List.cons_ne_nil _ _
    · simp

theorem slash_notMem_renamed {name extension : Piece} (hname : '/' ∉ name)
    (hextension : '/' ∉ extension) (closed : Bool) : '/' ∉ renamed name extension closed := by
  unfold renamed
  split
  · simp [hname, hextension]
  · next stem hstem =>
    have hstem : '/' ∉ stem := fun hmem => hname ((stem?_isPrefix hstem).mem hmem)
    split
    · decide
    · simp [hstem, hextension]

/-- A path keeps its spelling, or its last name is replaced and everything behind that goes away. -/
theorem withExtension_cases (path extension : String) :
    withExtension path extension = path ∨
    ∃ front name idle, pieces path = front ++ name :: idle ∧ (∀ piece ∈ idle, isIdle piece) ∧
      isIdle name = false ∧ name ≠ above ∧
      withExtension path extension = String.ofList (['/'].intercalate
        (front ++ [renamed name extension.toList (!idle.isEmpty)])) := by
  unfold withExtension
  dsimp only
  split
  · exact Or.inl rfl
  · next name front hdrop =>
    split
    · exact Or.inl rfl
    · next habove =>
      -- the path is looked at from its end, so `front` has the pieces in reverse order
      have hsplit : (pieces path).reverse = (pieces path).reverse.takeWhile isIdle ++ name :: front :=
        hdrop ▸ List.takeWhile_append_dropWhile.symm
      have hname : isIdle name = false := by
        have hhead := List.head_dropWhile_not isIdle (hdrop ▸ List.cons_ne_nil name front)
        simpa [hdrop] using hhead
      refine Or.inr ⟨front.reverse, name, ((pieces path).reverse.takeWhile isIdle).reverse, ?_, ?_,
        hname, habove, ?_⟩
      · have hpieces := congrArg List.reverse hsplit
        simpa using hpieces
      · intro piece hpiece
        exact List.mem_takeWhile_imp (List.mem_reverse.mp hpiece)
      · simp

/-- The path with another extension, by its pieces: it starts where the path starts, and leads to a
name in the directory that the path leads to a name in. -/
theorem pieces_withExtension (path : String) {extension : String}
    (h : '/' ∉ extension.toList) :
    withExtension path extension = path ∨
    ∃ front name name' idle, pieces path = front ++ name :: idle ∧
      (∀ piece ∈ idle, isIdle piece) ∧ isIdle name = false ∧ name ≠ above ∧
      pieces (withExtension path extension) = front ++ [name'] ∧
      isAbsolute (withExtension path extension) = isAbsolute path := by
  refine (withExtension_cases path extension).imp_right ?_
  rintro ⟨front, name, idle, hpieces, hidle, hname, habove, heq⟩
  have hslash : ∀ piece ∈ front ++ name :: idle, '/' ∉ piece := by
    intro piece hpiece
    rw [← hpieces] at hpiece
    exact notMem_of_mem_splitOn hpiece
  have hpieces' : pieces (withExtension path extension) =
      front ++ [renamed name extension.toList (!idle.isEmpty)] := by
    rw [heq]
    refine pieces_intercalate ?_ (List.append_ne_nil_of_right_ne_nil _ (List.cons_ne_nil _ _))
    intro piece hpiece
    rcases List.mem_append.mp hpiece with hmem | hmem
    · exact hslash piece (List.mem_append_left _ hmem)
    · rw [List.mem_singleton.mp hmem]
      exact slash_notMem_renamed (hslash name (by simp)) h _
  refine ⟨front, name, _, idle, hpieces, hidle, hname, habove, hpieces', ?_⟩
  rw [Bool.eq_iff_iff, isAbsolute_iff, isAbsolute_iff, hpieces, hpieces']
  cases front with
  | nil =>
    -- neither starts with an empty piece
    have hne : name ≠ [] := by
      rintro rfl
      cases hname
    simp [hne, renamed_ne_nil]
  | cons piece front => cases front <;> simp

theorem alike_iff {a b : String} : alike a b = true ↔ spelling a = spelling b :=
  beq_iff_eq

end Path

/-! ### Walking and writing

A path is walked piece by piece, through directories. A write puts a file in one place, where there
has been no directory, and so it changes no walk but only what is found at the end of one. -/

namespace FileTree

open Intcode.Command.Path (Piece)

variable {t : FileTree} {p q place : Place}

theorem walk_cons_eq_ok {piece : Piece} {pieces : List Piece} :
    t.walk p (piece :: pieces) = .ok q ↔
      ∃ next, t.walkPiece p piece = .ok next ∧ t.walk next pieces = .ok q :=
  bind_eq_ok

/-- A walk can be interrupted anywhere. -/
theorem walk_append_eq_ok {front rest : List Piece} :
    t.walk p (front ++ rest) = .ok q ↔
      ∃ next, t.walk p front = .ok next ∧ t.walk next rest = .ok q := by
  -- by induction on the pieces in front, since the walk fails at the first one that leads nowhere
  induction front generalizing p with
  | nil =>
    constructor
    · intro h
      exact ⟨p, rfl, h⟩
    · rintro ⟨_, hnil, h⟩
      cases hnil
      exact h
  | cons piece front ih =>
    rw [List.cons_append, walk_cons_eq_ok]
    constructor
    · rintro ⟨next, hpiece, hrest⟩
      obtain ⟨last, hfront, hlast⟩ := ih.mp hrest
      exact ⟨last, walk_cons_eq_ok.mpr ⟨next, hpiece, hfront⟩, hlast⟩
    · rintro ⟨last, hfront, hlast⟩
      obtain ⟨next, hpiece, hfront⟩ := walk_cons_eq_ok.mp hfront
      exact ⟨next, hpiece, ih.mpr ⟨last, hfront, hlast⟩⟩

theorem enter_eq_ok : t.enter p = .ok () ↔ t.node? p = some .directory := by
  unfold enter
  rcases t.node? p with _ | _ | _ <;> simp

/-- A piece is taken from a directory only. -/
theorem walkPiece_eq_ok {piece : Piece} :
    t.walkPiece p piece = .ok q ↔ t.node? p = some .directory ∧
      p.follow t.home piece = q := by
  rw [← enter_eq_ok]
  refine bind_eq_ok.trans ?_
  constructor
  · rintro ⟨_, henter, h⟩
    exact ⟨henter, Except.ok.inj h⟩
  · rintro ⟨henter, rfl⟩
    exact ⟨(), henter, rfl⟩

/-- Pieces that lead nowhere lead to where they start. -/
theorem walk_idle {pieces : List Piece} (h : ∀ piece ∈ pieces, Path.isIdle piece)
    (hwalk : t.walk p pieces = .ok q) : q = p := by
  induction pieces with
  | nil =>
    cases hwalk
    rfl
  | cons piece pieces ih =>
    obtain ⟨next, hpiece, hrest⟩ := walk_cons_eq_ok.mp hwalk
    obtain ⟨-, hnext⟩ := walkPiece_eq_ok.mp hpiece
    rw [Place.follow_of_isIdle (h piece (List.mem_cons_self ..))] at hnext
    rw [← hnext] at hrest
    exact ih (fun piece hmem => h piece (List.mem_cons_of_mem _ hmem)) hrest

/-- A write leaves the directories alone, so every walk leads to where it led before. -/
theorem walk_put (hplace : t.node? place ≠ some .directory) (node : Node) {pieces : List Piece}
    (h : t.walk p pieces = .ok q) : (t.put place node).walk p pieces = .ok q := by
  induction pieces generalizing p with
  | nil => exact h
  | cons piece pieces ih =>
    obtain ⟨next, hpiece, hrest⟩ := walk_cons_eq_ok.mp h
    obtain ⟨hdirectory, hnext⟩ := walkPiece_eq_ok.mp hpiece
    -- the walk goes on from directories only, and a directory is not what is replaced
    have hne : p ≠ place := by
      rintro rfl
      exact hplace hdirectory
    have hdirectory' : (t.put place node).node? p = some .directory := by
      rw [node?_put_of_ne t node hne, hdirectory]
    exact walk_cons_eq_ok.mpr ⟨next, walkPiece_eq_ok.mpr ⟨hdirectory', hnext⟩, ih hrest⟩

/-- A write puts a file under a name in a directory, where there is no directory, and the path leads
to it. -/
theorem of_target {path : String} (h : t.target path = .ok place) :
    t.locate path = .ok place ∧
      ∃ front name directory, Path.pieces path = front ++ [name] ∧
        t.walk (.start t.home path) front = .ok directory ∧ place = directory.child t.home name ∧
        t.node? place ≠ some .directory := by
  unfold target at h
  dsimp only at h
  split at h
  · cases h
  · next name front hdrop =>
    obtain ⟨directory, hwalk, h⟩ := bind_eq_ok.mp h
    obtain ⟨_, henter, h⟩ := bind_eq_ok.mp h
    split at h
    · cases h
    · next hlast =>
      push Not at hlast
      obtain ⟨hhere, habove, hclosed⟩ := hlast
      -- no slash stands behind the name, so it is the last piece
      have hpieces : Path.pieces path = front.reverse ++ [name] := by
        have hsplit : (Path.pieces path).reverse.takeWhile (·.isEmpty) ++
            (Path.pieces path).reverse.dropWhile (·.isEmpty) = (Path.pieces path).reverse :=
          List.takeWhile_append_dropWhile
        rw [hclosed, hdrop, List.nil_append] at hsplit
        simpa using congrArg List.reverse hsplit.symm
      have hname : Path.isIdle name = false := by
        have hhead := List.head_dropWhile_not (fun piece : Piece => piece.isEmpty)
          (hdrop ▸ List.cons_ne_nil name front)
        simp only [hdrop, List.head_cons] at hhead
        simp [Path.isIdle, hhead, hhere]
      have hpiece : t.walkPiece directory name = .ok (directory.child t.home name) := by
        exact walkPiece_eq_ok.mpr ⟨enter_eq_ok.mp henter, Place.follow_of_name hname habove⟩
      split at h
      · cases h
      · next hnode =>
        cases h
        refine ⟨?_, _, name, directory, hpieces, hwalk, rfl, hnode⟩
        rw [locate, hpieces, walk_append_eq_ok]
        exact ⟨directory, hwalk, walk_cons_eq_ok.mpr ⟨_, hpiece, rfl⟩⟩

/-- The place of a write is that of a name in a directory. -/
theorem target_inv {path : String} (h : t.target path = .ok place) :
    ∃ front name directory, Path.pieces path = front ++ [name] ∧
      t.walk (.start t.home path) front = .ok directory ∧ place = directory.child t.home name ∧
      t.node? place ≠ some .directory :=
  (of_target h).2

theorem write_eq_ok {path : String} {contents : ByteArray} {t' : FileTree} :
    t.write path contents = .ok t' ↔
      ∃ place, t.target path = .ok place ∧ t.put place (.file contents) = t' := by
  refine bind_eq_ok.trans (exists_congr fun place => and_congr_right fun _ => ?_)
  exact ⟨Except.ok.inj, congrArg Except.ok⟩

/-- A read that succeeds finds a file in the place of its path. -/
theorem read_eq_ok {path : String} {contents : ByteArray} :
    t.read path = .ok contents ↔ ∃ place, t.locate path = .ok place ∧
      t.node? place = some (.file contents) := by
  refine bind_eq_ok.trans (exists_congr fun place => and_congr_right fun _ => ?_)
  rcases t.node? place with _ | _ | present
  · simp
  · simp
  · simp [pure, Except.pure]

theorem readText_eq_ok {path text : String} :
    t.readText path = .ok text ↔
      ∃ contents, t.read path = .ok contents ∧ textOf contents = .ok text :=
  bind_eq_ok

/-- What is read at a path, by what there is at the place that it leads to. -/
theorem read_of_walk {path : String} (h : t.locate path = .ok q) :
    t.read path =
      match t.node? q with
      | some (.file contents) => .ok contents
      | some .directory => .error .isDirectory
      | none => .error .missing := by
  unfold read
  rw [h]
  rfl

/-- A write is not seen at a path that leads to another place. -/
theorem read_put_of_ne {path : String} (h : t.locate path = .ok q)
    (hplace : t.node? place ≠ some .directory) (hne : q ≠ place) (node : Node) :
    (t.put place node).read path = t.read path := by
  rw [read_of_walk h, read_of_walk (walk_put hplace node h), node?_put_of_ne t node hne]

/-- A write is seen at every path that leads to its place. -/
theorem read_put_self {path : String} (h : t.locate path = .ok place)
    (hplace : t.node? place ≠ some .directory) (contents : ByteArray) :
    (t.put place (.file contents)).read path = .ok contents := by
  rw [read_of_walk (walk_put hplace _ h), node?_put_self t _ (names_ne_nil hplace)]

/-! ### Disguises

Where a path leads depends on the tree, and how it is spelt does not. The path that is made from the
path of the text leads to another name in the same directory, and this is all that keeps it from
being a disguise. -/

/-- A path leads to the file that another one names, and is not spelt like it. -/
def Disguises (t : FileTree) (path file : String) : Prop :=
  Path.alike path file = false ∧
    ∃ place, t.locate file = .ok place ∧ t.target path = .ok place

/-- The path with another extension is spelt like the path, or leads to another file. -/
theorem not_disguises_withExtension {file extension : String} (h : '/' ∉ extension.toList) :
    ¬ t.Disguises (Path.withExtension file extension) file := by
  rintro ⟨halike, place, hwalk, htarget⟩
  rw [Bool.eq_false_iff] at halike
  refine halike (Path.alike_iff.mpr ?_)
  rcases Path.pieces_withExtension file h with
    hsame | ⟨front, name, name', idle, hpieces, hidle, hname, habove, hpieces', habsolute⟩
  · rw [hsame]
  · obtain ⟨front', name'', directory, hlast, hdirectory, rfl, -⟩ := target_inv htarget
    rw [hpieces'] at hlast
    obtain ⟨rfl, hone⟩ := List.append_inj' hlast rfl
    cases hone
    -- both lead to a name in one directory, so to one name
    have hstart : Place.start t.home (Path.withExtension file extension) =
        Place.start t.home file := by
      unfold Place.start
      rw [habsolute]
    rw [hstart] at hdirectory
    rw [locate, hpieces] at hwalk
    obtain ⟨directory', hfront, hrest⟩ := walk_append_eq_ok.mp hwalk
    cases hdirectory.symm.trans hfront
    obtain ⟨next, hpiece, hbehind⟩ := walk_cons_eq_ok.mp hrest
    obtain ⟨-, hnext⟩ := walkPiece_eq_ok.mp hpiece
    rw [Place.follow_of_name hname habove] at hnext
    rw [← hnext] at hbehind
    have hchild := congrArg (Place.absolute t.home) (walk_idle hidle hbehind)
    rw [Place.absolute_child, Place.absolute_child] at hchild
    obtain ⟨rfl, -⟩ := List.cons.inj hchild
    have hnone : idle.filter (fun piece => !Path.isIdle piece) = [] := by
      rw [List.filter_eq_nil_iff]
      intro piece hmem
      simp [hidle piece hmem]
    unfold Path.spelling
    rw [habsolute, hpieces, hpieces']
    cases front <;> simp [hname, hnone, List.filter_cons]

end FileTree

/-! ### The main statement

A command changes at most one place of the tree, and it does so only with a path that the guard has
let pass. -/

variable {arguments : List String} {around : Surroundings} {fuel : Nat} {report : Report}
  {request : Request} {file : String} {output : Option String}

/-- **The text of an assembly.** It stays as it is unless the path for the program leads to it and
is not spelt like it, whatever comes of the command. The path that is used when none is given never
does that. A text that can be assembled to a path which does is lost: its file has the program in it
then. -/
theorem assemble_source [Allocator] (h : invoke fuel arguments around = some report)
    (hread : readArguments arguments = .ok request)
    (horder : request.order = .assemble file output) :
    (¬ around.files.Disguises (outputPath file output) file →
      report.files.read file = around.files.read file) ∧
    (output = none → report.files.read file = around.files.read file) ∧
    ∀ text p, around.files.Disguises (outputPath file output) file →
      around.files.readText file = .ok text → Assembly.assemble text = .ok p →
      report.files.read file = .ok (savedText p).toUTF8 := by
  have hkept : ¬ around.files.Disguises (outputPath file output) file →
      report.files.read file = around.files.read file := by
    intro hdisguises
    cases invoke_eq_some_iff.mp h with
    | saved assembles written =>
      obtain ⟨place, htarget, rfl⟩ := FileTree.write_eq_ok.mp written
      cases hread.symm.trans assembles.understood
      cases horder.symm.trans assembles.order
      obtain ⟨text, htext, -⟩ := assembles.program
      obtain ⟨contents, hcontents, -⟩ := FileTree.readText_eq_ok.mp htext
      obtain ⟨q, hwalk, -⟩ := FileTree.read_eq_ok.mp hcontents
      obtain ⟨-, -, -, -, -, -, hplace⟩ := FileTree.target_inv htarget
      -- the guard has let the path pass, so only a disguise would lead to the text
      have hne : q ≠ place := by
        rintro rfl
        exact hdisguises ⟨assembles.apart, q, hwalk, htarget⟩
      exact FileTree.read_put_of_ne hwalk hplace hne _
    | refused | version | help | gaveUp | ran | printed | aborted | unsaved => rfl
  refine ⟨hkept, ?_, ?_⟩
  · rintro rfl
    exact hkept (FileTree.not_disguises_withExtension (by decide))
  · rintro text p ⟨hapart, place, hwalk, htarget⟩ htext hassemble
    have hassembles : Assembles arguments around request file output p :=
      ⟨hread, horder, ⟨text, htext, hassemble⟩, hapart⟩
    rw [hassembles.invoke_eq, FileTree.write_eq_ok.mpr ⟨place, htarget, rfl⟩] at h
    cases h
    obtain ⟨-, -, -, -, -, -, hplace⟩ := FileTree.target_inv htarget
    exact FileTree.read_put_self hwalk hplace _

/-- A file with a text that can be assembled, in the directory `/home/src`. -/
def halting : Surroundings :=
  ⟨FileTree.addFile { FileTree.empty with home := ["src".toList, "home".toList] }
    (.ofNames ["a.asm".toList]) "HALT".toUTF8, .empty, .unlimited⟩

/-- The text stays when the program goes to a file of its own. -/
theorem assemble_source_kept :
    ∃ report, invoke 0 ["assemble", "a.asm"] halting = some report ∧ report.status.code = 0 ∧
      report.files.read "a.int" = .ok "99\n".toUTF8 ∧
      report.files.read "a.asm" = halting.files.read "a.asm" := by
  have hreport : invoke 0 ["assemble", "a.asm"] halting = some
      { status := .success, output := .unlimited, errors := [.message "assembled 1 words -> a.int"],
        files := halting.files.put (.ofNames ["a.int".toList]) (.file "99\n".toUTF8),
        refusal := none } := rfl
  exact ⟨_, hreport, rfl, rfl, (assemble_source hreport rfl rfl).2.1 rfl⟩

/-- With a dot in front of its name, the file of the text is taken for another one. The command
succeeds, and the text is lost. It is also lost when its file is reached from the directory above,
or from the root. -/
theorem assemble_source_lost :
    halting.files.read "a.asm" = .ok "HALT".toUTF8 ∧
    ∀ output ∈ ["./a.asm", "../src/a.asm", "/home/src/a.asm"],
      ∃ report, invoke 0 ["assemble", "a.asm", "-o", output] halting = some report ∧
        report.status.code = 0 ∧ report.files.read "a.asm" = .ok "99\n".toUTF8 := by
  refine ⟨rfl, ?_⟩
  intro output houtput
  simp only [List.mem_cons, List.not_mem_nil, or_false] at houtput
  rcases houtput with rfl | rfl | rfl
  · exact ⟨_, rfl, rfl, rfl⟩
  · exact ⟨_, rfl, rfl, rfl⟩
  · exact ⟨_, rfl, rfl, rfl⟩

end Intcode.Command
