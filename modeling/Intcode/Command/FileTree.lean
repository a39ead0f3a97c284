import Intcode.Command.Path

/-!
# File trees

Files and directories around a working directory, and what it means to read and to write a path.
A path is walked piece by piece, so a piece behind a file is an error even if it leads back.

A file has many paths: it may be reached from the working directory, from one above it by its own
name, or from the root. It has only one place, which tells where its way from the root leaves that
of the working directory. There are no links in a tree, so it is the names from the root that tell
files apart.
-/

namespace Intcode.Command

open Intcode.Command.Path (Piece)

/-! ### File errors

The texts are those of the system that the program runs on. A reason that a tree does not explain is
taken as it is given. -/

/-- Why a path can be neither read nor written. -/
inductive FileError where
  | missing
  | notDirectory
  | isDirectory
  /-- The contents are not the UTF-8 form of a text. -/
  | notText
  /-- The system has another reason. -/
  | refused (reason : String)
  deriving DecidableEq, Repr

/-- The text of a file error. -/
def FileError.message : FileError → String
  | .missing => "No such file or directory (os error 2)"
  | .notDirectory => "Not a directory (os error 20)"
  | .isDirectory => "Is a directory (os error 21)"
  | .notText => "stream did not contain valid UTF-8"
  | .refused reason => reason

/-! ### Places -/

/-- A directory on the way from the root to the working directory. -/
structure Anchor where
  up ::
  /-- How far it is above the working directory. -/
  levels : Nat
  deriving DecidableEq, Repr

/-- A place in the tree: the last directory of its way that is on the way to the working directory,
and the names that lead on from there, the last one first. -/
structure Place where
  anchor : Anchor
  names : List Piece
  deriving DecidableEq, Repr

namespace Place

/-- The working directory. -/
def working : Place := ⟨.up 0, []⟩

section Home

-- the names that lead from the root to the working directory, the last one first
variable (home : List Piece)

/-- The root. -/
def root : Place := ⟨.up home.length, []⟩

/-- The names that lead from the root to a place, the last one first. -/
def absolute : Place → List Piece
  | ⟨.up levels, names⟩ => names ++ home.drop levels

/-- The place with a name in a directory. A directory above the working one has the next one on the
way down as its child. -/
def child : Place → Piece → Place
  | ⟨anchor, first :: names⟩, name => ⟨anchor, name :: first :: names⟩
  | ⟨.up 0, []⟩, name => ⟨.up 0, [name]⟩
  | ⟨.up (levels + 1), []⟩, name =>
    if home[levels]? = some name then ⟨.up levels, []⟩ else ⟨.up (levels + 1), [name]⟩

/-- The directory above. The root has itself above it. -/
def parent : Place → Place
  | ⟨anchor, _ :: names⟩ => ⟨anchor, names⟩
  | ⟨.up levels, []⟩ => ⟨.up (min (levels + 1) home.length), []⟩

/-- Where a piece of a path leads to, if it can be taken. -/
def follow (p : Place) (piece : Piece) : Place :=
  if Path.isIdle piece then p
  else if piece = Path.above then p.parent home
  else p.child home piece

/-- The place where the walk along a path starts. -/
def start (path : String) : Place := if Path.isAbsolute path then root home else working

end Home

/-- The place that plain names lead to from the working directory. -/
def ofNames (names : List Piece) : Place := ⟨.up 0, names.reverse⟩

/-- The path of a place in the working directory. -/
def path (p : Place) : String := String.ofList (['/'].intercalate p.names.reverse)

end Place

/-! ### Trees

The directories that lead to the working one are there without being listed: only what lies off that
way is kept as a node. -/

/-- What there is at a place. -/
inductive Node where
  | directory
  | file (contents : ByteArray)

/-- The text that has these contents as its UTF-8 form. -/
def textOf (contents : ByteArray) : Except FileError String :=
  match String.fromUTF8? contents with
  | some text => .ok text
  | none => .error .notText

/-- A tree around a working directory. -/
structure FileTree where
  /-- The names that lead from the root to the working directory, the last one first. -/
  home : List Piece
  /-- The places that are taken, apart from those on the way to the working directory. -/
  nodes : List (Place × Node)

namespace FileTree

/-- A tree of the root alone, which is the working directory. -/
def empty : FileTree := ⟨[], []⟩

/-- What there is at a place. There are directories all along the way to the working directory. -/
def node? (t : FileTree) (p : Place) : Option Node :=
  if p.names.isEmpty then some .directory else t.nodes.lookup p

/-- The tree with something put at a place, instead of what was there. -/
def put (t : FileTree) (p : Place) (node : Node) : FileTree :=
  { t with nodes := (p, node) :: t.nodes.filter fun entry => entry.1 != p }

theorem names_ne_nil {t : FileTree} {p : Place} (h : t.node? p ≠ some .directory) :
    p.names ≠ [] := by
  rintro hnil
  exact h (by simp [node?, hnil])

theorem node?_put_self (t : FileTree) {p : Place} (node : Node) (h : p.names ≠ []) :
    (t.put p node).node? p = some node := by
  simp [node?, put, h]

/-- Leaving out the entries of one place does not change what is found for another. -/
theorem lookup_filter_ne {p q : Place} (h : q ≠ p) (nodes : List (Place × Node)) :
    (nodes.filter fun entry => entry.1 != p).lookup q = nodes.lookup q := by
  induction nodes with
  | nil => rfl
  | cons entry rest ih =>
    obtain ⟨place, node⟩ := entry
    by_cases hp : place = p
    · have hq : (q == place) = false := by simp [hp, h]
      rw [List.filter_cons_of_neg (by simp [hp]), List.lookup_cons, hq, ih]
    · rw [List.filter_cons_of_pos (by simp [hp]), List.lookup_cons, List.lookup_cons, ih]

theorem node?_put_of_ne (t : FileTree) {p q : Place} (node : Node) (h : q ≠ p) :
    (t.put p node).node? q = t.node? q := by
  unfold node? put
  have hq : (q == p) = false := by simp [h]
  rw [List.lookup_cons, hq, lookup_filter_ne h]

/-- The tree with directories at a place and all along the names that lead to it. -/
def addDirectories (t : FileTree) (anchor : Anchor) : List Piece → FileTree
  | [] => t
  | name :: names => (t.addDirectories anchor names).put ⟨anchor, name :: names⟩ .directory

/-- The tree with a directory at a place. -/
def addDirectory (t : FileTree) (p : Place) : FileTree := t.addDirectories p.anchor p.names

/-- The tree with a file at a place, and directories along the names that lead to it. -/
def addFile (t : FileTree) (p : Place) (contents : ByteArray) : FileTree :=
  (t.addDirectory (p.parent t.home)).put p (.file contents)

/-- The files of a tree. -/
def files (t : FileTree) : List (Place × ByteArray) :=
  t.nodes.filterMap fun
    | (p, .file contents) => some (p, contents)
    | (_, .directory) => none

/-- Whether there is a file with just these contents at a place. -/
def holds (t : FileTree) (p : Place) (contents : ByteArray) : Bool :=
  match t.node? p with
  | some (.file present) => present.data == contents.data
  | some .directory | none => false

/-- The files of a tree that were not there before, or with other contents. -/
def changes (before after : FileTree) : List (Place × ByteArray) :=
  after.files.filter fun (p, contents) => !before.holds p contents

/-! ### Walking along paths

A path is taken from the left, and each of its pieces needs a directory to be taken from, be it the
way back up. -/

/-- Demands that there is a directory at a place. -/
def enter (t : FileTree) (p : Place) : Except FileError Unit :=
  match t.node? p with
  | some .directory => .ok ()
  | some (.file _) => .error .notDirectory
  | none => .error .missing

/-- Takes one piece of a path from a place, which must be a directory. -/
def walkPiece (t : FileTree) (p : Place) (piece : Piece) : Except FileError Place := do
  t.enter p
  return p.follow t.home piece

/-- Takes pieces of a path from a place. There need not be anything at the place they lead to. -/
def walk (t : FileTree) (p : Place) : List Piece → Except FileError Place
  | [] => .ok p
  | piece :: rest => do
    let next ← t.walkPiece p piece
    t.walk next rest

/-- The place that a path leads to. -/
def locate (t : FileTree) (path : String) : Except FileError Place :=
  t.walk (.start t.home path) (Path.pieces path)

/-! ### Reading and writing

A read needs a file at the end of the way. A write needs no more than the directory that the last
name stands in, and may put a file there that was none. -/

/-- The contents of the file at a path. -/
def read (t : FileTree) (path : String) : Except FileError ByteArray := do
  let place ← t.locate path
  match t.node? place with
  | some (.file contents) => return contents
  | some .directory => .error .isDirectory
  | none => .error .missing

/-- The text of the file at a path. -/
def readText (t : FileTree) (path : String) : Except FileError String := do
  let contents ← t.read path
  textOf contents

/-- The place where a write to a path puts a file. The path must end in the name of one: with a
slash behind the name, or with a piece for a directory at the end, it can only mean a directory. -/
def target (t : FileTree) (path : String) : Except FileError Place := do
  let reversed := (Path.pieces path).reverse
  let closed := reversed.takeWhile (·.isEmpty)
  match reversed.dropWhile (·.isEmpty) with
  | [] => .error .isDirectory
  | name :: front =>
    let place ← t.walk (.start t.home path) front.reverse
    t.enter place
    if name = Path.here ∨ name = Path.above ∨ closed ≠ [] then .error .isDirectory
    else
      match t.node? (place.child t.home name) with
      | some .directory => .error .isDirectory
      | _ => return place.child t.home name

/-- Writes a file at a path, in place of the one that may be there. -/
def write (t : FileTree) (path : String) (contents : ByteArray) : Except FileError FileTree := do
  let place ← t.target path
  return t.put place (.file contents)

end FileTree

end Intcode.Command
