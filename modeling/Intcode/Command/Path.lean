/-!
# Paths

What can be said of a path from its text alone: the pieces between its slashes, whether two paths
are spelt alike, and the path with another extension. Which file a path leads to is a matter of the
file tree.
-/

namespace Intcode.Command.Path

/-- A piece of a path between two slashes. -/
abbrev Piece := List Char

/-- The piece for the directory itself. -/
def here : Piece := ['.']

/-- The piece for the directory above. -/
def above : Piece := ['.', '.']

/-- The pieces of a path, in order. -/
def pieces (path : String) : List Piece := path.toList.splitOn '/'

/-- Whether a path starts at the root. -/
def isAbsolute (path : String) : Bool := path.toList.head? == some '/'

/-- Whether a piece leads nowhere: it is empty or the directory itself. -/
def isIdle (piece : Piece) : Bool := piece.isEmpty || piece == here

/-- The spelling of a path without the differences that never matter: doubled and closing slashes,
and pieces for the directory itself except one at the very beginning. -/
structure Spelling where
  absolute : Bool
  startsHere : Bool
  names : List Piece
  deriving DecidableEq, Repr

/-- The spelling of a path. -/
def spelling (path : String) : Spelling :=
  { absolute := isAbsolute path
    startsHere := (pieces path).head? == some here
    names := (pieces path).filter fun piece => !isIdle piece }

/-- Whether two paths are spelt alike. Paths that are not may still lead to the same file. -/
def alike (a b : String) : Bool := spelling a == spelling b

/-- The part of a name in front of its last dot, unless there is no dot or nothing in front of
it. -/
def stem? (name : Piece) : Option Piece :=
  match name.reverse.dropWhile (· != '.') with
  | _dot :: c :: rest => some (c :: rest).reverse
  | _ => none

/-- A name with its extension replaced. The extension goes away first, and when that leaves the
directory above, it stays so; `closed` says that something stands behind the name, which then hides
that directory. -/
def renamed (name : Piece) (extension : List Char) (closed : Bool) : Piece :=
  match stem? name with
  | none => name ++ '.' :: extension
  | some stem => if stem == here && !closed then above else stem ++ '.' :: extension

/-- A path with the extension of its last name replaced. A path without a last name stays as it
is. -/
def withExtension (path : String) (extension : String) : String :=
  let reversed := (pieces path).reverse
  let idle := reversed.takeWhile isIdle
  match reversed.dropWhile isIdle with
  | [] => path
  | name :: front =>
    if name = above then path
    else
      let name := renamed name extension.toList (!idle.isEmpty)
      String.ofList (['/'].intercalate (name :: front).reverse)

end Intcode.Command.Path
