/-!
# Blanks

White space, and the two ways to take text apart that depend on it: cutting the blanks off both
ends of a text, and reading a text as a sequence of fields between separators.
-/

namespace Intcode.Text

/-- The characters with the Unicode property `White_Space`. -/
def isBlank (c : Char) : Bool :=
  let n := c.toNat
  (0x09 ≤ n && n ≤ 0x0D) || n == 0x20 || n == 0x85 || n == 0xA0 || n == 0x1680 ||
    (0x2000 ≤ n && n ≤ 0x200A) || n == 0x2028 || n == 0x2029 || n == 0x202F || n == 0x205F ||
    n == 0x3000

/-- Cuts the blanks off the front. -/
def trimLeft (cs : List Char) : List Char := cs.dropWhile isBlank

/-- Cuts the blanks off both ends. -/
def trim (cs : List Char) : List Char := (trimLeft (trimLeft cs).reverse).reverse

/-- The fields of a text: its longest runs of characters that are no separators. -/
def fields (isSeparator : Char → Bool) (cs : List Char) : List (List Char) :=
  (cs.splitOnP isSeparator).filter fun field => !field.isEmpty

/-- The lines of a text. A carriage return in front of a line feed stays on its line, where it is
a blank. -/
def lines (cs : List Char) : List (List Char) := cs.splitOn '\n'

end Intcode.Text
