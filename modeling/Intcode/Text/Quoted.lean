import Intcode.Text.Unprintable

/-!
# Quoted text

A text between double quotes, as it is shown in messages and log lines. Quotes and backslashes are
escaped, the common control characters have letters of their own, and every other unprintable
character is written as its code point in hexadecimal.
-/

namespace Intcode.Text

/-- Writes a code point as `\u{…}` with lower-case hexadecimal digits. -/
def escapeCodePoint (c : Char) : List Char :=
  ['\\', 'u', '\x7b'] ++ Nat.toDigits 16 c.toNat ++ ['\x7d']

/-- The way a character is written between quotes. -/
def escape (c : Char) : List Char :=
  if c = '"' then ['\\', '"']
  else if c = '\\' then ['\\', '\\']
  else if c = '\x00' then ['\\', '0']
  else if c = '\t' then ['\\', 't']
  else if c = '\n' then ['\\', 'n']
  else if c = '\r' then ['\\', 'r']
  else if isUnprintable c then escapeCodePoint c
  else [c]

/-- A text between double quotes. -/
def quote (s : String) : String :=
  String.ofList ('"' :: s.toList.flatMap escape ++ ['"'])

end Intcode.Text
