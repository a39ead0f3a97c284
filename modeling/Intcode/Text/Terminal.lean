import Intcode.Text.Quoted

/-!
# Terminals

Text that came from outside may hold characters that a terminal takes for commands. There are two
ways to make it harmless: `silence` leaves the commands out, `disarm` writes them by their codes.
-/

namespace Intcode.Text

/-- The character that starts a command to a terminal. -/
def escapeCharacter : Char := '\x1b'

/-- Whether a control character has no width: it is none of the tab, line feed, form feed and
carriage return, which only move. -/
def isMute (c : Char) : Bool :=
  let n := c.toNat
  n == 0x7F || (n < 0x20 && n != 0x09 && n != 0x0A && n != 0x0C && n != 0x0D)

/-- How far a command has been read. -/
inductive CommandState where
  /-- No command has started. -/
  | outside
  /-- The escape character has been read. -/
  | escaped
  /-- A command with parameters has started. -/
  | parameters
  deriving DecidableEq, Repr

/-- The state after a character, and whether the character is shown. -/
def CommandState.next (state : CommandState) (c : Char) : CommandState × Bool :=
  let n := c.toNat
  if c = escapeCharacter then (.escaped, false)
  else
    match state with
    | .outside => (.outside, !isMute c)
    | .escaped =>
      if c = '[' then (.parameters, false)
      else if n < 0x30 then (.escaped, false)
      else (.outside, false)
    | .parameters => (if 0x40 ≤ n ∧ n ≤ 0x7E then .outside else .parameters, false)

/-- Leaves out the commands, given how far one has been read. -/
def silenceFrom (state : CommandState) : List Char → List Char
  | [] => []
  | c :: cs =>
    match state.next c with
    | (state, true) => c :: silenceFrom state cs
    | (state, false) => silenceFrom state cs

/-- A text without the commands in it. -/
def silence (s : String) : String := String.ofList (silenceFrom .outside s.toList)

/-- Writes a character that could be part of a command by its code. -/
def disarmChar (c : Char) : List Char :=
  let n := c.toNat
  if n == 0x07 || n == 0x08 || n == 0x0C || n == 0x1B || n == 0x7F then
    ['\\', 'x'] ++ (if n < 16 then ['0'] else []) ++ Nat.toDigits 16 n
  else if 0x80 ≤ n && n ≤ 0x9F then escapeCodePoint c
  else [c]

/-- A text with the commands in it written by their codes. -/
def disarm (s : String) : String := String.ofList (s.toList.flatMap disarmChar)

end Intcode.Text
