import Intcode.Instruction.Error

/-!
# Addressing modes

How an operand word is to be understood. `Mode.decode_eq_ok_iff` says that decoding a mode digit
inverts `Mode.code`.
-/

namespace Intcode

/-- How an operand leads to the cell it stands for. -/
inductive Mode where
  /-- The operand is the address of the cell. -/
  | position
  /-- The cell that holds the operand is meant. -/
  | immediate
  /-- The operand is the distance of the cell from the relative base. -/
  | relative
  deriving DecidableEq, Repr, Inhabited

namespace Mode

/-- The digit of a mode in an instruction word. -/
def code : Mode → Word
  | .position => 0
  | .immediate => 1
  | .relative => 2

/-- The name of a mode. -/
def name : Mode → String
  | .position => "position"
  | .immediate => "immediate"
  | .relative => "relative"

/-- The mode with this code. -/
def decode (code : Word) : Except DecodeError Mode :=
  if code = 0 then .ok .position
  else if code = 1 then .ok .immediate
  else if code = 2 then .ok .relative
  else .error (.invalidMode code)

/-- The mode of an operand whose digit is not given. -/
def fallback : Mode := .position

theorem decode_eq_ok_iff {w : Word} {mode : Mode} : decode w = .ok mode ↔ mode.code = w := by
  unfold decode
  constructor
  · intro h
    split at h
    · next hw => cases h; exact hw.symm
    · split at h
      · next hw => cases h; exact hw.symm
      · split at h
        · next hw => cases h; exact hw.symm
        · contradiction
  · rintro rfl
    cases mode <;> rfl

@[simp] theorem decode_code (mode : Mode) : decode mode.code = .ok mode :=
  decode_eq_ok_iff.mpr rfl

end Mode

end Intcode
