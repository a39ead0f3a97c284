import Intcode.Word

/-!
# Memory

Memory is a row of cells from address zero on, as many as have been needed so far, with an endless
row of zeros behind them. Reading never adds a cell. Writing adds the cells up to its address, and
is refused above a fixed greatest address; a negative address does not exist.

The room for new cells has to be asked for, and a write is also refused if the allocator does not
grant it. What the allocator answers is a parameter, an instance of `Allocator`: it may depend on the
memory that asks and on the number of cells. As long as a machine runs, every request of its memory
is for more cells than the ones before, and the first refusal ends the run, so one function says all
that an allocator can answer to one run. Where no other allocator is named, every request is granted.
That there is no room for a program when it is loaded is not modelled.

`Memory.cell` is the view: the value of the cell with a given index, whether it exists yet or not.
-/

namespace Intcode

/-- The address is refused: it is negative or, for a write, above the greatest one, or there is no
room for its cell. -/
structure AddressError where
  address : Word
  deriving DecidableEq, Repr

/-- The text of an address error. -/
def AddressError.message (e : AddressError) : String :=
  s!"invalid memory address {e.address.render}"

/-- The cells that exist. -/
structure Memory where
  cells : Array Word
  deriving DecidableEq, Repr, Inhabited

/-- What is answered to a memory that asks for room for so many cells in all. -/
class Allocator where
  grants : Memory → Nat → Bool

/-- The allocator that grants every request. -/
instance (priority := low) Allocator.granting : Allocator := ⟨fun _ _ => true⟩

/-- The allocator that grants this many cells in all and no more. -/
abbrev Allocator.upTo (bound : Nat) : Allocator := ⟨fun _ n => n ≤ bound⟩

namespace Memory

/-- The number of zero cells that are laid out behind a program. -/
def headroom : Nat := 2000

/-- The greatest address that can be written. -/
def maxAddress : Word := 16777215

/-- Memory without any cell. -/
def empty : Memory := ⟨#[]⟩

/-- Memory that holds these words and some room behind them. -/
def load (words : List Word) : Memory := ⟨words.toArray ++ Array.replicate headroom 0⟩

/-- The number of cells that exist. -/
def extent (m : Memory) : Nat := m.cells.size

/-- The value of the cell with this index. -/
def cell (m : Memory) (i : Nat) : Word := m.cells.getD i 0

/-- The value at an address. -/
def read (m : Memory) (address : Word) : Except AddressError Word :=
  if address < 0 then .error ⟨address⟩ else .ok (m.cell address.toNatClampNeg)

/-- Whether an address is one that can be written. -/
def isWritable (address : Word) : Bool := 0 ≤ address && address ≤ maxAddress

/-- Whether the cell with this index exists, or there is room for it. -/
def hasRoom [Allocator] (m : Memory) (i : Nat) : Bool :=
  i < m.extent || Allocator.grants m (i + 1)

/-- Whether a value can be written to an address now. -/
def accepts [Allocator] (m : Memory) (address : Word) : Bool :=
  isWritable address && m.hasRoom address.toNatClampNeg

/-- Sets the cell with this index, after adding the cells up to it. -/
def store (m : Memory) (i : Nat) (value : Word) : Memory :=
  if h : i < m.cells.size then
    ⟨m.cells.set i value⟩
  else
    ⟨(m.cells ++ Array.replicate (i - m.cells.size) 0).push value⟩

/-- Writes a value to an address. -/
def write [Allocator] (m : Memory) (address value : Word) : Except AddressError Memory :=
  if m.accepts address then .ok (m.store address.toNatClampNeg value) else .error ⟨address⟩

/-- The cells with an index below the bound in which two memories differ, with their values in the
second one, in front of `found`. -/
def differencesBelow (before after : Memory) : Nat → List (Nat × Word) → List (Nat × Word)
  | 0, found => found
  | i + 1, found =>
    let value := after.cell i
    differencesBelow before after i (if value = before.cell i then found else (i, value) :: found)

/-- The cells in which two memories differ, with their values in the second one, by ascending
index. -/
def differences (before after : Memory) : List (Nat × Word) :=
  differencesBelow before after (max before.extent after.extent) []

/-- The cells that are not zero, by ascending index. -/
def nonzero (m : Memory) : List (Nat × Word) := differences empty m

/-! ### Room

How a write ends, as one lemma for each answer. -/

theorem write_of_accepts [Allocator] {m : Memory} {address : Word} (value : Word)
    (h : m.accepts address) : m.write address value = .ok (m.store address.toNatClampNeg value) := by
  unfold write
  rw [if_pos h]

theorem write_of_not_accepts [Allocator] {m : Memory} {address : Word} (value : Word)
    (h : ¬ m.accepts address) : m.write address value = .error ⟨address⟩ := by
  unfold write
  rw [if_neg h]

/-- With every request granted, it is the address that decides. -/
theorem accepts_eq_isWritable (m : Memory) (address : Word) :
    m.accepts address = isWritable address := by
  have hroom : m.hasRoom address.toNatClampNeg = true := Bool.or_true _
  unfold accepts
  rw [hroom, Bool.and_true]

/-! ### The view

What can be read of a memory is its cells, of which all but finitely many are zero, and its extent.
The lemmas say of every memory that is made here what both are, so the arrays need not be opened
again. -/

@[simp] theorem cell_empty (i : Nat) : empty.cell i = 0 := by
  simp [cell, empty]

theorem cell_load (words : List Word) (i : Nat) : (load words).cell i = words.getD i 0 := by
  by_cases h : i < words.length
  · simp [cell, load, Array.getElem?_append, h]
  · by_cases h' : i - words.length < headroom <;>
      simp [cell, load, Array.getElem?_append, h, h']

@[simp] theorem extent_load (words : List Word) : (load words).extent = words.length + headroom := by
  simp [extent, load]

/-- Loaded memory as one list, in which a cell can be found without the cells behind it. -/
theorem load_eq_toArray (words : List Word) :
    load words = ⟨(words ++ List.replicate headroom 0).toArray⟩ := by
  unfold load
  simp

theorem extent_store (m : Memory) (i : Nat) (value : Word) :
    (m.store i value).extent = max m.extent (i + 1) := by
  unfold store extent
  split
  · simp; omega
  · simp; omega

theorem cell_store (m : Memory) (i : Nat) (value : Word) (j : Nat) :
    (m.store i value).cell j = if j = i then value else m.cell j := by
  unfold store cell
  simp only [Array.getD_eq_getD_getElem?]
  split
  · next h =>
    rw [Array.getElem?_set]
    by_cases hj : j = i
    · simp [hj]
    · simp [hj, Ne.symm hj]
  · next h =>
    have hsize : (m.cells ++ Array.replicate (i - m.cells.size) (0 : Word)).size = i := by
      simp; omega
    rw [Array.getElem?_push, hsize]
    by_cases hj : j = i
    · simp [hj]
    · rw [if_neg hj, if_neg hj, Array.getElem?_append, Array.getElem?_replicate]
      by_cases hs : j < m.cells.size
      · simp [hs]
      · by_cases hr : j - m.cells.size < i - m.cells.size <;> simp [hs, hr]

end Memory

end Intcode
