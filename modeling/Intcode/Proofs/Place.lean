import Intcode.Command.FileTree

/-!
# One place for each file

A walk goes up and down, and may come to a file from the working directory, from above it, or from
the root. Whichever way it takes, it comes to one place, because going down along the way to the
working directory undoes going up. So places tell files apart just as the names from the root do,
and paths lead to one place if and only if they mean the same names.

* `Place.absolute_child`, `Place.parent_child` — a step down, and that a step up undoes it;
* `Place.ofAbsolute`, `Place.Proper` — the places that a walk can come to;
* `Place.Proper.follow` — a step along a path, by what it does to the names from the root;
* `Place.Proper.eq_of_absolute` — a proper place is told by its names from the root.
-/

namespace Intcode.Command

open Intcode.Command.Path (Piece)

/-- The names from the root, the last one first, after a piece of a path. -/
def Path.follow (names : List Piece) (piece : Piece) : List Piece :=
  if isIdle piece then names else if piece = above then names.tail else piece :: names

namespace Place

variable {home : List Piece} {p q : Place}

/-! ### Names from the root

The names of a place stand in front of those of its anchor, and a step down adds one name, also
where it leads back to a directory on the way to the working one. -/

/-- No name leads to the root. -/
theorem absolute_root (home : List Piece) : (root home).absolute home = [] := by
  show [] ++ home.drop home.length = []
  rw [List.drop_length]
  rfl

/-- The name of a child stands behind those of its directory. -/
theorem absolute_child (p : Place) (name : Piece) :
    (p.child home name).absolute home = name :: p.absolute home := by
  obtain ⟨⟨levels⟩, names⟩ := p
  cases names with
  | cons first names => rfl
  | nil =>
    cases levels with
    | zero => rfl
    | succ levels =>
      simp only [child]
      split
      · next hname =>
        -- the step goes back down, and the name is the one that was left out
        obtain ⟨hlt, rfl⟩ := List.getElem?_eq_some_iff.mp hname
        exact List.drop_eq_getElem_cons hlt
      · rfl

/-- A step up undoes a step down. -/
theorem parent_child (p : Place) (name : Piece) : (p.child home name).parent home = p := by
  obtain ⟨⟨levels⟩, names⟩ := p
  cases names with
  | cons first names => rfl
  | nil =>
    cases levels with
    | zero => rfl
    | succ levels =>
      simp only [child]
      split
      · next hname =>
        have hlt := (List.getElem?_eq_some_iff.mp hname).1
        have hmin : min (levels + 1) home.length = levels + 1 := Nat.min_eq_left hlt
        show (⟨.up (min (levels + 1) home.length), []⟩ : Place) = _
        rw [hmin]
      · rfl

theorem follow_of_isIdle {piece : Piece} (h : Path.isIdle piece) : p.follow home piece = p := by
  unfold follow
  rw [if_pos h]

theorem follow_of_name {name : Piece} (hidle : Path.isIdle name = false)
    (habove : name ≠ Path.above) : p.follow home name = p.child home name := by
  unfold follow
  rw [hidle, if_neg Bool.false_ne_true, if_neg habove]

/-! ### Proper places

The data of a place could also name a directory of the way to the working one by its name, but no
walk does so. -/

/-- The place that names lead to from the root, the last one first. -/
def ofAbsolute (home : List Piece) : List Piece → Place
  | [] => root home
  | name :: names => (ofAbsolute home names).child home name

/-- Names lead to a place from which they can be read off again. -/
theorem absolute_ofAbsolute (names : List Piece) :
    (ofAbsolute home names).absolute home = names := by
  induction names with
  | nil => exact absolute_root home
  | cons name names ih => exact (absolute_child _ name).trans (congrArg (name :: ·) ih)

/-- Along the way to the working directory, the places are its levels. -/
theorem ofAbsolute_drop {levels : Nat} (h : levels ≤ home.length) :
    ofAbsolute home (home.drop levels) = ⟨.up levels, []⟩ := by
  induction hrest : home.length - levels generalizing levels with
  | zero =>
    obtain rfl : levels = home.length := by omega
    rw [List.drop_length]
    rfl
  | succ rest ih =>
    have hlt : levels < home.length := by omega
    rw [List.drop_eq_getElem_cons hlt, ofAbsolute, ih hlt (by omega)]
    exact if_pos (List.getElem?_eq_getElem hlt)

/-- A place that names from the root lead to. -/
def Proper (home : List Piece) (p : Place) : Prop := ∃ names, p = ofAbsolute home names

theorem proper_root (home : List Piece) : (root home).Proper home := ⟨[], rfl⟩

theorem proper_working (home : List Piece) : working.Proper home :=
  ⟨home.drop 0, (ofAbsolute_drop (Nat.zero_le _)).symm⟩

/-- A walk starts at a proper place. -/
theorem proper_start (home : List Piece) (path : String) : (start home path).Proper home := by
  unfold start
  split
  · exact proper_root home
  · exact proper_working home

namespace Proper

/-- A step down adds a name. -/
theorem child (h : p.Proper home) (name : Piece) : (p.child home name).Proper home := by
  obtain ⟨names, rfl⟩ := h
  exact ⟨name :: names, rfl⟩

/-- A step up leaves the last name away, and at the root there is none. -/
theorem parent (h : p.Proper home) :
    (p.parent home).Proper home ∧ (p.parent home).absolute home = (p.absolute home).tail := by
  obtain ⟨names, rfl⟩ := h
  cases names with
  | nil =>
    have hroot : (root home).parent home = root home := by
      show (⟨.up (min (home.length + 1) home.length), []⟩ : Place) = ⟨.up home.length, []⟩
      rw [Nat.min_eq_right (Nat.le_succ _)]
    rw [show ofAbsolute home [] = root home from rfl, hroot]
    exact ⟨proper_root home, by rw [absolute_root]; rfl⟩
  | cons name names =>
    rw [show ofAbsolute home (name :: names) = (ofAbsolute home names).child home name from rfl,
      parent_child, absolute_child]
    exact ⟨⟨names, rfl⟩, rfl⟩

/-- A piece of a path leads from a proper place to a proper place, and to the names it means. -/
theorem follow (h : p.Proper home) (piece : Piece) :
    (p.follow home piece).Proper home ∧
      (p.follow home piece).absolute home = Path.follow (p.absolute home) piece := by
  unfold Place.follow Path.follow
  split
  · exact ⟨h, rfl⟩
  · split
    · exact h.parent
    · exact ⟨h.child piece, absolute_child p piece⟩

/-- **The names from the root tell places apart.** -/
theorem eq_of_absolute (hp : p.Proper home) (hq : q.Proper home)
    (h : p.absolute home = q.absolute home) : p = q := by
  obtain ⟨names, rfl⟩ := hp
  obtain ⟨names', rfl⟩ := hq
  rw [absolute_ofAbsolute, absolute_ofAbsolute] at h
  rw [h]

end Proper

end Place

end Intcode.Command
