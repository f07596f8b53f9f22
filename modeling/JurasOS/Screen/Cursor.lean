import Mathlib.Data.Nat.Notation
import Mathlib.Algebra.Order.Ring.Nat
import Mathlib.Order.Lattice

/-!
# The cursor of a screen with tab stops

Where a terminal with tab stops in every so many columns has its cursor: it goes to a
column of its row, or to the start of the next row when the row has no such
column. In the last row the screen scrolls under it, so that its row stays.
-/

namespace JurasOS.Screen

/-- A cursor in one of `height` rows of `width` columns. -/
structure Cursor (width height : ℕ) where
  row : ℕ
  column : ℕ
  row_lt : row < height
  column_lt : column < width

/-- The first tab stop after a column, with tab stops every `step` columns. -/
def nextStop (step column : ℕ) : ℕ := (column / step + 1) * step

section nextStop

variable {step column : ℕ}

theorem nextStop_eq (h : 0 < step) : nextStop step column = column + (step - column % step) := by
  have hdiv := Nat.div_add_mod column step
  have hmod := Nat.mod_lt column h
  rw [nextStop, Nat.succ_mul, Nat.mul_comm]
  omega

/-- It is after the column, -/
theorem lt_nextStop (h : 0 < step) : column < nextStop step column := by
  have hmod := Nat.mod_lt column h
  rw [nextStop_eq h]
  omega

/-- and it is the first one. -/
theorem nextStop_le {stop : ℕ} (hstop : step ∣ stop) (h : column < stop) : nextStop step column ≤ stop := by
  obtain ⟨k, rfl⟩ := hstop
  rw [nextStop, Nat.mul_comm step k]
  exact Nat.mul_le_mul_right step (Nat.div_lt_of_lt_mul h)

end nextStop

namespace Cursor

variable {width height : ℕ}

/-- The first cell. -/
def home (hwidth : 0 < width) (hheight : 0 < height) : Cursor width height := ⟨0, 0, hheight, hwidth⟩

/-- The start of the next row. -/
def newline (p : Cursor width height) : Cursor width height where
  row := if p.row + 1 < height then p.row + 1 else p.row
  column := 0
  row_lt := by
    have hlt := p.row_lt
    split <;> omega
  column_lt := Nat.zero_lt_of_lt p.column_lt

/-- A column of the row, or the start of the next row. -/
def moveTo (column : ℕ) (p : Cursor width height) : Cursor width height :=
  if h : column < width then { p with column := column, column_lt := h } else p.newline

/-- The next cell. -/
def advance (p : Cursor width height) : Cursor width height := p.moveTo (p.column + 1)

/-- The next tab stop. -/
def tab (step : ℕ) (p : Cursor width height) : Cursor width height := p.moveTo (nextStop step p.column)

theorem moveTo_column (column : ℕ) (p : Cursor width height) :
    (p.moveTo column).column = if column < width then column else 0 := by
  rw [moveTo]
  split <;> rfl

/-- Going to different columns ends in different columns. -/
theorem moveTo_column_ne {column column' : ℕ} (h : column ≤ width) (h' : column' ≤ width) (hpos : 0 < column)
    (hpos' : 0 < column') (hne : column ≠ column') (p q : Cursor width height) :
    (p.moveTo column).column ≠ (q.moveTo column').column := by
  rw [moveTo_column, moveTo_column]
  split <;> split <;> omega

end Cursor

end JurasOS.Screen
