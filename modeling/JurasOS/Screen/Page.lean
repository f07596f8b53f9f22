import JurasOS.Screen.Sheet

/-!
# An endless page behind a window

What a terminal is for: symbols go onto a page of rows of `width` cells that never
ends, at a cursor that moves on to the next row when a row is full. Nothing below
the cursor's row has been written yet. Behind a window a page is a sheet: the rows
that come into the window are blank, so it makes no difference when they are
blanked (`toSheet_newline`).
-/

namespace JurasOS.Screen

universe u

/-- A page with a cursor. -/
structure Page (α : Type u) (width : ℕ) (blank : α) where
  cell : ℕ → ℕ → α
  row : ℕ
  column : ℕ
  column_lt : column < width
  /-- Below the cursor's row the page is blank. -/
  fresh : ∀ r c, row < r → cell r c = blank

variable {α : Type u} {width : ℕ} {blank : α}

namespace Page

/-- The page before anything was written. -/
def empty (width : ℕ) (blank : α) (h : 0 < width) : Page α width blank :=
  ⟨fun _ _ => blank, 0, 0, h, fun _ _ _ => rfl⟩

/-- The page with the cell at the cursor replaced. -/
def write (a : α) (p : Page α width blank) : Page α width blank :=
  { p with
    cell := fun r c => if r = p.row ∧ c = p.column then a else p.cell r c
    fresh := fun r c h => by rw [if_neg (by omega), p.fresh r c h] }

/-- The cursor goes to the next row. -/
def newline (p : Page α width blank) : Page α width blank :=
  { p with
    row := p.row + 1
    column := 0
    column_lt := Nat.lt_of_le_of_lt (Nat.zero_le _) p.column_lt
    fresh := fun r c h => p.fresh r c (by omega) }

/-- The cursor goes to the next cell of the row, or to the next row when there is none. -/
def advance (p : Page α width blank) : Page α width blank :=
  if h : p.column + 1 < width then { p with column := p.column + 1, column_lt := h } else p.newline

/-- A symbol is written at the cursor. -/
def put (a : α) (p : Page α width blank) : Page α width blank := (p.write a).advance

/-! ### The page behind a window -/

/-- The page as a sheet behind a window of `height` rows. -/
def toSheet (height : ℕ) (p : Page α width blank) : Sheet α width height :=
  ⟨p.cell, p.row, p.column, p.column_lt⟩

variable (height : ℕ) (p : Page α width blank)

theorem cursorRow_toSheet : (p.toSheet height).cursorRow = p.row - (p.row + 1 - height) := rfl

theorem toSheet_write (a : α) : (p.write a).toSheet height = (p.toSheet height).write a := rfl

/-- The row that comes into the window was blank on the page. -/
theorem toSheet_newline : p.newline.toSheet height = (p.toSheet height).newline blank := by
  rw [toSheet, Sheet.newline, Sheet.mk.injEq]
  refine ⟨?_, rfl, rfl⟩
  funext r c
  show p.cell r c = if r = p.row + 1 ∧ height ≤ p.row + 1 then blank else p.cell r c
  split
  · next h => exact p.fresh r c (by omega)
  · rfl

theorem toSheet_advance : p.advance.toSheet height = (p.toSheet height).advance blank := by
  rw [advance, Sheet.advance]
  by_cases h : p.column + 1 < width
  · rw [dif_pos h, dif_pos (by exact h)]
    rfl
  · rw [dif_neg h, dif_neg (by exact h), toSheet_newline]

theorem toSheet_put (a : α) : (p.put a).toSheet height = (p.toSheet height).put blank a := by
  rw [put, toSheet_advance, toSheet_write]
  rfl

end Page

end JurasOS.Screen
