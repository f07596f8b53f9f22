import Mathlib.Data.Nat.Notation
import Mathlib.Logic.Function.Basic

/-!
# A strip of cells behind a window

Symbols go onto an endless strip of cells, each into the cell after the last one's.
A window of `size` cells shows a part of it, and moves on by `width` cells when
its last cell has been written. What the strip held before is under no condition,
so this is a terminal that is in use already; only what is beyond the window is blank.
-/

namespace JurasOS.Screen

universe u

/-- A strip with a window. -/
structure Strip (α : Type u) (width size : ℕ) (blank : α) where
  cell : ℕ → α
  /-- The next cell to write. -/
  position : ℕ
  /-- The first cell of the window. -/
  start : ℕ
  start_le : start ≤ position
  position_lt : position < start + size
  width_dvd : width ∣ start
  /-- The window moves on for the row of the next cell only. -/
  start_eq_zero_or : start = 0 ∨ start + size ≤ position + width
  /-- Beyond the window the strip is blank. -/
  fresh : ∀ i, start + size ≤ i → cell i = blank

variable {α : Type u} {width size : ℕ} {blank : α}

namespace Strip

/-- What the window shows. -/
def view (p : Strip α width size blank) (i : ℕ) : α := p.cell (p.start + i)

section put

variable (hwidth : 0 < width) (hsize : width ≤ size)

/-- A symbol is written in the next cell, and the window moves on if that was its last. -/
def put (a : α) (p : Strip α width size blank) : Strip α width size blank where
  cell := Function.update p.cell p.position a
  position := p.position + 1
  start := if p.position + 1 = p.start + size then p.start + width else p.start
  start_le := by
    have hle := p.start_le
    split <;> omega
  position_lt := by
    have hlt := p.position_lt
    split <;> omega
  width_dvd := by
    split
    · exact Nat.dvd_add p.width_dvd (Nat.dvd_refl width)
    · exact p.width_dvd
  start_eq_zero_or := by
    have hor := p.start_eq_zero_or
    split <;> omega
  fresh := fun i hi => by
    have hlt := p.position_lt
    have hbeyond : p.start + size ≤ i := by
      split at hi <;> omega
    rw [Function.update_of_ne (by omega), p.fresh i hbeyond]

/-- Symbols are written, one after the other. -/
def puts (as : List α) (p : Strip α width size blank) : Strip α width size blank :=
  as.foldl (fun p a => put hwidth hsize a p) p

variable {hwidth hsize} {a : α} {as : List α} {p : Strip α width size blank}

@[simp] theorem put_cell : (put hwidth hsize a p).cell = Function.update p.cell p.position a := rfl
@[simp] theorem put_position : (put hwidth hsize a p).position = p.position + 1 := rfl
@[simp] theorem put_start : (put hwidth hsize a p).start =
    if p.position + 1 = p.start + size then p.start + width else p.start := rfl

/-- While there are cells left in the window, it stays, and shows the symbol. -/
theorem view_put_of_lt (h : p.position + 1 < p.start + size) (i : ℕ) :
    (put hwidth hsize a p).view i = if p.start + i = p.position then a else p.view i := by
  rw [view, put_start, put_cell, if_neg (by omega), Function.update_apply, view]

/-- When the last cell is written the window moves on, to blank cells at its end. -/
theorem view_put_of_eq (h : p.position + 1 = p.start + size) (i : ℕ) :
    (put hwidth hsize a p).view i =
      if i + width < size then (if p.start + (i + width) = p.position then a else p.view (i + width)) else
      blank := by
  rw [view, put_start, put_cell, if_pos h, Function.update_apply, view,
    show p.start + width + i = p.start + (i + width) by omega]
  split
  · next heq => rw [if_pos (by omega)]
  · split
    · rfl
    · exact p.fresh _ (by omega)

theorem puts_position : (puts hwidth hsize as p).position = p.position + as.length := by
  induction as generalizing p with
  | nil => rfl
  | cons a as ih =>
    refine ih.trans ?_
    rw [put_position, List.length_cons]
    omega

/-- What was on the strip before the symbols stays. -/
theorem puts_cell_of_lt {i : ℕ} (hi : i < p.position) : (puts hwidth hsize as p).cell i = p.cell i := by
  induction as generalizing p with
  | nil => rfl
  | cons a as ih =>
    refine (ih (p := put hwidth hsize a p) (Nat.lt_succ_of_lt hi)).trans ?_
    exact Function.update_of_ne (by omega) ..

/-- **Every symbol is in the cell of its own turn.** -/
theorem puts_cell {k : ℕ} (hk : k < as.length) : (puts hwidth hsize as p).cell (p.position + k) = as[k] := by
  induction as generalizing p k with
  | nil => exact absurd hk (Nat.not_lt_zero k)
  | cons a as ih =>
    cases k with
    | zero =>
      refine (puts_cell_of_lt (p := put hwidth hsize a p) (Nat.lt_succ_self _)).trans ?_
      exact Function.update_self ..
    | succ k =>
      have hnext := ih (p := put hwidth hsize a p) (Nat.lt_of_succ_lt_succ hk)
      rwa [put_position, Nat.add_assoc, Nat.add_comm 1 k] at hnext

end put

end Strip

end JurasOS.Screen
