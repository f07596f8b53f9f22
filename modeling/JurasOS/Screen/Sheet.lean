import Mathlib.Data.List.Basic
import Mathlib.Data.Nat.Notation

/-!
# A sheet that is blanked as it comes into the window

A page of rows that never ends, behind a window of `height` rows, on which each new
row that comes into the window is blanked in what is the blank then. So the blanks
may differ from row to row, and what the first rows hold is under no condition. The
lemmas say what writing and starting a row do to the view, and where the lines of a
text that fits come to lie.
-/

namespace JurasOS.Screen

universe u

/-- A sheet with a cursor. -/
structure Sheet (α : Type u) (width height : ℕ) where
  cell : ℕ → ℕ → α
  row : ℕ
  column : ℕ
  column_lt : column < width

variable {α : Type u} {width height : ℕ}

namespace Sheet

/-- The sheet with the cell at the cursor replaced. -/
def write (a : α) (p : Sheet α width height) : Sheet α width height :=
  { p with cell := fun r c => if r = p.row ∧ c = p.column then a else p.cell r c }

/-- The cursor goes to the next row, which is blanked if it comes into the window. -/
def newline (blank : α) (p : Sheet α width height) : Sheet α width height where
  cell := fun r c => if r = p.row + 1 ∧ height ≤ p.row + 1 then blank else p.cell r c
  row := p.row + 1
  column := 0
  column_lt := Nat.lt_of_le_of_lt (Nat.zero_le _) p.column_lt

/-- The cursor goes to the next cell of the row, or to the next row when there is none. -/
def advance (blank : α) (p : Sheet α width height) : Sheet α width height :=
  if h : p.column + 1 < width then { p with column := p.column + 1, column_lt := h } else p.newline blank

/-- A symbol is written at the cursor. -/
def put (blank a : α) (p : Sheet α width height) : Sheet α width height := (p.write a).advance blank

/-- The row of the sheet that the window starts with. -/
def top (p : Sheet α width height) : ℕ := p.row + 1 - height

/-- The row of the window that the cursor is in. -/
def cursorRow (p : Sheet α width height) : ℕ := p.row - p.top

/-- What the window shows. -/
def view (p : Sheet α width height) (y x : ℕ) : α := p.cell (p.top + y) x

section view

variable {p : Sheet α width height}

theorem cursorRow_lt (hpos : 0 < height) (p : Sheet α width height) : p.cursorRow < height := by
  rw [cursorRow, top]
  omega

/-- Writing changes the cell at the cursor. -/
theorem view_write (hpos : 0 < height) (a : α) (p : Sheet α width height) (y x : ℕ) :
    (p.write a).view y x = if y = p.cursorRow ∧ x = p.column then a else p.view y x := by
  show (if p.top + y = p.row ∧ x = p.column then a else _) = _
  refine if_congr (and_congr_left fun _ => ?_) rfl rfl
  rw [cursorRow, top]
  omega

/-- While there are rows left in the window, a new row leaves the view. -/
theorem view_newline_of_lt (h : p.cursorRow + 1 < height) (blank : α) (y x : ℕ) :
    (p.newline blank).view y x = p.view y x ∧ (p.newline blank).cursorRow = p.cursorRow + 1 := by
  have hrow : p.row + 1 < height := by
    rw [cursorRow, top] at h
    omega
  have htop : (p.newline blank).top = 0 ∧ p.top = 0 := by
    constructor
    · show p.row + 1 + 1 - height = 0
      omega
    · rw [top]
      omega
  constructor
  · rw [view, view, htop.1, htop.2]
    exact if_neg fun h => absurd h.2 (Nat.not_le.mpr hrow)
  · rw [cursorRow, cursorRow, htop.1, htop.2]
    rfl

/-- From the last row of the window on, a new row moves the view by one row, to a last row of blanks. -/
theorem view_newline_of_eq (h : p.cursorRow + 1 = height) (blank : α) {y : ℕ} (hy : y < height) (x : ℕ) :
    (p.newline blank).view y x = (if y + 1 < height then p.view (y + 1) x else blank) ∧
      (p.newline blank).cursorRow = p.cursorRow := by
  have hrow : height ≤ p.row + 1 := by
    rw [cursorRow, top] at h
    omega
  have htop : (p.newline blank).top = p.top + 1 := by
    show p.row + 1 + 1 - height = p.row + 1 - height + 1
    omega
  have hlast : p.top + 1 + y = p.row + 1 ↔ ¬ y + 1 < height := by
    rw [top]
    omega
  constructor
  · rw [view, view, htop]
    show (if p.top + 1 + y = p.row + 1 ∧ height ≤ p.row + 1 then blank else p.cell (p.top + 1 + y) x) = _
    by_cases hnext : y + 1 < height
    · rw [if_neg fun h => hlast.mp h.1 hnext, if_pos hnext, Nat.add_assoc, Nat.add_comm 1 y]
    · rw [if_pos ⟨hlast.mpr hnext, hrow⟩, if_neg hnext]
  · rw [cursorRow, cursorRow, htop]
    show p.row + 1 - (p.top + 1) = _
    rw [top]
    omega

end view

/-! ### Lines -/

/-- Symbols are written one after the other. -/
def line (blank : α) (as : List α) (p : Sheet α width height) : Sheet α width height :=
  as.foldl (fun p a => p.put blank a) p

/-- Lines are written one below the other. -/
def lines (blank : α) : List (List α) → Sheet α width height → Sheet α width height
  | [], p => p
  | [as], p => p.line blank as
  | as :: ls, p => lines blank ls ((p.line blank as).newline blank)

section line

variable {blank : α} {as : List α} {p : Sheet α width height}

theorem put_of_lt (h : p.column + 1 < width) (blank a : α) :
    p.put blank a = ⟨(p.write a).cell, p.row, p.column + 1, h⟩ := dif_pos h

/-- A line that ends before the row does. -/
theorem line_eq (h : p.column + as.length < width) : p.line blank as =
    ⟨fun r c => if r = p.row ∧ p.column ≤ c then (as[c - p.column]?).getD (p.cell r c) else p.cell r c,
      p.row, p.column + as.length, h⟩ := by
  induction as generalizing p with
  | nil =>
    cases p
    simp [line]
  | cons a as ih =>
    rw [List.length_cons] at h
    have hput := put_of_lt (p := p) (by omega) blank a
    show (p.put blank a).line blank as = _
    rw [hput, ih (by show p.column + 1 + as.length < width; omega), Sheet.mk.injEq]
    refine ⟨?_, rfl, by rw [List.length_cons]; dsimp only; omega⟩
    funext r c
    dsimp only [write]
    by_cases hr : r = p.row
    · subst hr
      rcases Nat.lt_trichotomy c p.column with hc | rfl | hc
      · rw [if_neg (by omega), if_neg (by omega), if_neg (by omega)]
      · rw [if_neg (by omega), if_pos ⟨rfl, rfl⟩, if_pos ⟨rfl, Nat.le_refl _⟩, Nat.sub_self]
        rfl
      · have hsub : c - p.column = c - (p.column + 1) + 1 := by omega
        rw [if_pos ⟨rfl, by omega⟩, if_neg (by omega), if_pos ⟨rfl, by omega⟩, hsub, List.getElem?_cons_succ]
    · rw [if_neg fun h => hr h.1, if_neg fun h => hr h.1, if_neg fun h => hr h.1]

/-- A line that fills its row leaves the cursor in the next one. -/
theorem line_full (hcolumn : p.column = 0) (h : as.length = width) (hrow : p.row + 1 < height) :
    (p.line blank as).cell = (fun r c => if r = p.row then (as[c]?).getD (p.cell r c) else p.cell r c) ∧
      (p.line blank as).row = p.row + 1 ∧ (p.line blank as).column = 0 := by
  have hwidth := p.column_lt
  obtain ⟨as, a, rfl⟩ : ∃ bs b, as = bs ++ [b] :=
    ⟨as.dropLast, as.getLast (by rintro rfl; simp at h; omega), (List.dropLast_concat_getLast _).symm⟩
  rw [List.length_append, List.length_singleton] at h
  have hlast : p.line blank (as ++ [a]) = (p.line blank as).put blank a := List.foldl_concat ..
  rw [hlast, line_eq (by omega), put, advance, dif_neg (by dsimp only [write]; omega)]
  refine ⟨?_, rfl, rfl⟩
  funext r c
  dsimp only [newline, write]
  rw [if_neg (by omega)]
  by_cases hr : r = p.row
  · subst hr
    rcases Nat.lt_trichotomy c as.length with hc | rfl | hc
    · rw [if_neg (by omega), if_pos ⟨rfl, by omega⟩, if_pos rfl, hcolumn, Nat.sub_zero,
        List.getElem?_append_left hc]
    · rw [if_pos ⟨rfl, by omega⟩, if_pos rfl, List.getElem?_concat_length]
      rfl
    · rw [if_neg (by omega), if_pos ⟨rfl, by omega⟩, if_pos rfl, List.getElem?_eq_none (by omega),
        List.getElem?_eq_none (by rw [List.length_append, List.length_singleton]; omega)]
  · rw [if_neg fun h => hr h.1, if_neg fun h => hr h.1, if_neg hr]

/-- **Where the lines are**: lines that fit into the rows below the cursor are each in its row. -/
theorem cell_lines {ls : List (List α)} (hls : ∀ as ∈ ls, as.length < width) (hcolumn : p.column = 0)
    (hrow : p.row + ls.length ≤ height) (r c : ℕ) :
    (p.lines blank ls).cell r c =
      if p.row ≤ r then ((ls.getD (r - p.row) [])[c]?).getD (p.cell r c) else p.cell r c := by
  induction ls generalizing p with
  | nil => simp [lines]
  | cons as ls ih =>
    have has := hls as List.mem_cons_self
    have hline := @line_eq α width height blank as p (by omega)
    rw [List.length_cons] at hrow
    have hcell : ∀ r c, (p.line blank as).cell r c =
        if r = p.row then (as[c]?).getD (p.cell r c) else p.cell r c := by
      intro r c
      rw [hline]
      dsimp only
      simp only [hcolumn, Nat.zero_le, and_true, Nat.sub_zero]
    cases ls with
    | nil =>
      show (p.line blank as).cell r c = _
      rw [hcell]
      rcases Nat.lt_trichotomy r p.row with hr | rfl | hr
      · rw [if_neg (by omega), if_neg (by omega)]
      · simp
      · have hsub : r - p.row = r - p.row - 1 + 1 := by omega
        rw [if_neg (by omega), if_pos (by omega), hsub, List.getD_cons_succ, List.getD_nil]
        rfl
    | cons bs ls =>
      have hnewrow : ((p.line blank as).newline blank).row = p.row + 1 := by
        rw [hline]
        rfl
      have hnewcell : ∀ r c, ((p.line blank as).newline blank).cell r c = (p.line blank as).cell r c := by
        intro r c
        refine if_neg fun h => ?_
        rw [List.length_cons] at hrow
        rw [hline] at h
        dsimp only at h
        omega
      show (((p.line blank as).newline blank).lines blank (bs :: ls)).cell r c = _
      rw [ih (fun l hl => hls l (List.mem_cons_of_mem as hl)) rfl (by rw [hnewrow]; omega), hnewrow, hnewcell,
        hcell]
      rcases Nat.lt_trichotomy r p.row with hr | rfl | hr
      · rw [if_neg (by omega), if_neg (by omega), if_neg (by omega)]
      · rw [if_neg (by omega), if_pos rfl, if_pos (Nat.le_refl _), Nat.sub_self, List.getD_cons_zero]
      · have hsub : r - p.row = r - (p.row + 1) + 1 := by omega
        rw [if_pos (by omega), if_neg (by omega), if_pos (by omega), hsub, List.getD_cons_succ]

/-- The cursor is in the row of the last line. -/
theorem row_lines {ls : List (List α)} (hls : ∀ as ∈ ls, as.length < width) (hcolumn : p.column = 0) :
    (p.lines blank ls).row = p.row + (ls.length - 1) := by
  induction ls generalizing p with
  | nil => rfl
  | cons as ls ih =>
    have has := hls as List.mem_cons_self
    have hline : (p.line blank as).row = p.row := by
      rw [line_eq (by omega)]
    cases ls with
    | nil => exact hline
    | cons bs ls =>
      have hrest : (((p.line blank as).newline blank).lines blank (bs :: ls)).row =
          (p.line blank as).row + 1 + ((bs :: ls).length - 1) :=
        ih (p := (p.line blank as).newline blank) (fun l hl => hls l (List.mem_cons_of_mem as hl)) rfl
      show (((p.line blank as).newline blank).lines blank (bs :: ls)).row = _
      rw [hrest, hline, List.length_cons, List.length_cons, List.length_cons]
      omega

end line

end Sheet

end JurasOS.Screen
