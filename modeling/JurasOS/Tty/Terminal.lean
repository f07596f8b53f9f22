import JurasOS.Libc.String

/-!
# `tty.c`

The text screen: 25 rows of 80 cells in video memory, and a cursor. Each function
is the C function on the state; the lemmas say what it does to the cells of the
screen, to the cursor and to the rest of the memory.
-/

namespace JurasOS

open Machine

/-- `VGA_WIDTH`. -/
def vgaWidth : UInt32 := 80

/-- `VGA_HEIGHT`. -/
def vgaHeight : UInt32 := 25

/-- `VGA_MEMORY`. -/
def vgaMemory : UInt32 := 0xB8000

/-- `VGA_COLOR_BLACK`. -/
def vgaColorBlack : UInt8 := 0x00

/-- `VGA_COLOR_LIGHT_GREY`. -/
def vgaColorLightGrey : UInt8 := 0x07

/-- `vga_entry_color`. -/
def vgaEntryColor (fg bg : UInt8) : UInt8 := fg ||| bg <<< 4

/-- `vga_entry`. -/
def vgaEntry (uc color : UInt8) : UInt16 := uc.toUInt16 ||| color.toUInt16 <<< 8

/-- The cell of a space. -/
def vgaBlank (color : UInt8) : UInt16 := vgaEntry 0x20 color

/-- `terminal_buffer[index] = entry`. -/
def Kernel.setCell (index : UInt32) (entry : UInt16) (s : Kernel) : Kernel :=
  { s with mem := s.mem.store16 (s.terminal.buffer + 2 * index) entry }

/-- The kernel with the cursor at a row and a column. -/
def Kernel.setCursor (row column : UInt32) (s : Kernel) : Kernel :=
  { s with terminal := { s.terminal with row := row, column := column } }

section setCursor

variable (row column : UInt32) (s : Kernel)

@[simp] theorem Kernel.setCursor_row : (s.setCursor row column).terminal.row = row := rfl
@[simp] theorem Kernel.setCursor_column : (s.setCursor row column).terminal.column = column := rfl
@[simp] theorem Kernel.setCursor_color : (s.setCursor row column).terminal.color = s.terminal.color := rfl
@[simp] theorem Kernel.setCursor_buffer : (s.setCursor row column).terminal.buffer = s.terminal.buffer := rfl
@[simp] theorem Kernel.setCursor_mem : (s.setCursor row column).mem = s.mem := rfl
@[simp] theorem Kernel.setCursor_trace : (s.setCursor row column).trace = s.trace := rfl

end setCursor

/-- The colour that `terminal_initialize` takes, with its default. -/
def terminalColor (termCol : UInt8) : UInt8 :=
  if termCol = 0 then vgaEntryColor vgaColorLightGrey vgaColorBlack else termCol

/-- `terminal_initialize`. -/
def terminalInitialize (termCol : UInt8) (s : Kernel) : Kernel :=
  let s := { s with terminal := ⟨0, 0, terminalColor termCol, vgaMemory⟩ }
  times vgaHeight.toNat (fun y s =>
    times vgaWidth.toNat (fun x s =>
      s.setCell (UInt32.ofNat y * vgaWidth + UInt32.ofNat x) (vgaBlank s.terminal.color)) s) s

/-- `terminal_putentryat`. -/
def terminalPutentryat (c color : UInt8) (x y : UInt32) (s : Kernel) : Kernel :=
  let index := y * vgaWidth + x
  (s.emit (.putentry index)).setCell index (vgaEntry c color)

/-- `terminal_scroll`. -/
def terminalScroll (s : Kernel) : Kernel :=
  let buffer := s.terminal.buffer
  let s := { s with mem := memmove buffer (buffer + 2 * vgaWidth) (vgaWidth * (vgaHeight - 1) * 2) s.mem }
  let index := (vgaHeight - 1) * vgaWidth
  times vgaWidth.toNat (fun x s => s.setCell (index + UInt32.ofNat x) (vgaBlank s.terminal.color)) s

/-- The branches of `terminal_putchar` on the character. -/
def putcharEntry (uc : UInt8) (s : Kernel) : Kernel :=
  let t := s.terminal
  if uc = 10 then -- newline
    s.setCursor (t.row + 1) 0
  else if uc = 9 then -- tab
    s.setCursor t.row (t.column + (4 - t.row % 4))
  else if uc = 8 then -- backspace
    let s := if t.column = 0 then s.setCursor (t.row - 1) (vgaWidth - 1) else s.setCursor t.row (t.column - 1)
    terminalPutentryat 0 s.terminal.color s.terminal.column s.terminal.row s
  else
    (terminalPutentryat uc t.color t.column t.row s).setCursor t.row (t.column + 1)

/-- The test for the end of the line in `terminal_putchar`. -/
def putcharWrap (s : Kernel) : Kernel :=
  if s.terminal.column = vgaWidth then s.setCursor (s.terminal.row + 1) 0 else s

/-- The test for the end of the screen in `terminal_putchar`. -/
def putcharScroll (s : Kernel) : Kernel :=
  if s.terminal.row = vgaHeight then
    let s := terminalScroll s
    s.setCursor (vgaHeight - 1) s.terminal.column
  else s

/-- `terminal_putchar`. -/
def terminalPutchar (uc : UInt8) (s : Kernel) : Kernel := putcharScroll (putcharWrap (putcharEntry uc s))

section putcharEntry

variable (s : Kernel)

theorem putcharEntry_newline : putcharEntry 10 s = s.setCursor (s.terminal.row + 1) 0 := rfl

theorem putcharEntry_tab :
    putcharEntry 9 s = s.setCursor s.terminal.row (s.terminal.column + (4 - s.terminal.row % 4)) := rfl

/-- A backspace erases the cell before the cursor. -/
theorem putcharEntry_backspace (h : s.terminal.column ≠ 0) : putcharEntry 8 s =
    terminalPutentryat 0 s.terminal.color (s.terminal.column - 1) s.terminal.row
      (s.setCursor s.terminal.row (s.terminal.column - 1)) := by
  simp [putcharEntry, h]

/-- At the start of a row that is the last cell of the row above. -/
theorem putcharEntry_backspace_zero (h : s.terminal.column = 0) : putcharEntry 8 s =
    terminalPutentryat 0 s.terminal.color (vgaWidth - 1) (s.terminal.row - 1)
      (s.setCursor (s.terminal.row - 1) (vgaWidth - 1)) := by
  simp [putcharEntry, h]

theorem putcharEntry_other {uc : UInt8} (hnewline : uc ≠ 10) (htab : uc ≠ 9) (hbackspace : uc ≠ 8) :
    putcharEntry uc s = (terminalPutentryat uc s.terminal.color s.terminal.column s.terminal.row s).setCursor
      s.terminal.row (s.terminal.column + 1) := by
  rw [putcharEntry, if_neg hnewline, if_neg htab, if_neg hbackspace]

end putcharEntry

/-- `terminal_write`. -/
def terminalWrite (data size : UInt32) (s : Kernel) : Kernel :=
  times size.toNat (fun i s => terminalPutchar (s.mem (data + UInt32.ofNat i)) s) s

/-- Calls of `terminal_putchar`, one after the other. -/
def terminalPutchars (cs : List UInt8) (s : Kernel) : Kernel := cs.foldl (fun s c => terminalPutchar c s) s

/-- The characters that `terminal_write` reads: each when its turn comes. -/
def charsRead (data : UInt32) (s : Kernel) : ℕ → List UInt8
  | 0 => []
  | n + 1 =>
    let cs := charsRead data s n
    cs ++ [(terminalPutchars cs s).mem (data + UInt32.ofNat n)]

@[simp] theorem terminalPutchars_nil (s : Kernel) : terminalPutchars [] s = s := rfl

theorem terminalPutchars_concat (cs : List UInt8) (c : UInt8) (s : Kernel) :
    terminalPutchars (cs ++ [c]) s = terminalPutchar c (terminalPutchars cs s) := by
  rw [terminalPutchars, List.foldl_append]
  rfl

/-- `terminal_write` is a sequence of calls of `terminal_putchar`. -/
theorem terminalWrite_eq (data size : UInt32) (s : Kernel) :
    terminalWrite data size s = terminalPutchars (charsRead data s size.toNat) s := by
  refine times_inv (P := fun n t => t = terminalPutchars (charsRead data s n) s) rfl ?_
  rintro n - t rfl
  rw [charsRead, terminalPutchars_concat]

/-! ### The cells of the screen -/

/-- The bytes of the screen. -/
def screen : Set UInt32 := span vgaMemory 4000

/-- A cell of the screen. -/
def Kernel.cell (s : Kernel) (i : ℕ) : UInt16 := s.mem.load16 (vgaMemory + 2 * UInt32.ofNat i)

/-- From `s` to `s'` only the screen changed, to these cells. -/
structure Draws (cell : ℕ → UInt16) (s s' : Kernel) : Prop where
  terminal : s'.terminal = s.terminal
  mem : Set.EqOn s'.mem s.mem screenᶜ
  cells : ∀ i < 2000, s'.cell i = cell i

section Draws

variable {s t u : Kernel} {cell cell' : ℕ → UInt16}

theorem Draws.refl (s : Kernel) : Draws s.cell s s := ⟨rfl, fun _ _ => rfl, fun _ _ => rfl⟩

theorem Draws.trans (h : Draws cell s t) (h' : Draws cell' t u) : Draws cell' s u :=
  ⟨h'.terminal.trans h.terminal, h'.mem.trans h.mem, h'.cells⟩

theorem Draws.congr (h : Draws cell s t) (hcell : ∀ i < 2000, cell i = cell' i) : Draws cell' s t :=
  ⟨h.terminal, h.mem, fun i hi => (h.cells i hi).trans (hcell i hi)⟩

theorem toNat_vgaMemory : vgaMemory.toNat = 0xB8000 := rfl

theorem Kernel.setCell_draws (hb : s.terminal.buffer = vgaMemory) (index : UInt32) (hi : index.toNat < 2000)
    (entry : UInt16) :
    Draws (fun i => if i = index.toNat then entry else s.cell i) s (s.setCell index entry) := by
  have hvga := toNat_vgaMemory
  have hindex : index = UInt32.ofNat index.toNat := UInt32.ofNat_toNat.symm
  have hmem : (s.setCell index entry).mem =
    s.mem.store16 (vgaMemory + 2 * UInt32.ofNat index.toNat) entry := by
    rw [Kernel.setCell, hb, ← hindex]
  refine ⟨rfl, ?_, fun i hi' => ?_⟩
  · rw [hmem]
    refine (s.mem.eqOn_store16 _ _).mono (Set.compl_subset_compl.mpr ?_)
    exact span_half_subset (by omega) hi
  · rw [Kernel.cell, hmem, Mem.load16_store16_half (by omega) hi hi', Kernel.cell]

/-- The loops that blank a row. -/
theorem blankRow_draws (hb : s.terminal.buffer = vgaMemory) (index : UInt32) (h : index.toNat + 80 ≤ 2000) :
    Draws (fun i => if index.toNat ≤ i ∧ i < index.toNat + 80 then vgaBlank s.terminal.color else s.cell i) s
      (times vgaWidth.toNat (fun x s => s.setCell (index + UInt32.ofNat x) (vgaBlank s.terminal.color))
        s) := by
  refine times_inv (n := 80) (P := fun n t => Draws
    (fun i => if index.toNat ≤ i ∧ i < index.toNat + n then vgaBlank s.terminal.color else s.cell i) s t)
    ?_ ?_
  · exact (Draws.refl s).congr fun i _ => (if_neg (by omega)).symm
  · intro x hx t ht
    have hindex := toNat_add_ofNat (a := index) (i := x) (by omega)
    have hset := Kernel.setCell_draws (s := t) (by rw [ht.terminal, hb]) (index + UInt32.ofNat x) (by omega)
      (vgaBlank t.terminal.color)
    refine (ht.trans hset).congr fun i hi => ?_
    rw [ht.cells i hi, ht.terminal, hindex]
    by_cases hix : i = index.toNat + x
    · rw [if_pos hix, if_pos (by omega)]
    · rw [if_neg hix]
      exact if_congr (by omega) rfl rfl

/-- `terminal_initialize` blanks the screen. -/
theorem terminalInitialize_draws (termCol : UInt8) (s : Kernel) :
    Draws (fun _ => vgaBlank (terminalColor termCol)) { s with
      terminal := ⟨0, 0, terminalColor termCol, vgaMemory⟩ } (terminalInitialize termCol s) := by
  rw [terminalInitialize]
  refine (times_inv (n := 25) (P := fun n t => Draws
    (fun i => if i < n * 80 then vgaBlank (terminalColor termCol) else
      Kernel.cell { s with terminal := ⟨0, 0, terminalColor termCol, vgaMemory⟩ } i) _ t)
    ?_ ?_).congr fun i hi => if_pos (by omega)
  · exact (Draws.refl _).congr fun i _ => (if_neg (by omega)).symm
  · intro y hy t ht
    have hindex : (UInt32.ofNat y * vgaWidth).toNat = y * 80 := by
      rw [UInt32.toNat_mul, UInt32.toNat_ofNat']
      show (y % 2 ^ 32) * 80 % 2 ^ 32 = _
      omega
    have hrow := blankRow_draws (s := t) (by rw [ht.terminal]) (UInt32.ofNat y * vgaWidth) (by omega)
    refine (ht.trans hrow).congr fun i hi => ?_
    simp only [ht.cells i hi, ht.terminal, hindex]
    by_cases hlt : i < y * 80
    · rw [if_neg (by omega), if_pos hlt, if_pos (by omega)]
    · rw [if_neg hlt]
      exact if_congr (by omega) rfl rfl

/-- The cells that `memmove` moves up a row. -/
theorem moveUp_draws (s : Kernel) :
    Draws (fun i => if i + 80 < 2000 then s.cell (i + 80) else s.cell i) s { s with
      mem := memmove vgaMemory (vgaMemory + 2 * vgaWidth) (vgaWidth * (vgaHeight - 1) * 2) s.mem } := by
  have hvga := toNat_vgaMemory
  have hmove :=
    memmove_apply vgaMemory (vgaMemory + 2 * vgaWidth) (vgaWidth * (vgaHeight - 1) * 2) (by decide)
    (by decide)
    s.mem
  have hsize : (vgaWidth * (vgaHeight - 1) * 2).toNat = 3840 := rfl
  rw [hsize] at hmove
  refine ⟨rfl, fun b hb => ?_, fun i hi => ?_⟩
  · rw [screen, Set.mem_compl_iff, mem_span] at hb
    exact (hmove b).trans (if_neg (by omega))
  · have hi' := toNat_half (a := vgaMemory) (i := i) (by omega)
    have hbyte : ∀ j < 2,
      (vgaMemory + 2 * UInt32.ofNat i + UInt32.ofNat j - vgaMemory).toNat = 2 * i + j := by
      intro j hj
      rw [UInt32.toNat_sub, toNat_add_ofNat (by omega)]
      omega
    by_cases hlt : i + 80 < 2000
    · rw [if_pos hlt]
      refine Mem.load16_eq_of_bytes fun j hj => (hmove _).trans ?_
      have hnext := toNat_half (a := vgaMemory) (i := i + 80) (by omega)
      have hwidth : (vgaMemory + 2 * vgaWidth).toNat = 0xB8000 + 160 := rfl
      rw [if_pos (by rw [hbyte j hj]; omega)]
      refine congrArg s.mem ?_
      rw [← UInt32.toNat_inj, UInt32.toNat_add, hbyte j hj, hwidth, toNat_add_ofNat (by omega)]
      omega
    · rw [if_neg hlt]
      exact Mem.load16_eq_of_bytes fun j hj => (hmove _).trans (if_neg (by rw [hbyte j hj]; omega))

/-- `terminal_scroll` moves the rows up, and blanks the last. -/
theorem terminalScroll_draws (hb : s.terminal.buffer = vgaMemory) :
    Draws (fun i => if i + 80 < 2000 then s.cell (i + 80) else vgaBlank s.terminal.color) s
    (terminalScroll s) := by
  have hmove := moveUp_draws s
  have hrow := blankRow_draws (s := { s with
    mem := memmove vgaMemory (vgaMemory + 2 * vgaWidth) (vgaWidth * (vgaHeight - 1) * 2) s.mem })
    hb ((vgaHeight - 1) * vgaWidth) (by decide)
  rw [terminalScroll, hb]
  refine (hmove.trans hrow).congr fun i hi => ?_
  have hindex : ((vgaHeight - 1) * vgaWidth).toNat = 1920 := rfl
  rw [hindex, hmove.cells i hi]
  by_cases hlt : i + 80 < 2000
  · rw [if_neg (by omega), if_pos hlt, if_pos hlt]
  · rw [if_pos (by omega), if_neg hlt]

end Draws

end JurasOS
