import JurasOS.Screen.Sheet
import JurasOS.Tty.Cursor

/-!
# The colours of the terminal

`terminal_setcolor` sets the colour of what is written from then on, and of the rows
that `terminal_scroll` blanks. Whatever is called in whatever order, the screen shows
the last rows of a sheet on which each character has the colour of its time, and each
row that was scrolled in the blank of its time.
-/

namespace JurasOS

open Machine Screen

/-- `terminal_setcolor` -/
def terminalSetcolor (color : UInt8) (s : Kernel) : Kernel :=
  { s with terminal := { s.terminal with color := color } }

/-- A sheet of cells in any colours. -/
abbrev TextSheet := Sheet UInt16 80 25

/-- A character is written in a colour, or a row is started. -/
def TextSheet.char (color : UInt8) (p : TextSheet) (c : UInt8) : TextSheet :=
  if c = 10 then p.newline (vgaBlank color) else p.put (vgaBlank color) (vgaEntry c color)

/-- The screen shows the sheet, and the next character has this colour. -/
structure Paints (color : UInt8) (p : TextSheet) (s : Kernel) : Prop where
  buffer : s.terminal.buffer = vgaMemory
  color : s.terminal.color = color
  row : s.terminal.row.toNat = p.cursorRow
  column : s.terminal.column.toNat = p.column
  cell : ∀ y < 25, ∀ x < 80, s.cell (y * 80 + x) = p.view y x

theorem textSheet_width_pos : 0 < 80 := by decide

/-- A sheet in one colour. -/
def blankSheet (color : UInt8) : TextSheet := ⟨fun _ _ => vgaBlank color, 0, 0, textSheet_width_pos⟩

@[simp] theorem Kernel.setCursor_cell (row column : UInt32) (s : Kernel) (i : ℕ) :
    (s.setCursor row column).cell i = s.cell i := by
  rw [Kernel.cell, Kernel.setCursor_mem, Kernel.cell]

section Paints

variable {color : UInt8} {p : TextSheet} {s : Kernel}

theorem Paints.onScreen (h : Paints color p s) : OnScreen s := by
  rw [OnScreen, h.row, h.column]
  exact ⟨Sheet.cursorRow_lt (by decide) p, p.column_lt⟩

/-- An empty screen. -/
theorem paints_terminalInitialize (termCol : UInt8) (s : Kernel) :
    Paints (terminalColor termCol) (blankSheet (terminalColor termCol)) (terminalInitialize termCol s) := by
  have hdraws := terminalInitialize_draws termCol s
  have hterminal := terminalInitialize_terminal termCol s
  generalize terminalInitialize termCol s = t at hdraws hterminal
  refine ⟨by rw [hterminal], by rw [hterminal], by rw [hterminal]; rfl, by rw [hterminal]; rfl,
    fun y hy x hx => ?_⟩
  rw [hdraws.cells _ (by omega)]
  rfl

/-- The colour does not change what is shown. -/
theorem Paints.setcolor (h : Paints color p s) (color' : UInt8) : Paints color' p (terminalSetcolor color' s) :=
  ⟨h.buffer, rfl, h.row, h.column, h.cell⟩

/-- `terminal_putentryat` writes the cell at the cursor. -/
theorem Paints.putentryat_draws (h : Paints color p s) (c : UInt8) :
    Draws (fun i =>
      if i = s.terminal.row.toNat * 80 + s.terminal.column.toNat then vgaEntry c color else s.cell i) s
      (terminalPutentryat c color s.terminal.column s.terminal.row s) := by
  obtain ⟨hrow, hcolumn⟩ := h.onScreen
  exact JurasOS.putentryat_draws h.buffer c color hcolumn hrow

/-- The cell at the cursor of the sheet is the screen's. -/
theorem Paints.write (h : Paints color p s) (c : UInt8) :
    Paints color (p.write (vgaEntry c color))
      (terminalPutentryat c color s.terminal.column s.terminal.row s) := by
  obtain ⟨hrow, hcolumn⟩ := h.onScreen
  have hdraws := h.putentryat_draws c
  generalize terminalPutentryat c color _ _ s = t at hdraws ⊢
  obtain ⟨hterminal, -, hcells⟩ := hdraws
  refine ⟨by rw [hterminal, h.buffer], by rw [hterminal, h.color], by rw [hterminal, h.row]; rfl,
    by rw [hterminal, h.column]; rfl, fun y hy x hx => ?_⟩
  rw [hcells _ (by omega), Sheet.view_write (by decide), ← h.row, ← h.column, ← h.cell y hy x hx]
  exact if_congr (by omega) rfl rfl

/-- The next row is blanked in the colour of its time if the screen scrolls for it. -/
theorem Paints.newline (h : Paints color p s) :
    Paints color (p.newline (vgaBlank color)) (putcharScroll (s.setCursor (s.terminal.row + 1) 0)) := by
  obtain ⟨hrow, -⟩ := h.onScreen
  have hrow' := h.row
  have hnext : (s.terminal.row + 1).toNat = s.terminal.row.toNat + 1 := toNat_add_one (by omega)
  have hbuffer : (s.setCursor (s.terminal.row + 1) 0).terminal.buffer = vgaMemory := by
    rw [Kernel.setCursor_buffer, h.buffer]
  have hcolor : (s.setCursor (s.terminal.row + 1) 0).terminal.color = color := by
    rw [Kernel.setCursor_color, h.color]
  by_cases hlast : s.terminal.row.toNat + 1 = 25
  · have hview : ∀ {y}, y < 25 → ∀ x, _ :=
      fun hy x => Sheet.view_newline_of_eq (p := p) (by rw [← hrow', hlast]) (vgaBlank color) hy x
    have hdraws := terminalScroll_draws hbuffer
    rw [putcharScroll_of_eq (by rw [Kernel.setCursor_row, hnext, hlast])]
    generalize terminalScroll (s.setCursor (s.terminal.row + 1) 0) = t at hdraws ⊢
    obtain ⟨hterminal, -, hcells⟩ := hdraws
    refine ⟨?_, ?_, ?_, ?_, fun y hy x hx => ?_⟩
    · rw [Kernel.setCursor_buffer, hterminal, hbuffer]
    · rw [Kernel.setCursor_color, hterminal, hcolor]
    · rw [Kernel.setCursor_row, (hview (by decide : 0 < 25) 0).2, ← hrow']
      show 24 = _
      omega
    · rw [Kernel.setCursor_column, Kernel.setCursor_column]
      rfl
    · rw [(hview hy x).1, Kernel.setCursor_cell, hcells _ (by omega), hcolor, Kernel.setCursor_cell]
      by_cases hy' : y + 1 < 25
      · have hcell : y * 80 + x + 80 = (y + 1) * 80 + x := by omega
        rw [if_pos hy', if_pos (by omega), hcell, h.cell (y + 1) hy' x hx]
      · rw [if_neg hy', if_neg (by omega)]
  · have hview := Sheet.view_newline_of_lt (by omega : p.cursorRow + 1 < 25) (vgaBlank color)
    rw [putcharScroll_of_ne (by rw [Kernel.setCursor_row, hnext]; exact hlast)]
    refine ⟨hbuffer, hcolor, ?_, ?_, fun y hy x hx => ?_⟩
    · rw [Kernel.setCursor_row, hnext, hrow', (hview 0 0).2]
    · rw [Kernel.setCursor_column]
      rfl
    · rw [(hview y x).1, Kernel.setCursor_cell, h.cell y hy x hx]

/-- The tests at the end of `terminal_putchar` go on to the next row where the sheet does. -/
theorem Paints.advance (h : Paints color p s) :
    Paints color (p.advance (vgaBlank color))
      (putcharScroll (putcharWrap (s.setCursor s.terminal.row (s.terminal.column + 1)))) := by
  obtain ⟨hrow, hcolumn⟩ := h.onScreen
  have hnext : (s.terminal.column + 1).toNat = s.terminal.column.toNat + 1 := toNat_add_one (by omega)
  rw [Sheet.advance]
  by_cases hlast : s.terminal.column.toNat + 1 < 80
  · rw [dif_pos (by rwa [← h.column]), putcharWrap_of_ne (by rw [Kernel.setCursor_column]; omega),
      putcharScroll_of_ne (by rw [Kernel.setCursor_row]; omega)]
    refine ⟨h.buffer, h.color, h.row, ?_, fun y hy x hx => ?_⟩
    · rw [Kernel.setCursor_column, hnext]
      exact congrArg (· + 1) h.column
    · rw [Kernel.setCursor_cell, h.cell y hy x hx]
      rfl
  · have hwrap : putcharWrap (s.setCursor s.terminal.row (s.terminal.column + 1)) =
        s.setCursor (s.terminal.row + 1) 0 := by
      rw [putcharWrap_of_eq (by rw [Kernel.setCursor_column]; omega), Kernel.setCursor_row]
      rfl
    rw [dif_neg (by rwa [← h.column]), hwrap]
    exact h.newline

/-- **One character** is painted in the colour of the terminal. -/
theorem Paints.putchar (h : Paints color p s) {c : UInt8} (hc : c ≠ 9 ∧ c ≠ 8) :
    Paints color (p.char color c) (terminalPutchar c s) := by
  rw [TextSheet.char, terminalPutchar]
  by_cases hnewline : c = 10
  · subst hnewline
    rw [if_pos rfl, putcharEntry_newline, putcharWrap_of_ne (by rw [Kernel.setCursor_column]; decide)]
    exact h.newline
  · rw [if_neg hnewline, putcharEntry_other s hnewline hc.1 hc.2, h.color]
    exact (h.write c).advance

/-- The end of `terminal_putchar` changes the screen only. -/
theorem putcharEnd_mem (hb : s.terminal.buffer = vgaMemory) :
    Set.EqOn (putcharScroll (putcharWrap s)).mem s.mem screenᶜ := by
  have hwrap : (putcharWrap s).mem = s.mem ∧ (putcharWrap s).terminal.buffer = s.terminal.buffer := by
    rw [putcharWrap]
    split <;> exact ⟨rfl, rfl⟩
  rw [← hwrap.1]
  by_cases h : (putcharWrap s).terminal.row.toNat = 25
  · rw [putcharScroll_of_eq h, Kernel.setCursor_mem]
    exact (terminalScroll_draws (hwrap.2.trans hb)).mem
  · rw [putcharScroll_of_ne h]
    exact fun _ _ => rfl

/-- A character changes the screen only. -/
theorem Paints.putchar_mem (h : Paints color p s) {c : UInt8} (hc : c ≠ 9 ∧ c ≠ 8) :
    Set.EqOn (terminalPutchar c s).mem s.mem screenᶜ := by
  rw [terminalPutchar]
  by_cases hnewline : c = 10
  · subst hnewline
    rw [putcharEntry_newline]
    exact putcharEnd_mem h.buffer
  · have hentry := h.putentryat_draws c
    rw [putcharEntry_other s hnewline hc.1 hc.2, h.color]
    refine (putcharEnd_mem ?_).trans hentry.mem
    rw [Kernel.setCursor_buffer, hentry.terminal]
    exact h.buffer

/-- A string in one colour. -/
theorem Paints.putchars {str : List UInt8} (h : Paints color p s) (hplain : ∀ c ∈ str, c ≠ 9 ∧ c ≠ 8) :
    Paints color (str.foldl (TextSheet.char color) p) (terminalPutchars str s) ∧
      Set.EqOn (terminalPutchars str s).mem s.mem screenᶜ := by
  induction str generalizing p s with
  | nil => exact ⟨h, fun _ _ => rfl⟩
  | cons c str ih =>
    have hc := hplain c List.mem_cons_self
    obtain ⟨hpaints, hmem⟩ := ih (h.putchar hc) fun d hd => hplain d (List.mem_cons_of_mem c hd)
    exact ⟨hpaints, hmem.trans (h.putchar_mem hc)⟩

end Paints

/-! ### Any calls -/

/-- A call of the terminal. -/
inductive TerminalCall where
  | setcolor (color : UInt8)
  | write (str : List UInt8)

namespace TerminalCall

/-- What a call does. -/
def run (s : Kernel) : TerminalCall → Kernel
  | .setcolor color => terminalSetcolor color s
  | .write str => terminalPutchars str s

/-- What it draws on the sheet, and the colour it leaves. -/
def draw (p : UInt8 × TextSheet) : TerminalCall → UInt8 × TextSheet
  | .setcolor color => (color, p.2)
  | .write str => (p.1, str.foldl (TextSheet.char p.1) p.2)

/-- No tabs and no backspaces are written. -/
def Plain : TerminalCall → Prop
  | .setcolor _ => True
  | .write str => ∀ c ∈ str, c ≠ 9 ∧ c ≠ 8

end TerminalCall

/-- Calls in any order. -/
theorem Paints.calls {calls : List TerminalCall} {p : UInt8 × TextSheet} {s : Kernel} (h : Paints p.1 p.2 s)
    (hplain : ∀ call ∈ calls, call.Plain) :
    Paints (calls.foldl TerminalCall.draw p).1 (calls.foldl TerminalCall.draw p).2
        (calls.foldl TerminalCall.run s) ∧
      Set.EqOn (calls.foldl TerminalCall.run s).mem s.mem screenᶜ := by
  induction calls generalizing p s with
  | nil => exact ⟨h, fun _ _ => rfl⟩
  | cons call calls ih =>
    have hcall := hplain call List.mem_cons_self
    have hrest : ∀ call ∈ calls, call.Plain := fun c hc => hplain c (List.mem_cons_of_mem call hc)
    cases call with
    | setcolor color => exact ih (p := (color, p.2)) (h.setcolor color) hrest
    | write str =>
      obtain ⟨hpaints, hmem⟩ := h.putchars hcall
      obtain ⟨hlast, hmem'⟩ := ih (p := (p.1, str.foldl (TextSheet.char p.1) p.2)) hpaints hrest
      exact ⟨hlast, hmem'.trans hmem⟩

/-- **The screen in colours**: after `terminal_initialize` and any calls of `terminal_setcolor` and of
`terminal_putchar`, without tabs and backspaces, the screen is the view of the sheet that they draw on, the
cursor is the sheet's, and nothing but the screen is written. -/
theorem terminal_paints (termCol : UInt8) (calls : List TerminalCall) (hplain : ∀ call ∈ calls, call.Plain)
    (s : Kernel) :
    let t := calls.foldl TerminalCall.run (terminalInitialize termCol s)
    let p := calls.foldl TerminalCall.draw (terminalColor termCol, blankSheet (terminalColor termCol))
    (∀ y < 25, ∀ x < 80, t.cell (y * 80 + x) = p.2.cell (p.2.row - 24 + y) x) ∧
      t.terminal.row.toNat = min p.2.row 24 ∧ t.terminal.column.toNat = p.2.column ∧
      t.terminal.color = p.1 ∧ Set.EqOn t.mem s.mem screenᶜ := by
  obtain ⟨h, hmem⟩ := (paints_terminalInitialize termCol s).calls
    (p := (terminalColor termCol, blankSheet (terminalColor termCol))) hplain
  refine ⟨h.cell, h.row.trans ?_, h.column, h.color, hmem.trans (terminalInitialize_draws termCol s).mem⟩
  rw [Sheet.cursorRow, Sheet.top]
  omega

/-- A greeting in white on blue, on a grey screen. -/
theorem terminal_paints_greeting :
    let t := [TerminalCall.setcolor 0x1F, .write [72, 105, 10]].foldl TerminalCall.run
      (terminalInitialize 0 Kernel.loaded)
    t.cell 0 = 0x1F48 ∧ t.cell 1 = 0x1F69 ∧ t.cell 2 = 0x0720 ∧ t.terminal.row.toNat = 1 := by
  obtain ⟨hcell, hrow, -⟩ := terminal_paints 0 [.setcolor 0x1F, .write [72, 105, 10]]
    (by simp [TerminalCall.Plain]) Kernel.loaded
  have hfirst := hcell 0 (by decide)
  exact ⟨hfirst 0 (by decide), hfirst 1 (by decide), hfirst 2 (by decide), hrow⟩

end JurasOS
