import JurasOS.Tty.Strip

/-!
# Backspaces take back what was typed

A backspace undoes a step of the cursor: inside a row it goes back by a column, at
the start of a row it goes back over the wrap to the last column of the row above. So
`n` of them after `n` characters bring the cursor to where the first character is by
then, which is `80` cells further up for each time that `terminal_scroll` ran.
-/

namespace JurasOS

open Machine Screen

/-- How often `terminal_scroll` runs in `terminal_putchar`. -/
def scrolledBy (c : UInt8) (s : Kernel) : ℕ :=
  if (putcharWrap (putcharEntry c s)).terminal.row = vgaHeight then 1 else 0

/-- How often it runs while characters are typed. -/
def scrolls : List UInt8 → Kernel → ℕ
  | [], _ => 0
  | c :: cs, s => scrolledBy c s + scrolls cs (terminalPutchar c s)

/-- From `s` to `t` the `n` cells before the cursor got a null character, and the cursor went back
over them. -/
structure Erases (n : ℕ) (s t : Kernel) : Prop where
  buffer : t.terminal.buffer = vgaMemory
  color : t.terminal.color = s.terminal.color
  onScreen : OnScreen t
  position : t.position + n = s.position
  cells : ∀ i < 2000, t.cell i =
    if t.position ≤ i ∧ i < s.position then vgaEntry 0 s.terminal.color else s.cell i

section Backspace

variable {s t u : Kernel} {c : UInt8} {n : ℕ}

theorem position_lt (h : OnScreen s) : s.position < 2000 := by
  obtain ⟨hrow, hcolumn⟩ := h
  rw [Kernel.position]
  omega

/-- The cursor is known from its cell. -/
theorem cursor_of_position (h : OnScreen s) {row column : ℕ} (hcolumn : column < 80)
    (hposition : s.position = row * 80 + column) :
    s.terminal.row.toNat = row ∧ s.terminal.column.toNat = column := by
  obtain ⟨-, hlt⟩ := h
  rw [Kernel.position] at hposition
  omega

/-! ### Typing -/

/-- A character scrolls the screen when it is written in the last cell. -/
theorem scrolledBy_eq (h : OnScreen s) (hc : TakesCell c) :
    scrolledBy c s = if s.position + 1 = 2000 then 1 else 0 := by
  obtain ⟨hrow, hcolumn⟩ := h
  have hright : (s.terminal.column + 1).toNat = s.terminal.column.toNat + 1 := toNat_add_one (by omega)
  have hdown : (s.terminal.row + 1).toNat = s.terminal.row.toNat + 1 := toNat_add_one (by omega)
  have hheight : vgaHeight.toNat = 25 := rfl
  have hlast : (putcharWrap (putcharEntry c s)).terminal.row.toNat = 25 ↔ s.position + 1 = 2000 := by
    rw [putcharEntry_other s hc.1 hc.2.1 hc.2.2, Kernel.position]
    by_cases hend : s.terminal.column.toNat + 1 = 80
    · rw [putcharWrap_of_eq (by rw [Kernel.setCursor_column, hright, hend]), Kernel.setCursor_row,
        Kernel.setCursor_row, hdown]
      omega
    · rw [putcharWrap_of_ne (by rwa [Kernel.setCursor_column, hright]), Kernel.setCursor_row]
      omega
  rw [scrolledBy]
  refine if_congr ?_ rfl rfl
  rw [← UInt32.toNat_inj, hheight, hlast]

/-- The window of the strip moves on by a row each time. -/
theorem ShowsStrip.start_putchars {color : UInt8} {p : TextStrip color} (h : ShowsStrip p s) {cs : List UInt8}
    (hcs : ∀ c ∈ cs, TakesCell c) :
    (cs.foldl TextStrip.char p).start = p.start + 80 * scrolls cs s ∧
      (cs.foldl TextStrip.char p).position = p.position + cs.length := by
  induction cs generalizing p s with
  | nil => exact ⟨rfl, rfl⟩
  | cons c cs ih =>
    have hc := hcs c List.mem_cons_self
    obtain ⟨hstart, hposition⟩ := ih (h.putchar hc) fun d hd => hcs d (List.mem_cons_of_mem c hd)
    have hchar : (p.char c).start = p.start + 80 * scrolledBy c s := by
      have hcursor := h.position
      rw [scrolledBy_eq h.onScreen hc, TextStrip.char, Strip.put_start]
      split <;> split <;> omega
    have hnext : (p.char c).position = p.position + 1 := rfl
    rw [List.foldl_cons, hstart, hposition, hchar, hnext, scrolls, List.length_cons]
    omega

/-- Typing moves the cursor on by a cell for each character, on a screen that may have moved. -/
theorem position_putchars (hb : s.terminal.buffer = vgaMemory) (hs : OnScreen s) {cs : List UInt8}
    (hcs : ∀ c ∈ cs, TakesCell c) :
    80 * scrolls cs s + (terminalPutchars cs s).position = s.position + cs.length ∧
      (terminalPutchars cs s).terminal.buffer = vgaMemory ∧
      (terminalPutchars cs s).terminal.color = s.terminal.color := by
  obtain ⟨p, hshows, hzero, hcursor⟩ := exists_showsStrip hb hs
  obtain ⟨hstart, hposition⟩ := hshows.start_putchars hcs
  have hend := hshows.putchars hcs
  have hnext := hend.position
  rw [hstart, hposition, hzero, hcursor, Nat.zero_add] at hnext
  exact ⟨hnext, hend.buffer, hend.color⟩

/-! ### Erasing -/

theorem Erases.refl (hb : s.terminal.buffer = vgaMemory) (hs : OnScreen s) : Erases 0 s s :=
  ⟨hb, rfl, hs, rfl, fun i _ => (if_neg (by omega)).symm⟩

/-- One more cell is erased. -/
theorem Erases.trans_one (h : Erases n s t) (h' : Erases 1 t u) : Erases (n + 1) s u := by
  have hst := h.position
  have htu := h'.position
  refine ⟨h'.buffer, h'.color.trans h.color, h'.onScreen, by omega, fun i hi => ?_⟩
  rw [h'.cells i hi, h.cells i hi, h.color]
  by_cases hcell : i = u.position
  · rw [if_pos (by omega), if_pos (by omega)]
  · rw [if_neg (by omega)]
    exact if_congr (by omega) rfl rfl

/-- A null character is written in the cell that the cursor goes to. -/
theorem erases_putentryat (hb : s.terminal.buffer = vgaMemory) {row column : UInt32} (hrow : row.toNat < 25)
    (hcolumn : column.toNat < 80) (hback : row.toNat * 80 + column.toNat + 1 = s.position) :
    Erases 1 s (terminalPutentryat 0 s.terminal.color column row (s.setCursor row column)) := by
  have hdraws := putentryat_draws (s := s.setCursor row column) (by rw [Kernel.setCursor_buffer, hb]) 0
    s.terminal.color hcolumn hrow
  generalize terminalPutentryat 0 s.terminal.color column row (s.setCursor row column) = t at hdraws
  have hposition : t.position = row.toNat * 80 + column.toNat := by
    rw [Kernel.position, hdraws.terminal, Kernel.setCursor_row, Kernel.setCursor_column]
  refine ⟨?_, ?_, ?_, by rw [hposition, hback], fun i hi => ?_⟩
  · rw [hdraws.terminal, Kernel.setCursor_buffer, hb]
  · rw [hdraws.terminal, Kernel.setCursor_color]
  · rw [OnScreen, hdraws.terminal]
    exact ⟨hrow, hcolumn⟩
  · rw [hdraws.cells i hi, Kernel.setCursor_cell, hposition]
    exact if_congr (by omega) rfl rfl

/-- **One backspace** erases the cell before the cursor, be it in the row above. -/
theorem erases_backspace (hb : s.terminal.buffer = vgaMemory) (hs : OnScreen s) (hpos : 0 < s.position) :
    Erases 1 s (terminalPutchar 8 s) := by
  have hcolumn79 : (vgaWidth - 1).toNat = 79 := rfl
  have hentry : Erases 1 s (putcharEntry 8 s) := by
    obtain ⟨hrow, hcolumn⟩ := hs
    by_cases hzero : s.terminal.column = 0
    · have hcolumn0 : s.terminal.column.toNat = 0 := congrArg UInt32.toNat hzero
      rw [Kernel.position] at hpos
      have hup : (s.terminal.row - 1).toNat = s.terminal.row.toNat - 1 := by
        rw [UInt32.toNat_sub, UInt32.toNat_one]
        omega
      rw [putcharEntry_backspace_zero s hzero]
      exact erases_putentryat hb (by omega) (by omega) (by rw [Kernel.position]; omega)
    · have hcolumn0 : s.terminal.column.toNat ≠ 0 := fun h0 => hzero (UInt32.toNat_inj.mp h0)
      have hleft : (s.terminal.column - 1).toNat = s.terminal.column.toNat - 1 := by
        rw [UInt32.toNat_sub, UInt32.toNat_one]
        omega
      rw [putcharEntry_backspace s hzero]
      exact erases_putentryat hb hrow (by omega) (by rw [Kernel.position]; omega)
  obtain ⟨hrow, hcolumn⟩ := hentry.onScreen
  rwa [terminalPutchar, putcharWrap_of_ne (by omega), putcharScroll_of_ne (by omega)]

/-- Backspaces erase the cells before the cursor, as many as there are. -/
theorem erases_backspaces (hb : s.terminal.buffer = vgaMemory) (hs : OnScreen s) (hn : n ≤ s.position) :
    Erases n s (terminalPutchars (List.replicate n 8) s) := by
  induction n with
  | zero => exact Erases.refl hb hs
  | succ n ih =>
    have h := ih (by omega)
    have hposition := h.position
    rw [List.replicate_succ', terminalPutchars_concat]
    exact h.trans_one (erases_backspace h.buffer h.onScreen (by omega))

/-- **Typing a string and then a backspace for each of its characters**, on any screen: the cursor is where
the string began, as many rows further up as the screen was scrolled; the cells that held the string hold
null characters, and the others what they held after the string was typed. -/
theorem terminalPutchars_backspaces (hb : s.terminal.buffer = vgaMemory) (hs : OnScreen s) {cs : List UInt8}
    (hcs : ∀ c ∈ cs, TakesCell c) (hscrolls : scrolls cs s ≤ s.terminal.row.toNat) :
    let t := terminalPutchars cs s
    let u := terminalPutchars (List.replicate cs.length 8) t
    let first := (s.terminal.row.toNat - scrolls cs s) * 80 + s.terminal.column.toNat
    (u.terminal.row.toNat = s.terminal.row.toNat - scrolls cs s ∧ u.terminal.column = s.terminal.column) ∧
      (∀ k (h : k < cs.length), t.cell (first + k) = vgaEntry cs[k] s.terminal.color ∧
        u.cell (first + k) = vgaEntry 0 s.terminal.color) ∧
      ∀ i < 2000, (i < first ∨ first + cs.length ≤ i) → u.cell i = t.cell i := by
  intro t u first
  have hcolumn := hs.2
  obtain ⟨hposition, hbuffer, hcolor⟩ := position_putchars hb hs hcs
  obtain ⟨hscreen, rows, hrows, -, hown⟩ := terminalPutchars_ownCells hb hs hcs
  change 80 * scrolls cs s + t.position = _ at hposition
  change 80 * rows + t.position = _ at hrows
  have hfirst : first + 80 * scrolls cs s = s.position := by
    rw [Kernel.position]
    omega
  have herases : Erases cs.length t u := erases_backspaces hbuffer hscreen (by omega)
  have hlt : t.position < 2000 := position_lt hscreen
  have hback : u.position = first := by
    have := herases.position
    omega
  obtain ⟨hrow, hcolumn'⟩ := cursor_of_position herases.onScreen hcolumn hback
  refine ⟨⟨hrow, UInt32.toNat_inj.mp hcolumn'⟩, fun k hk => ⟨?_, ?_⟩, fun i hi houtside => ?_⟩
  · have hcell := hown k hk (by omega)
    rwa [show s.position + k - 80 * rows = first + k by omega] at hcell
  · rw [herases.cells _ (by omega), if_pos (by omega), hcolor]
  · rw [herases.cells i hi, if_neg (by omega)]

/-- Two characters typed at the end of the screen scroll it once, so the cursor comes back a row
further up. -/
theorem terminalPutchars_backspaces_last :
    let s := { Kernel.loaded with terminal := ⟨24, 79, 7, vgaMemory⟩ }
    let u := terminalPutchars (List.replicate 2 8) (terminalPutchars [65, 66] s)
    u.terminal.row.toNat = 23 ∧ u.terminal.column = 79 ∧ u.cell 1919 = 0x0700 ∧ u.cell 1920 = 0x0700 := by
  have hscrolls : scrolls [65, 66] { Kernel.loaded with terminal := ⟨24, 79, 7, vgaMemory⟩ } = 1 := by decide
  obtain ⟨⟨hrow, hcolumn⟩, hcells, -⟩ :=
    terminalPutchars_backspaces (s := { Kernel.loaded with terminal := ⟨24, 79, 7, vgaMemory⟩ }) rfl
      (by decide : 24 < 25 ∧ 79 < 80) (by simp [TakesCell] : ∀ c ∈ [65, 66],
        TakesCell c) (by rw [hscrolls]; decide)
  rw [hscrolls] at hrow hcells
  exact ⟨hrow, hcolumn, (hcells 0 (by decide)).2, (hcells 1 (by decide)).2⟩

end Backspace

end JurasOS
