import JurasOS.Screen.Strip
import JurasOS.Tty.Refinement

/-!
# Every character in a cell of its own

The screen as a window of 2000 cells on a strip: from any screen on, with the cursor
anywhere on it, `terminal_putchar` puts a character that takes a cell into the next
cell of the strip. So of a string each character that is not scrolled off is in
the cell of its own turn.
-/

namespace JurasOS

open Machine Screen

/-- A character that takes a cell: not a newline, a tab or a backspace. -/
def TakesCell (c : UInt8) : Prop := c ≠ 10 ∧ c ≠ 9 ∧ c ≠ 8

instance (c : UInt8) : Decidable (TakesCell c) := inferInstanceAs (Decidable (_ ∧ _ ∧ _))

theorem screenRow_pos : 0 < 80 := by decide

theorem screenRow_le : 80 ≤ 2000 := by decide

/-- A strip of cells behind the screen. -/
abbrev TextStrip (color : UInt8) := Strip UInt16 80 2000 (vgaBlank color)

/-- A character is written on the strip. -/
def TextStrip.char {color : UInt8} (p : TextStrip color) (c : UInt8) : TextStrip color :=
  p.put screenRow_pos screenRow_le (vgaEntry c color)

/-- The cell of the cursor. -/
def Kernel.position (s : Kernel) : ℕ := s.terminal.row.toNat * 80 + s.terminal.column.toNat

/-- The screen is the window, with the cursor at the next cell. -/
structure ShowsStrip {color : UInt8} (p : TextStrip color) (s : Kernel) : Prop where
  buffer : s.terminal.buffer = vgaMemory
  color : s.terminal.color = color
  onScreen : OnScreen s
  position : p.start + s.position = p.position
  cell : ∀ i < 2000, s.cell i = p.view i

section ShowsStrip

variable {color : UInt8} {p : TextStrip color} {s : Kernel} {c : UInt8}

/-- Any screen is the window of a strip, at its beginning. -/
theorem exists_showsStrip (hb : s.terminal.buffer = vgaMemory) (hs : OnScreen s) :
    ∃ p : TextStrip s.terminal.color, ShowsStrip p s ∧ p.start = 0 ∧ p.position = s.position := by
  have hlt : s.position < 2000 := by
    have hs' := hs
    rw [OnScreen] at hs'
    rw [Kernel.position]
    omega
  refine ⟨⟨fun i => if i < 2000 then s.cell i else vgaBlank s.terminal.color, s.position, 0,
    Nat.zero_le _, by omega, Nat.dvd_zero 80, Or.inl rfl, fun i hi => if_neg (by omega)⟩,
    ⟨hb, rfl, hs, Nat.zero_add _, fun i hi => ?_⟩, rfl, rfl⟩
  show s.cell i = if 0 + i < 2000 then s.cell (0 + i) else _
  rw [Nat.zero_add, if_pos hi]

/-- The character is in its cell, and the cursor is at the next one, on the screen still. -/
theorem ShowsStrip.put (h : ShowsStrip p s) (c : UInt8) {t : Kernel} {row column : UInt32}
    (ht : Draws (fun i => if i = s.position then vgaEntry c color else s.cell i) s t) (hrow : row.toNat < 25)
    (hcolumn : column.toNat < 80) (hnext : row.toNat * 80 + column.toNat = s.position + 1) :
    ShowsStrip (p.char c) (t.setCursor row column) := by
  have hposition := h.position
  have hlt : p.position + 1 < p.start + 2000 := by omega
  have hstart : (p.char c).start = p.start := if_neg (by omega)
  refine ⟨?_, ?_, ⟨hrow, hcolumn⟩, ?_, fun i hi => ?_⟩
  · rw [Kernel.setCursor_buffer, ht.terminal, h.buffer]
  · rw [Kernel.setCursor_color, ht.terminal, h.color]
  · rw [hstart, Kernel.position, Kernel.setCursor_row, Kernel.setCursor_column, hnext, ← Nat.add_assoc,
      hposition]
    rfl
  · rw [Kernel.setCursor_cell, ht.cells i hi, TextStrip.char, Strip.view_put_of_lt hlt, ← h.cell i hi]
    exact if_congr (by omega) rfl rfl

/-- In the last cell of the screen it is, and the screen moves on by a row. -/
theorem ShowsStrip.put_last (h : ShowsStrip p s) (c : UInt8) {t u : Kernel}
    (ht : Draws (fun i => if i = s.position then vgaEntry c color else s.cell i) s t)
    (hbuffer : u.terminal.buffer = vgaMemory) (hcolor : u.terminal.color = color)
    (hu : ∀ i < 2000, u.cell i = if i + 80 < 2000 then t.cell (i + 80) else vgaBlank color)
    (hlast : s.position + 1 = 2000) :
    ShowsStrip (p.char c) (u.setCursor 24 0) := by
  have hposition := h.position
  have heq : p.position + 1 = p.start + 2000 := by omega
  have hstart : (p.char c).start = p.start + 80 := if_pos heq
  refine ⟨?_, ?_, ⟨(by decide : (24 : UInt32).toNat < 25), (by decide : (0 : UInt32).toNat < 80)⟩, ?_,
    fun i hi => ?_⟩
  · rw [Kernel.setCursor_buffer, hbuffer]
  · rw [Kernel.setCursor_color, hcolor]
  · rw [hstart]
    show p.start + 80 + 1920 = p.position + 1
    omega
  · rw [Kernel.setCursor_cell, hu i hi, TextStrip.char, Strip.view_put_of_eq heq]
    by_cases hrow : i + 80 < 2000
    · rw [if_pos hrow, if_pos hrow, ht.cells _ hrow, ← h.cell _ hrow]
      exact if_congr (by omega) rfl rfl
    · rw [if_neg hrow, if_neg hrow]

/-- **One character** that takes a cell goes to the next cell of the strip. -/
theorem ShowsStrip.putchar (h : ShowsStrip p s) (hc : TakesCell c) :
    ShowsStrip (p.char c) (terminalPutchar c s) := by
  obtain ⟨hrow, hcolumn⟩ := h.onScreen
  have hdraws := putentryat_draws h.buffer c color hcolumn hrow
  have hright : (s.terminal.column + 1).toNat = s.terminal.column.toNat + 1 := toNat_add_one (by omega)
  have hdown : (s.terminal.row + 1).toNat = s.terminal.row.toNat + 1 := toNat_add_one (by omega)
  rw [terminalPutchar, putcharEntry_other s hc.1 hc.2.1 hc.2.2, h.color]
  generalize terminalPutentryat c color s.terminal.column s.terminal.row s = t at hdraws
  by_cases hend : s.terminal.column.toNat + 1 < 80
  · rw [putcharWrap_of_ne (by rw [Kernel.setCursor_column]; omega),
      putcharScroll_of_ne (by rw [Kernel.setCursor_row]; omega)]
    exact h.put c hdraws hrow (by omega) (by rw [hright, Kernel.position]; omega)
  · have hwrap : putcharWrap (t.setCursor s.terminal.row (s.terminal.column + 1)) =
      t.setCursor (s.terminal.row + 1) 0 :=
      putcharWrap_of_eq (by rw [Kernel.setCursor_column]; omega)
    rw [hwrap]
    by_cases hlast : s.terminal.row.toNat + 1 < 25
    · rw [putcharScroll_of_ne (by rw [Kernel.setCursor_row]; omega)]
      refine h.put c hdraws (by omega) (by decide : (0 : UInt32).toNat < 80) ?_
      rw [hdown, Kernel.position]
      show _ + 0 = _
      omega
    · have hcolor : (t.setCursor (s.terminal.row + 1) 0).terminal.color = color := by
        rw [Kernel.setCursor_color, hdraws.terminal, h.color]
      have hscroll := terminalScroll_draws (s := t.setCursor (s.terminal.row + 1) 0)
        (by rw [Kernel.setCursor_buffer, hdraws.terminal, h.buffer])
      rw [hcolor] at hscroll
      rw [putcharScroll_of_eq (by rw [Kernel.setCursor_row]; omega)]
      refine h.put_last c hdraws ?_ ?_ hscroll.cells (by rw [Kernel.position]; omega)
      · rw [hscroll.terminal, Kernel.setCursor_buffer, hdraws.terminal, h.buffer]
      · rw [hscroll.terminal, hcolor]

/-- A string of them goes to the next cells. -/
theorem ShowsStrip.putchars (h : ShowsStrip p s) {cs : List UInt8} (hcs : ∀ c ∈ cs, TakesCell c) :
    ShowsStrip (cs.foldl TextStrip.char p) (terminalPutchars cs s) := by
  induction cs generalizing p s with
  | nil => exact h
  | cons c cs ih =>
    exact ih (h.putchar (hcs c List.mem_cons_self)) fun d hd => hcs d (List.mem_cons_of_mem c hd)

/-- From the screen of `s` to that of `t` some rows were scrolled off, not before there was no room,
and the characters `cs` that are not among them are each in the cell of its own turn, from the
cursor on. -/
structure OwnCells (s t : Kernel) (cs : List UInt8) : Prop where
  onScreen : OnScreen t
  cells : ∃ rows, 80 * rows + t.position = s.position + cs.length ∧ (rows = 0 ∨ t.terminal.row = 24) ∧
    ∀ k (h : k < cs.length), 80 * rows ≤ s.position + k →
      t.cell (s.position + k - 80 * rows) = vgaEntry cs[k] s.terminal.color

/-- **A string of characters that take a cell**, on any screen, is in cells of its own. -/
theorem terminalPutchars_ownCells (hb : s.terminal.buffer = vgaMemory) (hs : OnScreen s) {cs : List UInt8}
    (hcs : ∀ c ∈ cs, TakesCell c) : OwnCells s (terminalPutchars cs s) cs := by
  obtain ⟨p, hshows, hstart, hposition⟩ := exists_showsStrip hb hs
  have h := hshows.putchars hcs
  have hputs : cs.foldl TextStrip.char p =
      p.puts screenRow_pos screenRow_le (cs.map fun c => vgaEntry c s.terminal.color) := by
    rw [Strip.puts, List.foldl_map]
    rfl
  rw [hputs] at h
  have hend : Strip.position
    (p.puts screenRow_pos screenRow_le (cs.map fun c => vgaEntry c s.terminal.color)) =
      p.position + (cs.map fun c => vgaEntry c s.terminal.color).length := Strip.puts_position
  have hcell : ∀ k (hk : k < cs.length),
    Strip.cell (p.puts screenRow_pos screenRow_le (cs.map fun c => vgaEntry c s.terminal.color))
      (s.position + k) = vgaEntry cs[k] s.terminal.color := by
    intro k hk
    rw [← hposition, Strip.puts_cell (by rwa [List.length_map]), List.getElem_map]
  rw [List.length_map, hposition] at hend
  generalize p.puts screenRow_pos screenRow_le (cs.map fun c => vgaEntry c s.terminal.color) =
    q at h hend hcell
  generalize terminalPutchars cs s = t at h
  have hscreen := h.onScreen
  have hcursor := h.position
  have hrow := q.start_eq_zero_or
  obtain ⟨rows, hrows⟩ := q.width_dvd
  rw [hrows, hend] at hcursor
  refine ⟨hscreen, rows, hcursor, ?_, fun k hk hvisible => ?_⟩
  · rcases hrow with hzero | hlast
    · left
      omega
    · right
      rw [OnScreen] at hscreen
      rw [Kernel.position] at hcursor
      refine UInt32.toNat_inj.mp ?_
      show t.terminal.row.toNat = 24
      omega
  · have hlt : t.position < 2000 := by
      rw [OnScreen] at hscreen
      rw [Kernel.position]
      omega
    rw [h.cell _ (by omega), Strip.view, hrows, Nat.add_sub_cancel' hvisible, hcell k hk]

end ShowsStrip

end JurasOS
