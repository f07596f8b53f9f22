import JurasOS.Screen.Page
import JurasOS.Tty.Color

/-!
# The screen shows an endless page

The reference terminal writes a string on an endless page of blanks. The screen
that `terminal_write` leaves is the view of that page through a window of 25 rows:
behind the window the page is a sheet in one colour, and on a sheet every character
of `terminal_putchar` is painted (`Color`).
-/

namespace JurasOS

open Machine Screen

/-- An endless page of blanks in a colour. -/
abbrev TextPage (color : UInt8) := Page UInt16 80 (vgaBlank color)

/-- The reference terminal writes a character, or starts a row. -/
def TextPage.char {color : UInt8} (p : TextPage color) (c : UInt8) : TextPage color :=
  if c = 10 then p.newline else p.put (vgaEntry c color)

/-- The reference terminal writes a string on an empty page. -/
def textPage (color : UInt8) (str : List UInt8) : TextPage color :=
  str.foldl TextPage.char (Page.empty 80 (vgaBlank color) (by decide))

/-- The screen shows the page through a window of 25 rows, with the cursor in its place. -/
abbrev Shows {color : UInt8} (p : TextPage color) (s : Kernel) : Prop := Paints color (p.toSheet 25) s

section Shows

variable {color : UInt8} {p : TextPage color} {s : Kernel}

/-- Behind the window the reference terminal writes on a sheet, in one colour. -/
theorem TextPage.toSheet_char (p : TextPage color) (c : UInt8) :
    (p.char c).toSheet 25 = TextSheet.char color (p.toSheet 25) c := by
  rw [TextPage.char, TextSheet.char]
  split
  · exact p.toSheet_newline 25
  · exact p.toSheet_put 25 _

theorem TextPage.toSheet_chars (p : TextPage color) (str : List UInt8) :
    (str.foldl TextPage.char p).toSheet 25 = str.foldl (TextSheet.char color) (p.toSheet 25) :=
  (List.foldl_hom (Page.toSheet 25) fun p c => (TextPage.toSheet_char p c).symm).symm

/-- An empty screen shows an empty page. -/
theorem shows_terminalInitialize (termCol : UInt8) (s : Kernel) :
    Shows (textPage (terminalColor termCol) []) (terminalInitialize termCol s) :=
  paints_terminalInitialize termCol s

/-- **A string** shows what the reference terminal writes, and changes the screen only. -/
theorem Shows.putchars (h : Shows p s) {str : List UInt8} (hplain : ∀ c ∈ str, c ≠ 9 ∧ c ≠ 8) :
    Shows (str.foldl TextPage.char p) (terminalPutchars str s) ∧
      Set.EqOn (terminalPutchars str s).mem s.mem screenᶜ := by
  rw [Shows, TextPage.toSheet_chars]
  exact Paints.putchars h hplain

/-! ### Strings in memory -/

/-- The string at an address. -/
def stringAt (m : Mem) (data : UInt32) (size : ℕ) : List UInt8 := (List.range size).map fun i =>
    m (data + UInt32.ofNat i)

theorem stringAt_succ (m : Mem) (data : UInt32) (size : ℕ) :
    stringAt m data (size + 1) = stringAt m data size ++ [m (data + UInt32.ofNat size)] := by
  rw [stringAt, List.range_succ, List.map_append]
  rfl

/-- From a string that lies off the screen `terminal_write` reads the string. -/
theorem charsRead_eq (h : Shows p s) {data : UInt32} {size : ℕ} (hsize : size ≤ 2 ^ 32)
    (hoff : Disjoint (span data size) screen) (hplain : ∀ c ∈ stringAt s.mem data size, c ≠ 9 ∧ c ≠ 8) :
    charsRead data s size = stringAt s.mem data size := by
  suffices hall : charsRead data s size = stringAt s.mem data size ∧
      Set.EqOn (terminalPutchars (stringAt s.mem data size) s).mem s.mem screenᶜ from hall.1
  induction size with
  | zero => exact ⟨rfl, fun _ _ => rfl⟩
  | succ n ih =>
    rw [stringAt_succ] at hplain ⊢
    have hinit : ∀ c ∈ stringAt s.mem data n, c ≠ 9 ∧ c ≠ 8 :=
      fun c hc => hplain c (List.mem_append_left _ hc)
    obtain ⟨hread, hmem⟩ := ih (by omega) (hoff.mono_left (span_mono (by omega))) hinit
    have hbyte :=
      hmem (Set.disjoint_left.mp hoff (add_ofNat_mem_span (a := data) (i := n) (by omega) (by omega)))
    have hlast := hplain _ (List.mem_append_right _ List.mem_cons_self)
    refine ⟨by rw [charsRead, hread, hbyte], ?_⟩
    rw [terminalPutchars_concat]
    exact ((h.putchars hinit).1.putchar_mem hlast).trans hmem

end Shows

/-! ### `terminal_write` -/

/-- **The screen is the view of the reference terminal's page**, in the colour that `terminal_initialize`
takes, after any string without tab and backspace: rows `R - 24` to `R`, or the first 25. -/
theorem terminalWrite_refines (termCol : UInt8) (data size : UInt32) (s : Kernel)
    (hplain : ∀ c ∈ charsRead data (terminalInitialize termCol s) size.toNat, c ≠ 9 ∧ c ≠ 8) :
    let t := terminalWrite data size (terminalInitialize termCol s)
    let p := textPage (terminalColor termCol) (charsRead data (terminalInitialize termCol s) size.toNat)
    (∀ y < 25, ∀ x < 80, t.cell (y * 80 + x) = p.cell (p.row - 24 + y) x) ∧
      t.terminal.row.toNat = min p.row 24 ∧ t.terminal.column.toNat = p.column := by
  have h : Shows
    (textPage (terminalColor termCol) (charsRead data (terminalInitialize termCol s) size.toNat)) _ :=
    ((shows_terminalInitialize termCol s).putchars hplain).1
  rw [terminalWrite_eq]
  refine ⟨h.cell, h.row.trans ?_, h.column⟩
  rw [Page.cursorRow_toSheet]
  omega

/-- A kernel with the string `Hi` and a newline at `0x1000`. -/
def greetingKernel : Kernel :=
  { Kernel.loaded with
    mem := fun a => if a = 0x1000 then 72 else if a = 0x1001 then 105 else if a = 0x1002 then 10 else 0 }

theorem terminalWrite_refines_greeting :
    let t := terminalWrite 0x1000 3 (terminalInitialize 0x1F greetingKernel)
    t.cell 0 = 0x1F48 ∧ t.cell 1 = 0x1F69 ∧ t.cell 2 = 0x1F20 ∧ t.terminal.row.toNat = 1 ∧
      t.terminal.column.toNat = 0 := by
  have hmem := (terminalInitialize_draws 0x1F greetingKernel).mem
  have hoff : Disjoint (span 0x1000 3) screen := disjoint_span (by decide) (by decide) (by decide)
  have hstring : stringAt (terminalInitialize 0x1F greetingKernel).mem 0x1000 3 = [72, 105, 10] := by
    have hbyte : ∀ i < 3, (terminalInitialize 0x1F greetingKernel).mem (0x1000 + UInt32.ofNat i) =
        greetingKernel.mem (0x1000 + UInt32.ofNat i) :=
      fun i hi => hmem (Set.disjoint_left.mp hoff (add_ofNat_mem_span hi (by omega)))
    have hmap := List.map_congr_left fun i hi => hbyte i (List.mem_range.mp hi)
    exact hmap.trans (by decide)
  have hread : charsRead 0x1000 (terminalInitialize 0x1F greetingKernel) 3 = [72, 105, 10] := by
    rw [charsRead_eq (shows_terminalInitialize _ _) (by decide) hoff (by rw [hstring]; simp), hstring]
  have h := terminalWrite_refines 0x1F 0x1000 3 greetingKernel
  have hthree : (3 : UInt32).toNat = 3 := rfl
  rw [hthree, hread] at h
  obtain ⟨hcell, hrow, hcolumn⟩ := h (by simp)
  refine ⟨?_, ?_, ?_, hrow, hcolumn⟩
  · exact hcell 0 (by decide) 0 (by decide)
  · exact hcell 0 (by decide) 1 (by decide)
  · exact hcell 0 (by decide) 2 (by decide)

/-- In colour 0 the screen is not black on black: `terminal_initialize` takes light grey on black then. -/
theorem terminalInitialize_not_black :
    (terminalWrite 0x1000 0 (terminalInitialize 0 Kernel.loaded)).cell 0 ≠ (textPage 0 []).cell 0 0 := by
  have hcell := (shows_terminalInitialize 0 Kernel.loaded).cell 0 (by decide) 0 (by decide)
  rw [terminalWrite, UInt32.toNat_zero, times_zero, hcell]
  decide

end JurasOS
