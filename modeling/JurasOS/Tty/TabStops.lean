import JurasOS.Screen.Cursor
import JurasOS.Tty.Cursor

/-!
# Tab stops

`terminal_putchar` takes the distance to the next tab stop from the row of the
cursor, `4 - terminal_row % 4`, where a terminal with tab stops in every fourth
column takes it from the column. The two agree where the row and the column leave
the same remainder, as they do in the first cell.
-/

namespace JurasOS

open Machine Screen

/-- The cursor of the reference terminal, with tab stops in every fourth column. -/
abbrev TextCursor := Cursor 80 25

/-- The reference terminal takes a character. -/
def TextCursor.char (p : TextCursor) (c : UInt8) : TextCursor :=
  if c = 10 then p.newline else if c = 9 then p.tab 4 else p.advance

/-- It takes a string, on an empty screen. -/
def textCursor (data : List UInt8) : TextCursor :=
  data.foldl TextCursor.char (Cursor.home (Nat.succ_pos 79) (Nat.succ_pos 24))

/-- The cursor is that of the reference terminal. -/
structure CursorAt (p : TextCursor) (s : Kernel) : Prop where
  row : s.terminal.row.toNat = p.row
  column : s.terminal.column.toNat = p.column

/-- After each character of the string it is. -/
def KeepsTabStops (data : List UInt8) (s : Kernel) : Prop :=
  ∀ pre, pre <+: data → CursorAt (textCursor pre) (terminalPutchars pre s)

theorem textCursor_concat (data : List UInt8) (c : UInt8) :
    textCursor (data ++ [c]) = (textCursor data).char c := by
  rw [textCursor, List.foldl_append]
  rfl

section CursorAt

variable {p : TextCursor} {s : Kernel} {c : UInt8}

theorem cursorAt_terminalInitialize (termCol : UInt8) (s : Kernel) :
    CursorAt (textCursor []) (terminalInitialize termCol s) :=
  have hterminal := terminalInitialize_terminal termCol s
  ⟨congrArg (fun t : Terminal => t.row.toNat) hterminal,
    congrArg (fun t : Terminal => t.column.toNat) hterminal⟩

/-- The test for the end of the screen is the reference terminal's next row. -/
theorem CursorAt.newline (h : CursorAt p s) :
    CursorAt p.newline (putcharScroll (s.setCursor (s.terminal.row + 1) 0)) := by
  have hlt := p.row_lt
  have hrow := h.row
  have hnext : (s.terminal.row + 1).toNat = p.row + 1 := by
    rw [toNat_add_one (by omega), hrow]
  by_cases hlast : p.row + 1 < 25
  · have hdown : p.newline.row = p.row + 1 := if_pos hlast
    rw [putcharScroll_of_ne (by rw [Kernel.setCursor_row]; omega)]
    exact ⟨by rw [Kernel.setCursor_row, hnext, hdown], by rw [Kernel.setCursor_column]; rfl⟩
  · have hstay : p.newline.row = p.row := if_neg hlast
    rw [putcharScroll_of_eq (by rw [Kernel.setCursor_row]; omega)]
    refine ⟨?_, by rw [Kernel.setCursor_column, Kernel.setCursor_column]; rfl⟩
    rw [Kernel.setCursor_row, hstay]
    show 24 = p.row
    omega

/-- The tests at the end bring a cursor that was moved in its row to where the reference terminal's goes. -/
theorem CursorAt.moveTo (h : CursorAt p s) (column : UInt32) (hle : column.toNat ≤ 80) :
    CursorAt (p.moveTo column.toNat) (putcharScroll (putcharWrap (s.setCursor s.terminal.row column))) := by
  have hlt := p.row_lt
  have hrow := h.row
  rw [Cursor.moveTo]
  by_cases hend : column.toNat < 80
  · rw [dif_pos hend, putcharWrap_of_ne (by rw [Kernel.setCursor_column]; omega),
      putcharScroll_of_ne (by rw [Kernel.setCursor_row]; omega)]
    exact ⟨hrow, rfl⟩
  · have hwrap : putcharWrap (s.setCursor s.terminal.row column) = s.setCursor (s.terminal.row + 1) 0 :=
      putcharWrap_of_eq (by rw [Kernel.setCursor_column]; omega)
    rw [dif_neg hend, hwrap]
    exact h.newline

/-- The distance that the code takes, from the row. -/
theorem toNat_tabColumn (h : CursorAt p s) :
    (s.terminal.column + (4 - s.terminal.row % 4)).toNat = p.column + (4 - p.row % 4) := by
  have hlt := p.column_lt
  rw [UInt32.toNat_add, toNat_tabStep, h.row, h.column]
  omega

/-- A tab goes to the next tab stop exactly when the row and the column leave the same remainder. -/
theorem CursorAt.tab_iff (h : CursorAt p s) :
    CursorAt (p.tab 4) (terminalPutchar 9 s) ↔ p.row % 4 = p.column % 4 := by
  have hlt := p.column_lt
  have hcolumn := toNat_tabColumn h
  have hstop : nextStop 4 p.column = p.column + (4 - p.column % 4) := nextStop_eq (by decide)
  rw [terminalPutchar, putcharEntry_tab, Cursor.tab]
  by_cases hpast : p.column + (4 - p.row % 4) ≤ 80
  · have hmove := h.moveTo _ (by rwa [hcolumn])
    rw [hcolumn] at hmove
    refine ⟨fun hstops => ?_, fun hsame => by rwa [hstop, ← hsame]⟩
    by_contra hne
    have hpos : 0 < nextStop 4 p.column := Nat.zero_lt_of_lt (lt_nextStop (by decide))
    refine Cursor.moveTo_column_ne hpast (nextStop_le (by decide) hlt) (by omega) hpos (by omega) p p ?_
    rw [← hmove.column, hstops.column]
  · refine ⟨fun hstops => ?_, fun hsame => by omega⟩
    have hoff := not_onScreen_end
      (s := s.setCursor s.terminal.row (s.terminal.column + (4 - s.terminal.row % 4)))
      (Or.inl (by rw [Kernel.setCursor_column]; omega))
    refine absurd ⟨?_, ?_⟩ hoff
    · rw [hstops.row]
      exact Cursor.row_lt _
    · rw [hstops.column]
      exact Cursor.column_lt _

/-- **One character** takes the cursor where the reference terminal's goes, unless it is a tab where the
row and the column do not agree. -/
theorem CursorAt.putchar_iff (h : CursorAt p s) (hc : c ≠ 8) :
    CursorAt (p.char c) (terminalPutchar c s) ↔ (c = 9 → p.row % 4 = p.column % 4) := by
  have hlt := p.column_lt
  rw [TextCursor.char]
  by_cases hnewline : c = 10
  · subst hnewline
    rw [if_pos rfl, terminalPutchar, putcharEntry_newline,
      putcharWrap_of_ne (by rw [Kernel.setCursor_column]; decide)]
    exact ⟨fun _ htab => absurd htab (by decide), fun _ => h.newline⟩
  by_cases htab : c = 9
  · subst htab
    rw [if_neg hnewline, if_pos rfl, h.tab_iff]
    exact ⟨fun hsame _ => hsame, fun hsame => hsame rfl⟩
  · have hright : (s.terminal.column + 1).toNat = p.column + 1 := by
      rw [toNat_add_one (by rw [h.column]; omega), h.column]
    have hentry : CursorAt p (terminalPutentryat c s.terminal.color s.terminal.column s.terminal.row s) :=
      ⟨h.row, h.column⟩
    have hmove := hentry.moveTo (s.terminal.column + 1) (by omega)
    rw [hright] at hmove
    rw [if_neg hnewline, if_neg htab, terminalPutchar, putcharEntry_other s hnewline htab hc]
    exact ⟨fun _ heq => absurd heq htab, fun _ => hmove⟩

/-- **The cursor is the reference terminal's after each character exactly when** at each tab the row and
the column of the reference terminal's cursor leave the same remainder modulo 4. -/
theorem keepsTabStops_iff (termCol : UInt8) (s : Kernel) {data : List UInt8} (hdata : ∀ c ∈ data, c ≠ 8) :
    KeepsTabStops data (terminalInitialize termCol s) ↔
      ∀ pre, pre ++ [9] <+: data → (textCursor pre).row % 4 = (textCursor pre).column % 4 := by
  have hpush : ∀ {pre c}, pre ++ [c] <+: data → c ≠ 8 := fun hpre => hdata _ (hpre.subset (by simp))
  constructor
  · intro hkeeps pre hpre
    have htab := hkeeps _ hpre
    rw [textCursor_concat, terminalPutchars_concat] at htab
    exact ((hkeeps pre ((List.prefix_append pre [9]).trans hpre)).putchar_iff (hpush hpre)).mp htab rfl
  · intro hsame pre
    -- Each character before it was taken where the reference terminal takes it.
    induction pre using List.reverseRecOn with
    | nil =>
      intro _
      exact cursorAt_terminalInitialize termCol s
    | append_singleton pre c ih =>
      intro hpre
      have hat := ih ((List.prefix_append pre [c]).trans hpre)
      rw [textCursor_concat, terminalPutchars_concat, hat.putchar_iff (hpush hpre)]
      rintro rfl
      exact hsame pre hpre

/-- In the second row a tab after one character goes to column 4. -/
theorem keepsTabStops_secondRow :
    (terminalPutchars [10, 97, 9] (terminalInitialize 0 Kernel.loaded)).terminal.row.toNat = 1 ∧
      (terminalPutchars [10, 97, 9] (terminalInitialize 0 Kernel.loaded)).terminal.column.toNat = 4 := by
  have hsame : ∀ pre, pre ++ [9] <+: [10, 97] ++ [9] →
      (textCursor pre).row % 4 = (textCursor pre).column % 4 := by
    intro pre hpre
    rcases List.prefix_concat_iff.mp hpre with heq | hpre
    · rw [List.append_cancel_right heq]
      decide
    · exact absurd (hpre.subset (List.mem_append_right pre List.mem_cons_self)) (by decide)
  have hdata : ∀ c ∈ ([10, 97, 9] : List UInt8), c ≠ 8 := by simp
  have hat := (keepsTabStops_iff 0 Kernel.loaded hdata).mpr hsame _ (List.prefix_refl _)
  exact ⟨hat.row, hat.column⟩

/-- In the first row it goes to column 5. -/
theorem not_keepsTabStops_firstRow :
    ¬ KeepsTabStops [97, 9] (terminalInitialize 0 Kernel.loaded) ∧ (textCursor [97, 9]).column = 4 ∧
      (terminalPutchars [97, 9] (terminalInitialize 0 Kernel.loaded)).terminal.column = 5 := by
  have hstart := cursorAt_terminalInitialize 0 Kernel.loaded
  generalize terminalInitialize 0 Kernel.loaded = s at hstart
  have hone : CursorAt (textCursor [97]) (terminalPutchars [97] s) :=
    (hstart.putchar_iff (c := 97) (by decide)).mpr (by decide)
  have htwo : terminalPutchars [97, 9] s = terminalPutchar 9 (terminalPutchars [97] s) :=
    terminalPutchars_concat [97] 9 s
  generalize terminalPutchars [97] s = t at hone htwo
  have hfive : _ = 1 + (4 - 0 % 4) := toNat_tabColumn hone
  have hmove := (hone.moveTo _ (by rw [hfive]; decide)).column
  have hcolumn : (terminalPutchars [97, 9] s).terminal.column = 5 := by
    rw [htwo, ← UInt32.toNat_inj, terminalPutchar, putcharEntry_tab, hmove, hfive]
    rfl
  refine ⟨fun hkeeps => ?_, rfl, hcolumn⟩
  have hat := (hkeeps [97, 9] (List.prefix_refl _)).column
  rw [hcolumn] at hat
  exact absurd hat (by decide)

end CursorAt

end JurasOS
