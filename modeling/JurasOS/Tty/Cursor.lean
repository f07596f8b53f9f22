import JurasOS.Tty.Terminal
import Mathlib.Data.List.Induction

/-!
# Where the cursor is

`terminal_putchar` brings the cursor back with two equality tests, so a step past
the end of a row, or above the first row, is not noticed. `StaysOnScreen` is what a
character must satisfy, where the cursor is, for this not to happen.
-/

namespace JurasOS

open Machine

/-- The cursor is in one of the 25 rows and one of the 80 columns. -/
def OnScreen (s : Kernel) : Prop := s.terminal.row.toNat < 25 ∧ s.terminal.column.toNat < 80

/-- A backspace is not at the first cell, and a tab does not go past the end of the row. -/
def StaysOnScreen (s : Kernel) (c : UInt8) : Prop :=
  (c = 8 → s.terminal.row ≠ 0 ∨ s.terminal.column ≠ 0) ∧
    (c = 9 → s.terminal.column.toNat + (4 - s.terminal.row.toNat % 4) ≤ 80)

/-- From `s` to `t` every cell that `terminal_putentryat` wrote is one of the screen. -/
abbrev PutsInside : Kernel → Kernel → Prop := Emits fun e => ∀ index, e = .putentry index →
    index.toNat < 80 * 25

section Cursor

variable {s t u : Kernel} {c : UInt8}

/-! ### What the functions leave -/

/-- The loops over cells change the memory only. -/
theorem times_setCell_same (n : ℕ) (index : ℕ → UInt32) (entry : Kernel → UInt16) (s : Kernel) :
    times n (fun x s => s.setCell (index x) (entry s)) s =
      { s with mem := (times n (fun x s => s.setCell (index x) (entry s)) s).mem } := by
  refine times_inv (P := fun _ (t : Kernel) => t = { s with mem := t.mem }) rfl fun x _ t ht => ?_
  rw [ht]
  rfl

theorem terminalScroll_same (s : Kernel) : terminalScroll s = { s with mem := (terminalScroll s).mem } :=
  times_setCell_same ..

@[simp] theorem terminalScroll_terminal (s : Kernel) : (terminalScroll s).terminal = s.terminal := by
  rw [terminalScroll_same]

@[simp] theorem terminalScroll_trace (s : Kernel) : (terminalScroll s).trace = s.trace := by
  rw [terminalScroll_same]

theorem terminalInitialize_same (termCol : UInt8) (s : Kernel) : terminalInitialize termCol s = { s with
    terminal := ⟨0, 0, terminalColor termCol, vgaMemory⟩
    mem := (terminalInitialize termCol s).mem } := by
  rw [terminalInitialize]
  refine times_inv (P := fun _ (t : Kernel) =>
    t = { s with terminal := ⟨0, 0, terminalColor termCol, vgaMemory⟩, mem := t.mem }) rfl fun y _ t ht => ?_
  refine (times_setCell_same vgaWidth.toNat _ _ t).trans ?_
  rw [ht]

@[simp] theorem terminalInitialize_terminal (termCol : UInt8) (s : Kernel) :
    (terminalInitialize termCol s).terminal = ⟨0, 0, terminalColor termCol, vgaMemory⟩ := by
  rw [terminalInitialize_same]

@[simp] theorem terminalInitialize_trace (termCol : UInt8) (s : Kernel) :
    (terminalInitialize termCol s).trace = s.trace := by
  rw [terminalInitialize_same]

/-! ### One character -/

theorem putcharWrap_of_eq (h : s.terminal.column.toNat = 80) :
    putcharWrap s = s.setCursor (s.terminal.row + 1) 0 :=
  if_pos (UInt32.toNat_inj.mp h)

theorem putcharWrap_of_ne (h : s.terminal.column.toNat ≠ 80) : putcharWrap s = s :=
  if_neg fun heq => h (congrArg UInt32.toNat heq)

theorem putcharScroll_of_eq (h : s.terminal.row.toNat = 25) :
    putcharScroll s = (terminalScroll s).setCursor 24 s.terminal.column := by
  have hlast : vgaHeight - 1 = 24 := rfl
  have hrow : s.terminal.row = vgaHeight := UInt32.toNat_inj.mp h
  rw [putcharScroll, if_pos hrow]
  simp only [terminalScroll_terminal, hlast]

theorem putcharScroll_of_ne (h : s.terminal.row.toNat ≠ 25) : putcharScroll s = s :=
  if_neg fun heq => h (congrArg UInt32.toNat heq)

@[simp] theorem putcharWrap_trace (s : Kernel) : (putcharWrap s).trace = s.trace := by
  rw [putcharWrap]
  split <;> rfl

@[simp] theorem putcharScroll_trace (s : Kernel) : (putcharScroll s).trace = s.trace := by
  by_cases h : s.terminal.row.toNat = 25
  · rw [putcharScroll_of_eq h, Kernel.setCursor_trace, terminalScroll_trace]
  · rw [putcharScroll_of_ne h]

/-- The test for the end of the screen brings the row back from 25. -/
theorem onScreen_putcharScroll (hrow : s.terminal.row.toNat ≤ 25) (hcolumn : s.terminal.column.toNat < 80) :
    OnScreen (putcharScroll s) := by
  by_cases h : s.terminal.row.toNat = 25
  · rw [putcharScroll_of_eq h, OnScreen, Kernel.setCursor_row, Kernel.setCursor_column]
    exact ⟨by decide, hcolumn⟩
  · rw [putcharScroll_of_ne h]
    exact ⟨by omega, hcolumn⟩

/-- The cursor is on the screen, or one step past its end or that of a row. -/
def NearScreen (s : Kernel) : Prop :=
  s.terminal.row.toNat ≤ 25 ∧ s.terminal.column.toNat < 80 ∨ s.terminal.row.toNat < 25 ∧
    s.terminal.column.toNat = 80

/-- The tests at the end bring it back. -/
theorem onScreen_end (h : NearScreen s) : OnScreen (putcharScroll (putcharWrap s)) := by
  rcases h with ⟨hrow, hcolumn⟩ | ⟨hrow, hcolumn⟩
  · rw [putcharWrap_of_ne (by omega)]
    exact onScreen_putcharScroll hrow hcolumn
  · rw [putcharWrap_of_eq hcolumn]
    refine onScreen_putcharScroll ?_ (by decide : (0 : UInt32).toNat < 80)
    show (s.terminal.row + 1).toNat ≤ 25
    rwa [toNat_add_one (by omega)]

/-- They leave a cursor that is further away. -/
theorem not_onScreen_end (h : 80 < s.terminal.column.toNat ∨
    25 < s.terminal.row.toNat ∧ s.terminal.column.toNat < 80) :
    ¬ OnScreen (putcharScroll (putcharWrap s)) := by
  rw [putcharWrap_of_ne (by omega)]
  by_cases hrow : s.terminal.row.toNat = 25
  · rw [putcharScroll_of_eq hrow, OnScreen, Kernel.setCursor_column]
    omega
  · rw [putcharScroll_of_ne hrow, OnScreen]
    omega

/-- The index of a cell of the screen. -/
theorem toNat_cellIndex {x y : UInt32} (hx : x.toNat < 80) (hy : y.toNat < 25) :
    (y * vgaWidth + x).toNat = y.toNat * 80 + x.toNat := by
  rw [UInt32.toNat_add, UInt32.toNat_mul]
  show (y.toNat * 80 % 2 ^ 32 + x.toNat) % 2 ^ 32 = _
  omega

/-- `terminal_putentryat` writes one cell. -/
theorem putentryat_draws (hb : s.terminal.buffer = vgaMemory) (c color : UInt8) {x y : UInt32}
    (hx : x.toNat < 80) (hy : y.toNat < 25) :
    Draws (fun i => if i = y.toNat * 80 + x.toNat then vgaEntry c color else s.cell i) s
      (terminalPutentryat c color x y s) := by
  have hindex := toNat_cellIndex hx hy
  have hdraws :=
    Kernel.setCell_draws (s := s.emit (.putentry (y * vgaWidth + x))) hb (y * vgaWidth + x) (by omega)
    (vgaEntry c color)
  rw [hindex] at hdraws
  exact ⟨hdraws.terminal, hdraws.mem, hdraws.cells⟩

/-- Writing the cell of a cursor on the screen stays inside. -/
theorem putsInside_putentryat (uc color : UInt8) {x y : UInt32} (hx : x.toNat < 80) (hy : y.toNat < 25)
    (s : Kernel) :
    PutsInside s (terminalPutentryat uc color x y s) := by
  have hindex := toNat_cellIndex hx hy
  have hemit : PutsInside s (s.emit (.putentry (y * vgaWidth + x))) := by
    refine emits_emit ?_ s
    rintro index ⟨⟩
    omega
  exact hemit.trans (Emits.of_trace rfl)

theorem putsInside_putchar (h : PutsInside s (putcharEntry c s)) : PutsInside s (terminalPutchar c s) :=
  h.trans (Emits.of_trace (by rw [terminalPutchar, putcharScroll_trace, putcharWrap_trace]))

/-- How far a tab moves the cursor. -/
theorem toNat_tabStep (row : UInt32) : (4 - row % 4).toNat = 4 - row.toNat % 4 := by
  rw [UInt32.toNat_sub, UInt32.toNat_mod]
  show (2 ^ 32 - row.toNat % 4 + 4) % 2 ^ 32 = _
  omega

theorem nearScreen_newline (h : OnScreen s) : NearScreen (putcharEntry 10 s) := by
  obtain ⟨hrow, -⟩ := h
  refine Or.inl ⟨?_, (by decide : (0 : UInt32).toNat < 80)⟩
  rwa [putcharEntry_newline, Kernel.setCursor_row, toNat_add_one (by omega)]

theorem nearScreen_tab (h : OnScreen s)
    (hstop : s.terminal.column.toNat + (4 - s.terminal.row.toNat % 4) ≤ 80) :
    NearScreen (putcharEntry 9 s) := by
  obtain ⟨hrow, -⟩ := h
  rw [NearScreen, putcharEntry_tab, Kernel.setCursor_row, Kernel.setCursor_column, UInt32.toNat_add,
    toNat_tabStep]
  omega

/-- A backspace that is not at the first cell writes the cell before the cursor. -/
theorem nearScreen_backspace (h : OnScreen s) (hcell : s.terminal.row ≠ 0 ∨ s.terminal.column ≠ 0) :
    NearScreen (putcharEntry 8 s) ∧ PutsInside s (putcharEntry 8 s) := by
  obtain ⟨hrow, hcolumn⟩ := h
  by_cases hzero : s.terminal.column = 0
  · have hpos : s.terminal.row.toNat ≠ 0 :=
      fun h0 => hcell.elim (fun hne => hne (UInt32.toNat_inj.mp h0)) fun hne => hne hzero
    have hup : (s.terminal.row - 1).toNat = s.terminal.row.toNat - 1 := by
      rw [UInt32.toNat_sub, UInt32.toNat_one]
      omega
    rw [putcharEntry_backspace_zero s hzero]
    refine ⟨Or.inl ⟨?_, (by decide : (vgaWidth - 1).toNat < 80)⟩,
      putsInside_putentryat _ _ (by decide) (by omega) _⟩
    show (s.terminal.row - 1).toNat ≤ 25
    omega
  · have hpos : s.terminal.column.toNat ≠ 0 := fun h0 => hzero (UInt32.toNat_inj.mp h0)
    have hleft : (s.terminal.column - 1).toNat = s.terminal.column.toNat - 1 := by
      rw [UInt32.toNat_sub, UInt32.toNat_one]
      omega
    rw [putcharEntry_backspace s hzero]
    refine ⟨Or.inl ⟨Nat.le_of_lt hrow, ?_⟩, putsInside_putentryat _ _ (by omega) hrow _⟩
    show (s.terminal.column - 1).toNat < 80
    omega

/-- Any other character is written at the cursor. -/
theorem nearScreen_other (h : OnScreen s) (hnewline : c ≠ 10) (htab : c ≠ 9) (hbackspace : c ≠ 8) :
    NearScreen (putcharEntry c s) ∧ PutsInside s (putcharEntry c s) := by
  obtain ⟨hrow, hcolumn⟩ := h
  rw [putcharEntry_other s hnewline htab hbackspace]
  refine ⟨?_, putsInside_putentryat c s.terminal.color hcolumn hrow s⟩
  rw [NearScreen, Kernel.setCursor_row, Kernel.setCursor_column, toNat_add_one (by omega)]
  omega

/-- **One character** that stays on the screen writes a cell of the screen, and leaves the cursor on it. -/
theorem onScreen_putchar (h : OnScreen s) (hc : StaysOnScreen s c) :
    OnScreen (terminalPutchar c s) ∧ PutsInside s (terminalPutchar c s) := by
  suffices hentry : NearScreen (putcharEntry c s) ∧ PutsInside s (putcharEntry c s) from
    ⟨onScreen_end hentry.1, putsInside_putchar hentry.2⟩
  by_cases hnewline : c = 10
  · subst hnewline
    exact ⟨nearScreen_newline h, Emits.refl s⟩
  by_cases htab : c = 9
  · subst htab
    exact ⟨nearScreen_tab h (hc.2 rfl), Emits.refl s⟩
  by_cases hbackspace : c = 8
  · subst hbackspace
    exact nearScreen_backspace h (hc.1 rfl)
  · exact nearScreen_other h hnewline htab hbackspace

/-- A character that does not stay on the screen leaves the cursor off it. -/
theorem staysOnScreen_of_putchar (h : OnScreen s) (hnext : OnScreen (terminalPutchar c s)) :
    StaysOnScreen s c := by
  obtain ⟨hrow, hcolumn⟩ := h
  refine ⟨fun hc => ?_, fun hc => ?_⟩
  · subst hc
    by_contra hcorner
    rw [not_or, not_ne_iff, not_ne_iff] at hcorner
    obtain ⟨hrow0, hcolumn0⟩ := hcorner
    refine not_onScreen_end (Or.inr ?_) hnext
    rw [putcharEntry_backspace_zero s hcolumn0, hrow0]
    exact ⟨(by decide : 25 < (0 - 1 : UInt32).toNat), (by decide : (vgaWidth - 1).toNat < 80)⟩
  · subst hc
    by_contra hpast
    refine not_onScreen_end (Or.inl ?_) hnext
    rw [putcharEntry_tab, Kernel.setCursor_column, UInt32.toNat_add, toNat_tabStep]
    omega

/-! ### A sequence of characters -/

/-- After each character the cursor is on the screen, and every cell written on the way is one of it. -/
def KeepsOnScreen (data : List UInt8) (s : Kernel) : Prop :=
  (∀ pre, pre <+: data → OnScreen (terminalPutchars pre s)) ∧ PutsInside s (terminalPutchars data s)

theorem terminalInitialize_onScreen (termCol : UInt8) (s : Kernel) :
    OnScreen (terminalInitialize termCol s) := by
  rw [OnScreen, terminalInitialize_terminal]
  exact ⟨(by decide : (0 : UInt32).toNat < 25), (by decide : (0 : UInt32).toNat < 80)⟩

/-- While every character stays on the screen, all is on it. -/
theorem keepsOnScreen_of_stays (h : OnScreen s) {data : List UInt8}
    (hstays : ∀ pre c, pre ++ [c] <+: data → StaysOnScreen (terminalPutchars pre s) c) :
    KeepsOnScreen data s := by
  induction data using List.reverseRecOn with
  | nil =>
    refine ⟨fun pre hpre => ?_, Emits.refl s⟩
    rwa [List.prefix_nil.mp hpre]
  | append_singleton data c ih =>
    obtain ⟨hscreen, hputs⟩ := ih fun pre d hpre => hstays pre d (hpre.trans (List.prefix_append data [c]))
    have hstep := onScreen_putchar (hscreen data (List.prefix_refl data)) (hstays data c (List.prefix_refl _))
    refine ⟨fun pre hpre => ?_, ?_⟩
    · rcases List.prefix_concat_iff.mp hpre with rfl | hpre
      · rw [terminalPutchars_concat]
        exact hstep.1
      · exact hscreen pre hpre
    · rw [terminalPutchars_concat]
      exact hputs.trans hstep.2

/-- **The cursor stays on the screen exactly when** every character stays, where the cursor is before it. -/
theorem keepsOnScreen_iff (termCol : UInt8) (s : Kernel) (data : List UInt8) :
    KeepsOnScreen data (terminalInitialize termCol s) ↔
      ∀ pre c, pre ++ [c] <+: data →
      StaysOnScreen (terminalPutchars pre (terminalInitialize termCol s)) c := by
  refine ⟨fun ⟨hscreen, _⟩ pre c hpre => ?_, keepsOnScreen_of_stays (terminalInitialize_onScreen termCol s)⟩
  have hnext := hscreen (pre ++ [c]) hpre
  rw [terminalPutchars_concat] at hnext
  exact staysOnScreen_of_putchar (hscreen pre ((List.prefix_append pre [c]).trans hpre)) hnext

/-- A backspace on an empty screen leaves the cursor in row `2 ^ 32 - 1`, and writes outside the screen. -/
theorem not_keepsOnScreen_backspace : ¬ KeepsOnScreen [8] (terminalInitialize 0 Kernel.loaded) ∧
    (terminalPutchar 8 (terminalInitialize 0 Kernel.loaded)).terminal.row = 0xFFFFFFFF ∧
    Event.putentry 0xFFFFFFFF ∈ (terminalPutchar 8 (terminalInitialize 0 Kernel.loaded)).trace := by
  have hterminal := terminalInitialize_terminal 0 Kernel.loaded
  generalize terminalInitialize 0 Kernel.loaded = s at hterminal
  have hentry := putcharEntry_backspace_zero s (by rw [hterminal])
  have hrow : (putcharEntry 8 s).terminal.row = 0xFFFFFFFF := by
    rw [hentry]
    show s.terminal.row - 1 = _
    rw [hterminal]
    rfl
  have hcolumn : (putcharEntry 8 s).terminal.column = 79 := by
    rw [hentry]
    rfl
  have hend : terminalPutchar 8 s = putcharEntry 8 s := by
    rw [terminalPutchar, putcharWrap_of_ne (by rw [hcolumn]; decide),
      putcharScroll_of_ne (by rw [hrow]; decide)]
  refine ⟨fun ⟨hscreen, _⟩ => ?_, by rw [hend, hrow], ?_⟩
  · have := (hscreen [8] (List.prefix_refl _)).1
    rw [terminalPutchars, List.foldl_cons, List.foldl_nil, hend, hrow] at this
    exact absurd this (by decide)
  · rw [hend, hentry, hterminal]
    exact List.mem_cons_self

end Cursor

end JurasOS
