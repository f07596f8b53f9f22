import JurasOS.Stdio.Screen

/-!
# `panic.c`

`PANIC` clears the screen to red, prints a banner in red on white over its first row,
and its message in white on red below it, and halts. The banner fills its row, so the
newline after it leaves a row free. What the screen shows then does not depend on what
it showed before, nor on where the cursor was.
-/

namespace JurasOS

open Machine Screen Text

/-- `VGA_COLOR_RED`. -/
def vgaColorRed : UInt8 := 0x04

/-- `VGA_COLOR_WHITE`. -/
def vgaColorWhite : UInt8 := 0x0F

/-- `PANIC`, in the kernel's library: `message` with the arguments at `va`. -/
def panic (fl : Floats) (fuel : ℕ) (buffer banner bannerVa message va : UInt32) : KernelM PUnit := do
  modify (terminalInitialize (vgaEntryColor vgaColorWhite vgaColorRed))
  modify (terminalSetcolor (vgaEntryColor vgaColorRed vgaColorWhite))
  let _ ← printf fl fuel buffer banner bannerVa
  modify (terminalSetcolor (vgaEntryColor vgaColorWhite vgaColorRed))
  -- `vprintf`
  let _ ← printf fl fuel buffer message va
  throw .panic

/-- The first row of the banner. -/
def bannerRow : List UInt8 := spaces 34 ++ (bytes "KERNEL PANIC" ++ spaces 34)

/-- The text of the banner. -/
def bannerText : List UInt8 := bannerRow ++ [10]

/-! ### Lines of text -/

section lines

variable {color : UInt8} {p : TextSheet}

/-- A text without newlines is a line. -/
theorem foldl_char_eq_line {cs : List UInt8} (hcs : 10 ∉ cs) (p : TextSheet) :
    cs.foldl (TextSheet.char color) p = p.line (vgaBlank color) (cs.map (vgaEntry · color)) := by
  induction cs generalizing p with
  | nil => rfl
  | cons c cs ih =>
    obtain ⟨hc, hcs⟩ := List.ne_and_not_mem_of_not_mem_cons hcs
    rw [List.foldl_cons, ih hcs, TextSheet.char, if_neg hc.symm]
    rfl

/-- A text with newlines is lines. -/
theorem foldl_char_eq_lines {ls : List (List UInt8)} (hls : ∀ l ∈ ls, 10 ∉ l) (p : TextSheet) :
    (List.intercalate [10] ls).foldl (TextSheet.char color) p =
      p.lines (vgaBlank color) (ls.map (List.map (vgaEntry · color))) := by
  induction ls generalizing p with
  | nil => rfl
  | cons l ls ih =>
    obtain ⟨hl, hls⟩ := List.forall_mem_cons.mp hls
    cases ls with
    | nil =>
      rw [List.intercalate_singleton]
      exact foldl_char_eq_line hl p
    | cons l' ls =>
      rw [List.intercalate_cons_cons, List.foldl_append, List.foldl_append, ih hls, foldl_char_eq_line hl]
      rfl

end lines

/-! ### The banner -/

/-- The screen after the banner. -/
def bannerSheet : TextSheet := bannerText.foldl (TextSheet.char 0xF4) (blankSheet 0x4F)

/-- The banner is in the first row; the second is free, and the cursor is at the start of the third. -/
theorem bannerSheet_eq : bannerSheet.row = 2 ∧ bannerSheet.column = 0 ∧ ∀ r c, bannerSheet.cell r c =
    if r = 0 then ((bannerRow.map (vgaEntry · 0xF4))[c]?).getD (vgaBlank 0x4F) else vgaBlank 0x4F := by
  have hnotMem : 10 ∉ bannerRow := by decide
  have hlen : (bannerRow.map (vgaEntry · 0xF4)).length = 80 := by
    rw [List.length_map]
    decide
  obtain ⟨hcell, hrow, hcolumn⟩ := @Sheet.line_full UInt16 80 25 (vgaBlank 0xF4) _ (blankSheet 0x4F) rfl hlen
    (by decide)
  have hsheet : bannerSheet =
      ((blankSheet 0x4F).line (vgaBlank 0xF4) (bannerRow.map (vgaEntry · 0xF4))).newline (vgaBlank 0xF4) := by
    rw [bannerSheet, bannerText, List.foldl_append, foldl_char_eq_line hnotMem]
    rfl
  rw [hsheet]
  refine ⟨congrArg (· + 1) hrow, rfl, fun r c => ?_⟩
  show (if r = Sheet.row _ + 1 ∧ 25 ≤ Sheet.row _ + 1 then vgaBlank 0xF4 else Sheet.cell _ r c) = _
  rw [hrow, hcell]
  exact if_neg fun h => absurd (show 25 ≤ 2 from h.2) (by decide)

/-! ### The message -/

section panic

variable {fl : Floats} {items : List Item} {fuel : ℕ} {buffer banner bannerVa message va : UInt32} {s : Kernel}

/-- The banner as a format. -/
theorem bannerItems (fl : Floats) : formatText (literal bannerText) = bannerText ∧
    formatChars fl (literal bannerText) = bannerText ∧ formatWords (literal bannerText) = [] ∧
    shown bannerText = bannerText := by
  have hpercent : ascii '%' ∉ bannerText := by decide
  have hfilter : bannerText.filter (· ≠ 0) = bannerText := by decide
  exact ⟨(formatText_literal hpercent).trans hfilter, (formatChars_literal fl hpercent).trans hfilter,
    formatWords_literal _, hfilter⟩

theorem bannerText_plain : ∀ c ∈ bannerText, c ≠ 9 ∧ c ≠ 8 := fun c hc => by
  have hall : bannerText.all (fun c => c ≠ 9 ∧ c ≠ 8) = true := by decide
  simpa using List.all_eq_true.mp hall c hc

/-- **The panic screen**: `PANIC` halts, with the screen showing its message, below the banner, on a sheet that
was blank before. -/
theorem panic_paints (hfuel : formatSize items < fuel) (hbanner : 81 < fuel) (hbuffer : buffer ≠ 0)
    (htext : s.mem.Bytes banner (bannerText ++ [0])) (htextOff : Disjoint (span banner 82) screen)
    (h : HoldsFormat s.mem message va items) (hoff : Disjoint (formatPlaces message va items) screen)
    (hplain : ∀ c ∈ formatChars fl items, c ≠ 9 ∧ c ≠ 8) :
    ∃ t, panic fl fuel buffer banner bannerVa message va s = .error .panic t ∧
      Paints 0x4F ((shown (formatChars fl items)).foldl (TextSheet.char 0x4F) bannerSheet) t ∧
      Set.EqOn t.mem s.mem screenᶜ := by
  obtain ⟨hbannerText, hbannerChars, hbannerWords, hbannerShown⟩ := bannerItems fl
  have hcleared : Paints 0x4F (blankSheet 0x4F) (terminalInitialize 0x4F s) := paints_terminalInitialize 0x4F s
  have hmem : Set.EqOn (terminalInitialize 0x4F s).mem s.mem screenᶜ := (terminalInitialize_draws 0x4F s).mem
  -- the banner
  have hplaces : formatPlaces banner bannerVa (literal bannerText) ⊆ span banner 82 := by
    rw [formatPlaces, hbannerText, hbannerWords]
    rintro a ((ha | ha) | ⟨item, hitem, ha⟩)
    · exact ha
    · exact absurd ha (Nat.not_lt_zero _)
    · obtain ⟨c, rfl⟩ := exists_of_mem_literal hitem
      exact ha.elim
  have hholds : HoldsFormat (terminalInitialize 0x4F s).mem banner bannerVa (literal bannerText) := by
    constructor
    · rw [hbannerText]
      exact htext.congr (hmem.mono fun _ ha => Set.disjoint_left.mp htextOff ha)
    · rw [hbannerWords]
      trivial
    · intro item hitem
      obtain ⟨c, rfl⟩ := exists_of_mem_literal hitem
      trivial
  obtain ⟨t, hrun, hpaints, hmem'⟩ := printf_paints (lt_of_le_of_lt (formatSize_literal_le bannerText) hbanner)
    hbuffer (hcleared.setcolor 0xF4) hholds (htextOff.mono_left hplaces)
    (by rw [hbannerChars]; exact bannerText_plain)
  rw [hbannerChars, hbannerShown] at hpaints
  -- the message
  have hkept : Set.EqOn t.mem s.mem screenᶜ := hmem'.trans hmem
  obtain ⟨u, hrun', hpaints', hmem''⟩ := printf_paints hfuel hbuffer
    (hpaints.setcolor 0x4F) (h.congr (hkept.mono fun _ ha => Set.disjoint_left.mp hoff ha)) hoff hplain
  refine ⟨u, ?_, hpaints', hmem''.trans hkept⟩
  rw [panic]
  show (modify (terminalInitialize 0x4F) >>= fun _ => modify (terminalSetcolor 0xF4) >>= fun _ =>
    printf fl fuel buffer banner bannerVa >>= fun _ => modify (terminalSetcolor 0x4F) >>= fun _ =>
    printf fl fuel buffer message va >>= fun _ => throw .panic) s = _
  rw [bind_of_ok (modify_apply _ s), bind_of_ok (modify_apply _ _), bind_of_ok hrun,
    bind_of_ok (modify_apply _ t), bind_of_ok hrun']
  rfl

/-- The rows of a panic screen with a message of these lines. -/
def panicRows (ls : List (List UInt8)) : List (List UInt8) := bannerRow :: [] :: ls

/-- A message that fits is shown line by line. -/
theorem Paints.cell_panicRows {ls : List (List UInt8)} {t : Kernel}
    (h : Paints 0x4F ((List.intercalate [10] ls).foldl (TextSheet.char 0x4F) bannerSheet) t)
    (hls : ∀ l ∈ ls, 10 ∉ l ∧ l.length < 80) (hfits : ls.length ≤ 23) {y x : ℕ} (hy : y < 25) (hx : x < 80) :
    t.cell (y * 80 + x) =
      vgaEntry ((((panicRows ls).getD y [])[x]?).getD 0x20) (if y = 0 then 0xF4 else 0x4F) := by
  obtain ⟨hrow, hcolumn, hcell⟩ := bannerSheet_eq
  have hlength : ∀ l ∈ ls.map (List.map (vgaEntry · 0x4F)), l.length < 80 := by
    intro l hl
    obtain ⟨cs, hcs, rfl⟩ := List.mem_map.mp hl
    rw [List.length_map]
    exact (hls cs hcs).2
  have hlines := @foldl_char_eq_lines 0x4F ls (fun l hl => (hls l hl).1) bannerSheet
  have htop : ((List.intercalate [10] ls).foldl (TextSheet.char 0x4F) bannerSheet).top = 0 := by
    rw [hlines, Sheet.top, Sheet.row_lines hlength hcolumn, hrow, List.length_map]
    omega
  rw [h.cell y hy x hx, Sheet.view, htop, Nat.zero_add, hlines,
    Sheet.cell_lines hlength hcolumn (by rw [hrow, List.length_map]; omega), hcell, hrow]
  obtain _ | _ | y := y
  · have hlength : bannerRow.length = 80 := by decide
    rw [if_neg (by decide), if_pos rfl, if_pos rfl, panicRows, List.getD_cons_zero, List.getElem?_map,
      List.getElem?_eq_getElem (by rw [hlength]; exact hx)]
    rfl
  · rw [if_neg (by decide), if_neg (by decide), if_neg (by decide)]
    rfl
  · have hline : (ls.map (List.map (vgaEntry · 0x4F))).getD y [] = (ls.getD y []).map (vgaEntry · 0x4F) := by
      rw [List.getD_eq_getElem?_getD, List.getD_eq_getElem?_getD, List.getElem?_map]
      cases ls[y]? <;> rfl
    rw [if_pos (by omega), if_neg (by omega), if_neg (by omega), panicRows, List.getD_cons_succ,
      List.getD_cons_succ, Nat.add_sub_cancel_right (n := y) (m := 2), hline, List.getElem?_map]
    cases (ls.getD y [])[x]? <;> rfl

end panic

end JurasOS
