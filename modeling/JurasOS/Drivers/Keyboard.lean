import JurasOS.Stdio.Screen

/-!
# `keyboard.c`

Each interrupt of the keyboard brings a scancode. A key that was pressed is looked up in
the table and printed, by way of a format of one character; a key that was released, or
that has no character, prints nothing. The characters typed go onto the page that the
screen shows.
-/

namespace JurasOS

open Machine Text

/-- `kbdus`. -/
def kbdus : List UInt8 :=
  [0, 27] ++ bytes "1234567890-=" ++ [8, 9] ++ bytes "qwertyuiop[]" ++ [10, 0] ++ bytes "asdfghjkl;'`" ++ [0] ++
    bytes "\\zxcvbnm,./" ++ [0] ++ bytes "*" ++ [0] ++ bytes " " ++ List.replicate 16 0 ++ bytes "-" ++
    List.replicate 3 0 ++ bytes "+" ++ List.replicate 49 0

/-- `keyboard_callback`, with the address of `char_str`, on the scancode that is read from the port. -/
def keyboardCallback (fl : Floats) (fuel : ℕ) (buffer charStr va : UInt32) (scancode : UInt8) : KernelM PUnit :=
  if scancode &&& 0x80 ≠ 0 then pure ⟨⟩
  else do
    modify fun s => { s with mem := s.mem.store8 charStr (kbdus.getD scancode.toNat 0) }
    let _ ← printf fl fuel buffer charStr va
    pure ⟨⟩

/-- The interrupts of the keyboard, one after the other. -/
def keyboardCallbacks (fl : Floats) (fuel : ℕ) (buffer charStr va : UInt32) : List UInt8 → KernelM PUnit
  | [] => pure ⟨⟩
  | scancode :: scancodes => do
    keyboardCallback fl fuel buffer charStr va scancode
    keyboardCallbacks fl fuel buffer charStr va scancodes

/-- The character that a scancode types, if there is one. -/
def typedChar (scancode : UInt8) : List UInt8 :=
  if scancode &&& 0x80 ≠ 0 then [] else [kbdus.getD scancode.toNat 0].filter (· ≠ 0)

/-- The characters that scancodes type. -/
def typed (scancodes : List UInt8) : List UInt8 := scancodes.flatMap typedChar

example : typed [0x23, 0xA3, 0x2A, 0x17, 0x97] = bytes "hi" := by decide

section keyboard

variable {fl : Floats} {fuel : ℕ} {buffer charStr va : UInt32} {color : UInt8} {p : TextPage color} {s : Kernel}

theorem add_one_ne (a : UInt32) : a + 1 ≠ a := by
  intro h
  have hnat := congrArg UInt32.toNat h
  have hlt := a.toNat_lt
  rw [UInt32.toNat_add, UInt32.toNat_one] at hnat
  omega

/-- The table has no `%`: no key begins a directive. -/
theorem kbdus_ne_percent (i : ℕ) : kbdus.getD i 0 ≠ ascii '%' := by
  have hall : kbdus.all (fun c => c ≠ ascii '%') = true := by decide
  by_cases hi : i < kbdus.length
  · rw [List.getD_eq_getElem?_getD, List.getElem?_eq_getElem hi]
    simpa using List.all_eq_true.mp hall _ (List.getElem_mem hi)
  · rw [List.getD_eq_getElem?_getD, List.getElem?_eq_none (Nat.not_lt.mp hi)]
    decide

/-- `char_str` is a format of one character, or of none. -/
theorem holds_key {m : Mem} {c : UInt8} (hc : c ≠ ascii '%') (hnul : m (charStr + 1) = 0) :
    HoldsFormat (m.store8 charStr c) charStr va (literal [c]) where
  text := by
    rw [formatText_literal (by simpa using hc.symm)]
    by_cases hzero : c = 0
    · subst hzero
      exact ⟨Mem.store8_self .., trivial⟩
    · rw [List.filter_cons_of_pos (by simpa using hzero)]
      exact ⟨Mem.store8_self .., (Mem.store8_of_ne (add_one_ne charStr) _ _).trans hnul, trivial⟩
  words := by rw [formatWords_literal]; trivial
  strings := fun item hitem => by
    obtain ⟨c', rfl⟩ := exists_of_mem_literal hitem
    trivial

theorem disjoint_key {c : UInt8} (hc : c ≠ ascii '%') (hcharStr : charStr ∉ screen)
    (hnext : charStr + 1 ∉ screen) :
    Disjoint (formatPlaces charStr va (literal [c])) screen := by
  have hlen : (formatText (literal [c])).length + 1 ≤ 2 := by
    rw [formatText_literal (by simpa using hc.symm)]
    exact Nat.succ_le_succ (List.length_filter_le _ _)
  rw [Set.disjoint_left]
  rintro a ((ha | ha) | ⟨item, hitem, ha⟩)
  · rcases mem_span_succ.mp (span_mono hlen ha) with rfl | ⟨-, ha⟩
    · exact hcharStr
    · rcases mem_span_succ.mp ha with rfl | ⟨-, ha⟩
      · exact hnext
      · exact absurd ha (Nat.not_lt_zero _)
  · rw [formatWords_literal] at ha
    exact absurd ha (Nat.not_lt_zero _)
  · obtain ⟨c', rfl⟩ := exists_of_mem_literal hitem
    exact ha.elim

/-- What lies off the screen does not show. -/
theorem Shows.store8 (h : Shows p s) {a : UInt32} (ha : a ∉ screen) (v : UInt8) :
    Shows p { s with mem := s.mem.store8 a v } where
  buffer := h.buffer
  color := h.color
  row := h.row
  column := h.column
  cell := fun y hy x hx => by
    have hvga := toNat_vgaMemory
    rw [← h.cell y hy x hx]
    refine Mem.load16_congr fun b hb => Mem.store8_of_ne (fun hba => ha ?_) _ _
    rw [← hba]
    exact span_half_subset (n := 2000) (by omega) (by omega) hb

/-- **One key**: what it types is written on the page, and only the screen and `char_str` are written. -/
theorem keyboardCallback_shows (scancode : UInt8) (hbuffer : buffer ≠ 0) (hfuel : 1 < fuel) (hs : Shows p s)
    (hcharStr : charStr ∉ screen) (hnext : charStr + 1 ∉ screen) (hnul : s.mem (charStr + 1) = 0)
    (hplain : ∀ c ∈ typedChar scancode, c ≠ 9 ∧ c ≠ 8) :
    ∃ t, keyboardCallback fl fuel buffer charStr va scancode s = .ok ⟨⟩ t ∧
      Shows ((typedChar scancode).foldl TextPage.char p) t ∧ Set.EqOn t.mem s.mem (insert charStr screen)ᶜ := by
  by_cases hreleased : scancode &&& 0x80 ≠ 0
  · rw [keyboardCallback, if_pos hreleased]
    rw [typedChar, if_pos hreleased]
    exact ⟨s, rfl, hs, fun _ _ => rfl⟩
  · rw [typedChar, if_neg hreleased] at hplain ⊢
    obtain ⟨c, hc⟩ : ∃ c, c = kbdus.getD scancode.toNat 0 := ⟨_, rfl⟩
    rw [← hc] at hplain ⊢
    have hpercent : c ≠ ascii '%' := hc ▸ kbdus_ne_percent _
    have hchars : formatChars fl (literal [c]) = [c].filter (· ≠ 0) :=
      formatChars_literal fl (by simpa using hpercent.symm)
    have hstored : Shows p { s with mem := s.mem.store8 charStr c } := hs.store8 hcharStr c
    obtain ⟨t, hrun, hpaints, hmem⟩ := printf_paints (lt_of_le_of_lt (formatSize_literal_le [c]) hfuel) hbuffer
      hstored (holds_key hpercent hnul) (disjoint_key hpercent hcharStr hnext) (by rwa [hchars])
    have hshown : shown (formatChars fl (literal [c])) = [c].filter (· ≠ 0) := by
      rw [hchars, shown, List.filter_filter]
      simp
    rw [hshown, ← TextPage.toSheet_chars] at hpaints
    refine ⟨t, ?_, hpaints, fun a ha => ?_⟩
    · rw [keyboardCallback, if_neg hreleased, ← hc, bind_of_ok (modify_apply _ s), bind_of_ok hrun]
      rfl
    · rw [Set.mem_compl_iff, Set.mem_insert_iff, not_or] at ha
      exact (hmem ha.2).trans (Mem.store8_of_ne ha.1 _ _)

end keyboard

/-- **What is typed is shown**: after any keys but tab and backspace, in any order, the screen shows the
page with their characters written on it, and nothing but the screen and `char_str` is written. -/
theorem keyboardCallbacks_show (fl : Floats) {fuel : ℕ} (hfuel : 1 < fuel) (buffer charStr va : UInt32)
    (hbuffer : buffer ≠ 0) (hcharStr : charStr ∉ screen) (hnext : charStr + 1 ∉ screen)
    (scancodes : List UInt8) (hplain : ∀ c ∈ typed scancodes, c ≠ 9 ∧ c ≠ 8) {color : UInt8}
    (p : TextPage color) (s : Kernel) (hs : Shows p s) (hnul : s.mem (charStr + 1) = 0) :
    ∃ t, keyboardCallbacks fl fuel buffer charStr va scancodes s = .ok ⟨⟩ t ∧
      Shows ((typed scancodes).foldl TextPage.char p) t ∧ Set.EqOn t.mem s.mem (insert charStr screen)ᶜ := by
  have hne : charStr + 1 ∉ insert charStr screen := by
    rw [Set.mem_insert_iff, not_or]
    exact ⟨add_one_ne charStr, hnext⟩
  induction scancodes generalizing p s with
  | nil => exact ⟨s, rfl, hs, fun _ _ => rfl⟩
  | cons scancode scancodes ih =>
    have htyped : typed (scancode :: scancodes) = typedChar scancode ++ typed scancodes := List.flatMap_cons
    rw [htyped] at hplain ⊢
    obtain ⟨t, hrun, ht, hmem⟩ := keyboardCallback_shows scancode hbuffer hfuel hs hcharStr hnext hnul
      fun c hc => hplain c (List.mem_append_left _ hc)
    obtain ⟨u, hrest, hu, hmem'⟩ := ih (fun c hc => hplain c (List.mem_append_right _ hc)) _ t ht
      ((hmem hne).trans hnul)
    refine ⟨u, (bind_of_ok hrun).trans hrest, ?_, hmem'.trans hmem⟩
    rwa [List.foldl_append]

/-- Two keys, pressed and released, on an empty screen. -/
theorem keyboardCallbacks_show_hi :
    ∃ t, keyboardCallbacks noFloats 2 1 0x1000 0x2000 [0x23, 0xA3, 0x17, 0x97]
        (terminalInitialize 0x1F Kernel.loaded) = .ok ⟨⟩ t ∧
      Shows (textPage 0x1F (bytes "hi")) t := by
  have htyped : typed [0x23, 0xA3, 0x17, 0x97] = bytes "hi" := by decide
  have hoff : Disjoint (span 0x1000 2) screen := disjoint_span (by decide) (by decide) (by decide)
  have hcharStr : (0x1000 : UInt32) ∉ screen := Set.disjoint_left.mp hoff (by rw [mem_span]; decide)
  have hnext : (0x1000 : UInt32) + 1 ∉ screen := Set.disjoint_left.mp hoff (by rw [mem_span]; decide)
  have hnul : (terminalInitialize 0x1F Kernel.loaded).mem (0x1000 + 1) = 0 :=
    (terminalInitialize_draws 0x1F Kernel.loaded).mem hnext
  obtain ⟨t, hrun, hshows, -⟩ := keyboardCallbacks_show noFloats (by decide : 1 < 2) 1 0x1000 0x2000 (by decide)
    hcharStr hnext [0x23, 0xA3, 0x17, 0x97] (by rw [htyped]; exact List.forall_iff_forall_mem.mp (by decide))
    (textPage 0x1F []) _ (shows_terminalInitialize 0x1F Kernel.loaded) hnul
  rw [htyped] at hshows
  exact ⟨t, hrun, hshows⟩

end JurasOS
