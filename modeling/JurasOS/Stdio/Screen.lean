import JurasOS.Stdio.Items
import JurasOS.Tty.Refinement

/-!
# `printf` on the screen

The kernel's `printf` calls `terminal_putchar` for each character but NUL. What a
well-formed format prints is written on the page that the screen shows, if the format
and all it needs lie off the screen.
-/

namespace JurasOS

open Machine Text

section printf

variable {buffer format va : UInt32} {s : Kernel} {cs : List UInt8} {color : UInt8} {fl : Floats}
  {items : List Item}

/-- The characters that reach an output function that leaves NUL out. -/
def shown (cs : List UInt8) : List UInt8 := cs.filter (· ≠ 0)

section fctprintf

variable {fct : UInt8 → UInt32 → Kernel → Kernel} {arg : UInt32}

theorem feed_outFct (hbuffer : buffer ≠ 0) (maxlen idx : UInt32) (cs : List UInt8) (s : Kernel) :
    (sinkOf (outFct fct arg) buffer maxlen).feed idx cs s = (shown cs).foldl (fun s c => fct c arg s) s := by
  rw [sinkOf, if_neg hbuffer]
  induction cs generalizing idx s with
  | nil => rfl
  | cons c cs ih =>
    rw [Sink.feed, ih, shown, shown, List.filter_cons]
    by_cases hc : c = 0
    · rw [hc, if_neg (by decide)]
      rfl
    · rw [if_pos (by simpa using hc)]
      exact congrArg (List.foldl _ · _) (if_pos hc)

/-- The function is called on the characters, and not on the NUL after them. -/
theorem vsnprintf_outFct {fuel : ℕ} (hfuel : formatSize items < fuel) (hbuffer : buffer ≠ 0)
    (h : ∀ cs, cs <+: formatChars fl items →
      HoldsFormat ((shown cs).foldl (fun s c => fct c arg s) s).mem format va items) :
    vsnprintf fl fuel (outFct fct arg) buffer (0 - 1) format va s =
      .ok (UInt32.ofNat (formatChars fl items).length)
        ((shown (formatChars fl items)).foldl (fun s c => fct c arg s) s) := by
  have hrun := vsnprintf_prints fl items hfuel (outFct fct arg) buffer (0 - 1) format va s fun cs hcs => by
    rw [feed_outFct hbuffer]
    exact h cs hcs
  rwa [feed_outFct hbuffer, sinkOf, if_neg hbuffer] at hrun

end fctprintf

theorem plain_shown {ds : List UInt8} (hcs : cs <+: ds) (hplain : ∀ c ∈ ds, c ≠ 9 ∧ c ≠ 8) :
    ∀ c ∈ shown cs, c ≠ 9 ∧ c ≠ 8 :=
  fun c hc => hplain c (hcs.subset (List.mem_of_mem_filter hc))

/-- What a format prints goes to the terminal, if the characters do not change what is read. -/
theorem printf_putchars {fuel : ℕ} (hfuel : formatSize items < fuel) (hbuffer : buffer ≠ 0)
    (h : HoldsFormat s.mem format va items)
    (hmem : ∀ cs, cs <+: formatChars fl items →
      Set.EqOn (terminalPutchars (shown cs) s).mem s.mem (formatPlaces format va items)) :
    printf fl fuel buffer format va s = .ok (UInt32.ofNat (formatChars fl items).length)
      (terminalPutchars (shown (formatChars fl items)) s) := by
  have hout : outChar = outFct (fun c _ => terminalPutchar c) 0 := rfl
  rw [printf, hout]
  exact vsnprintf_outFct hfuel hbuffer fun cs hcs => h.congr (hmem cs hcs)

/-- What `printf` paints. -/
theorem printf_paints {sheet : TextSheet} {fuel : ℕ} (hfuel : formatSize items < fuel) (hbuffer : buffer ≠ 0)
    (hs : Paints color sheet s) (h : HoldsFormat s.mem format va items)
    (hoff : Disjoint (formatPlaces format va items) screen)
    (hplain : ∀ c ∈ formatChars fl items, c ≠ 9 ∧ c ≠ 8) :
    ∃ t, printf fl fuel buffer format va s = .ok (UInt32.ofNat (formatChars fl items).length) t ∧
      Paints color ((shown (formatChars fl items)).foldl (TextSheet.char color) sheet) t ∧
      Set.EqOn t.mem s.mem screenᶜ := by
  have hpaints : ∀ {cs}, cs <+: formatChars fl items → _ := fun hcs => hs.putchars (plain_shown hcs hplain)
  have hrun := printf_putchars hfuel hbuffer h fun cs hcs =>
    (hpaints hcs).2.mono fun _ ha => Set.disjoint_left.mp hoff ha
  exact ⟨_, hrun, hpaints (List.prefix_refl _)⟩

end printf

/-- **What `fctprintf` calls**: the function is called on each character of the output but NUL, once and in
order, if it leaves what is still to be read; and the number of all characters is returned. -/
theorem fctprintf_calls (fl : Floats) (items : List Item) {fuel : ℕ} (hfuel : formatSize items < fuel)
    (fct : UInt8 → UInt32 → Kernel → Kernel) (arg wrap format va : UInt32) (hwrap : wrap ≠ 0) (s : Kernel)
    (h : ∀ cs, cs <+: formatChars fl items →
      HoldsFormat ((shown cs).foldl (fun s c => fct c arg s) s).mem format va items) :
    fctprintf fl fuel fct arg wrap format va s = .ok (UInt32.ofNat (formatChars fl items).length)
      ((shown (formatChars fl items)).foldl (fun s c => fct c arg s) s) :=
  vsnprintf_outFct hfuel hwrap h

/-- The calls, with the argument and the characters, are recorded in the memory at `0x6000`, the last one. -/
theorem fctprintf_calls_answer :
    fctprintf noFloats 100 (fun c arg s => { s with mem := s.mem.store8 arg c }) 0x6000 1 0x1000 0x2000
      answerKernel = .ok 8
        ((bytes "   42|ok").foldl (fun s c => { s with mem := s.mem.store8 0x6000 c }) answerKernel) := by
  have hmem : ∀ (cs : List UInt8) (s : Kernel),
      Set.EqOn (cs.foldl (fun s c => { s with mem := s.mem.store8 0x6000 c }) s).mem s.mem {0x6000}ᶜ := by
    intro cs
    induction cs with
    | nil => exact fun _ _ _ => rfl
    | cons c cs ih => exact fun s a ha => (ih _ ha).trans (Mem.store8_of_ne ha s.mem c)
  have hplaces : formatPlaces 0x1000 0x2000 answerItems ⊆ {0x6000}ᶜ := by
    rintro a ha rfl
    exact absurd (answer_places ha) (by rw [mem_span]; decide)
  have hrun := fctprintf_calls noFloats answerItems (by decide : _ < 100)
    (fun c arg s => { s with mem := s.mem.store8 arg c }) 0x6000 1 0x1000 0x2000 (by decide) answerKernel
    fun cs _ => holds_answer.congr ((hmem (shown cs) answerKernel).mono hplaces)
  rwa [answer_chars] at hrun

/-- **What `printf` shows**: the screen goes on to show the page, with the output of the format written on
it, and nothing but the screen is written. -/
theorem printf_shows (fl : Floats) (items : List Item) {fuel : ℕ} (hfuel : formatSize items < fuel)
    (buffer format va : UInt32) (hbuffer : buffer ≠ 0) {color : UInt8} (p : TextPage color) (s : Kernel)
    (hs : Shows p s) (h : HoldsFormat s.mem format va items)
    (hoff : Disjoint (formatPlaces format va items) screen)
    (hplain : ∀ c ∈ formatChars fl items, c ≠ 9 ∧ c ≠ 8) :
    ∃ t, printf fl fuel buffer format va s = .ok (UInt32.ofNat (formatChars fl items).length) t ∧
      Shows ((shown (formatChars fl items)).foldl TextPage.char p) t ∧ Set.EqOn t.mem s.mem screenᶜ := by
  obtain ⟨t, hrun, hpaints, hmem⟩ := printf_paints hfuel hbuffer hs h hoff hplain
  rw [← TextPage.toSheet_chars] at hpaints
  exact ⟨t, hrun, hpaints, hmem⟩

/-- An answer on an empty screen. -/
theorem printf_shows_answer :
    ∃ t, printf noFloats 100 1 0x1000 0x2000 (terminalInitialize 0x1F answerKernel) = .ok 8 t ∧
      Shows (textPage 0x1F (bytes "   42|ok")) t := by
  have hoff : Disjoint (formatPlaces 0x1000 0x2000 answerItems) screen :=
    (disjoint_span (by decide) (by decide) (by decide)).mono_left answer_places
  have hdraws := (terminalInitialize_draws 0x1F answerKernel).mem
  obtain ⟨t, hrun, hshows, -⟩ := printf_shows noFloats answerItems (by decide : _ < 100) 1 0x1000 0x2000
    (by decide) (textPage 0x1F []) _ (shows_terminalInitialize 0x1F answerKernel)
    (holds_answer.congr (hdraws.mono fun _ ha => Set.disjoint_left.mp hoff ha)) hoff
    (by rw [answer_chars]; exact List.forall_iff_forall_mem.mp (by decide))
  rw [answer_chars] at hrun hshows
  exact ⟨t, hrun, hshows⟩

end JurasOS
