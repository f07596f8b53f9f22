import JurasOS.Arch.Timer
import JurasOS.Drivers.Keyboard

/-!
# The keyboard among the interrupts

`keyboard_callback` runs as the routine of its line. The interrupts of the timer come in
between at any moment, and a key waits while another one is handled. Which keys the screen
shows, and in which order, depends on none of that: `typing_shows` holds of every run in
which the code that is interrupted writes neither to the screen nor to the variables of
the two routines.
-/

namespace JurasOS.Irq

open Machine Relation Text

/-- How often the port of the keyboard was read, and the kernel. -/
structure Typing where
  reads : ℕ
  kernel : Kernel

/-- `keyboard_callback`, where the port gives `scancode n` when `n` scancodes were read before. -/
def keyboardRoutine (fl : Floats) (fuel : ℕ) (buffer charStr va : UInt32) (scancode : ℕ → UInt8) (d : Typing) :
    Typing where
  reads := d.reads + 1
  kernel := stop (keyboardCallback fl fuel buffer charStr va (scancode d.reads) d.kernel)

/-- The first `n` scancodes. -/
def scancodesRead (scancode : ℕ → UInt8) (n : ℕ) : List UInt8 := (List.range n).map scancode

theorem typed_scancodesRead_succ (scancode : ℕ → UInt8) (n : ℕ) :
    typed (scancodesRead scancode (n + 1)) = typed (scancodesRead scancode n) ++ typedChar (scancode n) := by
  rw [scancodesRead, List.range_succ, List.map_append, typed, List.flatMap_append]
  exact congrArg (_ ++ ·) (List.append_nil _)

/-- The screen shows the page with the characters of the scancodes that were read, and nothing but the screen
and `char_str` was written. -/
structure Typed {color : UInt8} (charStr : UInt32) (scancode : ℕ → UInt8) (p : TextPage color) (s : Kernel)
    (d : Typing) : Prop where
  page : Shows ((typed (scancodesRead scancode d.reads)).foldl TextPage.char p) d.kernel
  mem : Set.EqOn d.kernel.mem s.mem (insert charStr screen)ᶜ

section Typed

variable {fl : Floats} {fuel : ℕ} {buffer charStr va : UInt32} {scancode : ℕ → UInt8} {color : UInt8}
  {p : TextPage color} {s : Kernel} {t t' : Timer (Data Typing)} {frequency : UInt32} {served : List Line}

/-- One interrupt of the keyboard. -/
theorem Typed.keyboardRoutine {d : Typing} (h : Typed charStr scancode p s d) (hfuel : 1 < fuel)
    (hbuffer : buffer ≠ 0) (hcharStr : charStr ∉ screen) (hnext : charStr + 1 ∉ screen)
    (hnul : s.mem (charStr + 1) = 0) (hplain : ∀ n, ∀ c ∈ typedChar (scancode n), c ≠ 9 ∧ c ≠ 8) :
    Typed charStr scancode p s (keyboardRoutine fl fuel buffer charStr va scancode d) := by
  have hoff : charStr + 1 ∉ insert charStr screen := by
    rw [Set.mem_insert_iff, not_or]
    exact ⟨add_one_ne charStr, hnext⟩
  have hone : ∃ u, keyboardCallback fl fuel buffer charStr va (scancode d.reads) d.kernel = .ok ⟨⟩ u ∧ _ :=
    keyboardCallback_shows (scancode d.reads) hbuffer hfuel h.page hcharStr hnext ((h.mem hoff).trans hnul)
      (hplain d.reads)
  obtain ⟨u, hrun, hshows, hmem⟩ := hone
  have hkernel : (Irq.keyboardRoutine fl fuel buffer charStr va scancode d).kernel = u := congrArg stop hrun
  refine ⟨?_, ?_⟩
  · rw [hkernel]
    show Shows ((typed (scancodesRead scancode (d.reads + 1))).foldl TextPage.char p) u
    rwa [typed_scancodesRead_succ, List.foldl_append]
  · rw [hkernel]
    exact hmem.trans h.mem

/-- The runs of the routines, in any order: the timer leaves what is typed. -/
theorem typed_foldr (hinit : initTimer frequency t = some t') (hfuel : 1 < fuel) (hbuffer : buffer ≠ 0)
    (hcharStr : charStr ∉ screen) (hnext : charStr + 1 ∉ screen) (hnul : s.mem (charStr + 1) = 0)
    (hplain : ∀ n, ∀ c ∈ typedChar (scancode n), c ≠ 9 ∧ c ≠ 8) (hs : Shows p s) (tick : UInt32)
    (hserved : ∀ l ∈ served, l ≠ .master 2 ∧ masks 0xfc 0xff l = false) :
    let routines := (initKeyboard (Irq.keyboardRoutine fl fuel buffer charStr va scancode) t').routines
    let d := served.foldr (runRoutine routines) ⟨tick, 0, s⟩
    d.rest.reads = served.count (.master 1) ∧ Typed charStr scancode p s d.rest := by
  induction served with
  | nil => exact ⟨rfl, hs, fun _ _ => rfl⟩
  | cons l rest ih =>
    obtain ⟨hl, hrest⟩ := List.forall_mem_cons.mp hserved
    obtain ⟨hreads, htyped⟩ := ih hrest
    dsimp only
    rw [List.foldr_cons, List.count_cons, ← hreads]
    rcases runRoutine_installed hinit (Irq.keyboardRoutine fl fuel buffer charStr va scancode)
      (rest.foldr _ _) hl with ⟨rfl, hrun⟩ | ⟨rfl, hrun⟩
    · rw [hrun]
      exact ⟨rfl, htyped⟩
    · rw [hrun]
      exact ⟨rfl, htyped.keyboardRoutine hfuel hbuffer hcharStr hnext hnul hplain⟩

end Typed

/-- **What is typed is shown, however the interrupts come**: in every run after `init_timer` and
`init_keyboard` the scancodes that were read are as many as the requests of the keyboard that were latched, less
the one that is pending and the one that is taken but not handled yet; and the screen shows their characters, in
the order in which they were sent, each once. The code that is interrupted writes nothing to the screen. -/
theorem typing_shows (fl : Floats) {fuel : ℕ} (hfuel : 1 < fuel) (buffer charStr va : UInt32)
    (hbuffer : buffer ≠ 0) (hcharStr : charStr ∉ screen) (hnext : charStr + 1 ∉ screen) (scancode : ℕ → UInt8)
    (hplain : ∀ n, ∀ c ∈ typedChar (scancode n), c ≠ 9 ∧ c ≠ 8) {color : UInt8} (p : TextPage color)
    (k : Kernel) (hk : Shows p k) (hnul : k.mem (charStr + 1) = 0) {t t' : Timer (Data Typing)}
    {frequency : UInt32} (hinit : initTimer frequency t = some t') (tick : UInt32) {c : Pics}
    (hc : c.Serving none none) {s : State (Data Typing)}
    (hrun : ReflTransGen (Step (initKeyboard (keyboardRoutine fl fuel buffer charStr va scancode) t').routines)
      (start 0xfc 0xff c ⟨tick, 0, k⟩) s) :
    s.data.rest.reads + (if s.phase = .routine 33 then 1 else 0) + (s.pics.requested (.master 1)).toNat =
        s.latched.count (.master 1) ∧
      Shows ((typed (scancodesRead scancode s.data.rest.reads)).foldl TextPage.char p) s.data.rest.kernel ∧
      Set.EqOn s.data.rest.kernel.mem k.mem (insert charStr screen)ᶜ := by
  obtain ⟨served, h⟩ := Inv.run hc hrun
  have hdone := h.count_done (.master 1)
  have hvector : (vector (.master 1)).toUInt32 = 33 := rfl
  rw [hvector] at hdone
  obtain ⟨hreads, htyped⟩ : s.data.rest.reads = (s.phase.done served).count (.master 1) ∧
      Typed charStr scancode p k s.data.rest := by
    rw [h.data]
    exact typed_foldr hinit hfuel hbuffer hcharStr hnext hnul hplain hk tick
      fun l hl => h.asked l (s.phase.done_subset served hl)
  refine ⟨?_, htyped.page, htyped.mem⟩
  rw [hreads, hdone, h.latched (.master 1) (by decide)]

/-- The `h` is typed on an empty screen: its interrupt was taken, and its routine has run. -/
theorem typing_shows_h :
    ∃ s : State (Data Typing), s.phase = .slave 33 ∧ s.data.rest.reads = 1 ∧
      Shows (textPage 0x1F (bytes "h")) s.data.rest.kernel := by
  have hoff : Disjoint (span 0x1000 2) screen := disjoint_span (by decide) (by decide) (by decide)
  have hcharStr : (0x1000 : UInt32) ∉ screen := Set.disjoint_left.mp hoff (by rw [mem_span]; decide)
  have hnext : (0x1000 : UInt32) + 1 ∉ screen := Set.disjoint_left.mp hoff (by rw [mem_span]; decide)
  have hnul : (terminalInitialize 0x1F Kernel.loaded).mem (0x1000 + 1) = 0 :=
    (terminalInitialize_draws 0x1F Kernel.loaded).mem hnext
  have htyped : typedChar 0x23 = bytes "h" := by decide
  obtain ⟨t', hinit⟩ : ∃ t' : Timer (Data Typing), initTimer 50 ⟨fun _ => none, 0, ⟨none, 0, none⟩⟩ = some t' :=
    ⟨_, rfl⟩
  obtain ⟨s, hrun, hphase, hreads⟩ : ∃ s, ReflTransGen (Step (initKeyboard
      (keyboardRoutine noFloats 2 1 0x1000 0x2000 fun _ => 0x23) t').routines)
      (start 0xfc 0xff powerOn ⟨0, 0, terminalInitialize 0x1F Kernel.loaded⟩) s ∧
      s.phase = .slave 33 ∧ s.data.rest.reads = 1 :=
    ⟨_, (((ReflTransGen.single (.raise _ (by decide : Line.master 1 ≠ .master 2))).tail (.sti rfl)).tail
      (.accept rfl rfl)).tail (.proceed rfl), rfl, rfl⟩
  obtain ⟨-, hshows, -⟩ := typing_shows noFloats (by decide : 1 < 2) 1 0x1000 0x2000 (by decide) hcharStr hnext
    (fun _ => 0x23) (fun _ => by rw [htyped]; exact List.forall_iff_forall_mem.mp (by decide))
    (textPage 0x1F []) _ (shows_terminalInitialize 0x1F Kernel.loaded) hnul hinit 0 serving_powerOn hrun
  rw [hreads] at hshows
  exact ⟨s, hphase, hreads, hshows⟩

end JurasOS.Irq
