import JurasOS.Arch.Irq

/-!
# `timer.c`

`init_timer` installs the routine of the timer, and writes the divisor for the frequency
to channel 0 of the 8253 byte by byte. `timer_tick` counts the interrupts.

* `init_timer_period`: the frequencies for which the chip divides by what was computed.
* `timer_tick_counts`: in the runs of the interrupts, each request of the timer that was
  latched is counted once.

Of the timer chip the counter of channel 0 is modelled, as it is loaded low byte first.
-/

namespace JurasOS.Irq

open Machine Relation

/-- Channel 0 of the 8253. -/
structure Pit where
  /-- The low byte of a count of which the high byte is to come. -/
  low : Option UInt8
  /-- The mode of the counter, with the bit for decimal counts. -/
  mode : UInt8
  /-- The count that is loaded. -/
  count : Option ℕ

/-- A write to a port: to 0x43, a control word; to 0x40, a byte of the count. -/
def Pit.outb (port : UInt16) (v : UInt8) (p : Pit) : Pit :=
  if port = 0x43 then
    -- channel 0, low byte and then high byte
    if v >>> 4 = 0x3 then { low := none, mode := v &&& 0xF, count := none } else p
  else if port = 0x40 then
    match p.low with
    | none => { p with low := some v }
    | some l =>
      let count := 256 * v.toNat + l.toNat
      { p with low := none, count := some (if count = 0 then 65536 else count) }
  else p

/-- The clocks between two interrupts. The modes 2 and 3 count again and again, here in binary, and take no
count below 2. -/
def Pit.period (p : Pit) : Option ℕ := if p.mode &&& 0x5 = 0x4 then p.count.filter (2 ≤ ·) else none

/-- The variables of `timer.c` and of `irq.c`, and the timer chip. -/
structure Timer (σ : Type) where
  routines : Routines σ
  timerFrequency : UInt32
  pit : Pit

variable {κ : Type}

/-- `timer_tick`, and the data of the other routines. -/
structure Data (κ : Type) where
  timerTick : UInt32
  rest : κ

/-- `timer_callback` -/
def timerCallback (d : Data κ) : Data κ := { d with timerTick := d.timerTick + 1 }

/-- `init_timer`, if it does not divide by zero. -/
def initTimer (frequency : UInt32) (t : Timer (Data κ)) : Option (Timer (Data κ)) :=
  if frequency = 0 then none
  else
    let divisor : UInt32 := 1193180 / frequency
    let l := (divisor &&& 0xFF).toUInt8
    let h := (divisor >>> 8 &&& 0xFF).toUInt8
    some
      { routines := irqInstallHandler 0 timerCallback t.routines
        timerFrequency := frequency
        pit := ((t.pit.outb 0x43 0x36).outb 0x40 l).outb 0x40 h }

/-- `init_keyboard`, where `keyboardCallback` is what the routine does to data of its own. -/
def initKeyboard (keyboardCallback : κ → κ) (t : Timer (Data κ)) : Timer (Data κ) :=
  { t with routines := irqInstallHandler 1 (fun d => { d with rest := keyboardCallback d.rest }) t.routines }

/-! ### The divisor -/

/-- The bytes of the divisor make its low half. -/
theorem toNat_bytes (divisor : UInt32) :
    256 * (divisor >>> 8 &&& 0xFF).toUInt8.toNat + (divisor &&& 0xFF).toUInt8.toNat =
      divisor.toNat % 65536 := by
  rw [UInt32.toNat_toUInt8, UInt32.toNat_toUInt8, toNat_mask32 (k := 8) rfl, toNat_mask32 (k := 8) rfl,
    toNat_shift32 (by decide)]
  simp only [UInt32.reduceToNat]
  omega

/-- The count that the low half of the divisor stands for. -/
theorem period_initTimer {frequency : UInt32} (hfreq : frequency ≠ 0) (t : Timer (Data κ)) :
    ∃ t', initTimer frequency t = some t' ∧ t'.pit.period = Option.filter (2 ≤ ·)
      (some (if 1193180 / frequency.toNat % 65536 = 0 then 65536 else 1193180 / frequency.toNat % 65536)) := by
  refine ⟨_, if_neg hfreq, ?_⟩
  have hbytes := toNat_bytes (1193180 / frequency)
  rw [UInt32.toNat_div] at hbytes
  simp only [UInt32.reduceToNat] at hbytes
  rw [← hbytes]
  exact if_pos (rfl : (0x36 &&& 0xF : UInt8) &&& 0x5 = 0x4)

/-- **The period of the timer**: for every frequency but 0, where the division faults, the chip divides its
clock by 1193180 / `frequency` if and only if the frequency is from 19 to 596590. -/
theorem init_timer_period (t : Timer (Data κ)) (frequency : UInt32) :
    (∃ t', initTimer frequency t = some t' ∧ t'.pit.period = some (1193180 / frequency.toNat)) ↔
      19 ≤ frequency.toNat ∧ frequency.toNat ≤ 596590 := by
  by_cases hfreq : frequency = 0
  · subst hfreq
    exact iff_of_false (fun ⟨_, h, _⟩ => nomatch h) fun h => absurd h.1 (by decide)
  · obtain ⟨t', hinit, hperiod⟩ := period_initTimer hfreq t
    have hpos : 0 < frequency.toNat := Nat.pos_of_ne_zero fun h => hfreq (UInt32.toNat_inj.mp h)
    have hunique : (∃ t', initTimer frequency t = some t' ∧ t'.pit.period = some (1193180 / frequency.toNat)) ↔
        (if 1193180 / frequency.toNat % 65536 = 0 then 65536 else 1193180 / frequency.toNat % 65536) =
          1193180 / frequency.toNat ∧ 2 ≤ 1193180 / frequency.toNat := by
      rw [hinit]
      simp only [Option.some.injEq, exists_eq_left', hperiod, Option.filter_eq_some_iff, decide_eq_true_eq]
    rw [hunique]
    -- a frequency below 19 has a divisor above 65536, and one above 596590 a divisor below 2
    have hsmall : frequency.toNat < 19 → 65536 < 1193180 / frequency.toNat := fun h =>
      Nat.lt_of_lt_of_le (by decide) (Nat.div_le_div_left (Nat.le_of_lt_succ h) hpos)
    have hfits : 19 ≤ frequency.toNat → 1193180 / frequency.toNat ≤ 1193180 / 19 := fun h =>
      Nat.div_le_div_left h (by decide)
    have htwo : 2 ≤ 1193180 / frequency.toNat ↔ frequency.toNat ≤ 596590 := by
      rw [Nat.le_div_iff_mul_le hpos]
      omega
    generalize 1193180 / frequency.toNat = divisor at *
    split <;> omega

/-! ### The counter -/

/-- The masks of `idt_install` leave the timer and the keyboard. -/
theorem eq_of_masks {l : Line} (hl : l ≠ .master 2) (hmask : masks 0xfc 0xff l = false) :
    l = .master 0 ∨ l = .master 1 := by
  cases l with
  | master l => revert l; decide
  | slave l => revert l; decide

section counter

variable {t t' : Timer (Data κ)} {frequency : UInt32} {data d : Data κ} {served : List Line} {l : Line}

/-- The routines that `init_timer` and `init_keyboard` install. -/
theorem runRoutine_installed (hinit : initTimer frequency t = some t') (keyboardCallback : κ → κ) (d : Data κ)
    (hl : l ≠ .master 2 ∧ masks 0xfc 0xff l = false) :
    l = .master 0 ∧ runRoutine (initKeyboard keyboardCallback t').routines l d = timerCallback d ∨
      l = .master 1 ∧
        runRoutine (initKeyboard keyboardCallback t').routines l d =
          { d with rest := keyboardCallback d.rest } := by
  have hroutines : t'.routines = irqInstallHandler 0 timerCallback t.routines := by
    rw [initTimer] at hinit
    split at hinit
    · cases hinit
    · cases hinit
      rfl
  rw [runRoutine, initKeyboard, hroutines]
  rcases eq_of_masks hl.1 hl.2 with rfl | rfl
  · exact Or.inl ⟨rfl, rfl⟩
  · exact Or.inr ⟨rfl, rfl⟩

/-- The timer is counted once for each run of its routine. -/
theorem timerTick_foldr (hinit : initTimer frequency t = some t') (keyboardCallback : κ → κ) (data : Data κ)
    (hserved : ∀ l ∈ served, l ≠ .master 2 ∧ masks 0xfc 0xff l = false) :
    (served.foldr (runRoutine (initKeyboard keyboardCallback t').routines) data).timerTick =
      data.timerTick + UInt32.ofNat (served.count (.master 0)) := by
  induction served with
  | nil => exact (UInt32.add_zero _).symm
  | cons l rest ih =>
    obtain ⟨hl, hrest⟩ := List.forall_mem_cons.mp hserved
    rw [List.foldr_cons, List.count_cons, UInt32.ofNat_add, ← UInt32.add_assoc, ← ih hrest]
    rcases runRoutine_installed hinit keyboardCallback (rest.foldr _ data) hl with ⟨rfl, hrun⟩ | ⟨rfl, hrun⟩
    · rw [hrun]
      rfl
    · rw [hrun]
      exact (UInt32.add_zero _).symm

end counter

/-- **`timer_tick` counts the timer**: in every run after `init_timer` and `init_keyboard`, with the masks of
`idt_install`, the ticks are the requests of the timer that were latched, less the one that is pending and the
one that is taken but not counted yet. -/
theorem timer_tick_counts {t t' : Timer (Data κ)} {frequency : UInt32} (hinit : initTimer frequency t = some t')
    (keyboardCallback : κ → κ) {c : Pics} (hc : c.Serving none none) (data : Data κ) {s : State (Data κ)}
    (hrun : ReflTransGen (Step (initKeyboard keyboardCallback t').routines) (start 0xfc 0xff c data) s) :
    s.data.timerTick + UInt32.ofNat (if s.phase = .routine 32 then 1 else 0) +
        UInt32.ofNat (s.pics.requested (.master 0)).toNat =
      data.timerTick + UInt32.ofNat (s.latched.count (.master 0)) := by
  obtain ⟨served, h⟩ := Inv.run hc hrun
  have hdone := h.count_done (.master 0)
  have hvector : (vector (.master 0)).toUInt32 = 32 := rfl
  rw [hvector] at hdone
  rw [h.data, timerTick_foldr hinit keyboardCallback data fun l hl => h.asked l (s.phase.done_subset served hl),
    h.latched (.master 0) (by decide), ← hdone, UInt32.ofNat_add, UInt32.ofNat_add, UInt32.add_assoc,
    UInt32.add_assoc, UInt32.add_assoc]

/-- The timer with 50 interrupts in a second. -/
def timer50 : Timer (Data Unit) where
  routines := irqInstallHandler 0 timerCallback fun _ => none
  timerFrequency := 50
  pit := ⟨none, 6, some 23863⟩

theorem initTimer_fifty : initTimer 50 ⟨fun _ => none, 0, ⟨none, 0, none⟩⟩ = some timer50 := rfl

/-- A run in which the interrupt of the timer is taken, its routine runs, and the chip is told. -/
theorem timer_tick_counts_served : ∃ s : State (Data Unit), s.phase = .idle ∧ s.accepted = [32] ∧
    s.data.timerTick = 7 + 1 := by
  obtain ⟨s, hrun, hphase, haccepted, hrequested, hlatched⟩ : ∃ s,
      ReflTransGen (Step (initKeyboard id timer50).routines) (start 0xfc 0xff powerOn ⟨7, ()⟩) s ∧
      s.phase = .idle ∧ s.accepted = [32] ∧ s.pics.requested (.master 0) = false ∧ s.latched = [.master 0] := by
    have htaken : ReflTransGen (Step (initKeyboard id timer50).routines) (start 0xfc 0xff powerOn ⟨7, ()⟩) _ :=
      (run_raised _ (by decide : Line.master 0 ≠ .master 2) _).tail (.accept rfl rfl)
    exact ⟨_, ((htaken.tail (.proceed rfl)).tail (.proceed rfl)).tail (.proceed rfl), rfl, rfl, rfl, rfl⟩
  have hcounts := timer_tick_counts initTimer_fifty id serving_powerOn ⟨7, ()⟩ hrun
  rw [hphase, hrequested, hlatched, if_neg (by decide)] at hcounts
  exact ⟨s, hphase, haccepted, by simpa using hcounts⟩

end JurasOS.Irq
