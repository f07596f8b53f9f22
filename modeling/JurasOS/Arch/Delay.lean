import Mathlib.Data.UInt
import Mathlib.Logic.Relation

/-!
# `delay` and the timer interrupt

`delay` adds `timer_tick` to the number of ticks to wait, and loops while the sum
is above `timer_tick`, which the timer interrupt increments at any moment. Both
are 32-bit counters that wrap, and the comparison does not take that into account.

## What is proved

* `delay_waits_iff`: the runs of a call that wait long enough, exactly.
* `delay_waits_of_le`: a bound on the uptime under which every run does.

The scaling of milliseconds to ticks is in floating point and outside: the call
below is given the number of ticks. That the loop ends is not claimed, and is not
so when no tick comes.
-/

namespace JurasOS.Delay

open Relation

/-- Where `delay` is. -/
inductive Pc where
  /-- Before `millis += timer_tick`. -/
  | called
  /-- In the loop, with the sum in `millis`. -/
  | waiting (millis : UInt32)
  | returned
  deriving DecidableEq

/-- A call of `delay` and the timer beside it. -/
structure State where
  timerTick : UInt32
  pc : Pc
  /-- The increments of `timer_tick` since the call. -/
  ticks : ℕ
  /-- The increments before the sum was taken. -/
  ticksAtSum : ℕ

/-- `delay` is called. -/
def call (timerTick : UInt32) : State where
  timerTick := timerTick
  pc := .called
  ticks := 0
  ticksAtSum := 0

/-- `timer_callback`. -/
def timerCallback (s : State) : State := { s with timerTick := s.timerTick + 1, ticks := s.ticks + 1 }

/-- `millis += timer_tick`, where `n` is `millis` in ticks. -/
def sum (n : UInt32) (s : State) : State := { s with pc := .waiting (n + s.timerTick), ticksAtSum := s.ticks }

/-- One step of the call with `n` ticks to wait, or of the timer. -/
inductive Step (n : UInt32) : State → State → Prop where
  | timer (s : State) : Step n s (timerCallback s)
  | sum {s : State} : s.pc = .called → Step n s (sum n s)
  | loop {s : State} {millis : UInt32} : s.pc = .waiting millis → millis > s.timerTick → Step n s s
  | leave {s : State} {millis : UInt32} : s.pc = .waiting millis → ¬ millis > s.timerTick →
      Step n s { s with pc := .returned }

/-- The sum did not wrap, taken when the counter was `tick`, or the ticks to wait had passed before. -/
def SumHolds (tick n : UInt32) (ticksAtSum : ℕ) : Prop :=
  (tick.toNat + ticksAtSum) % 2 ^ 32 + n.toNat < 2 ^ 32 ∨ n.toNat ≤ ticksAtSum

/-- What every run of a call keeps. -/
structure Inv (tick n : UInt32) (s : State) : Prop where
  timerTick : s.timerTick.toNat = (tick.toNat + s.ticks) % 2 ^ 32
  atSum : s.ticksAtSum ≤ s.ticks
  waiting : ∀ millis, s.pc = .waiting millis →
    millis.toNat = (n.toNat + (tick.toNat + s.ticksAtSum) % 2 ^ 32) % 2 ^ 32
  returned : s.pc = .returned → SumHolds tick n s.ticksAtSum → n.toNat ≤ s.ticks

theorem inv_call (tick n : UInt32) : Inv tick n (call tick) where
  timerTick := (Nat.mod_eq_of_lt tick.toNat_lt).symm
  atSum := le_rfl
  waiting _ h := nomatch h
  returned h := nomatch h

/-- One step keeps the invariant. -/
theorem Inv.step {tick n : UInt32} {s s' : State} (h : Inv tick n s) (hstep : Step n s s') :
    Inv tick n s' := by
  have htick := h.timerTick
  have hat := h.atSum
  cases hstep with
  | timer =>
    refine ⟨?_, Nat.le_succ_of_le hat, h.waiting, fun hpc hsum => Nat.le_succ_of_le (h.returned hpc hsum)⟩
    show (s.timerTick + 1).toNat = (tick.toNat + (s.ticks + 1)) % 2 ^ 32
    rw [UInt32.toNat_add, UInt32.toNat_one]
    omega
  | sum hpc =>
    refine ⟨htick, le_rfl, fun millis hmillis => ?_, fun hpc => nomatch hpc⟩
    obtain rfl := Pc.waiting.inj hmillis
    show (n + s.timerTick).toNat = _
    rw [UInt32.toNat_add, htick]
    rfl
  | loop => exact h
  | @leave millis hpc hle =>
    refine ⟨htick, hat, fun _ hpc => (nomatch hpc), fun _ hsum => ?_⟩
    have hmillis := h.waiting millis hpc
    have hn := n.toNat_lt
    rw [gt_iff_lt, UInt32.lt_iff_toNat_lt, htick] at hle
    change SumHolds tick n s.ticksAtSum at hsum
    show n.toNat ≤ s.ticks
    -- the counter has not wrapped since a sum that did not, or the ticks had passed by then
    rcases hsum with hsum | hsum <;> omega

theorem Inv.run {tick n : UInt32} {s : State} (hrun : ReflTransGen (Step n) (call tick) s) :
    Inv tick n s := by
  induction hrun with
  | refl => exact inv_call tick n
  | tail _ hstep ih => exact ih.step hstep

/-- The timer runs on. -/
theorem steps_timer (n : UInt32) (s : State) (k : ℕ) :
    ReflTransGen (Step n) s { s with timerTick := s.timerTick + UInt32.ofNat k, ticks := s.ticks + k } := by
  induction k with
  | zero =>
    have hzero : s.timerTick + UInt32.ofNat 0 = s.timerTick := UInt32.add_zero _
    rw [hzero]
    exact .refl
  | succ k ih =>
    have hstep := Step.timer (n := n)
      { s with timerTick := s.timerTick + UInt32.ofNat k, ticks := s.ticks + k }
    have hsucc : s.timerTick + UInt32.ofNat k + 1 = s.timerTick + UInt32.ofNat (k + 1) := by
      rw [UInt32.ofNat_add, UInt32.add_assoc]
      rfl
    rw [timerCallback, hsucc] at hstep
    exact ih.tail hstep

/-- Where the sum has wrapped, the call can return at once. -/
theorem exists_early {tick n : UInt32} {a : ℕ} (h : ¬ SumHolds tick n a) :
    ∃ s, ReflTransGen (Step n) (call tick) s ∧ s.pc = .returned ∧ s.ticksAtSum = a ∧ s.ticks = a := by
  rw [SumHolds, not_or] at h
  obtain ⟨hwrap, -⟩ := h
  have hn := n.toNat_lt
  obtain ⟨s, hs⟩ : ∃ s : State, s =
    { call tick with timerTick := tick + UInt32.ofNat a, ticks := (call tick).ticks + a } := ⟨_, rfl⟩
  have hticks : ReflTransGen (Step n) (call tick) s := hs ▸ steps_timer n (call tick) a
  have hcounter : s.timerTick.toNat = (tick.toNat + a) % 2 ^ 32 := by
    rw [hs]
    show (tick + UInt32.ofNat a).toNat = _
    rw [UInt32.toNat_add, UInt32.toNat_ofNat', Nat.add_mod_mod]
  have hpc : s.pc = .called := by rw [hs]; rfl
  have ha : s.ticks = a := by rw [hs]; exact Nat.zero_add a
  have hle : ¬ n + s.timerTick > s.timerTick := by
    rw [gt_iff_lt, UInt32.lt_iff_toNat_lt, UInt32.toNat_add, hcounter]
    omega
  exact ⟨_, (hticks.tail (.sum hpc)).tail (.leave rfl hle), rfl, ha, ha⟩

/-- **What `delay` waits for**: the runs of a call in which the sum is taken after `a` increments all
return after `n` increments at the least, if and only if that sum does not wrap or `n` of them had
passed by then. -/
theorem delay_waits_iff (tick n : UInt32) (a : ℕ) :
    (∀ s, ReflTransGen (Step n) (call tick) s → s.pc = .returned → s.ticksAtSum = a → n.toNat ≤ s.ticks) ↔
      (tick.toNat + a) % 2 ^ 32 + n.toNat < 2 ^ 32 ∨ n.toNat ≤ a := by
  constructor
  · intro h
    by_contra hnot
    obtain ⟨s, hrun, hpc, hat, hticks⟩ := exists_early hnot
    have hwaits := h s hrun hpc hat
    exact hnot (Or.inr (hticks ▸ hwaits))
  · rintro hsum s hrun hpc rfl
    exact (Inv.run hrun).returned hpc hsum

/-- A call in the last moment before the counter wraps returns at once. -/
theorem delay_returns_early :
    ∃ s, ReflTransGen (Step 1) (call 0xFFFFFFFF) s ∧ s.pc = .returned ∧ ¬ (1 : UInt32).toNat ≤ s.ticks := by
  have hwraps : ¬ SumHolds 0xFFFFFFFF 1 0 := by
    rw [SumHolds]
    decide
  obtain ⟨s, hrun, hpc, -, hticks⟩ := exists_early hwraps
  exact ⟨s, hrun, hpc, by rw [hticks]; decide⟩

/-- A call so long before the counter wraps waits long enough in every run. -/
theorem delay_waits_of_le {tick n : UInt32} (h : tick.toNat + 2 * n.toNat ≤ 2 ^ 32) {s : State}
    (hrun : ReflTransGen (Step n) (call tick) s) (hpc : s.pc = .returned) : n.toNat ≤ s.ticks := by
  refine (Inv.run hrun).returned hpc ?_
  rw [SumHolds]
  omega

end JurasOS.Delay
