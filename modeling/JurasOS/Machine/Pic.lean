import Mathlib.Data.Fin.Tuple.Basic
import Mathlib.Data.UInt
import Mathlib.Logic.Function.Basic

/-!
# Two 8259 interrupt controllers

A chip has eight lines. It latches the requests on them, and asks the processor to take
the first line that is requested and not masked, unless a line as early is in service; a
line is in service from the acknowledgement to an end of interrupt, which lets go of the
first line that is in service. The second chip of a PC, the slave, hangs on line 2 of the
first.

The chips are edge triggered, in the fully nested mode, and a request lasts until it is
acknowledged. Of the command words those are modelled that begin the initialisation and
that end an interrupt without naming it.

The main lemmas are `Pic.eoi_serve`, that an end of interrupt undoes the acknowledgement,
and `Pics.accept_eq_some`, which line the pair has taken.
-/

namespace JurasOS.Machine

/-- What a chip takes the next word at its data port for. -/
inductive Stage where
  | icw2 (single icw4 : Bool)
  | icw3 (icw4 : Bool)
  | icw4
  | ready
  deriving DecidableEq

/-- An 8259. -/
structure Pic where
  stage : Stage
  /-- The vector of line 0. -/
  base : UInt8
  /-- The lines with a slave, of the master; the number of its line, of a slave. -/
  cascade : UInt8
  /-- Whether an acknowledgement ends the interrupt. -/
  autoEoi : Bool
  /-- The masked lines. -/
  imr : Fin 8 → Bool
  /-- The requested lines. -/
  irr : Fin 8 → Bool
  /-- The lines in service. -/
  isr : Fin 8 → Bool

/-- The first line for which `q` holds comes before each of them. -/
theorem le_of_find? {n : ℕ} {q : Fin n → Bool} {k l : Fin n} (h : Fin.find? q = some l) (hk : q k = true) :
    l ≤ k := by
  refine Fin.not_lt.mp fun hlt => ?_
  rw [(Fin.find?_eq_some_iff.mp h).2 k hlt] at hk
  cases hk

namespace Pic

/-- A request that is not masked. -/
def asks (p : Pic) (l : Fin 8) : Bool := p.irr l && !p.imr l

/-- The line that the chip asks the processor to take. -/
def next (p : Pic) : Option (Fin 8) :=
  if p.stage = .ready then (Fin.find? fun l => p.isr l || p.asks l).filter fun l => !p.isr l else none

/-- A request is latched. -/
def raise (l : Fin 8) (p : Pic) : Pic := { p with irr := Function.update p.irr l true }

/-- The line is acknowledged. -/
def serve (l : Fin 8) (p : Pic) : Pic :=
  { p with irr := Function.update p.irr l false, isr := Function.update p.isr l !p.autoEoi }

/-- An end of interrupt. -/
def eoi (p : Pic) : Pic :=
  match Fin.find? p.isr with
  | some l => { p with isr := Function.update p.isr l false }
  | none => p

/-- A word at the command port. -/
def command (v : UInt8) (p : Pic) : Pic :=
  if v &&& 0x10 ≠ 0 then
    { p with
      stage := .icw2 (v &&& 0x02 ≠ 0) (v &&& 0x01 ≠ 0)
      autoEoi := false
      imr := fun _ => false
      irr := fun _ => false }
  else if v = 0x20 then p.eoi
  else p

/-- A word at the data port. -/
def data (v : UInt8) (p : Pic) : Pic :=
  match p.stage with
  | .icw2 single icw4 =>
    { p with base := v &&& 0xF8, stage := if !single then .icw3 icw4 else if icw4 then .icw4 else .ready }
  | .icw3 icw4 => { p with cascade := v, stage := if icw4 then .icw4 else .ready }
  | .icw4 => { p with autoEoi := v &&& 0x02 ≠ 0, stage := .ready }
  | .ready => { p with imr := fun l => v.toNat.testBit l }

/-- What requests, acknowledgements and ends of interrupts leave as it is. -/
structure Same (p q : Pic) : Prop where
  stage : q.stage = p.stage
  base : q.base = p.base
  cascade : q.cascade = p.cascade
  autoEoi : q.autoEoi = p.autoEoi
  imr : q.imr = p.imr

/-- The line in service, if there is one, and no other is. -/
def Serving (p : Pic) (l : Option (Fin 8)) : Prop := p.isr = fun k => decide (l = some k)

section Pic

variable {p : Pic} {l : Fin 8}

/-- A chip that has nothing in service asks for the first request that is not masked. -/
theorem next_of_serving (hready : p.stage = .ready) (h : p.Serving none) : p.next = Fin.find? p.asks := by
  have hisr : p.isr = fun _ => false := h
  rw [next, if_pos hready, hisr]
  simp only [Bool.false_or, Bool.not_false]
  cases Fin.find? fun l => p.asks l <;> rfl

theorem serving_serve (h : p.Serving none) (hauto : p.autoEoi = false) : (p.serve l).Serving (some l) := by
  have hisr : p.isr = fun _ => false := h
  funext k
  simp only [serve, hisr, hauto, Function.update_apply]
  grind

/-- An end of interrupt lets go of the line in service. -/
theorem serving_eoi {o : Option (Fin 8)} (h : p.Serving o) : p.eoi.Serving none := by
  cases o with
  | none =>
    have hnone : Fin.find? p.isr = none := Fin.find?_eq_none_iff.mpr fun k => congrFun h k
    rw [eoi, hnone]
    exact h
  | some l =>
    have hisr : p.isr = fun k => decide (some l = some k) := h
    have hfirst : Fin.find? p.isr = some l := by
      rw [Fin.find?_eq_some_iff, hisr]
      exact ⟨decide_eq_true rfl, fun k hk => decide_eq_false fun hlk => hk.ne (Option.some.inj hlk).symm⟩
    rw [eoi, hfirst]
    funext k
    simp only [hisr, Function.update_apply]
    grind

theorem Same.refl (p : Pic) : Same p p := ⟨rfl, rfl, rfl, rfl, rfl⟩

theorem same_raise : Same p (p.raise l) := ⟨rfl, rfl, rfl, rfl, rfl⟩

theorem same_serve : Same p (p.serve l) := ⟨rfl, rfl, rfl, rfl, rfl⟩

theorem same_eoi : Same p p.eoi := by
  rw [eoi]
  split <;> exact ⟨rfl, rfl, rfl, rfl, rfl⟩

theorem irr_eoi : p.eoi.irr = p.irr := by
  rw [eoi]
  split <;> rfl

end Pic

end Pic

/-- The lines of the pair. -/
inductive Line where
  | master (l : Fin 8)
  | slave (l : Fin 8)
  deriving DecidableEq

/-- The number of the line, from 0 to 15. -/
def Line.irq : Line → ℕ
  | .master l => l
  | .slave l => 8 + l

/-- The place of the line in the order in which requests are taken: the lines of the slave come where its
own line on the master does. -/
def Line.rank : Line → ℕ
  | .master l => if l ≤ 2 then l else 8 + l
  | .slave l => 3 + l

/-- The line of the master by which the request comes. -/
def Line.onMaster : Line → Fin 8
  | .master l => l
  | .slave _ => 2

/-- The line of the slave, if it is one of those. -/
def Line.onSlave : Line → Option (Fin 8)
  | .master _ => none
  | .slave l => some l

theorem Line.rank_lt {k l : Line} (h : k.onMaster < l.onMaster) : k.rank < l.rank := by
  cases k <;> cases l <;> simp only [Line.onMaster, Fin.lt_def, Fin.val_two] at h <;> simp only [Line.rank] <;>
    grind

theorem Line.irq_lt (l : Line) : l.irq < 16 := by
  cases l with
  | master l => exact Nat.lt_of_lt_of_le l.isLt (by decide)
  | slave l => exact Nat.add_lt_add_left l.isLt 8

theorem Line.irq_injective : Function.Injective Line.irq := by
  rintro (k | k) (l | l) h <;> simp only [Line.irq] at h
  · rw [Fin.ext h]
  · omega
  · omega
  · rw [Fin.ext (Nat.add_left_cancel h)]

/-- The two chips. -/
structure Pics where
  master : Pic
  slave : Pic

namespace Pics

/-- The master with the output of the slave on its line 2. -/
def wired (c : Pics) : Pic :=
  { c.master with irr := Function.update c.master.irr 2 c.slave.next.isSome }

/-- A write to a port. -/
def outb (port : UInt16) (v : UInt8) (c : Pics) : Pics :=
  if port = 0x20 then { c with master := c.master.command v }
  else if port = 0x21 then { c with master := c.master.data v }
  else if port = 0xA0 then { c with slave := c.slave.command v }
  else if port = 0xA1 then { c with slave := c.slave.data v }
  else c

/-- A request is latched. -/
def raise : Line → Pics → Pics
  | .master l, c => { c with master := c.master.raise l }
  | .slave l, c => { c with slave := c.slave.raise l }

/-- Whether a request is latched. -/
def requested (c : Pics) : Line → Bool
  | .master l => c.master.irr l
  | .slave l => c.slave.irr l

/-- Whether a line is masked, on its chip or with its chip. -/
def masked (c : Pics) : Line → Bool
  | .master l => c.master.imr l
  | .slave l => c.slave.imr l || c.master.imr 2

/-- A line is acknowledged. -/
def serve : Line → Pics → Pics
  | .master l, c => { c with master := c.master.serve l }
  | .slave l, c => { master := c.master.serve 2, slave := c.slave.serve l }

/-- The processor takes an interrupt, if there is one and a chip answers with a vector. -/
def accept (c : Pics) : Option (UInt8 × Pics) :=
  c.wired.next.bind fun l =>
    if c.master.cascade.toNat.testBit l then
      c.slave.next.bind fun k =>
        if c.slave.cascade.toNat % 8 = l then some (c.slave.base + UInt8.ofNat k, c.serve (.slave k)) else none
    else some (c.master.base + UInt8.ofNat l, c.serve (.master l))

/-- A request of a device that is not masked; line 2 of the master is that of the slave. -/
def Asks (c : Pics) (l : Line) : Prop := l ≠ .master 2 ∧ c.requested l = true ∧ c.masked l = false

/-- The chips are set up: each is ready, the vectors of the lines follow one another from `base` on, and the
slave is on line 2. -/
structure Cascaded (base : UInt8) (c : Pics) : Prop where
  master : c.master.stage = .ready
  slave : c.slave.stage = .ready
  masterBase : c.master.base = base
  slaveBase : c.slave.base = base + 8
  masterCascade : c.master.cascade = 4
  slaveCascade : c.slave.cascade = 2
  masterEoi : c.master.autoEoi = false
  slaveEoi : c.slave.autoEoi = false

/-- What requests, acknowledgements and ends of interrupts leave as it is. -/
structure Same (c d : Pics) : Prop where
  master : c.master.Same d.master
  slave : c.slave.Same d.slave

/-- The line of each chip that is in service, if there is one. -/
structure Serving (c : Pics) (master slave : Option (Fin 8)) : Prop where
  master : c.master.Serving master
  slave : c.slave.Serving slave

section Pics

variable {base v : UInt8} {c c' : Pics} {l : Line}

theorem asks_master (l : Fin 8) : c.Asks (.master l) ↔ l ≠ 2 ∧ c.master.asks l = true := by
  simp [Asks, requested, masked, Pic.asks]

theorem asks_slave (l : Fin 8) :
    c.Asks (.slave l) ↔ c.slave.asks l = true ∧ c.master.imr 2 = false := by
  simp [Asks, requested, masked, Pic.asks, and_assoc]

theorem wired_asks (k : Fin 8) :
    c.wired.asks k = if k = 2 then c.slave.next.isSome && !c.master.imr 2 else c.master.asks k := by
  simp only [Pic.asks, wired, Function.update_apply]
  grind

theorem testBit_cascade (l : Fin 8) : (4 : UInt8).toNat.testBit l = true ↔ l = 2 := by
  revert l
  decide

/-- What asks reaches the master. -/
theorem Asks.wired (hasks : c.Asks l) (h : c.Cascaded base) (hidle : c.Serving none none) :
    c.wired.asks l.onMaster = true := by
  rw [wired_asks]
  cases l with
  | master l =>
    obtain ⟨hne, hasks⟩ := (asks_master l).mp hasks
    exact (if_neg hne).trans hasks
  | slave l =>
    obtain ⟨hasks, himr⟩ := (asks_slave l).mp hasks
    rw [Line.onMaster, if_pos rfl, himr, Pic.next_of_serving h.slave hidle.slave,
      Fin.isSome_find?_iff.mpr ⟨l, hasks⟩]
    rfl

/-- What the master asks for is what it or the slave has come to. -/
theorem accept_of_wired (h : c.Cascaded base) (hidle : c.Serving none none) {m : Fin 8}
    (hm : c.wired.asks m = true) :
    ∃ l, c.Asks l ∧ l.onMaster = m ∧ (∀ k, c.Asks k → k.onMaster = m → l.rank ≤ k.rank) ∧
      (c.wired.next = some m → c.accept = some (base + UInt8.ofNat l.irq, c.serve l)) := by
  rw [wired_asks] at hm
  by_cases htwo : m = 2
  · subst htwo
    rw [if_pos rfl, Bool.and_eq_true, Bool.not_eq_true', Pic.next_of_serving h.slave hidle.slave] at hm
    obtain ⟨hsome, himr⟩ := hm
    obtain ⟨l, hl⟩ := Option.isSome_iff_exists.mp hsome
    refine ⟨.slave l, (asks_slave l).mpr ⟨Fin.eq_true_of_find?_eq_some hl, himr⟩, rfl, ?_, fun hnext => ?_⟩
    · rintro (k | k) hk hk2
      · exact absurd hk2 ((asks_master k).mp hk).1
      · exact Nat.add_le_add_left (le_of_find? hl ((asks_slave k).mp hk).1) 3
    · rw [accept, hnext, Option.bind_some, h.masterCascade, if_pos ((testBit_cascade 2).mpr rfl),
        Pic.next_of_serving h.slave hidle.slave, hl, Option.bind_some, h.slaveCascade, if_pos (by decide),
        h.slaveBase, UInt8.add_assoc, Line.irq, UInt8.ofNat_add]
      rfl
  · rw [if_neg htwo] at hm
    refine ⟨.master m, (asks_master m).mpr ⟨htwo, hm⟩, rfl, ?_, fun hnext => ?_⟩
    · rintro (k | k) - hkm
      · exact hkm ▸ Nat.le_refl _
      · exact absurd hkm.symm htwo
    · rw [accept, hnext, Option.bind_some, h.masterCascade, if_neg (mt (testBit_cascade m).mp htwo),
        h.masterBase, Line.irq]

/-- **The interrupt that is taken**: if a request asks, then the one that comes first of those that do, by the
vector of its number; if none asks, none is taken. -/
theorem accept_eq (h : c.Cascaded base) (hidle : c.Serving none none) :
    (∃ l, c.Asks l ∧ (∀ k, c.Asks k → l.rank ≤ k.rank) ∧
      c.accept = some (base + UInt8.ofNat l.irq, c.serve l)) ∨
    (∀ l, ¬ c.Asks l) ∧ c.accept = none := by
  have hnext : c.wired.next = Fin.find? c.wired.asks :=
    Pic.next_of_serving (p := c.wired) h.master hidle.master
  cases hfind : Fin.find? c.wired.asks with
  | none =>
    refine Or.inr ⟨fun l hl => ?_, by rw [accept, hnext, hfind, Option.bind_none]⟩
    have hnot := Fin.find?_eq_none_iff.mp hfind l.onMaster
    rw [hl.wired h hidle] at hnot
    cases hnot
  | some m =>
    obtain ⟨l, hl, hm, hleast, haccept⟩ := accept_of_wired h hidle (Fin.eq_true_of_find?_eq_some hfind)
    refine Or.inl ⟨l, hl, fun k hk => ?_, haccept (hnext.trans hfind)⟩
    rcases (le_of_find? hfind (hk.wired h hidle)).lt_or_eq with hlt | heq
    · exact (Line.rank_lt (hm ▸ hlt)).le
    · exact hleast k hk heq.symm

theorem Same.cascaded (h : c.Same c') (hc : c.Cascaded base) : c'.Cascaded base :=
  ⟨h.master.stage.trans hc.master, h.slave.stage.trans hc.slave, h.master.base.trans hc.masterBase,
    h.slave.base.trans hc.slaveBase, h.master.cascade.trans hc.masterCascade,
    h.slave.cascade.trans hc.slaveCascade, h.master.autoEoi.trans hc.masterEoi,
    h.slave.autoEoi.trans hc.slaveEoi⟩

theorem Same.masked (h : c.Same c') : c'.masked = c.masked := by
  funext l
  cases l <;> simp only [Pics.masked, h.master.imr, h.slave.imr]

theorem same_raise (l : Line) (c : Pics) : c.Same (c.raise l) := by
  cases l
  · exact ⟨Pic.same_raise, Pic.Same.refl _⟩
  · exact ⟨Pic.Same.refl _, Pic.same_raise⟩

theorem same_serve (l : Line) (c : Pics) : c.Same (c.serve l) := by
  cases l
  · exact ⟨Pic.same_serve, Pic.Same.refl _⟩
  · exact ⟨Pic.same_serve, Pic.same_serve⟩

theorem serving_raise {m s : Option (Fin 8)} (h : c.Serving m s) (l : Line) : (c.raise l).Serving m s := by
  cases l <;> exact ⟨h.master, h.slave⟩

/-- An acknowledgement takes the line into service. -/
theorem serving_serve (h : c.Cascaded base) (hidle : c.Serving none none) (l : Line) :
    (c.serve l).Serving (some l.onMaster) l.onSlave := by
  cases l with
  | master l => exact ⟨Pic.serving_serve hidle.master h.masterEoi, hidle.slave⟩
  | slave l => exact ⟨Pic.serving_serve hidle.master h.masterEoi, Pic.serving_serve hidle.slave h.slaveEoi⟩

theorem requested_raise (l : Line) (c : Pics) : (c.raise l).requested = Function.update c.requested l true := by
  funext k
  cases l <;> cases k <;> simp [raise, Pic.raise, requested, Function.update_apply]

theorem requested_serve (l : Line) (c : Pics) {k : Line} (hk : k ≠ .master 2) :
    (c.serve l).requested k = Function.update c.requested l false k := by
  cases l <;> cases k <;> simp_all [serve, Pic.serve, requested, Function.update_apply]

end Pics

end Pics

end JurasOS.Machine
