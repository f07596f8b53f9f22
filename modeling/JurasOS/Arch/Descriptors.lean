import JurasOS.Machine.Exec
import Mathlib.Data.UInt
import Mathlib.Logic.Function.Basic
import Mathlib.Tactic.FinCases

/-!
# `gdt.c` and `idt.c`: the descriptor tables

The entries are packed structs of eight bytes, and the i386 cuts each base, limit
and offset into slices that lie apart in them. `gdtSetGate` and `idtSetGate` fill
the slices as the C functions do; `decodeSegment` and `decodeGate` read a packed
entry as the processor does, by the positions of the bits alone.

## What is proved

* `setGate_decodes`: what was put into an entry is decoded from it, and no other
  entry changes.
* `decodeSegment_gdtInstall`, `decodeGate_idtInstall`: the tables the kernel runs
  with, entry by entry.

The tables are variables of the kernel image, not memory reached through a
pointer. Loading the table registers (`lgdt`, `lidt`) and reloading the segment
registers (`gdt_flush`) are outside.
-/

namespace JurasOS

open Machine

/-- `struct gdt_entry`. -/
structure GdtEntry where
  limitLow : UInt16
  baseLow : UInt16
  baseMiddle : UInt8
  access : UInt8
  granularity : UInt8
  baseHigh : UInt8

/-- `struct idt_entry`. -/
structure IdtEntry where
  offsetLow : UInt16
  selector : UInt16
  zero : UInt8
  typeAttr : UInt8
  offsetHigh : UInt16

/-- `struct gdt_ptr` and `struct idt_ptr`. -/
structure TablePtr where
  limit : UInt16
  base : UInt32

/-- The variables of `gdt.c` and `idt.c`. -/
structure Tables where
  gdt : Fin 3 → GdtEntry
  gp : TablePtr
  idt : UInt8 → IdtEntry
  idtp : TablePtr

/-- Assignments to the fields of `gdt[num]`. -/
def Tables.setGdt (t : Tables) (num : Fin 3) (f : GdtEntry → GdtEntry) : Tables :=
  { t with gdt := Function.update t.gdt num (f (t.gdt num)) }

/-- Assignments to the fields of `idt[num]`. -/
def Tables.setIdt (t : Tables) (num : UInt8) (f : IdtEntry → IdtEntry) : Tables :=
  { t with idt := Function.update t.idt num (f (t.idt num)) }

/-- `gdt_set_gate`. -/
def gdtSetGate (num : Fin 3) (base limit : UInt64) (access gran : UInt8) (t : Tables) : Tables :=
  let t := t.setGdt num fun e => { e with
    baseLow := (base &&& 0xFFFF).toUInt16
    baseMiddle := ((base >>> 16) &&& 0xFF).toUInt8
    baseHigh := ((base >>> 24) &&& 0xFF).toUInt8 }
  let t := t.setGdt num fun e => { e with
    limitLow := (limit &&& 0xFFFF).toUInt16
    granularity := ((limit >>> 16) &&& 0x0F).toUInt8 }
  t.setGdt num fun e => { e with granularity := e.granularity ||| (gran &&& 0xF0), access := access }

/-- `idt_set_gate`. -/
def idtSetGate (num : UInt8) (base : UInt32) (selector : UInt16) (flags : UInt8) (t : Tables) : Tables :=
  t.setIdt num fun e => { e with
    offsetLow := (base &&& 0xFFFF).toUInt16
    offsetHigh := ((base >>> 16) &&& 0xFFFF).toUInt16
    selector := selector
    zero := 0
    typeAttr := flags }

/-- `gdt_install`, up to `gdt_flush`; `gdt` is the address of the table. -/
def gdtInstall (gdt : UInt32) (t : Tables) : Tables :=
  let t := { t with gp := { limit := 8 * 3 - 1, base := gdt } }
  let t := gdtSetGate 0 0 0 0 0 t
  let t := gdtSetGate 1 0 0xFFFFFFFF 0x9A 0xCF t
  gdtSetGate 2 0 0xFFFFFFFF 0x92 0xCF t

/-- `isr_install`; `isr v` is the address of the stub `isr`*v*. -/
def isrInstall (isr : ℕ → UInt32) : Tables → Tables :=
  times 32 fun v => idtSetGate (UInt8.ofNat v) (isr v) 0x08 0x8E

/-- The gates of `irq_install`; `irq n` is the address of the stub `irq`*n*. -/
def irqInstall (irq : ℕ → UInt32) : Tables → Tables :=
  times 16 fun n => idtSetGate (UInt8.ofNat (32 + n)) (irq n) 0x08 0x8E

/-- `idt_install`, up to `lidt`; `idt` is the address of the table. -/
def idtInstall (idt : UInt32) (isr irq : ℕ → UInt32) (t : Tables) : Tables :=
  let t := { t with idtp := { limit := 8 * 256 - 1, base := idt } }
  -- `memset(&idt, 0, sizeof(struct idt_entry) * 256)`
  let t := { t with idt := fun _ => ⟨0, 0, 0, 0, 0⟩ }
  irqInstall irq (isrInstall isr t)

/-! ### The layout of the processor -/

/-- The eight bytes of a packed entry as one number, the first byte lowest. -/
def GdtEntry.raw (e : GdtEntry) : ℕ :=
  e.limitLow.toNat + 2 ^ 16 * e.baseLow.toNat + 2 ^ 32 * e.baseMiddle.toNat + 2 ^ 40 * e.access.toNat +
    2 ^ 48 * e.granularity.toNat + 2 ^ 56 * e.baseHigh.toNat

/-- The eight bytes of a packed entry as one number, the first byte lowest. -/
def IdtEntry.raw (e : IdtEntry) : ℕ :=
  e.offsetLow.toNat + 2 ^ 16 * e.selector.toNat + 2 ^ 32 * e.zero.toNat + 2 ^ 40 * e.typeAttr.toNat +
    2 ^ 48 * e.offsetHigh.toNat

/-- A segment, as the processor reads a descriptor. -/
@[ext] structure Segment where
  base : ℕ
  limit : ℕ
  access : ℕ
  flags : ℕ

/-- An interrupt gate, as the processor reads a descriptor. -/
@[ext] structure Gate where
  offset : ℕ
  selector : ℕ
  zero : ℕ
  typeAttr : ℕ

/-- Bits 0–15 and 48–51 are the limit, 16–39 and 56–63 the base, 40–47 the access byte, 52–55 the
flags. -/
def decodeSegment (raw : ℕ) : Segment where
  base := raw / 2 ^ 16 % 2 ^ 24 + 2 ^ 24 * (raw / 2 ^ 56 % 2 ^ 8)
  limit := raw % 2 ^ 16 + 2 ^ 16 * (raw / 2 ^ 48 % 2 ^ 4)
  access := raw / 2 ^ 40 % 2 ^ 8
  flags := raw / 2 ^ 52 % 2 ^ 4

/-- Bits 0–15 and 48–63 are the offset, 16–31 the selector, 32–39 zero, 40–47 the type. -/
def decodeGate (raw : ℕ) : Gate where
  offset := raw % 2 ^ 16 + 2 ^ 16 * (raw / 2 ^ 48 % 2 ^ 16)
  selector := raw / 2 ^ 16 % 2 ^ 16
  zero := raw / 2 ^ 32 % 2 ^ 8
  typeAttr := raw / 2 ^ 40 % 2 ^ 8

/-- The slices of a segment put together again. -/
theorem decodeSegment_raw (e : GdtEntry) : decodeSegment e.raw = {
    base := e.baseLow.toNat + 2 ^ 16 * e.baseMiddle.toNat + 2 ^ 24 * e.baseHigh.toNat
    limit := e.limitLow.toNat + 2 ^ 16 * (e.granularity.toNat % 2 ^ 4)
    access := e.access.toNat
    flags := e.granularity.toNat / 2 ^ 4 } := by
  have h0 := e.limitLow.toNat_lt
  have h1 := e.baseLow.toNat_lt
  have h2 := e.baseMiddle.toNat_lt
  have h3 := e.access.toNat_lt
  have h4 := e.granularity.toNat_lt
  have h5 := e.baseHigh.toNat_lt
  apply Segment.ext <;> simp only [decodeSegment, GdtEntry.raw] <;> omega

/-- The slices of a gate put together again. -/
theorem decodeGate_raw (e : IdtEntry) : decodeGate e.raw = {
    offset := e.offsetLow.toNat + 2 ^ 16 * e.offsetHigh.toNat
    selector := e.selector.toNat
    zero := e.zero.toNat
    typeAttr := e.typeAttr.toNat } := by
  have h0 := e.offsetLow.toNat_lt
  have h1 := e.selector.toNat_lt
  have h2 := e.zero.toNat_lt
  have h3 := e.typeAttr.toNat_lt
  have h4 := e.offsetHigh.toNat_lt
  apply Gate.ext <;> simp only [decodeGate, IdtEntry.raw] <;> omega

/-! ### Slices of a number -/

theorem toNat_mask64 {x b : UInt64} {k : ℕ} (h : b.toNat = 2 ^ k - 1) :
    (x &&& b).toNat = x.toNat % 2 ^ k := by
  rw [UInt64.toNat_and, h, Nat.and_two_pow_sub_one_eq_mod]

theorem toNat_mask32 {x b : UInt32} {k : ℕ} (h : b.toNat = 2 ^ k - 1) :
    (x &&& b).toNat = x.toNat % 2 ^ k := by
  rw [UInt32.toNat_and, h, Nat.and_two_pow_sub_one_eq_mod]

theorem toNat_shift64 {x n : UInt64} (h : n.toNat < 64) : (x >>> n).toNat = x.toNat / 2 ^ n.toNat := by
  rw [UInt64.toNat_shiftRight, Nat.mod_eq_of_lt h, Nat.shiftRight_eq_div_pow]

theorem toNat_shift32 {x n : UInt32} (h : n.toNat < 32) : (x >>> n).toNat = x.toNat / 2 ^ n.toNat := by
  rw [UInt32.toNat_shiftRight, Nat.mod_eq_of_lt h, Nat.shiftRight_eq_div_pow]

/-- The high nibble stays in its place. -/
theorem toNat_highNibble (x : UInt8) : (x &&& 0xF0).toNat = 2 ^ 4 * (x.toNat / 2 ^ 4) := by
  have hall : ∀ n : Fin 256, n.val &&& 0xF0 = 2 ^ 4 * (n.val / 2 ^ 4) := by decide +kernel
  rw [UInt8.toNat_and]
  exact hall ⟨x.toNat, x.toNat_lt⟩

/-- The byte that the two nibbles share. -/
theorem toNat_granularity (limit : UInt64) (gran : UInt8) :
    (((limit >>> 16) &&& 0x0F).toUInt8 ||| (gran &&& 0xF0)).toNat =
      limit.toNat / 2 ^ 16 % 2 ^ 4 + 2 ^ 4 * (gran.toNat / 2 ^ 4) := by
  have hlow : ((limit >>> 16) &&& 0x0F).toUInt8.toNat = limit.toNat / 2 ^ 16 % 2 ^ 4 := by
    rw [UInt64.toNat_toUInt8, toNat_mask64 (k := 4) rfl, toNat_shift64 (by decide)]
    show limit.toNat / 2 ^ 16 % 2 ^ 4 % 2 ^ 8 = _
    omega
  have hlt : limit.toNat / 2 ^ 16 % 2 ^ 4 < 2 ^ 4 := Nat.mod_lt _ (by decide)
  rw [UInt8.toNat_or, hlow, toNat_highNibble, Nat.or_comm, ← Nat.two_pow_add_eq_or_of_lt hlt, Nat.add_comm]

/-! ### What is put in is decoded -/

theorem gdt_gdtSetGate (num : Fin 3) (base limit : UInt64) (access gran : UInt8) (t : Tables) :
    (gdtSetGate num base limit access gran t).gdt = Function.update t.gdt num {
      limitLow := (limit &&& 0xFFFF).toUInt16
      baseLow := (base &&& 0xFFFF).toUInt16
      baseMiddle := ((base >>> 16) &&& 0xFF).toUInt8
      access := access
      granularity := ((limit >>> 16) &&& 0x0F).toUInt8 ||| (gran &&& 0xF0)
      baseHigh := ((base >>> 24) &&& 0xFF).toUInt8 } := by
  simp only [gdtSetGate, Tables.setGdt, Function.update_self, Function.update_idem]

theorem decodeSegment_gdtSetGate (num : Fin 3) (base limit : UInt64) (access gran : UInt8) (t : Tables) :
    decodeSegment ((gdtSetGate num base limit access gran t).gdt num).raw = {
      base := base.toNat % 2 ^ 32
      limit := limit.toNat % 2 ^ 20
      access := access.toNat
      flags := gran.toNat / 2 ^ 4 } := by
  have hgran := gran.toNat_lt
  rw [gdt_gdtSetGate, Function.update_self, decodeSegment_raw, toNat_granularity]
  simp only [UInt64.toNat_toUInt16, UInt64.toNat_toUInt8, toNat_mask64 (b := 0xFFFF) (k := 16) rfl,
    toNat_mask64 (b := 0xFF) (k := 8) rfl, toNat_shift64 (n := 16) (by decide),
    toNat_shift64 (n := 24) (by decide), UInt64.reduceToNat]
  apply Segment.ext <;> simp only <;> omega

theorem idt_idtSetGate (num : UInt8) (base : UInt32) (selector : UInt16) (flags : UInt8) (t : Tables) :
    (idtSetGate num base selector flags t).idt = Function.update t.idt num {
      offsetLow := (base &&& 0xFFFF).toUInt16
      selector := selector
      zero := 0
      typeAttr := flags
      offsetHigh := ((base >>> 16) &&& 0xFFFF).toUInt16 } := rfl

theorem decodeGate_idtSetGate (num : UInt8) (base : UInt32) (selector : UInt16) (flags : UInt8)
    (t : Tables) :
    decodeGate ((idtSetGate num base selector flags t).idt num).raw = {
      offset := base.toNat
      selector := selector.toNat
      zero := 0
      typeAttr := flags.toNat } := by
  have hbase := base.toNat_lt
  rw [idt_idtSetGate, Function.update_self, decodeGate_raw]
  simp only [UInt32.toNat_toUInt16, toNat_mask32 (b := 0xFFFF) (k := 16) rfl,
    toNat_shift32 (n := 16) (by decide), UInt32.reduceToNat, UInt8.toNat_zero]
  apply Gate.ext <;> simp only
  omega

/-- **Encoding and decoding**: the entry written decodes to what it was given, and every other
entry of both tables stays. -/
theorem setGate_decodes (t : Tables) (num : Fin 3) (base limit : UInt64) (access gran : UInt8)
    (vector : UInt8) (offset : UInt32) (selector : UInt16) (flags : UInt8) :
    decodeSegment ((gdtSetGate num base limit access gran t).gdt num).raw =
      ⟨base.toNat % 2 ^ 32, limit.toNat % 2 ^ 20, access.toNat, gran.toNat / 2 ^ 4⟩ ∧
    (∀ i ≠ num, (gdtSetGate num base limit access gran t).gdt i = t.gdt i) ∧
    (gdtSetGate num base limit access gran t).idt = t.idt ∧
    decodeGate ((idtSetGate vector offset selector flags t).idt vector).raw =
      ⟨offset.toNat, selector.toNat, 0, flags.toNat⟩ ∧
    (∀ i ≠ vector, (idtSetGate vector offset selector flags t).idt i = t.idt i) ∧
    (idtSetGate vector offset selector flags t).gdt = t.gdt := by
  refine ⟨decodeSegment_gdtSetGate num base limit access gran t, fun i hi => ?_, rfl,
    decodeGate_idtSetGate vector offset selector flags t, fun i hi => ?_, rfl⟩
  · rw [gdt_gdtSetGate, Function.update_of_ne hi]
  · rw [idt_idtSetGate, Function.update_of_ne hi]

/-! ### The tables that the kernel installs -/

/-- The segments of the kernel: the null descriptor, then flat code and data of 4 GiB. -/
theorem decodeSegment_gdtInstall (gdt : UInt32) (t : Tables) (i : Fin 3) :
    decodeSegment ((gdtInstall gdt t).gdt i).raw =
      match i with
      | 0 => ⟨0, 0, 0, 0⟩
      | 1 => ⟨0, 0xFFFFF, 0x9A, 0xC⟩
      | 2 => ⟨0, 0xFFFFF, 0x92, 0xC⟩ := by
  fin_cases i
  · rw [gdtInstall, gdt_gdtSetGate, Function.update_of_ne (by decide), gdt_gdtSetGate,
      Function.update_of_ne (by decide)]
    exact decodeSegment_gdtSetGate ..
  · rw [gdtInstall, gdt_gdtSetGate, Function.update_of_ne (by decide)]
    exact decodeSegment_gdtSetGate ..
  · exact decodeSegment_gdtSetGate ..

/-- The gates that a loop over vectors has set. -/
theorem decodeGate_times {first n : ℕ} (h : first + n ≤ 256) (stub : ℕ → UInt32) (t : Tables) (v : UInt8) :
    decodeGate ((times n (fun i => idtSetGate (UInt8.ofNat (first + i)) (stub i) 0x08 0x8E) t).idt v).raw =
      if first ≤ v.toNat ∧ v.toNat < first + n then ⟨(stub (v.toNat - first)).toNat, 0x08, 0, 0x8E⟩
      else decodeGate (t.idt v).raw := by
  refine times_inv (P := fun n (t' : Tables) => decodeGate (t'.idt v).raw =
    if first ≤ v.toNat ∧ v.toNat < first + n then ⟨(stub (v.toNat - first)).toNat, 0x08, 0, 0x8E⟩
    else decodeGate (t.idt v).raw) (if_neg (by omega)).symm ?_
  intro i hi t' ht'
  have hnum : (UInt8.ofNat (first + i)).toNat = first + i := by
    rw [UInt8.toNat_ofNat', Nat.mod_eq_of_lt (by omega)]
  by_cases hv : v = UInt8.ofNat (first + i)
  · have hoff : (UInt8.ofNat (first + i)).toNat - first = i := by omega
    rw [hv, decodeGate_idtSetGate, if_pos (by omega), hoff]
    rfl
  · have hne : v.toNat ≠ first + i := fun h => hv (UInt8.toNat_inj.mp (h.trans hnum.symm))
    rw [idt_idtSetGate, Function.update_of_ne hv, ht']
    exact if_congr (by omega) rfl rfl

/-- **The interrupt table**: each exception and each IRQ enters its stub, through an interrupt gate
of the kernel code segment; no other vector has a gate. -/
theorem decodeGate_idtInstall (idt : UInt32) (isr irq : ℕ → UInt32) (t : Tables) (v : UInt8) :
    decodeGate ((idtInstall idt isr irq t).idt v).raw =
      if v.toNat < 32 then ⟨(isr v.toNat).toNat, 0x08, 0, 0x8E⟩
      else if v.toNat < 48 then ⟨(irq (v.toNat - 32)).toNat, 0x08, 0, 0x8E⟩
      else ⟨0, 0, 0, 0⟩ := by
  have hisr := decodeGate_times (show 0 + 32 ≤ 256 by decide) isr
    { t with idtp := { limit := 8 * 256 - 1, base := idt }, idt := fun _ => ⟨0, 0, 0, 0, 0⟩ } v
  simp only [Nat.zero_add, Nat.zero_le, true_and, Nat.sub_zero] at hisr
  rw [idtInstall, irqInstall, decodeGate_times (by decide)]
  by_cases hlt : v.toNat < 32
  · rw [if_neg (by omega), isrInstall, hisr, if_pos hlt, if_pos hlt]
  · rw [if_neg hlt, isrInstall, hisr, if_neg hlt]
    exact if_congr (by omega) rfl rfl

end JurasOS
