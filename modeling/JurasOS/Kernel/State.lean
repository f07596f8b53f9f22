import JurasOS.Machine.Exec
import JurasOS.Machine.Memory

/-!
# The state of the kernel

The physical memory, and beside it the variables that the C files keep in the
kernel image: each record below holds the variables of one file. What the C code
reaches through a pointer (bitmaps, page tables, the heap, the screen, firmware
tables) is in the memory; the variables themselves are not, so a stray write into
the image is not followed into them.

`trace` is not in the source: it lists what the code did that a final state does
not show, the latest first.

A C function that cannot stop the machine is a function on states; one that may
(`PANIC`, `abort`, a loop that does not end) is a `KernelM`.
-/

namespace JurasOS

open Machine

/-- `bitmap_t`. -/
structure Bitmap where
  size : UInt32
  buffer : UInt32

/-- The variables of `page_frame_allocator.c`. -/
structure Pfa where
  /-- `pfa.page_bitmap`. -/
  pageBitmap : Bitmap
  /-- Entire system free. -/
  freeMemory : UInt32
  /-- Reserved by anything. -/
  reservedMemory : UInt32
  /-- Memory that we have allocated. -/
  usedMemory : UInt32
  initialized : Bool

/-- The variables of `tty.c`. -/
structure Terminal where
  row : UInt32
  column : UInt32
  color : UInt8
  buffer : UInt32

/-- `multiboot_tags_info_t`: a pointer to a tag of each kind, or `NULL`. -/
structure MultibootTagsInfo where
  basicMeminfo : UInt32
  biosBootdev : UInt32
  modules : UInt32
  elfSymbols : UInt32
  memoryMap : UInt32
  acpiOld : UInt32
  acpiNew : UInt32

/-- `ahci_driver_t`, and the counter `port_count` that `ahci_driver_probe_ports` uses beside it. -/
structure AhciDriver where
  pciBaseAddr : UInt32
  abar : UInt32
  ports : UInt32 → UInt32
  portCount : UInt8
  /-- The undeclared `port_count` of `ahci.c`, not the field of the driver. -/
  freePortCount : UInt8

/-- What a run did, where its final state does not show it. -/
inductive Event where
  /-- `terminal_putentryat` wrote the cell `index`. -/
  | putentry (index : UInt32)
  /-- `memset(p, _, n)`. -/
  | memset (p n : UInt32)
  /-- `ptm_initialize` has filled the page directory at `pd`. -/
  | directory (pd : UInt32)
  /-- `ptm_map_addr(addr, _, _, _)`, called while `pd` was this. -/
  | mapAddr (pd addr : UInt32)
  /-- `ptm_map_addr` wrote the page table entry at `a`. -/
  | pteWrite (a : UInt32)
  /-- `load_tags` read the tag header at `a`. -/
  | tagHeader (a : UInt32)
  /-- The memory map tag at `a` was read. -/
  | mmapTag (a : UInt32)
  /-- The memory map entry at `a` was read. -/
  | mmapEntry (a : UInt32)
  /-- The ACPI table header at `a` was read. -/
  | sdtHeader (a : UInt32)
  /-- The table pointer at `a`, in the RSDT, was read. -/
  | rsdtPointer (a : UInt32)
  /-- The allocation record at `a`, in the MCFG, was read. -/
  | mcfgRecord (a : UInt32)
  /-- The PCI device header at `a` was read. -/
  | pciHeader (a : UInt32)
  /-- `ahci_driver_init(a)`. -/
  | ahciInit (a : UInt32)
  /-- The HBA register at `a` was read or written. -/
  | hba (a : UInt32)
  /-- `ahci_configure_port(port)`. -/
  | configurePort (port : UInt32)
  deriving DecidableEq

/-- Why a run stopped short. -/
inductive Halt where
  /-- `PANIC`. -/
  | panic
  /-- `abort`. -/
  | abort
  /-- A loop did not end within the iterations it was given. -/
  | running
  deriving DecidableEq

/-- The state of the kernel. -/
structure Kernel where
  mem : Mem
  /-- `KERNEL_START`. -/
  kernelStart : UInt32
  /-- `KERNEL_END`. -/
  kernelEnd : UInt32
  tags : MultibootTagsInfo
  terminal : Terminal
  pfa : Pfa
  /-- `pd`, of `page_table_manager.c`. -/
  pd : UInt32
  /-- The register CR3. -/
  cr3 : UInt32
  /-- The paging bit of the register CR0. -/
  paging : Bool
  /-- `kheap`, of `kheap.c`. -/
  kheap : UInt32
  ahciDriver : AhciDriver
  trace : List Event

/-- The variables as the program is loaded, all zero, and a memory of zeros. -/
def Kernel.loaded : Kernel where
  mem := fun _ => 0
  kernelStart := 0
  kernelEnd := 0
  tags := ⟨0, 0, 0, 0, 0, 0, 0⟩
  terminal := ⟨0, 0, 0, 0⟩
  pfa := ⟨⟨0, 0⟩, 0, 0, 0, false⟩
  pd := 0
  cr3 := 0
  paging := false
  kheap := 0
  ahciDriver := ⟨0, 0, fun _ => 0, 0, 0⟩
  trace := []

/-- A computation of the kernel that may halt. -/
abbrev KernelM := EStateM Halt Kernel

/-- Record an event. -/
def Kernel.emit (e : Event) (s : Kernel) : Kernel := { s with trace := e :: s.trace }

@[simp] theorem Kernel.emit_mem (e : Event) (s : Kernel) : (s.emit e).mem = s.mem := rfl
@[simp] theorem Kernel.emit_pd (e : Event) (s : Kernel) : (s.emit e).pd = s.pd := rfl
@[simp] theorem Kernel.emit_kernelEnd (e : Event) (s : Kernel) : (s.emit e).kernelEnd = s.kernelEnd := rfl
@[simp] theorem Kernel.emit_trace (e : Event) (s : Kernel) : (s.emit e).trace = e :: s.trace := rfl

/-! ### What a run does -/

/-- From `s` to `t` the run did some more, and each of these things satisfies `P`. -/
def Emits (P : Event → Prop) (s t : Kernel) : Prop := ∃ es, t.trace = es ++ s.trace ∧ ∀ e ∈ es, P e

section Emits

variable {P Q : Event → Prop} {s t u : Kernel}

theorem Emits.of_trace (h : t.trace = s.trace) : Emits P s t :=
  ⟨[], h, fun _ he => absurd he List.not_mem_nil⟩

theorem Emits.refl (s : Kernel) : Emits P s s := Emits.of_trace rfl

theorem Emits.trans (h : Emits P s t) (h' : Emits P t u) : Emits P s u := by
  obtain ⟨es, htrace, hes⟩ := h
  obtain ⟨es', htrace', hes'⟩ := h'
  refine ⟨es' ++ es, by rw [htrace', htrace, List.append_assoc], fun e he => ?_⟩
  exact (List.mem_append.mp he).elim (hes' e) (hes e)

theorem Emits.mono (h : Emits P s t) (hPQ : ∀ e, P e → Q e) : Emits Q s t := by
  obtain ⟨es, htrace, hes⟩ := h
  exact ⟨es, htrace, fun e he => hPQ e (hes e he)⟩

theorem emits_emit {e : Event} (he : P e) (s : Kernel) : Emits P s (s.emit e) :=
  ⟨[e], rfl, fun _ h => List.mem_singleton.mp h ▸ he⟩

instance : Std.Refl (Emits P) := ⟨Emits.refl⟩

instance : IsTrans Kernel (Emits P) := ⟨fun _ _ _ => Emits.trans⟩

/-- The run goes on: what was done stays done. -/
abbrev GoesOn : Kernel → Kernel → Prop := Emits fun _ => True

/-- What was done from `s` to `u`, by way of `t`, was done on both ways. -/
theorem Emits.split (h : GoesOn s t) (h' : GoesOn t u) (hall : Emits P s u) : Emits P s t ∧ Emits P t u := by
  obtain ⟨es, htrace, -⟩ := h
  obtain ⟨es', htrace', -⟩ := h'
  obtain ⟨es'', htrace'', hes''⟩ := hall
  have heq : es'' = es' ++ es := by
    have happend : es'' ++ s.trace = (es' ++ es) ++ s.trace := by
      rw [← htrace'', htrace', htrace, List.append_assoc]
    exact List.append_cancel_right happend
  rw [heq] at hes''
  exact ⟨⟨es, htrace, fun e he => hes'' e (List.mem_append_right _ he)⟩,
    ⟨es', htrace', fun e he => hes'' e (List.mem_append_left _ he)⟩⟩

/-- What was done from `s` to `t`, by way of `u`, was done from `u` on, but for the first thing. -/
theorem Emits.of_first {e : Event} (hu : u.trace = e :: s.trace) (h : GoesOn u t) (h' : Emits P s t) :
    P e ∧ Emits P u t := by
  have hfirst : GoesOn s u := ⟨[e], hu, fun _ _ => trivial⟩
  obtain ⟨⟨es, htrace, hes⟩, hrest⟩ := Emits.split hfirst h h'
  refine ⟨hes e ?_, hrest⟩
  rw [hu, ← List.singleton_append] at htrace
  rw [← List.append_cancel_right htrace]
  exact List.mem_singleton_self e

theorem goesOn_emit (e : Event) : Along GoesOn (modify (Kernel.emit e) : KernelM PUnit) :=
  Along.modify (emits_emit trivial)

/-- A change that does nothing of note. -/
theorem emits_modify {f : Kernel → Kernel} (h : ∀ s, (f s).trace = s.trace := by intro; rfl) :
    Along (Emits P) (modify f : KernelM PUnit) :=
  Along.modify fun s => Emits.of_trace (h s)

/-- An event that maps no page, and fills no directory. -/
def Event.Quiet : Event → Prop
  | .mapAddr _ _ | .directory _ => False
  | _ => True

/-- From `s` to `t` nothing changed but the trace, and no page was mapped. -/
def Looks (s t : Kernel) : Prop := t = { s with trace := t.trace } ∧ Emits Event.Quiet s t

theorem looks_emit {e : Event} (he : e.Quiet) (s : Kernel) : Looks s (s.emit e) := ⟨rfl, emits_emit he s⟩

theorem Looks.trans (h : Looks s t) (h' : Looks t u) : Looks s u := ⟨by rw [h'.1, h.1], h.2.trans h'.2⟩

theorem Looks.mem (h : Looks s t) : t.mem = s.mem := by rw [h.1]

instance : Std.Refl Looks := ⟨fun s => ⟨rfl, Emits.refl s⟩⟩

instance : IsTrans Kernel Looks := ⟨fun _ _ _ => Looks.trans⟩

end Emits

end JurasOS
