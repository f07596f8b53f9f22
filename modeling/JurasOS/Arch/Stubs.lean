import JurasOS.Machine.X86

/-!
# `interrupts.S`: the stubs between the processor and the handlers

Every gate of the interrupt table leads to a stub that completes the frame the
processor has pushed to a `registers_t`, calls the handler of its kind with it,
and takes the frame down again. The stubs below are the instructions of the file,
line by line; the jump to the common part is a concatenation.

## What is proved

* `irq_stub`: what `irq_handler` receives for each IRQ, and what it returns to.
* `irq_resumes`: the interrupted code goes on as it was, in the segments of the kernel.
* `isr_stub`: what `fault_handler` receives for each exception.
* `calls_noErrorCodeIsr_of_code`: what it receives when the processor pushes an
  error code that the stub does not expect, as later processors do for an
  alignment check.

The struct's `esp` is the register as `pushal` found it, below the frame of the
processor and the two words of the stub. The kernel has no segment of another
privilege level, so the processor pushes no `ss` and `esp`, and those fields of
the struct are the words that the interrupted code had on its stack.
-/

namespace JurasOS

open Machine

/-- `registers_t`. -/
@[ext] structure Registers where
  /-- Data segment selector. -/
  ds : UInt32
  edi : UInt32
  esi : UInt32
  ebp : UInt32
  esp : UInt32
  ebx : UInt32
  edx : UInt32
  ecx : UInt32
  eax : UInt32
  intNo : UInt32
  errCode : UInt32
  eip : UInt32
  cs : UInt32
  eflags : UInt32
  useresp : UInt32
  ss : UInt32

/-- The struct at `a`. -/
def Registers.load (m : Mem) (a : UInt32) : Registers where
  ds := m.load32 a
  edi := m.load32 (a + 4)
  esi := m.load32 (a + 8)
  ebp := m.load32 (a + 12)
  esp := m.load32 (a + 16)
  ebx := m.load32 (a + 20)
  edx := m.load32 (a + 24)
  ecx := m.load32 (a + 28)
  eax := m.load32 (a + 32)
  intNo := m.load32 (a + 36)
  errCode := m.load32 (a + 40)
  eip := m.load32 (a + 44)
  cs := m.load32 (a + 48)
  eflags := m.load32 (a + 52)
  useresp := m.load32 (a + 56)
  ss := m.load32 (a + 60)

/-- The argument of a handler as it is entered: the struct lies above the return address. -/
def argument (c : Cpu) : Registers := Registers.load c.mem (c.reg .esp + 4)

/-! ### The stubs -/

/-- `isr_common_stub`; `ret` is the address after the call. -/
def isrCommonStub (ret : UInt32) (faultHandler : Cpu → Cpu) : List Instr := [
  .pushal,
  .movFromSeg .ds .eax,
  .push .eax,
  .movImm 0x10 .eax,
  .movToSeg .eax .ds,
  .movToSeg .eax .es,
  .movToSeg .eax .fs,
  .movToSeg .eax .gs,
  .call ret faultHandler,
  .pop .eax,
  .movToSeg .eax .ds,
  .movToSeg .eax .es,
  .movToSeg .eax .fs,
  .movToSeg .eax .gs,
  .popal,
  .addImm 8 .esp,
  .sti,
  .iret]

/-- `no_error_code_isr` -/
def noErrorCodeIsr (intNo ret : UInt32) (faultHandler : Cpu → Cpu) : List Instr :=
  [.cli, .pushImm 0, .pushImm intNo] ++ isrCommonStub ret faultHandler

/-- `error_code_isr` -/
def errorCodeIsr (intNo ret : UInt32) (faultHandler : Cpu → Cpu) : List Instr :=
  [.cli, .pushImm intNo] ++ isrCommonStub ret faultHandler

/-- `irq_common_stub`; `ret` is the address after the call. -/
def irqCommonStub (ret : UInt32) (irqHandler : Cpu → Cpu) : List Instr := [
  .pushal,
  .movFromSeg .ds .eax,
  .push .eax,
  .movImm 0x10 .eax,
  .movToSeg .eax .ds,
  .movToSeg .eax .es,
  .movToSeg .eax .fs,
  .movToSeg .eax .gs,
  .call ret irqHandler,
  .pop .eax,
  .movImm 0x10 .eax,
  .movToSeg .eax .ds,
  .movToSeg .eax .es,
  .movToSeg .eax .fs,
  .movToSeg .eax .gs,
  .popal,
  .addImm 8 .esp,
  .sti,
  .iret]

/-- `asm_irq_handler` -/
def asmIrqHandler (irqNo ret : UInt32) (irqHandler : Cpu → Cpu) : List Instr :=
  [.pushImm 0, .pushImm irqNo] ++ irqCommonStub ret irqHandler

/-- The stub `isr`*v*. -/
def isr (v : Fin 32) (ret : UInt32) (faultHandler : Cpu → Cpu) : List Instr :=
  if v = 8 ∨ (10 ≤ v ∧ v ≤ 14) then errorCodeIsr (UInt32.ofNat v) ret faultHandler
  else noErrorCodeIsr (UInt32.ofNat v) ret faultHandler

/-- The stub `irq`*n*. -/
def irq (n : Fin 16) (ret : UInt32) (irqHandler : Cpu → Cpu) : List Instr :=
  asmIrqHandler (UInt32.ofNat (32 + n)) ret irqHandler

/-! ### Up to the call -/

/-- The instructions of both common stubs before the call. -/
def saveRegisters : List Instr := [
  .pushal,
  .movFromSeg .ds .eax,
  .push .eax,
  .movImm 0x10 .eax,
  .movToSeg .eax .ds,
  .movToSeg .eax .es,
  .movToSeg .eax .fs,
  .movToSeg .eax .gs]

/-- The word that the stubs push for `%ds`: the high half is that of `%eax`. -/
def dsWord (c : Cpu) : UInt32 := c.reg .eax &&& 0xFFFF0000 ||| (c.seg .ds).toUInt32

theorem calls_noErrorCodeIsr (intNo ret : UInt32) (f : Cpu → Cpu) (c : Cpu) :
    calls (noErrorCodeIsr intNo ret f) c =
      [(run ([.cli, .pushImm 0, .pushImm intNo] ++ saveRegisters) c).push ret] := rfl

theorem calls_errorCodeIsr (intNo ret : UInt32) (f : Cpu → Cpu) (c : Cpu) :
    calls (errorCodeIsr intNo ret f) c = [(run ([.cli, .pushImm intNo] ++ saveRegisters) c).push ret] := rfl

theorem calls_asmIrqHandler (irqNo ret : UInt32) (f : Cpu → Cpu) (c : Cpu) :
    calls (asmIrqHandler irqNo ret f) c =
      [(run ([.pushImm 0, .pushImm irqNo] ++ saveRegisters) c).push ret] := rfl

theorem stack_saveRegisters {c : Cpu} {ws : List UInt32} (h : c.Stack ws)
    (hlen : 4 * ws.length + 36 ≤ 2 ^ 32) :
    (run saveRegisters c).Stack (dsWord c :: c.reg .edi :: c.reg .esi :: c.reg .ebp :: c.reg .esp ::
      c.reg .ebx :: c.reg .edx :: c.reg .ecx :: c.reg .eax :: ws) := by
  have heax : (c.pushal.set16 .eax (c.seg .ds)).reg .eax = dsWord c := by
    rw [Cpu.set16, Cpu.set_reg, Function.update_self, Cpu.pushal_reg, Function.update_of_ne (by decide),
      dsWord]
  have hpushed : (c.pushal.set16 .eax (c.seg .ds)).Stack _ :=
    (Cpu.stack_set (by decide)).mpr (h.pushal (by omega))
  have hds := hpushed.push (by simp only [List.length_cons]; omega) (dsWord c)
  rw [← heax] at hds ⊢
  -- the moves after the last push touch `%eax` and the segment registers only
  simp only [saveRegisters, run_cons, run_nil, Cpu.stack_movToSeg, Cpu.stack_movImm (r := .eax) (by decide)]
  exact hds

theorem esp_saveRegisters (c : Cpu) : (run saveRegisters c).reg .esp = c.reg .esp - 36 := by
  simp [saveRegisters, Instr.exec, Cpu.set16, Cpu.pushal_reg, sub_sub_word]

/-- The struct whose words lie at `a`. -/
theorem Registers.load_of_words {m : Mem} {a : UInt32} {s : Registers} {ws : List UInt32}
    (h : m.Words a (s.ds :: s.edi :: s.esi :: s.ebp :: s.esp :: s.ebx :: s.edx :: s.ecx :: s.eax ::
      s.intNo :: s.errCode :: s.eip :: s.cs :: s.eflags :: s.useresp :: s.ss :: ws)) :
    Registers.load m a = s := by
  obtain ⟨h0, h1, h2, h3, h4, h5, h6, h7, h8, h9, h10, h11, h12, h13, h14, h15, -⟩ := h
  simp only [UInt32.add_assoc, UInt32.reduceAdd] at h1 h2 h3 h4 h5 h6 h7 h8 h9 h10 h11 h12 h13 h14 h15
  simp only [Registers.load, h0, h1, h2, h3, h4, h5, h6, h7, h8, h9, h10, h11, h12, h13, h14, h15]

/-- The struct that lies above the return address. -/
theorem argument_push {c : Cpu} {s : Registers} {ws : List UInt32}
    (h : c.Stack (s.ds :: s.edi :: s.esi :: s.ebp :: s.esp :: s.ebx :: s.edx :: s.ecx :: s.eax ::
      s.intNo :: s.errCode :: s.eip :: s.cs :: s.eflags :: s.useresp :: s.ss :: ws))
    (hlen : 4 * (16 + ws.length) + 4 ≤ 2 ^ 32) (ret : UInt32) : argument (c.push ret) = s := by
  have hpush := h.push (by simp only [List.length_cons]; omega) ret
  exact Registers.load_of_words hpush.2

/-- The struct that the handlers receive, from the interrupted state and the two words of the stub. -/
def frame (c : Cpu) (intNo errCode : UInt32) : Registers where
  ds := dsWord c
  edi := c.reg .edi
  esi := c.reg .esi
  ebp := c.reg .ebp
  -- `pushal` runs below three words of the processor and two of the stub
  esp := c.reg .esp - 20
  ebx := c.reg .ebx
  edx := c.reg .edx
  ecx := c.reg .ecx
  eax := c.reg .eax
  intNo := intNo
  errCode := errCode
  eip := c.eip
  cs := c.cs.toUInt32
  eflags := c.eflags
  useresp := c.top
  ss := c.mem.load32 (c.reg .esp + 4)

/-- The words of the struct from `int_no` on. -/
def frameWords (c : Cpu) (intNo errCode : UInt32) : List UInt32 :=
  [intNo, errCode, c.eip, c.cs.toUInt32, c.eflags, c.top, c.mem.load32 (c.reg .esp + 4)]

/-- The state `c'` in which a stub goes to its common part, where `c` was interrupted: all that has
changed is the stack. -/
structure Framed (c c' : Cpu) (sp : UInt32) (ws : List UInt32) : Prop where
  reg : c'.reg = Function.update c.reg .esp sp
  seg : c'.seg = c.seg
  stack : c'.Stack ws

section Framed

variable {c c' : Cpu} {sp intNo errCode : UInt32} {ws : List UInt32}

theorem Framed.saved (h : Framed c c' sp ws) (hlen : 4 * ws.length + 36 ≤ 2 ^ 32) :
    (run saveRegisters c').Stack (dsWord c :: c.reg .edi :: c.reg .esi :: c.reg .ebp :: sp :: c.reg .ebx ::
      c.reg .edx :: c.reg .ecx :: c.reg .eax :: ws) := by
  have hds : dsWord c' = dsWord c := by
    rw [dsWord, dsWord, h.reg, h.seg, Function.update_of_ne (by decide)]
  have hsaved := stack_saveRegisters h.stack hlen
  rw [hds, h.reg] at hsaved
  exact hsaved

theorem Framed.esp (h : Framed c c' (c.reg .esp - 20) ws) :
    (run saveRegisters c').reg .esp = c.reg .esp - 56 := by
  rw [esp_saveRegisters, h.reg, Function.update_self, sub_sub_word]
  rfl

/-- The handler receives the whole struct. -/
theorem Framed.argument (h : Framed c c' (c.reg .esp - 20) (frameWords c intNo errCode)) (ret : UInt32) :
    argument ((run saveRegisters c').push ret) = frame c intNo errCode :=
  argument_push (s := frame c intNo errCode) (h.saved (by simp [frameWords])) (by simp) ret

end Framed

/-! ### After the call -/

/-- What the stubs need of a handler entered in the state `c`: it comes back to the return address,
and its argument is as it was. -/
structure Returns (f : Cpu → Cpu) (c : Cpu) : Prop where
  esp : (f c).reg .esp = c.reg .esp + 4
  argument : Set.EqOn (f c).mem c.mem (span (c.reg .esp + 4) 64)

theorem Returns.esp_push {f : Cpu → Cpu} {c : Cpu} {ret : UInt32} (h : Returns f (c.push ret)) :
    (f (c.push ret)).reg .esp = c.reg .esp := by
  rw [h.esp, Cpu.push_reg, Function.update_self, UInt32.sub_add_cancel]

theorem Returns.stack {f : Cpu → Cpu} {c : Cpu} {ret : UInt32} {ws : List UInt32} (h : Returns f (c.push ret))
    (hs : c.Stack ws) (hlen : ws.length = 16) : (f (c.push ret)).Stack ws := by
  have hpush := hs.push (by omega) ret
  have hargument : (f (c.push ret)).mem.Words ((c.push ret).reg .esp + 4) ws := by
    refine hpush.2.congr (by omega) ?_
    rw [hlen]
    exact h.argument
  rwa [← h.esp] at hargument

/-- The instructions of `irq_common_stub` from the call to `iret`. -/
def irqReturn : List Instr := [
  .pop .eax,
  .movImm 0x10 .eax,
  .movToSeg .eax .ds,
  .movToSeg .eax .es,
  .movToSeg .eax .fs,
  .movToSeg .eax .gs,
  .popal,
  .addImm 8 .esp,
  .sti]

theorem run_asmIrqHandler (irqNo ret : UInt32) (f : Cpu → Cpu) (c : Cpu) :
    run (asmIrqHandler irqNo ret f).dropLast c =
      run irqReturn (f ((run ([.pushImm 0, .pushImm irqNo] ++ saveRegisters) c).push ret)) := rfl

/-- The frame is taken down, and the registers `g` that were saved in it are loaded. -/
theorem run_irqReturn {c : Cpu} {g : Reg → UInt32} {w sp n e : UInt32} {ws : List UInt32}
    (h : c.Stack (w :: g .edi :: g .esi :: g .ebp :: sp :: g .ebx :: g .edx :: g .ecx :: g .eax :: n :: e ::
      ws)) :
    (run irqReturn c).Stack ws ∧ (run irqReturn c).reg = Function.update g .esp (c.reg .esp + 44) := by
  obtain ⟨d, hd⟩ : ∃ d, d = run [.pop .eax, .movImm 0x10 .eax, .movToSeg .eax .ds, .movToSeg .eax .es,
    .movToSeg .eax .fs, .movToSeg .eax .gs] c := ⟨_, rfl⟩
  have hrun : run irqReturn c = Instr.sti.exec (d.popal.drop 8) := by
    rw [hd]
    rfl
  have hstack : d.Stack (g .edi :: g .esi :: g .ebp :: sp :: g .ebx :: g .edx :: g .ecx :: g .eax :: n :: e ::
      ws) := by
    rw [hd]
    simp only [run_cons, run_nil, Cpu.stack_movToSeg, Cpu.stack_movImm (r := .eax) (by decide)]
    exact h.pop (by decide)
  have hesp : d.reg .esp = c.reg .esp + 4 := by
    rw [hd]
    simp only [run_cons, run_nil, Cpu.esp_movToSeg, Cpu.esp_movImm (r := .eax) (by decide)]
    rw [Instr.exec, h.pop_reg, Function.update_of_ne (by decide), Function.update_self]
  obtain ⟨hpopped, hreg⟩ := hstack.popal
  rw [hrun, Cpu.stack_sti]
  refine ⟨hpopped.drop_two, ?_⟩
  show (d.popal.drop 8).reg = _
  rw [Cpu.drop, Cpu.set_reg, hreg, Function.update_self, Function.update_idem, hesp, UInt32.add_assoc,
    UInt32.add_assoc]
  rfl

/-- An IRQ stub leaves every data segment register with the selector of the kernel. -/
theorem seg_irqReturn (c : Cpu) (s : Seg) : (run irqReturn c).seg s = 0x10 := by
  have hseg : (run irqReturn c).seg s = (((c.pop .eax).set16 .eax 0x10).reg .eax).toUInt16 := by
    cases s <;> rfl
  rw [hseg, Cpu.set16, Cpu.set_reg, Function.update_self, Cpu.toUInt16_low]

/-- A state of the kernel, to run the stubs in. -/
def inKernel : Cpu where
  reg := fun _ => 0x9000
  seg := fun _ => 0x10
  cs := 0x08
  eip := 0x100000
  eflags := 0x202
  mem := fun _ => 0

/-- A handler that writes the registers that a C function need not keep, and returns. -/
def clobber (c : Cpu) : Cpu := ((c.drop 4).set .eax 0).set .ecx 0 |>.set .edx 0

theorem returns_clobber (c : Cpu) : Returns clobber c where
  esp := by simp [clobber, Cpu.drop]
  argument := fun _ _ => rfl

/-! ### The IRQs -/

section Irq

variable (n : Fin 16) (c : Cpu) (cs : UInt16) (eip ret : UInt32) (irqHandler : Cpu → Cpu)

theorem framed_irq (irqNo : UInt32) :
    Framed c (run [.pushImm 0, .pushImm irqNo] (c.interrupt cs eip none)) (c.reg .esp - 20)
      (frameWords c irqNo 0) := by
  have hwords : c.Stack [c.top, c.mem.load32 (c.reg .esp + 4)] := ⟨rfl, rfl, trivial⟩
  have hentry := hwords.interrupt (by simp) cs eip none
  constructor
  · simp [Instr.exec, Cpu.interrupt_reg, sub_sub_word]
  · rfl
  · exact (hentry.push (by simp) 0).push (by simp) irqNo

theorem calls_irq : (calls (irq n ret irqHandler) (c.interrupt cs eip none)).map argument =
    [frame c (UInt32.ofNat (32 + n)) 0] := by
  have hframed := framed_irq c cs eip (UInt32.ofNat (32 + n))
  rw [irq, calls_asmIrqHandler, List.map_singleton, run_append, hframed.argument]

/-- What an IRQ stub leaves for `iret`. -/
theorem irq_atIret (h : ∀ d ∈ calls (irq n ret irqHandler) (c.interrupt cs eip none), Returns irqHandler d) :
    let t := run (irq n ret irqHandler).dropLast (c.interrupt cs eip none)
    t.reg = Function.update c.reg .esp (c.reg .esp - 12) ∧
      t.Stack [c.eip, c.cs.toUInt32, c.eflags, c.top, c.mem.load32 (c.reg .esp + 4)] ∧
      ∀ s, t.seg s = 0x10 := by
  have hframed := framed_irq c cs eip (UInt32.ofNat (32 + n))
  rw [irq, calls_asmIrqHandler, List.forall_mem_singleton, run_append] at h
  obtain ⟨ht, hreg⟩ := run_irqReturn (h.stack (hframed.saved (by simp [frameWords])) rfl)
  have hadd : c.reg .esp - 56 + 44 = c.reg .esp - 12 := sub_add_word _ 12 44
  rw [irq, run_asmIrqHandler, run_append]
  refine ⟨?_, ht, seg_irqReturn _⟩
  rw [hreg, h.esp_push, hframed.esp, hadd]

/-- **An IRQ**: `irq_handler` receives the interrupted state in its struct, and where it returns with
its argument and the stack as they were, `iret` finds the interrupted registers and the address to
return to. -/
theorem irq_stub :
    (calls (irq n ret irqHandler) (c.interrupt cs eip none)).map argument =
      [frame c (UInt32.ofNat (32 + n)) 0] ∧
    ((∀ d ∈ calls (irq n ret irqHandler) (c.interrupt cs eip none), Returns irqHandler d) →
      let t := run (irq n ret irqHandler).dropLast (c.interrupt cs eip none)
      (∀ r ≠ .esp, t.reg r = c.reg r) ∧ t.reg .esp = c.reg .esp - 12 ∧ t.top = c.eip) := by
  refine ⟨calls_irq n c cs eip ret irqHandler, fun h => ?_⟩
  obtain ⟨hreg, hstack, -⟩ := irq_atIret n c cs eip ret irqHandler h
  refine ⟨fun r hr => ?_, ?_, hstack.top⟩
  · rw [hreg, Function.update_of_ne hr]
  · rw [hreg, Function.update_self]

/-- The timer interrupts the kernel. -/
theorem irq_stub_timer :
    let t := run (irq 0 0x100400 clobber).dropLast (inKernel.interrupt 0x08 0x100200 none)
    (∀ r ≠ .esp, t.reg r = inKernel.reg r) ∧ t.reg .esp = inKernel.reg .esp - 12 ∧ t.top = inKernel.eip :=
  (irq_stub 0 inKernel 0x08 0x100200 0x100400 clobber).2 fun d _ => returns_clobber d

/-- The `esp` of the struct is neither that of the interrupted code nor that on entry to the stub, and
at `iret` the register is not that of the interrupted code. -/
theorem irq_esp_differs :
    (∃ s, (calls (irq 0 0x100400 clobber) (inKernel.interrupt 0x08 0x100200 none)).map argument = [s] ∧
      s.esp ≠ inKernel.reg .esp ∧ s.esp ≠ (inKernel.interrupt 0x08 0x100200 none).reg .esp) ∧
    (run (irq 0 0x100400 clobber).dropLast (inKernel.interrupt 0x08 0x100200 none)).reg .esp ≠
      inKernel.reg .esp := by
  refine ⟨⟨frame inKernel 32 0, calls_irq 0 inKernel 0x08 0x100200 0x100400 clobber, by decide, by decide⟩,
    ?_⟩
  obtain ⟨hreg, -, -⟩ := irq_atIret 0 inKernel 0x08 0x100200 0x100400 clobber fun d _ => returns_clobber d
  rw [hreg, Function.update_self]
  decide

/-- The interrupted code goes on with its registers and flags, in the segments of the kernel. -/
theorem irq_resumes
    (h : ∀ d ∈ calls (irq n ret irqHandler) (c.interrupt cs eip none), Returns irqHandler d) :
    let t := run (irq n ret irqHandler) (c.interrupt cs eip none)
    t.reg = c.reg ∧ t.eip = c.eip ∧ t.cs = c.cs ∧ t.eflags = c.eflags ∧ ∀ s, t.seg s = 0x10 := by
  obtain ⟨hreg, ⟨heip, hcs, hflags, -⟩, hseg⟩ := irq_atIret n c cs eip ret irqHandler h
  have hrun : run (irq n ret irqHandler) (c.interrupt cs eip none) =
      (run (irq n ret irqHandler).dropLast (c.interrupt cs eip none)).iret := rfl
  rw [UInt32.add_assoc] at hflags
  rw [hrun]
  refine ⟨?_, heip, ?_, hflags, hseg⟩
  · rw [Cpu.iret_reg, hreg, Function.update_self, Function.update_idem, UInt32.sub_add_cancel,
      Function.update_eq_self]
  · rw [Cpu.iret_cs, hcs, UInt16.toUInt16_toUInt32]

/-- The kernel goes on after an interrupt of the timer. -/
theorem irq_resumes_timer :
    let t := run (irq 0 0x100400 clobber) (inKernel.interrupt 0x08 0x100200 none)
    t.reg = inKernel.reg ∧ t.eip = inKernel.eip ∧ t.cs = inKernel.cs ∧ t.eflags = inKernel.eflags ∧
      ∀ s, t.seg s = 0x10 :=
  irq_resumes 0 inKernel 0x08 0x100200 0x100400 clobber fun d _ => returns_clobber d

end Irq

/-! ### The exceptions -/

section Isr

variable (v : Fin 32) (c : Cpu) (cs : UInt16) (eip ret code : UInt32) (faultHandler : Cpu → Cpu)

theorem framed_noErrorCodeIsr (intNo : UInt32) :
    Framed c (run [.cli, .pushImm 0, .pushImm intNo] (c.interrupt cs eip none)) (c.reg .esp - 20)
      (frameWords c intNo 0) := by
  obtain ⟨hreg, hseg, hstack⟩ := framed_irq c cs eip intNo
  exact ⟨hreg, hseg, hstack⟩

theorem framed_errorCodeIsr (intNo : UInt32) :
    Framed c (run [.cli, .pushImm intNo] (c.interrupt cs eip (some code))) (c.reg .esp - 20)
      (frameWords c intNo code) := by
  have hwords : c.Stack [c.top, c.mem.load32 (c.reg .esp + 4)] := ⟨rfl, rfl, trivial⟩
  have hentry := hwords.interrupt (by simp) cs eip (some code)
  constructor
  · simp [Instr.exec, Cpu.interrupt_reg, sub_sub_word]
  · rfl
  · exact hentry.push (by simp) intNo

/-- The exceptions for which the 80386 pushes an error code. -/
def errorCodeExceptions : List ℕ := [8, 10, 11, 12, 13, 14]

/-- The entry of an exception on a processor that pushes an error code for the exceptions `pushes`. -/
def exception (pushes : Fin 32 → Bool) (v : Fin 32) (code : UInt32) (c : Cpu) (cs : UInt16) (eip : UInt32) :
    Cpu :=
  c.interrupt cs eip (if pushes v then some code else none)

theorem isr_eq (v : Fin 32) : isr v ret faultHandler =
    if v.val ∈ errorCodeExceptions then errorCodeIsr (UInt32.ofNat v) ret faultHandler
    else noErrorCodeIsr (UInt32.ofNat v) ret faultHandler := by
  have hlist : v = 8 ∨ (10 ≤ v ∧ v ≤ 14) ↔ v.val ∈ errorCodeExceptions := by
    revert v
    decide
  simp only [isr, hlist]

theorem calls_isr_of_mem (h : v.val ∈ errorCodeExceptions) :
    (calls (isr v ret faultHandler) (c.interrupt cs eip (some code))).map argument =
      [frame c (UInt32.ofNat v) code] := by
  have hframed := framed_errorCodeIsr c cs eip code (UInt32.ofNat v)
  rw [isr_eq, if_pos h, calls_errorCodeIsr, List.map_singleton, run_append, hframed.argument]

theorem calls_isr_of_notMem (h : v.val ∉ errorCodeExceptions) :
    (calls (isr v ret faultHandler) (c.interrupt cs eip none)).map argument =
      [frame c (UInt32.ofNat v) 0] := by
  have hframed := framed_noErrorCodeIsr c cs eip (UInt32.ofNat v)
  rw [isr_eq, if_neg h, calls_noErrorCodeIsr, List.map_singleton, run_append, hframed.argument]

/-- **An exception**: `fault_handler` receives the interrupted state in its struct, with the error
code that the processor pushed, or 0. -/
theorem isr_stub (pushes : Fin 32 → Bool) (h : pushes v = decide (v.val ∈ errorCodeExceptions)) :
    (calls (isr v ret faultHandler) (exception pushes v code c cs eip)).map argument =
      [frame c (UInt32.ofNat v) (if pushes v then code else 0)] := by
  rw [exception, h]
  by_cases hv : v.val ∈ errorCodeExceptions
  · simp only [hv, decide_true, if_true]
    exact calls_isr_of_mem v c cs eip ret code faultHandler hv
  · simp only [hv, decide_false, if_false, Bool.false_eq_true]
    exact calls_isr_of_notMem v c cs eip ret faultHandler hv

/-- A page fault of the kernel on the 80386. -/
theorem isr_stub_pageFault :
    (calls (isr 14 0x100400 clobber)
      (exception (fun v => decide (v.val ∈ errorCodeExceptions)) 14 2 inKernel 0x08 0x100200)).map argument =
      [frame inKernel 14 2] :=
  (isr_stub 14 inKernel 0x08 0x100200 0x100400 2 clobber
    (fun v => decide (v.val ∈ errorCodeExceptions)) rfl).trans
    (congrArg (fun s => [s]) (congrArg₂ (frame inKernel) (by decide) (by decide)))

/-- The `esp` of the struct is neither that of the faulting code nor that on entry to the stub. -/
theorem isr_esp_differs :
    ∃ s, (calls (isr 0 0x100400 clobber)
      (exception (fun v => decide (v.val ∈ errorCodeExceptions)) 0 0 inKernel 0x08 0x100200)).map argument =
      [s] ∧ s.esp ≠ inKernel.reg .esp ∧ s.esp ≠ (inKernel.interrupt 0x08 0x100200 none).reg .esp :=
  ⟨frame inKernel (UInt32.ofNat (0 : Fin 32)) 0,
    calls_isr_of_notMem 0 inKernel 0x08 0x100200 0x100400 clobber (by decide), by decide, by decide⟩

/-- Where the processor pushes an error code and the stub one of its own, the words of the processor
are read one field too late. -/
theorem calls_noErrorCodeIsr_of_code (intNo : UInt32) :
    (calls (noErrorCodeIsr intNo ret faultHandler) (c.interrupt cs eip (some code))).map argument =
      [{ frame c intNo 0 with
        esp := c.reg .esp - 24
        eip := code
        cs := c.eip
        eflags := c.cs.toUInt32
        useresp := c.eflags
        ss := c.top }] := by
  have hwords : c.Stack [c.top] := ⟨rfl, trivial⟩
  have hentry := hwords.interrupt (by simp) cs eip (some code)
  have hframed : Framed c (run [.cli, .pushImm 0, .pushImm intNo] (c.interrupt cs eip (some code)))
      (c.reg .esp - 24) [intNo, 0, code, c.eip, c.cs.toUInt32, c.eflags, c.top] := by
    constructor
    · simp [Instr.exec, Cpu.interrupt_reg, sub_sub_word]
    · rfl
    · exact (hentry.push (by simp) 0).push (by simp) intNo
  rw [calls_noErrorCodeIsr, List.map_singleton, run_append]
  exact congrArg (fun s => [s]) (argument_push (s := { frame c intNo 0 with
    esp := c.reg .esp - 24
    eip := code
    cs := c.eip
    eflags := c.cs.toUInt32
    useresp := c.eflags
    ss := c.top }) (hframed.saved (by simp)) (by simp) ret)

end Isr

end JurasOS
