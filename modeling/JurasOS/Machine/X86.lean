import JurasOS.Machine.Memory

/-!
# Instructions of the i386

The registers, the memory and a few of the instructions of a 32-bit processor
that runs in one privilege level, with flat segments. A program here is a list of
instructions in a straight line; what it calls is a function on the state, which
is entered with the return address on the stack and comes back without it.

The stack is in the memory. `Cpu.Stack` says what the words from the top down
are, and each instruction that moves the stack has one lemma that says what it
does to them.

Of the flags only those that `cli`, `sti` and an interrupt change are followed;
nothing here reads the others.
-/

namespace JurasOS.Machine

/-- The general registers, in the order of their encoding. -/
inductive Reg where
  | eax | ecx | edx | ebx | esp | ebp | esi | edi
  deriving DecidableEq

/-- The data segment registers. -/
inductive Seg where
  | ds | es | fs | gs
  deriving DecidableEq

/-- The state of the processor. -/
structure Cpu where
  reg : Reg → UInt32
  seg : Seg → UInt16
  cs : UInt16
  eip : UInt32
  eflags : UInt32
  mem : Mem

namespace Cpu

/-- Write a register. -/
def set (c : Cpu) (r : Reg) (v : UInt32) : Cpu := { c with reg := Function.update c.reg r v }

/-- Push a word. -/
def push (c : Cpu) (v : UInt32) : Cpu :=
  let a := c.reg .esp - 4
  { c.set .esp a with mem := c.mem.store32 a v }

/-- The word at the top of the stack. -/
def top (c : Cpu) : UInt32 := c.mem.load32 (c.reg .esp)

/-- Let go of `n` bytes of the stack. -/
def drop (c : Cpu) (n : UInt32) : Cpu := c.set .esp (c.reg .esp + n)

/-- Pop a word into a register. -/
def pop (c : Cpu) (r : Reg) : Cpu := (c.drop 4).set r c.top

/-- `pushal`. -/
def pushal (c : Cpu) : Cpu :=
  c.push (c.reg .eax) |>.push (c.reg .ecx) |>.push (c.reg .edx) |>.push (c.reg .ebx)
    |>.push (c.reg .esp) |>.push (c.reg .ebp) |>.push (c.reg .esi) |>.push (c.reg .edi)

/-- `popal`: the word of `%esp` is skipped. -/
def popal (c : Cpu) : Cpu :=
  c.pop .edi |>.pop .esi |>.pop .ebp |>.drop 4 |>.pop .ebx |>.pop .edx |>.pop .ecx |>.pop .eax

/-- Write the low half of a register. -/
def set16 (c : Cpu) (r : Reg) (v : UInt16) : Cpu := c.set r (c.reg r &&& 0xFFFF0000 ||| v.toUInt32)

/-- The flag that lets interrupts in. -/
def interruptFlag : UInt32 := 0x200

/-- The processor enters an interrupt gate at `cs:eip`, in the privilege level it is in; `code` is
the error code of an exception that has one. The trap, interrupt and nested task flags are cleared. -/
def interrupt (c : Cpu) (cs : UInt16) (eip : UInt32) (code : Option UInt32) : Cpu :=
  let c' := c.push c.eflags |>.push c.cs.toUInt32 |>.push c.eip
  let c' := match code with
    | some e => c'.push e
    | none => c'
  { c' with cs := cs, eip := eip, eflags := c.eflags &&& 0xFFFFBCFF }

/-- `iret`, to the privilege level the processor is in. -/
def iret (c : Cpu) : Cpu :=
  { c.drop 12 with
    eip := c.top
    cs := (c.mem.load32 (c.reg .esp + 4)).toUInt16
    eflags := c.mem.load32 (c.reg .esp + 8) }

end Cpu

/-- An instruction. -/
inductive Instr where
  | cli
  | sti
  /-- `pushl $v` -/
  | pushImm (v : UInt32)
  /-- `pushl %r` -/
  | push (r : Reg)
  /-- `popl %r` -/
  | pop (r : Reg)
  | pushal
  | popal
  /-- `movw %s,%r` -/
  | movFromSeg (s : Seg) (r : Reg)
  /-- `movw %r,%s` -/
  | movToSeg (r : Reg) (s : Seg)
  /-- `movw $v,%r` -/
  | movImm (v : UInt16) (r : Reg)
  /-- `addl $v,%r` -/
  | addImm (v : UInt32) (r : Reg)
  /-- `call`; `ret` is the address after it. -/
  | call (ret : UInt32) (f : Cpu → Cpu)
  | iret

/-- One instruction. -/
def Instr.exec : Instr → Cpu → Cpu
  | .cli, c => { c with eflags := c.eflags &&& ~~~Cpu.interruptFlag }
  | .sti, c => { c with eflags := c.eflags ||| Cpu.interruptFlag }
  | .pushImm v, c => c.push v
  | .push r, c => c.push (c.reg r)
  | .pop r, c => c.pop r
  | .pushal, c => c.pushal
  | .popal, c => c.popal
  | .movFromSeg s r, c => c.set16 r (c.seg s)
  | .movToSeg r s, c => { c with seg := Function.update c.seg s (c.reg r).toUInt16 }
  | .movImm v r, c => c.set16 r v
  | .addImm v r, c => c.set r (c.reg r + v)
  | .call ret f, c => f (c.push ret)
  | .iret, c => c.iret

/-- The instructions one after the other. -/
def run : List Instr → Cpu → Cpu
  | [], c => c
  | i :: is, c => run is (i.exec c)

/-- The states in which a program enters what it calls. -/
def calls : List Instr → Cpu → List Cpu
  | [], _ => []
  | .call ret f :: is, c => c.push ret :: calls is (f (c.push ret))
  | i :: is, c => calls is (i.exec c)

@[simp] theorem run_nil (c : Cpu) : run [] c = c := rfl
@[simp] theorem run_cons (i : Instr) (is : List Instr) (c : Cpu) : run (i :: is) c = run is (i.exec c) := rfl

theorem run_append (is js : List Instr) (c : Cpu) : run (is ++ js) c = run js (run is c) := by
  induction is generalizing c with
  | nil => rfl
  | cons i is ih => exact ih (i.exec c)

/-! ### The words of the stack -/

theorem sub_sub_word (a b c : UInt32) : a - b - c = a - (b + c) := by
  simp only [UInt32.sub_eq_add_neg, UInt32.neg_add, UInt32.add_assoc]

theorem sub_add_word (a b c : UInt32) : a - (b + c) + c = a - b := by
  rw [← sub_sub_word, UInt32.sub_add_cancel]

/-- The words from `a` on begin with `ws`. -/
def Mem.Words (m : Mem) : UInt32 → List UInt32 → Prop
  | _, [] => True
  | a, w :: ws => m.load32 a = w ∧ m.Words (a + 4) ws

theorem Mem.Words.congr {m m' : Mem} {ws : List UInt32} {a : UInt32} (h : m.Words a ws)
    (hlen : 4 * ws.length ≤ 2 ^ 32) (heq : Set.EqOn m' m (span a (4 * ws.length))) : m'.Words a ws := by
  induction ws generalizing a with
  | nil => trivial
  | cons w ws ih =>
    obtain ⟨hw, hws⟩ := h
    rw [List.length_cons] at hlen heq
    refine ⟨?_, ih hws (by omega) (heq.mono (span_offset_subset ?_))⟩
    · rw [Mem.load32_congr (heq.mono (span_mono (by omega))), hw]
    · show 4 + 4 * ws.length ≤ _
      omega

theorem Mem.Words.append {m : Mem} {ws vs : List UInt32} {a : UInt32} :
    m.Words a (ws ++ vs) ↔ m.Words a ws ∧ m.Words (a + 4 * UInt32.ofNat ws.length) vs := by
  induction ws generalizing a with
  | nil => simp [Mem.Words]
  | cons w ws ih =>
    have hnext : a + 4 * UInt32.ofNat (ws.length + 1) = a + 4 + 4 * UInt32.ofNat ws.length := by
      rw [Nat.add_comm, UInt32.ofNat_add, UInt32.mul_add, ← UInt32.add_assoc]
      rfl
    rw [List.cons_append, Mem.Words, Mem.Words, ih, List.length_cons, hnext, and_assoc]

/-- Words stored from `a` on. -/
def Mem.storeWords (m : Mem) (a : UInt32) : List UInt32 → Mem
  | [] => m
  | w :: ws => (m.storeWords (a + 4) ws).store32 a w

theorem Mem.eqOn_storeWords (m : Mem) (a : UInt32) (ws : List UInt32) :
    Set.EqOn (m.storeWords a ws) m (span a (4 * ws.length))ᶜ := by
  induction ws generalizing a with
  | nil => exact fun _ _ => rfl
  | cons w ws ih =>
    have hfirst := Mem.eqOn_store32 (m.storeWords (a + 4) ws) a w
    rw [List.length_cons]
    refine (hfirst.mono (Set.compl_subset_compl.mpr (span_mono (by omega)))).trans
      ((ih (a + 4)).mono (Set.compl_subset_compl.mpr (span_offset_subset ?_)))
    show 4 + 4 * ws.length ≤ _
    omega

namespace Cpu

variable {c : Cpu} {v : UInt32} {ws : List UInt32}

@[simp] theorem set_reg (c : Cpu) (r : Reg) (v : UInt32) : (c.set r v).reg = Function.update c.reg r v := rfl
@[simp] theorem set_mem (c : Cpu) (r : Reg) (v : UInt32) : (c.set r v).mem = c.mem := rfl
@[simp] theorem push_reg (c : Cpu) (v : UInt32) :
    (c.push v).reg = Function.update c.reg .esp (c.reg .esp - 4) := rfl

@[simp] theorem iret_reg (c : Cpu) :
    c.iret.reg = Function.update c.reg .esp (c.reg .esp + 12) := rfl
@[simp] theorem iret_cs (c : Cpu) : c.iret.cs = (c.mem.load32 (c.reg .esp + 4)).toUInt16 := rfl

/-- The words of the stack, from the top down, begin with `ws`. -/
def Stack (c : Cpu) (ws : List UInt32) : Prop := c.mem.Words (c.reg .esp) ws

/-- The bytes of a stack and the word pushed on it are apart, as long as the stack does not fill the
address space. -/
theorem disjoint_pushed (a : UInt32) {n : ℕ} (h : n + 4 ≤ 2 ^ 32) : Disjoint (span (a - 4) 4) (span a n) := by
  rw [Set.disjoint_left]
  intro b hb hb'
  have ha := a.toNat_lt
  have hlt := b.toNat_lt
  rw [mem_span, UInt32.toNat_sub, UInt32.toNat_sub, show (4 : UInt32).toNat = 4 from rfl] at hb
  rw [mem_span, UInt32.toNat_sub] at hb'
  omega

theorem words_storeWords (m : Mem) (a : UInt32) {ws : List UInt32} (hlen : 4 * ws.length ≤ 2 ^ 32) :
    (m.storeWords a ws).Words a ws := by
  induction ws generalizing a with
  | nil => trivial
  | cons w ws ih =>
    rw [List.length_cons] at hlen
    refine ⟨Mem.load32_store32 .., (ih (a + 4) (by omega)).congr (by omega) fun b hb => ?_⟩
    refine Mem.eqOn_store32 _ a w fun hb' => ?_
    have hdisjoint := disjoint_pushed (a + 4) (n := 4 * ws.length) (by omega)
    rw [UInt32.add_sub_cancel] at hdisjoint
    exact Set.disjoint_left.mp hdisjoint hb' hb

theorem Stack.push (h : c.Stack ws) (hlen : 4 * ws.length + 4 ≤ 2 ^ 32) (v : UInt32) :
    (c.push v).Stack (v :: ws) := by
  rw [Stack, push_reg, Function.update_self]
  refine ⟨Mem.load32_store32 .., ?_⟩
  rw [UInt32.sub_add_cancel]
  refine Mem.Words.congr h (by omega) fun b hb => c.mem.eqOn_store32 _ _ fun hb' => ?_
  exact Set.disjoint_left.mp (disjoint_pushed _ hlen) hb' hb

/-- Words pushed one after the other. -/
theorem Stack.pushes (h : c.Stack ws) (vs : List UInt32) (hlen : 4 * (vs.length + ws.length) ≤ 2 ^ 32) :
    (vs.foldl Cpu.push c).Stack (vs.reverseAux ws) := by
  induction vs generalizing c ws with
  | nil => exact h
  | cons v vs ih =>
    rw [List.length_cons] at hlen
    have hpush := h.push (by omega) v
    exact ih hpush (by rw [List.length_cons]; omega)

theorem pushes_reg (c : Cpu) (vs : List UInt32) :
    (vs.foldl Cpu.push c).reg = Function.update c.reg .esp (c.reg .esp - UInt32.ofNat (4 * vs.length)) := by
  induction vs generalizing c with
  | nil =>
    have hzero : c.reg .esp - UInt32.ofNat (4 * 0) = c.reg .esp := UInt32.sub_zero _
    rw [List.length_nil, hzero, Function.update_eq_self]
    rfl
  | cons v vs ih =>
    have hlen : (4 : UInt32) + UInt32.ofNat (4 * vs.length) = UInt32.ofNat (4 * (vs.length + 1)) := by
      rw [Nat.mul_succ, UInt32.ofNat_add, UInt32.add_comm]
      rfl
    rw [List.foldl_cons, ih, push_reg, Function.update_self, Function.update_idem, sub_sub_word, hlen]
    rfl

theorem Stack.top (h : c.Stack (v :: ws)) : c.top = v := h.1

theorem Stack.drop (h : c.Stack (v :: ws)) : (c.drop 4).Stack ws := by
  rw [Stack, Cpu.drop, set_reg, Function.update_self]
  exact h.2

/-- Two words let go. -/
theorem Stack.drop_two {w : UInt32} (h : c.Stack (v :: w :: ws)) : (c.drop 8).Stack ws := by
  obtain ⟨-, -, hws⟩ := h
  rw [UInt32.add_assoc] at hws
  rw [Stack, Cpu.drop, set_reg, Function.update_self]
  exact hws

theorem stack_set {r : Reg} (hr : r ≠ .esp) : (c.set r v).Stack ws ↔ c.Stack ws := by
  rw [Stack, Stack, set_reg, set_mem, Function.update_of_ne (Ne.symm hr)]

theorem Stack.pop (h : c.Stack (v :: ws)) {r : Reg} (hr : r ≠ .esp) : (c.pop r).Stack ws :=
  (stack_set hr).mpr h.drop

theorem Stack.pop_reg (h : c.Stack (v :: ws)) (r : Reg) :
    (c.pop r).reg = Function.update (Function.update c.reg .esp (c.reg .esp + 4)) r v := by
  rw [Cpu.pop, set_reg, h.top, Cpu.drop, set_reg]

/-- `pushal` pushes the registers, and of `%esp` the value before it. -/
theorem Stack.pushal (h : c.Stack ws) (hlen : 4 * ws.length + 32 ≤ 2 ^ 32) :
    c.pushal.Stack (c.reg .edi :: c.reg .esi :: c.reg .ebp :: c.reg .esp :: c.reg .ebx :: c.reg .edx ::
      c.reg .ecx :: c.reg .eax :: ws) :=
  h.pushes [c.reg .eax, c.reg .ecx, c.reg .edx, c.reg .ebx, c.reg .esp, c.reg .ebp, c.reg .esi, c.reg .edi]
    (by simp only [List.length_cons, List.length_nil]; omega)

theorem pushal_reg (c : Cpu) : c.pushal.reg = Function.update c.reg .esp (c.reg .esp - 32) :=
  pushes_reg c [c.reg .eax, c.reg .ecx, c.reg .edx, c.reg .ebx, c.reg .esp, c.reg .ebp, c.reg .esi,
    c.reg .edi]

/-- `popal` takes eight words from the stack, and loads seven of them: `g` are the registers it loads. -/
theorem Stack.popal {g : Reg → UInt32} {sp : UInt32}
    (h : c.Stack (g .edi :: g .esi :: g .ebp :: sp :: g .ebx :: g .edx :: g .ecx :: g .eax :: ws)) :
    c.popal.Stack ws ∧ c.popal.reg = Function.update g .esp (c.reg .esp + 32) := by
  have h1 := h.pop (r := .edi) (by decide)
  have h2 := h1.pop (r := .esi) (by decide)
  have h3 := h2.pop (r := .ebp) (by decide)
  have h4 := h3.drop
  have h5 := h4.pop (r := .ebx) (by decide)
  have h6 := h5.pop (r := .edx) (by decide)
  have h7 := h6.pop (r := .ecx) (by decide)
  refine ⟨h7.pop (by decide), ?_⟩
  have hadd : c.reg .esp + 4 + 4 + 4 + 4 + 4 + 4 + 4 + 4 = c.reg .esp + 32 := by
    simp only [UInt32.add_assoc]
    rfl
  rw [Cpu.popal, h7.pop_reg, h6.pop_reg, h5.pop_reg, h4.pop_reg, Cpu.drop, set_reg, h2.pop_reg, h1.pop_reg,
    h.pop_reg]
  funext r
  cases r <;> simp [hadd]

/-- What the processor pushes on an interrupt. -/
theorem Stack.interrupt (h : c.Stack ws) (hlen : 4 * ws.length + 16 ≤ 2 ^ 32) (cs : UInt16) (eip : UInt32)
    (code : Option UInt32) :
    (c.interrupt cs eip code).Stack (code.toList ++ c.eip :: c.cs.toUInt32 :: c.eflags :: ws) := by
  cases code with
  | none =>
    exact h.pushes [c.eflags, c.cs.toUInt32, c.eip]
      (by simp only [List.length_cons, List.length_nil]; omega)
  | some e =>
    exact h.pushes [c.eflags, c.cs.toUInt32, c.eip, e]
      (by simp only [List.length_cons, List.length_nil]; omega)

theorem interrupt_reg (c : Cpu) (cs : UInt16) (eip : UInt32) (code : Option UInt32) :
    (c.interrupt cs eip code).reg =
      Function.update c.reg .esp (c.reg .esp - if code.isSome then 16 else 12) := by
  cases code with
  | none => exact pushes_reg c [c.eflags, c.cs.toUInt32, c.eip]
  | some e => exact pushes_reg c [c.eflags, c.cs.toUInt32, c.eip, e]

/-- What is written to the low half of a register is read from it. -/
theorem toUInt16_low (x : UInt32) (v : UInt16) : (x &&& 0xFFFF0000 ||| v.toUInt32).toUInt16 = v := by
  rw [← UInt16.toNat_inj, UInt32.toNat_toUInt16, UInt32.toNat_or, UInt32.toNat_and, Nat.or_mod_two_pow,
    Nat.and_mod_two_pow, UInt16.toNat_toUInt32, Nat.mod_eq_of_lt v.toNat_lt]
  show x.toNat % 2 ^ 16 &&& 0 ||| v.toNat = v.toNat
  rw [Nat.and_zero, Nat.zero_or]

/-! ### Instructions that leave the stack -/

theorem stack_movToSeg {r : Reg} {s : Seg} : ((Instr.movToSeg r s).exec c).Stack ws ↔ c.Stack ws := Iff.rfl

theorem stack_sti : (Instr.sti.exec c).Stack ws ↔ c.Stack ws := Iff.rfl

theorem esp_movToSeg {r : Reg} {s : Seg} : ((Instr.movToSeg r s).exec c).reg .esp = c.reg .esp := rfl

theorem esp_movImm {r : Reg} (hr : r ≠ .esp) {v : UInt16} :
    ((Instr.movImm v r).exec c).reg .esp = c.reg .esp := Function.update_of_ne (Ne.symm hr) ..

theorem stack_movImm {r : Reg} (hr : r ≠ .esp) {v : UInt16} :
    ((Instr.movImm v r).exec c).Stack ws ↔ c.Stack ws := stack_set hr

end Cpu

end JurasOS.Machine
