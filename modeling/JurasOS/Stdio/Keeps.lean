import JurasOS.Stdio.Format

/-!
# What `_vsnprintf` leaves alone

Whatever the format is, and whatever lies in the arguments, a run does nothing to the
kernel but call its output function; so what the output function keeps, the run keeps,
also a run that does not end. `snprintf` writes inside its buffer.
-/

namespace JurasOS

open Machine Text

/-- The output function of a sink goes along a relation of kernels. -/
def Sink.Keeps (o : Sink) (K : Kernel → Kernel → Prop) : Prop :=
  ∀ c idx s, K s (o.out c o.buffer idx o.maxlen s)

/-- A relation of kernels, on the kernels of two states. -/
def OnKernel (K : Kernel → Kernel → Prop) (p q : PrintState) : Prop := K p.kernel q.kernel

section keeps

variable {K : Kernel → Kernel → Prop} {o : Sink} {fl : Floats} {fuel : ℕ} {flags : Flags}
  {width precision : UInt32}

theorem along_put (h : o.Keeps K) (c : UInt8) :
    Along (OnKernel K) (modify (PrintState.put o c) : PrintM PUnit) :=
  Along.modify fun p => h c p.idx p.kernel

variable [Std.Refl K]

instance : Std.Refl (OnKernel K) := ⟨fun p => Std.Refl.refl p.kernel⟩

theorem along_peek : Along (OnKernel K) peek := fun p => Std.Refl.refl p.kernel

theorem along_advance : Along (OnKernel K) advance := fun p => Std.Refl.refl p.kernel

theorem along_vaArg : Along (OnKernel K) vaArg := fun p => Std.Refl.refl p.kernel

theorem along_vaArg64 : Along (OnKernel K) vaArg64 := fun p => Std.Refl.refl p.kernel

variable [IsTrans Kernel K]

instance : IsTrans PrintState (OnKernel K) := ⟨fun p q r => IsTrans.trans p.kernel q.kernel r.kernel⟩

theorem Sink.Keeps.feed (h : o.Keeps K) (idx : UInt32) (cs : List UInt8) (s : Kernel) :
    K s (o.feed idx cs s) := by
  induction cs generalizing idx s with
  | nil => exact Std.Refl.refl s
  | cons c cs ih => exact IsTrans.trans _ _ _ (h c idx s) (ih _ _)

theorem along_atoi : Along (OnKernel K) (atoi fuel) :=
  Along.loopM (fun _ => along_peek.bind fun _ =>
    Along.ite (along_advance.bind fun _ => Along.pure _) (Along.pure _)) fuel 0

theorem along_evalFlags : Along (OnKernel K) (evalFlags fuel) := by
  refine Along.loopM (fun flags => along_peek.bind fun c => ?_) fuel _
  cases flagOf c flags with
  | some flags => exact along_advance.bind fun _ => Along.pure _
  | none => exact Along.pure _

theorem along_evalWidth : Along (OnKernel K) (evalWidth fuel flags) :=
  along_peek.bind fun _ => Along.ite (along_atoi.bind fun _ => Along.pure _)
    (Along.ite (along_vaArg.bind fun _ => along_advance.bind fun _ => Along.pure _) (Along.pure _))

theorem along_evalPrecision : Along (OnKernel K) (evalPrecision fuel flags) :=
  along_peek.bind fun _ => Along.ite (along_advance.bind fun _ => Along.bind
    (along_peek.bind fun _ => Along.ite along_atoi
      (Along.ite (along_vaArg.bind fun _ => along_advance.bind fun _ => Along.pure _) (Along.pure _)))
    fun _ => Along.pure _) (Along.pure _)

theorem along_evalLength : Along (OnKernel K) (evalLength flags) := by
  have hone : ∀ flags : Flags, Along (OnKernel K) (advance >>= fun _ => Pure.pure flags) :=
    fun _ => along_advance.bind fun _ => Along.pure _
  have htwo : ∀ (c : UInt8) (flags flags' : Flags), Along (OnKernel K) (advance >>= fun _ => peek >>= fun d =>
      if d = c then advance >>= fun _ => Pure.pure flags else Pure.pure flags') :=
    fun _ _ _ => along_advance.bind fun _ => along_peek.bind fun _ => Along.ite (hone _) (Along.pure _)
  exact along_peek.bind fun _ => Along.ite (htwo _ _ _) (Along.ite (htwo _ _ _) (Along.ite (hone _)
    (Along.ite (hone _) (Along.ite (hone _) (Along.pure _)))))

theorem along_evalDirective : Along (OnKernel K) (evalDirective fuel) :=
  along_evalFlags.bind fun _ => along_evalWidth.bind fun _ => along_evalPrecision.bind fun _ =>
    along_evalLength.bind fun _ => Along.pure _

variable (h : o.Keeps K)

include h

theorem along_puts (cs : List UInt8) : Along (OnKernel K) (modify (PrintState.puts o cs) : PrintM PUnit) :=
  Along.modify fun p => h.feed p.idx cs p.kernel

theorem along_ntoa (value : ℕ) (negative : Bool) (base : UInt32) :
    Along (OnKernel K) (modify (ntoa o value negative base precision width flags) : PrintM PUnit) := by
  refine Along.modify fun p => ?_
  rw [ntoa_eq]
  exact h.feed p.idx _ p.kernel

theorem along_putSpaces (side : Bool) (l : ℕ) : Along (OnKernel K) (putSpaces o side l width) := by
  refine Along.ite (Along.modify fun p => ?_) (Along.pure _)
  rw [PrintState.times_put]
  exact h.feed p.idx _ p.kernel

theorem along_convertInt (c : UInt8) : Along (OnKernel K) (convertInt o c flags width precision) :=
  Along.ite
    (Along.ite (Along.pure _)
      (Along.ite (along_vaArg.bind fun _ => along_ntoa h _ _ _) (along_vaArg.bind fun _ => along_ntoa h _ _ _)))
    (Along.ite (Along.pure _)
      (Along.ite (along_vaArg.bind fun _ => along_ntoa h _ _ _) (along_vaArg.bind fun _ => along_ntoa h _ _ _)))

theorem along_convertChar : Along (OnKernel K) (convertChar o flags width) :=
  (along_putSpaces h _ _).bind fun _ => along_vaArg.bind fun _ => (along_put h _).bind fun _ =>
    along_putSpaces h _ _

theorem along_convertString : Along (OnKernel K) (convertString o fuel flags width precision) :=
  along_vaArg.bind fun _ => Along.get.bind fun _ => (along_putSpaces h _ _).bind fun _ =>
    (Along.loopM (fun _ => Along.get.bind fun _ =>
      Along.ite ((along_put h _).bind fun _ => Along.pure _) (Along.pure _)) fuel _).bind fun _ =>
        along_putSpaces h _ _

theorem along_convertBy (c : UInt8) : Along (OnKernel K) (convertBy fl o fuel c flags width precision) :=
  Along.ite (along_convertInt h c) (Along.ite (along_vaArg64.bind fun _ => along_puts h _)
    (Along.ite (along_vaArg64.bind fun _ => along_puts h _) (Along.ite (along_convertChar h)
      (Along.ite (along_convertString h) (Along.ite (along_vaArg.bind fun _ => along_ntoa h _ _ _)
        (along_put h c))))))

theorem along_directive : Along (OnKernel K) (directive fl o fuel) :=
  along_evalDirective.bind fun _ => along_peek.bind fun _ => (along_convertBy h _).bind fun _ => along_advance

theorem along_formatStep : Along (OnKernel K) (formatStep fl o fuel) :=
  along_peek.bind fun _ => Along.ite (Along.pure _)
    (Along.ite ((along_put h _).bind fun _ => along_advance.bind fun _ => Along.pure _)
      (along_advance.bind fun _ => (along_directive h).bind fun _ => Along.pure _))

end keeps

/-- **What the output function keeps, `_vsnprintf` keeps**: for every format and all arguments, and
whether the run ends or not. -/
theorem vsnprintf_along {K : Kernel → Kernel → Prop} [Std.Refl K] [IsTrans Kernel K] (fl : Floats) (fuel : ℕ)
    (out : OutFct) (buffer maxlen format va : UInt32) (h : (sinkOf out buffer maxlen).Keeps K) :
    Along K (vsnprintf fl fuel out buffer maxlen format va) := by
  intro s
  have hstep : Along (OnKernel K) (formatStep fl (sinkOf out buffer maxlen) fuel) := along_formatStep h
  have hloop : OnKernel K _ (stop (loopM Halt.running _ _ _ _)) :=
    Along.loopM (fun _ : PUnit => hstep) fuel PUnit.unit ⟨s, format, va, 0⟩
  rw [vsnprintf]
  cases hrun : loopM Halt.running (fun _ => formatStep fl (sinkOf out buffer maxlen) fuel) fuel PUnit.unit
    ⟨s, format, va, 0⟩ with
  | ok a p =>
    rw [hrun] at hloop
    simp only
    exact IsTrans.trans _ _ _ hloop (h 0 _ p.kernel)
  | error e p =>
    rw [hrun] at hloop
    simp only
    exact hloop

end JurasOS
