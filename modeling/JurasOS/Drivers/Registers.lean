import JurasOS.Drivers.Ports
import JurasOS.Paging.Rights

/-!
# The registers of the controller

`ahci_driver_init` maps the page of the ABAR, and the probe of the ports reads
registers after it: those of the ports from 30 on lie in the next page. The registers
that the probe reads are mapped exactly when no such port is implemented, or that page
was mapped before.
-/

namespace JurasOS

open Machine

/-- `ahci_driver_init`, up to the call of `ahci_driver_probe_ports`. -/
def ahciMapRegisters (pciBaseAddr : UInt32) : KernelM PUnit := do
  modify (Kernel.emit (.ahciInit pciBaseAddr))
  modify fun s =>
    { s with ahciDriver := { s.ahciDriver with
      pciBaseAddr := pciBaseAddr, abar := s.mem.load32 (pciBaseAddr + 36) } }
  let abar := (← get).ahciDriver.abar
  ptmMapAddr abar abar true true

/-- A register that is read or written is in a page that is mapped in `s`. -/
def RegisterMapped (s : Kernel) (e : Event) : Prop := ∀ a, e = .hba a → translate s.mem s.cr3 a ≠ none

/-- A port whose registers are in the page after that of the ABAR is implemented. -/
def HighPort (s : Kernel) : Prop :=
  ∃ i, 30 ≤ i ∧ i < 32 ∧ implements (s.mem.load32 (s.ahciDriver.abar + 0x0C)) i = true

section ahciDriverProbePorts

variable {s t u : Kernel} {P : Event → Prop} {abar portsImpl : UInt32} {i : ℕ}

/-! ### What the probe reads -/

/-- The driver keeps its registers; what is done from a state with them at `abar` satisfies `P`. -/
def ProbeEmits (abar : UInt32) (P : Event → Prop) (s t : Kernel) : Prop :=
  t.ahciDriver.abar = s.ahciDriver.abar ∧ (s.ahciDriver.abar = abar → Emits P s t)

instance : Std.Refl (ProbeEmits abar P) := ⟨fun s => ⟨rfl, fun _ => Emits.refl s⟩⟩

instance : IsTrans Kernel (ProbeEmits abar P) :=
  ⟨fun _ _ _ h h' => ⟨h'.1.trans h.1, fun habar => (h.2 habar).trans (h'.2 (h.1.trans habar))⟩⟩

/-- An iteration reads two registers of its port at most, and none when the port is not implemented. -/
theorem probePort_emits (h : implements portsImpl i = true →
      P (.hba (portAt abar i + 0x28)) ∧ P (.hba (portAt abar i + 0x24))) :
    Along (ProbeEmits abar P) (probePort portsImpl i) := by
  intro s
  refine ⟨(probePort_sameCount portsImpl i s).1, fun habar => ?_⟩
  obtain ⟨t, ht, hkeeps⟩ := probePort_stop portsImpl i s
  refine Emits.trans ?_ (Emits.of_trace hkeeps.1)
  cases himpl : implements portsImpl i with
  | false =>
    rw [himpl, if_neg Bool.false_ne_true] at ht
    rw [ht]
    exact Emits.refl s
  | true =>
    obtain ⟨hstatus, hsignature⟩ := h himpl
    rw [himpl, if_pos rfl, habar] at ht
    rcases ht with rfl | rfl
    · exact emits_emit hstatus s
    · exact (emits_emit hstatus s).trans (emits_emit hsignature _)

/-- The probe reads the register of the implemented ports, and the registers of those. -/
theorem ahciDriverProbePorts_emits (hpi : P (.hba (s.ahciDriver.abar + 0x0C)))
    (hports : ∀ i < 32, implements (s.mem.load32 (s.ahciDriver.abar + 0x0C)) i = true →
      P (.hba (portAt s.ahciDriver.abar i + 0x28)) ∧ P (.hba (portAt s.ahciDriver.abar i + 0x24))) :
    Emits P s (stop (ahciDriverProbePorts s)) := by
  rw [ahciDriverProbePorts_eq]
  refine (emits_emit hpi s).trans ?_
  have hloop : Along (ProbeEmits s.ahciDriver.abar P)
      (timesM 32 (probePort (s.mem.load32 (s.ahciDriver.abar + 0x0C)))) :=
    Along.timesM_of_lt fun i hi => probePort_emits (hports i hi)
  exact (hloop (s.emit (.hba (s.ahciDriver.abar + 0x0C)))).2 rfl

/-- When it comes to its end, it has read the status of every implemented port. -/
theorem ahciDriverProbePorts_reads (hrun : ahciDriverProbePorts s = .ok ⟨⟩ u) (hall : Emits P s u)
    (hi : i < 32) (himpl : implements (s.mem.load32 (s.ahciDriver.abar + 0x0C)) i = true) :
    P (.hba (portAt s.ahciDriver.abar i + 0x28)) := by
  have hgo : ∀ j, Along GoesOn (probePort (s.mem.load32 (s.ahciDriver.abar + 0x0C)) j) := fun j t => by
    have hj : Along (ProbeEmits t.ahciDriver.abar fun _ => True)
        (probePort (s.mem.load32 (s.ahciDriver.abar + 0x0C)) j) := probePort_emits fun _ => ⟨trivial, trivial⟩
    exact (hj t).2 rfl
  rw [ahciDriverProbePorts_eq] at hrun
  obtain ⟨t, ht⟩ := timesM_ok_of_lt hrun hi
  have habar : t.ahciDriver.abar = s.ahciDriver.abar :=
    ((Along.timesM (probePort_sameCount _)).of_ok ht).1
  -- From where iteration `i` stops, the loop goes on.
  have hrest := Along.stop_timesM hgo hi ht
  rw [hrun] at hrest
  obtain ⟨v, hv, hkeeps⟩ := probePort_stop (s.mem.load32 (s.ahciDriver.abar + 0x0C)) i t
  rw [himpl, if_pos rfl, habar] at hv
  have hread : GoesOn (t.emit (.hba (portAt s.ahciDriver.abar i + 0x28))) u :=
    (hv.goesOn.trans (Emits.of_trace hkeeps.1)).trans hrest
  have hbefore : GoesOn s t :=
    (emits_emit trivial s).trans ((Along.timesM hgo).of_ok ht)
  have hfirst : GoesOn t (t.emit (.hba (portAt s.ahciDriver.abar i + 0x28))) := emits_emit trivial t
  exact (Emits.of_first rfl hread (Emits.split hbefore (hfirst.trans hread) hall).2).1

/-! ### Where the registers are -/

theorem page_add {a x : UInt32} (ha : a.toNat % 4096 = 0) (hx : x.toNat < 4096) :
    (a + x).toNat / 4096 = a.toNat / 4096 := by
  rw [add_low_toNat ha hx]
  omega

theorem toNat_next_page {a : UInt32} (ha : a.toNat % 4096 = 0) : (a + 0x1000).toNat % 4096 = 0 := by
  rw [UInt32.toNat_add]
  show (a.toNat + 4096) % 2 ^ 32 % 4096 = 0
  omega

theorem toNat_portOffset (hi : i < 32) {x : UInt32} (hx : x.toNat < 0x80) :
    (0x100 + 0x80 * UInt32.ofNat i + x).toNat = 0x100 + 0x80 * i + x.toNat := by
  rw [UInt32.toNat_add, UInt32.toNat_add, UInt32.toNat_mul, UInt32.toNat_ofNat']
  show ((256 + 128 * (i % 2 ^ 32) % 2 ^ 32) % 2 ^ 32 + x.toNat) % 2 ^ 32 = _
  omega

/-- The registers of the ports below 30 are in the page of the ABAR. -/
theorem portAt_page_of_lt (habar : abar.toNat % 4096 = 0) (hi : i < 30) {x : UInt32} (hx : x.toNat < 0x80) :
    (portAt abar i + x).toNat / 4096 = abar.toNat / 4096 := by
  have hoffset := toNat_portOffset (i := i) (by omega) hx
  rw [portAt, UInt32.add_assoc, UInt32.add_assoc, ← UInt32.add_assoc 0x100]
  exact page_add habar (by omega)

/-- Those of the ports 30 and 31 are in the next one. -/
theorem portAt_page_of_le (habar : abar.toNat % 4096 = 0) (hlo : 30 ≤ i) (hhi : i < 32) {x : UInt32}
    (hx : x.toNat < 0x80) : (portAt abar i + x).toNat / 4096 = (abar + 0x1000).toNat / 4096 := by
  have hoffset := toNat_portOffset (i := i) hhi hx
  have hsplit :
    0x100 + 0x80 * UInt32.ofNat i + x = 0x1000 + (0x100 + 0x80 * UInt32.ofNat i + x - 0x1000) := by
    rw [UInt32.add_comm 0x1000, UInt32.sub_add_cancel]
  have hrest : (0x100 + 0x80 * UInt32.ofNat i + x - 0x1000).toNat = 0x100 + 0x80 * i + x.toNat - 0x1000 := by
    rw [UInt32.toNat_sub, hoffset]
    show (2 ^ 32 - 4096 + (256 + 128 * i + x.toNat)) % 2 ^ 32 = _
    omega
  rw [portAt, UInt32.add_assoc, UInt32.add_assoc, ← UInt32.add_assoc 0x100, hsplit, ← UInt32.add_assoc]
  exact page_add (toNat_next_page habar) (by omega)

/-- Addresses in one page are mapped alike. -/
theorem TablesLoaded.mapped_congr (h : TablesLoaded s) {a b : UInt32}
    (hpage : a.toNat / 4096 = b.toNat / 4096) :
    translate s.mem s.cr3 a ≠ none ↔ translate s.mem s.cr3 b ≠ none := by
  rw [Ne, Ne, h.unmapped_iff, h.unmapped_iff, hpage]

/-- With the page of the ABAR mapped, and the next one if there is a port in it, all registers are. -/
theorem TablesLoaded.registers_mapped (h : TablesLoaded s) (habar : s.ahciDriver.abar.toNat % 4096 = 0)
    (hfirst : translate s.mem s.cr3 s.ahciDriver.abar ≠ none)
    (hnext : HighPort s → translate s.mem s.cr3 (s.ahciDriver.abar + 0x1000) ≠ none) :
    Emits (RegisterMapped s) s (stop (ahciDriverProbePorts s)) := by
  have hports : ∀ i < 32, implements (s.mem.load32 (s.ahciDriver.abar + 0x0C)) i = true → ∀ x : UInt32,
      x.toNat < 0x80 → RegisterMapped s (.hba (portAt s.ahciDriver.abar i + x)) := by
    rintro i hi himpl x hx _ ⟨⟩
    by_cases hlow : i < 30
    · exact (h.mapped_congr (portAt_page_of_lt habar hlow hx)).mpr hfirst
    · rw [Nat.not_lt] at hlow
      exact (h.mapped_congr (portAt_page_of_le habar hlow hi hx)).mpr (hnext ⟨i, hlow, hi, himpl⟩)
  refine ahciDriverProbePorts_emits ?_ fun i hi himpl =>
    ⟨hports i hi himpl 0x28 (by decide), hports i hi himpl 0x24 (by decide)⟩
  rintro _ ⟨⟩
  exact (h.mapped_congr (page_add habar (by decide))).mpr hfirst

/-- When the probe has come to its end, and a port in the next page is implemented, that one was mapped. -/
theorem TablesLoaded.mapped_of_reads (h : TablesLoaded s) (habar : s.ahciDriver.abar.toNat % 4096 = 0)
    (hrun : ahciDriverProbePorts s = .ok ⟨⟩ u) (hall : Emits (RegisterMapped s) s u) (hhigh : HighPort s) :
    translate s.mem s.cr3 (s.ahciDriver.abar + 0x1000) ≠ none := by
  obtain ⟨i, hlow, hi, himpl⟩ := hhigh
  have hstatus := ahciDriverProbePorts_reads hrun hall hi himpl _ rfl
  exact (h.mapped_congr (portAt_page_of_le habar hlow hi (by decide))).mp hstatus

/-- `ahci_driver_init` maps the page of the ABAR, and no other. -/
theorem TablesLoaded.ahciMapRegisters_ok (h : TablesLoaded s) (pciBaseAddr : UInt32) :
    ∃ t, ahciMapRegisters pciBaseAddr s = .ok ⟨⟩ t ∧ TablesLoaded t ∧
      t.ahciDriver = { s.ahciDriver with
        pciBaseAddr := pciBaseAddr, abar := s.mem.load32 (pciBaseAddr + 36) } ∧
      Set.EqOn t.mem s.mem (span (s.pd + 12288) (4 * 2 ^ 20))ᶜ ∧ ∀ v, translate t.mem t.cr3 v ≠ none ↔
        v.toNat / 4096 = (s.mem.load32 (pciBaseAddr + 36)).toNat / 4096 ∨ translate s.mem s.cr3 v ≠ none := by
  obtain ⟨s', hs'⟩ : ∃ s', s' = { s.emit (.ahciInit pciBaseAddr) with
    ahciDriver := { s.ahciDriver with
      pciBaseAddr := pciBaseAddr, abar := s.mem.load32 (pciBaseAddr + 36) } } := ⟨_, rfl⟩
  have hloaded : TablesLoaded s' :=
    h.other (by rw [hs']; rfl) (by rw [hs']; rfl) (by rw [hs']; exact fun _ _ => rfl)
  obtain ⟨t, hrun, ht, hframe, hmapped⟩ := hloaded.mapped_map s'.ahciDriver.abar s'.ahciDriver.abar true true
  refine ⟨t, ?_, ht, ?_, ?_, ?_⟩
  · rw [ahciMapRegisters, bind_of_ok (modify_apply ..), bind_of_ok (modify_apply ..)]
    rw [hs'] at hrun
    exact hrun
  · rw [hframe.same, hs']
  · rw [hs'] at hframe
    exact hframe.mem
  · rw [hs'] at hmapped
    exact hmapped

theorem ahciDriverInit_eq (fuel : ℕ) (pciBaseAddr : UInt32) (h : ahciMapRegisters pciBaseAddr s = .ok ⟨⟩ t) :
    ahciDriverInit fuel pciBaseAddr s = (ahciDriverProbePorts >>= fun _ => ahciConfigurePorts fuel) t := by
  rw [ahciMapRegisters,
    bind_of_ok (modify_apply ..), bind_of_ok (modify_apply ..), bind_of_ok (get_apply _)] at h
  rw [ahciDriverInit, bind_of_ok (modify_apply ..), bind_of_ok (modify_apply ..), bind_of_ok (get_apply _)]
  exact bind_of_ok h

/-- **The registers that the probe reads are mapped exactly when** no implemented port has its
registers in the page after that of the ABAR, or that page was mapped before `ahci_driver_init`. -/
theorem registersMapped_iff (h : TablesLoaded s) {pciBaseAddr : UInt32}
    (habar : (s.mem.load32 (pciBaseAddr + 36)).toNat % 4096 = 0) :
    ∃ t, ahciMapRegisters pciBaseAddr s = .ok ⟨⟩ t ∧
      (∀ fuel, ahciDriverInit fuel pciBaseAddr s =
        (ahciDriverProbePorts >>= fun _ => ahciConfigurePorts fuel) t) ∧
      ((HighPort t → translate s.mem s.cr3 (t.ahciDriver.abar + 0x1000) ≠ none) →
        Emits (RegisterMapped t) t (stop (ahciDriverProbePorts t))) ∧
      ∀ u, ahciDriverProbePorts t = .ok ⟨⟩ u → (Emits (RegisterMapped t) t u ↔
        (HighPort t → translate s.mem s.cr3 (t.ahciDriver.abar + 0x1000) ≠ none)) := by
  obtain ⟨t, hrun, ht, hdriver, -, hmapped⟩ := h.ahciMapRegisters_ok pciBaseAddr
  have habar' : t.ahciDriver.abar = s.mem.load32 (pciBaseAddr + 36) := by rw [hdriver]
  rw [← habar'] at habar hmapped
  have hfirst := (hmapped t.ahciDriver.abar).mpr (Or.inl rfl)
  have hnext : translate t.mem t.cr3 (t.ahciDriver.abar + 0x1000) ≠ none ↔
      translate s.mem s.cr3 (t.ahciDriver.abar + 0x1000) ≠ none := by
    rw [hmapped, or_iff_right]
    rw [UInt32.toNat_add]
    show (t.ahciDriver.abar.toNat + 4096) % 2 ^ 32 / 4096 ≠ _
    have hlt := t.ahciDriver.abar.toNat_lt
    omega
  have hall : (HighPort t → translate s.mem s.cr3 (t.ahciDriver.abar + 0x1000) ≠ none) →
      Emits (RegisterMapped t) t (stop (ahciDriverProbePorts t)) := fun hbefore =>
    ht.registers_mapped habar hfirst fun hport => hnext.mpr (hbefore hport)
  refine ⟨t, hrun, fun fuel => ahciDriverInit_eq fuel pciBaseAddr hrun, hall, fun u hend => ?_⟩
  rw [hend] at hall
  exact ⟨fun hreads hport => hnext.mp (ht.mapped_of_reads habar hend hreads hport), hall⟩

end ahciDriverProbePorts

/-! ### A controller above the kernel -/

/-- A controller with its header at `0xE0000000` and its registers at `0xF0000000`, of which no port has a
drive. The ports from 24 on that are implemented are given. -/
def withController (ports : UInt8) (m : Mem) : Mem := fun a =>
  if a.toNat < 2 ^ 31 then m a
  else if a = 0xE0000027 then 0xF0
  else if a = 0xF000000F then ports
  else 0

section withController

variable {ports : UInt8}

theorem eqOn_withController (ports : UInt8) (m m' : Mem) :
    Set.EqOn (withController ports m) (withController ports m') {a | 2 ^ 31 ≤ a.toNat} := by
  intro a ha
  rw [withController, withController, if_neg (Nat.not_lt.mpr ha), if_neg (Nat.not_lt.mpr ha)]

/-- The page tables of a small kernel are loaded, the controller is there, and its registers are not
mapped. -/
theorem withController_tables (ports : UInt8) : ∃ s₁ s, ptmInitialize smallKernel = .ok ⟨⟩ s₁ ∧
    s = { s₁ with mem := withController ports s₁.mem } ∧ TablesLoaded s ∧ s.pd = 0x200000 ∧
    ∀ v : UInt32, 2 ^ 31 ≤ v.toNat → translate s.mem s.cr3 v = none := by
  obtain ⟨s₁, hinit, htables, hpd, hunmapped⟩ := smallKernel_tables
  have hmem : Set.EqOn (withController ports s₁.mem) s₁.mem (tableSpace s₁.pd (s₁.pd + 12288)) := by
    intro a ha
    rw [withController, if_pos]
    rw [hpd] at ha
    rcases ha with ha | ha
    · rw [mem_span_iff (by decide)] at ha
      have htwo : (0x200000 : UInt32).toNat = 0x200000 := rfl
      omega
    · rw [mem_span_iff (by decide)] at ha
      have htwo : ((0x200000 : UInt32) + 12288).toNat = 0x203000 := rfl
      omega
  obtain ⟨s, hs⟩ : ∃ s, s = { s₁ with mem := withController ports s₁.mem } := ⟨_, rfl⟩
  have hpd' : s.pd = s₁.pd := by rw [hs]
  rw [show withController ports s₁.mem = s.mem by rw [hs]] at hmem
  have hloaded : TablesLoaded s := htables.other hpd' (by rw [hs]) hmem
  refine ⟨s₁, s, hinit, hs, hloaded, hpd'.trans hpd, fun v hv => ?_⟩
  have hload : s.mem.load32 (pteAddr (s₁.pd + 12288) (v.toNat / 4096)) =
      s₁.mem.load32 (pteAddr (s₁.pd + 12288) (v.toNat / 4096)) :=
    Mem.load32_congr (hmem.mono ((htables.inPlace.pteAddr_subset (page_lt v)).trans Set.subset_union_right))
  have hzero := htables.unmapped_iff.mp (hunmapped v (by omega))
  rw [hloaded.unmapped_iff, hpd', hload, hzero]

/-- The probe of this controller comes to its end. -/
theorem withController_probe (ports : UInt8)
    (hnone : drivePorts (withController ports Kernel.loaded.mem) 0xF0000000 = []) :
    ∃ s₁ s t u, ptmInitialize smallKernel = .ok ⟨⟩ s₁ ∧ s = { s₁ with mem := withController ports s₁.mem } ∧
      TablesLoaded s ∧ s.mem.load32 (0xE0000000 + 36) = 0xF0000000 ∧
      ahciMapRegisters 0xE0000000 s = .ok ⟨⟩ t ∧ ahciDriverProbePorts t = .ok ⟨⟩ u ∧ TablesLoaded t ∧
      t.ahciDriver.abar = 0xF0000000 ∧ translate t.mem t.cr3 0xF0001000 = none ∧
      t.mem.load32 (0xF0000000 + 0x0C) =
      (withController ports Kernel.loaded.mem).load32 (0xF0000000 + 0x0C) := by
  obtain ⟨s₁, s, hinit, hs, hloaded, hpd, hunmapped⟩ := withController_tables ports
  have hsmem : Set.EqOn s.mem (withController ports Kernel.loaded.mem) {a | 2 ^ 31 ≤ a.toNat} := by
    rw [hs]
    exact eqOn_withController ports _ _
  have hhigh : ∀ (a : UInt32) k, 2 ^ 31 ≤ a.toNat → a.toNat + k ≤ 2 ^ 32 →
    span a k ⊆ {a | 2 ^ 31 ≤ a.toNat} := by
    intro a k hlo hhi b hb
    rw [mem_span_iff hhi] at hb
    exact le_trans hlo hb.1
  have hbar : s.mem.load32 (0xE0000000 + 36) = 0xF0000000 := by
    have hports : Set.EqOn (withController ports Kernel.loaded.mem) (withController 0 Kernel.loaded.mem)
        (span (0xE0000000 + 36) 4) := by
      intro a ha
      have hne : a ≠ 0xF000000F := by
        rintro rfl
        rw [mem_span] at ha
        exact absurd ha (by decide)
      simp only [withController, if_neg hne]
    rw [Mem.load32_congr (hsmem.mono (hhigh _ 4 (by decide) (by decide))), Mem.load32_congr hports]
    decide
  obtain ⟨t, hrun, ht, hdriver, htmem, hmapped⟩ := hloaded.ahciMapRegisters_ok 0xE0000000
  rw [hbar] at hdriver hmapped
  have habar : t.ahciDriver.abar = 0xF0000000 := by rw [hdriver]
  have hmem : Set.EqOn t.mem (withController ports Kernel.loaded.mem) (span 0xF0000000 0x1100) := by
    intro a ha
    have hoff : a ∈ (span (s.pd + 12288) (4 * 2 ^ 20))ᶜ := by
      rw [hpd]
      exact Set.disjoint_left.mp (disjoint_span (by decide) (by decide) (Or.inr (by decide))) ha
    rw [htmem hoff, hsmem (hhigh 0xF0000000 0x1100 (by decide) (by decide) ha)]
  obtain ⟨u, hend, -⟩ := ahciDriverProbePorts_of_none (s := t) (by rw [habar, drivePorts_congr hmem, hnone])
  refine ⟨s₁, s, t, u, hinit, hs, hloaded, hbar, hrun, hend, ht, habar, ?_, ?_⟩
  · by_contra hsome
    rcases (hmapped 0xF0001000).mp hsome with hpage | hbefore
    · exact absurd hpage (by decide)
    · exact hbefore (hunmapped 0xF0001000 (by decide))
  · exact Mem.load32_congr (hmem.mono (span_offset_subset (by decide)))

/-- With the port 29 as the highest one, all registers that are read are mapped. -/
theorem registersMapped_port_twentyNine : ∃ s t, TablesLoaded s ∧ ahciMapRegisters 0xE0000000 s = .ok ⟨⟩ t ∧
    implements (t.mem.load32 (t.ahciDriver.abar + 0x0C)) 29 = true ∧
    Emits (RegisterMapped t) t (stop (ahciDriverProbePorts t)) := by
  obtain ⟨-, s, t, -, -, -, hloaded, hbar, hrun, -, -, habar, -, hload⟩ :=
    withController_probe 0x20 (by decide)
  have haligned : (s.mem.load32 (0xE0000000 + 36)).toNat % 4096 = 0 := by rw [hbar]; rfl
  obtain ⟨t', hrun', -, hmapped, -⟩ := registersMapped_iff hloaded haligned
  rw [hrun] at hrun'
  cases hrun'
  rw [← habar] at hload
  refine ⟨s, t, hloaded, hrun, ?_, hmapped ?_⟩
  · rw [hload, habar]
    decide
  · rintro ⟨i, hlow, hi, himpl⟩
    rw [hload, habar] at himpl
    obtain rfl | rfl : i = 30 ∨ i = 31 := by omega
    · exact absurd himpl (by decide)
    · exact absurd himpl (by decide)

/-- With the port 30 the probe reads a register in a page that is not mapped. -/
theorem registersMapped_port_thirty : ∃ s₁ s t u, ptmInitialize smallKernel = .ok ⟨⟩ s₁ ∧
    s = { s₁ with mem := withController 0x40 s₁.mem } ∧ TablesLoaded s ∧
    s.mem.load32 (0xE0000000 + 36) = 0xF0000000 ∧ ahciMapRegisters 0xE0000000 s = .ok ⟨⟩ t ∧
    ahciDriverProbePorts t = .ok ⟨⟩ u ∧ ¬ Emits (RegisterMapped t) t u := by
  obtain ⟨s₁, s, t, u, hinit, hs, hloaded, hbar, hrun, hend, ht, habar, hnone, hload⟩ :=
    withController_probe 0x40 (by decide)
  refine ⟨s₁, s, t, u, hinit, hs, hloaded, hbar, hrun, hend, fun hall => ?_⟩
  have hhigh : HighPort t := ⟨30, by decide, by decide, by rw [habar, hload]; decide⟩
  have hmapped := ht.mapped_of_reads (by rw [habar]; rfl) hend hall hhigh
  rw [habar] at hmapped
  exact hmapped hnone

end withController

end JurasOS
