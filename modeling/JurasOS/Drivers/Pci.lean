import JurasOS.Drivers.Ahci

/-!
# `pci.c`

The scan of the configuration space: buses, devices and functions, each mapped
before its header is read. An AHCI controller that is found is initialised.
-/

namespace JurasOS

open Machine

/-- `pci_device_header_t`, the fields that the scan reads. -/
structure PciDeviceHeader where
  deviceId : UInt16
  progInterface : UInt8
  subclass : UInt8
  classCode : UInt8

/-- The header at an address. -/
def readPciHeader (m : Mem) (a : UInt32) : PciDeviceHeader :=
  ⟨m.load16 (a + 2), m (a + 9), m (a + 10), m (a + 11)⟩

/-- A header that is there. -/
def PciDeviceHeader.present (header : PciDeviceHeader) : Bool :=
  header.deviceId ≠ 0 ∧ header.deviceId ≠ 0xFFFF

/-- Mass storage controller, Serial ATA, AHCI 1.0. -/
def PciDeviceHeader.ahci (header : PciDeviceHeader) : Bool :=
  header.classCode = 0x01 ∧ header.subclass = 0x06 ∧ header.progInterface = 0x01

/-- The start of the three functions of the scan: the page is mapped, and its header read. -/
def pciProbe (address : UInt32) : KernelM PciDeviceHeader := do
  ptmMapAddr address address true true
  modify (Kernel.emit (.pciHeader address))
  let s ← get
  pure (readPciHeader s.mem address)

/-- `pci_enumerate_function`. -/
def pciEnumerateFunction (fuel : ℕ) (deviceAddr function : UInt64) : KernelM PUnit := do
  let functionAddress := (deviceAddr + function <<< 12).toUInt32
  let header ← pciProbe functionAddress
  if header.present ∧ header.ahci then ahciDriverInit fuel functionAddress else pure ⟨⟩

/-- `pci_enumerate_device`. -/
def pciEnumerateDevice (fuel : ℕ) (busAddr device : UInt64) : KernelM PUnit := do
  let deviceAddress := busAddr + device <<< 15
  let header ← pciProbe deviceAddress.toUInt32
  if header.present then
    timesM 8 fun function => pciEnumerateFunction fuel deviceAddress (UInt64.ofNat function)
  else pure ⟨⟩

/-- `pci_enumerate_bus`. -/
def pciEnumerateBus (fuel : ℕ) (baseAddr bus : UInt64) : KernelM PUnit := do
  let busAddress := baseAddr + bus <<< 20
  let header ← pciProbe busAddress.toUInt32
  if header.present then timesM 32 fun device => pciEnumerateDevice fuel busAddress (UInt64.ofNat device)
  else pure ⟨⟩

/-- The number of allocation records of the MCFG. -/
def mcfgEntries (m : Mem) (mcfg : UInt32) : ℕ := ((m.load32 (mcfg + 4) - 44) / 16).toNat

/-- The address of the allocation record `i`. -/
def mcfgRecord (mcfg : UInt32) (i : ℕ) : UInt32 := mcfg + 44 + 16 * UInt32.ofNat i

/-- `start_bus` of the record at an address. -/
def startBus (m : Mem) (record : UInt32) : UInt8 := m (record + 10)

/-- `end_bus` of the record at an address. -/
def endBus (m : Mem) (record : UInt32) : UInt8 := m (record + 11)

/-- An iteration of the loop over the buses of a record, which is read each time. -/
def busStep (fuel : ℕ) (record : UInt32) (bus : UInt64) : KernelM (UInt64 ⊕ PUnit) := do
  let s ← get
  if bus < (endBus s.mem record).toUInt64 then
    pciEnumerateBus fuel (s.mem.load64 record) bus
    pure (.inl (bus + 1))
  else pure (.inr ⟨⟩)

/-- The body of the loop of `pci_enumerate`. `end_bus` is a byte, so there are less than 256 buses. -/
def pciEnumerateRecord (fuel : ℕ) (record : UInt32) : KernelM PUnit := do
  modify (Kernel.emit (.mcfgRecord record))
  let s ← get
  loopM .running (busStep fuel record) 256 (startBus s.mem record).toUInt64

/-- `pci_enumerate`. -/
def pciEnumerate (fuel : ℕ) (mcfg : UInt32) : KernelM PUnit := do
  modify (Kernel.emit (.sdtHeader mcfg))
  let s ← get
  timesM (mcfgEntries s.mem mcfg) fun i => pciEnumerateRecord fuel (mcfgRecord mcfg i)

/-! ### What the scan does -/

section DriverSteps

variable {R : Kernel → Kernel → Prop} [Std.Refl R] [IsTrans Kernel R]

theorem DriverSteps.pciProbe (h : DriverSteps R) (address : UInt32) : Along R (pciProbe address) :=
  (h.ptmMapAddr _ _ _ _).bind fun _ => (Along.modify (h.emit (by trivial))).bind fun _ =>
    Along.get.bind fun _ => Along.pure _

/-- The relation also allows calls of `ahci_driver_init`. -/
structure BusSteps (R : Kernel → Kernel → Prop) : Prop extends DriverSteps R where
  ahciInit : ∀ pciBaseAddr (s : Kernel), R s (s.emit (.ahciInit pciBaseAddr))

theorem BusSteps.pciEnumerateFunction (h : BusSteps R) (fuel : ℕ) (deviceAddr function : UInt64) :
    Along R (pciEnumerateFunction fuel deviceAddr function) := by
  refine (h.pciProbe _).bind fun _ => Along.ite (fun s => ?_) (Along.pure _)
  exact IsTrans.trans _ _ _ (h.ahciInit _ s) (h.ahciDriverInit_from fuel _ s)

theorem BusSteps.pciEnumerateDevice (h : BusSteps R) (fuel : ℕ) (busAddr device : UInt64) :
    Along R (pciEnumerateDevice fuel busAddr device) :=
  (h.pciProbe _).bind fun _ => (Along.timesM fun _ => h.pciEnumerateFunction fuel _ _).ite (Along.pure _)

theorem BusSteps.pciEnumerateBus (h : BusSteps R) (fuel : ℕ) (baseAddr bus : UInt64) :
    Along R (pciEnumerateBus fuel baseAddr bus) :=
  (h.pciProbe _).bind fun _ => (Along.timesM fun _ => h.pciEnumerateDevice fuel _ _).ite (Along.pure _)

theorem BusSteps.busStep (h : BusSteps R) (fuel : ℕ) (record : UInt32) (bus : UInt64) :
    Along R (busStep fuel record bus) :=
  Along.get.bind fun _ => ((h.pciEnumerateBus fuel _ _).bind fun _ => Along.pure _).ite (Along.pure _)

/-- A read of a firmware table. -/
def Event.OfTable : Event → Prop
  | .sdtHeader _ | .rsdtPointer _ | .mcfgRecord _ => True
  | _ => False

/-- The relation also allows reads of the firmware tables. -/
structure ScanSteps (R : Kernel → Kernel → Prop) : Prop extends BusSteps R where
  table : ∀ {e : Event}, e.OfTable → ∀ s, R s (s.emit e)

theorem ScanSteps.pciEnumerateRecord (h : ScanSteps R) (fuel : ℕ) (record : UInt32) :
    Along R (pciEnumerateRecord fuel record) :=
  (Along.modify (h.table (by trivial))).bind fun _ => Along.get.bind fun _ =>
    Along.loopM (h.busStep fuel record) 256 _

theorem ScanSteps.pciEnumerate (h : ScanSteps R) (fuel : ℕ) (mcfg : UInt32) :
    Along R (pciEnumerate fuel mcfg) :=
  (Along.modify (h.table (by trivial))).bind fun _ => Along.get.bind fun _ =>
    Along.timesM fun _ => h.pciEnumerateRecord fuel _

end DriverSteps

/-- The run goes on through the scan. -/
theorem scanSteps_goesOn : ScanSteps GoesOn where
  emit _ := emits_emit trivial
  change _ _ _ _ _ := Emits.of_trace rfl
  ahciInit _ := emits_emit trivial
  table _ := emits_emit trivial

/-! ### Records with buses -/

/-- Some record of the MCFG has a bus to scan. -/
def HasBus (m : Mem) (mcfg : UInt32) : Prop :=
  ∃ i < mcfgEntries m mcfg, startBus m (mcfgRecord mcfg i) < endBus m (mcfgRecord mcfg i)

section HasBus

variable {s : Kernel} {mcfg record : UInt32} {n : ℕ} (fuel : ℕ)

theorem busStep_of_not_lt (h : ¬ startBus s.mem record < endBus s.mem record) :
    busStep fuel record (startBus s.mem record).toUInt64 s = .ok (.inr ⟨⟩) s := by
  have hlt : ¬ (startBus s.mem record).toUInt64 < (endBus s.mem record).toUInt64 := by
    rw [UInt64.lt_iff_toNat_lt, UInt8.toNat_toUInt64, UInt8.toNat_toUInt64]
    rwa [UInt8.lt_iff_toNat_lt] at h
  rw [busStep, bind_of_ok (get_apply s), if_neg hlt, pure_apply]

/-- A record without a bus is only looked at. -/
theorem pciEnumerateRecord_of_not_lt (h : ¬ startBus s.mem record < endBus s.mem record) :
    pciEnumerateRecord fuel record s = .ok ⟨⟩ (s.emit (.mcfgRecord record)) := by
  obtain ⟨t, ht⟩ : ∃ t, t = s.emit (.mcfgRecord record) := ⟨_, rfl⟩
  have hmem : t.mem = s.mem := by rw [ht, Kernel.emit_mem]
  rw [← hmem] at h
  rw [pciEnumerateRecord, bind_of_ok (modify_apply ..), ← ht, bind_of_ok (get_apply t),
    show (256 : ℕ) = 255 + 1 from rfl, loopM, bind_of_ok (busStep_of_not_lt fuel h)]
  rfl

/-- So are records without a bus. -/
theorem pciEnumerateRecords_of_not_lt
    (h : ∀ i < n, ¬ startBus s.mem (mcfgRecord mcfg i) < endBus s.mem (mcfgRecord mcfg i)) :
    ∃ t, timesM n (fun i => pciEnumerateRecord fuel (mcfgRecord mcfg i)) s = .ok ⟨⟩ t ∧ Looks s t := by
  refine timesM_inv (P := fun _ t => Looks s t) (Std.Refl.refl s) fun i hi t ht => ?_
  have hnot := h i hi
  rw [← ht.mem] at hnot
  have hlook : Looks t (t.emit (.mcfgRecord (mcfgRecord mcfg i))) := looks_emit (by trivial) t
  exact ⟨_, pciEnumerateRecord_of_not_lt fuel hnot, ht.trans hlook⟩

/-- The scan of a bus starts with a call of `ptm_map_addr`. -/
theorem goesOn_pciEnumerateRecord (h : startBus s.mem record < endBus s.mem record) :
    ∃ addr, GoesOn ((s.emit (.mcfgRecord record)).emit (.mapAddr s.pd addr))
    (stop (pciEnumerateRecord fuel record s)) := by
  have hlt : (startBus s.mem record).toUInt64 < (endBus s.mem record).toUInt64 := by
    rw [UInt64.lt_iff_toNat_lt, UInt8.toNat_toUInt64, UInt8.toNat_toUInt64]
    rwa [UInt8.lt_iff_toNat_lt] at h
  obtain ⟨addr, haddr⟩ : ∃ addr, addr =
    (s.mem.load64 record + (startBus s.mem record).toUInt64 <<< 20).toUInt32 := ⟨_, rfl⟩
  refine ⟨addr, ?_⟩
  obtain ⟨t, ht⟩ : ∃ t, t = s.emit (.mcfgRecord record) := ⟨_, rfl⟩
  have hmem : t.mem = s.mem := by rw [ht, Kernel.emit_mem]
  have hpd : t.pd = s.pd := by rw [ht, Kernel.emit_pd]
  rw [pciEnumerateRecord, bind_of_ok (modify_apply ..), ← ht, bind_of_ok (get_apply t), hmem, ← hpd]
  refine Emits.trans ?_ (Along.stop_loopM (scanSteps_goesOn.busStep fuel record) 255 _ t)
  rw [busStep, bind_of_ok (get_apply t), hmem, if_pos hlt]
  refine Emits.trans ?_ (Along.stop_bind _ (fun _ => Along.pure _) t)
  rw [pciEnumerateBus, ← haddr]
  refine Emits.trans ?_ (Along.stop_bind _ (fun header => ?_) t)
  · rw [pciProbe]
    refine (scanSteps_goesOn.ptmMapAddr_from addr addr true true t).trans (Along.stop_bind _ (fun _ => ?_) t)
    exact (goesOn_emit _).bind fun _ => Along.get.bind fun _ => Along.pure _
  · exact (Along.timesM fun _ => scanSteps_goesOn.pciEnumerateDevice fuel _ _).ite (Along.pure _)

/-- `pci_enumerate` looks at the header of the MCFG, and goes over its records. -/
theorem pciEnumerate_eq (mcfg : UInt32) (s : Kernel) :
    pciEnumerate fuel mcfg s = timesM (mcfgEntries s.mem mcfg)
      (fun i => pciEnumerateRecord fuel (mcfgRecord mcfg i)) (s.emit (.sdtHeader mcfg)) := by
  rw [pciEnumerate, bind_of_ok (modify_apply ..), bind_of_ok (get_apply _), Kernel.emit_mem]

theorem pciEnumerate_of_not_hasBus (h : ¬ HasBus s.mem mcfg) :
    ∃ t, pciEnumerate fuel mcfg s = .ok ⟨⟩ t ∧ Looks s t := by
  have hheader : Looks s (s.emit (.sdtHeader mcfg)) := looks_emit (by trivial) s
  obtain ⟨t, hrun, ht⟩ := pciEnumerateRecords_of_not_lt (s := s.emit (.sdtHeader mcfg)) fuel
    fun i (hi : i < mcfgEntries s.mem mcfg) hlt => h ⟨i, hi, hlt⟩
  exact ⟨t, by rw [pciEnumerate_eq, hrun], hheader.trans ht⟩

/-- With a bus to scan, `pci_enumerate` calls `ptm_map_addr` before it has done more than looking. -/
theorem pciEnumerate_of_hasBus (h : HasBus s.mem mcfg) :
    ∃ t addr, Looks s t ∧ GoesOn (t.emit (.mapAddr t.pd addr)) (stop (pciEnumerate fuel mcfg s)) := by
  obtain ⟨i, ⟨hi, hlt⟩, hfirst⟩ : ∃ i, (i < mcfgEntries s.mem mcfg ∧
      startBus s.mem (mcfgRecord mcfg i) < endBus s.mem (mcfgRecord mcfg i)) ∧
      ∀ j < i, ¬ startBus s.mem (mcfgRecord mcfg j) < endBus s.mem (mcfgRecord mcfg j) := by
    classical
    refine ⟨Nat.find h, Nat.find_spec h, fun j hj hlt => ?_⟩
    exact Nat.find_min h hj ⟨lt_trans hj (Nat.find_spec h).1, hlt⟩
  have hheader : Looks s (s.emit (.sdtHeader mcfg)) := looks_emit (by trivial) s
  obtain ⟨t, ht, hrecords⟩ := pciEnumerateRecords_of_not_lt (s := s.emit (.sdtHeader mcfg)) fuel hfirst
  have hlooks := hheader.trans hrecords
  rw [← hlooks.mem] at hlt
  obtain ⟨addr, hmap⟩ := goesOn_pciEnumerateRecord fuel hlt
  have hlook : Looks t (t.emit (.mcfgRecord (mcfgRecord mcfg i))) := looks_emit (by trivial) t
  refine ⟨_, addr, hlooks.trans hlook, ?_⟩
  rw [pciEnumerate_eq]
  exact hmap.trans (Along.stop_timesM (fun _ => scanSteps_goesOn.pciEnumerateRecord fuel _) hi ht)

end HasBus

end JurasOS
