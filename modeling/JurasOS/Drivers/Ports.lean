import JurasOS.Drivers.Ahci
import JurasOS.Heap.Runs

/-!
# The probe of the ports

`ahci_driver_probe_ports` looks at the ports of the controller that are implemented,
and makes a record for each one with a drive. It counts the records in `port_count`,
a variable of its own, and looks for the slot of the next one in
`driver->port_count`, which it never changes.
-/

namespace JurasOS

open Machine

/-- Whether the port `i` is implemented. -/
def implements (portsImpl : UInt32) (i : ℕ) : Bool := portsImpl &&& (1 <<< UInt32.ofNat i) ≠ 0

/-- The type of a port, by what its registers hold. -/
def portTypeAt (m : Mem) (port : UInt32) : PortType :=
  let sataStatus := m.load32 (port + 0x28)
  if sataStatus &&& 0b111 ≠ 0x3 then .none
  else if (sataStatus >>> 8) &&& 0b111 ≠ 0x1 then .none
  else if m.load32 (port + 0x24) = 0xeb140101 then .satapi
  else if m.load32 (port + 0x24) = 0x00000101 then .sata
  else if m.load32 (port + 0x24) = 0x96690101 then .pm
  else if m.load32 (port + 0x24) = 0xc33c0101 then .semb
  else .none

/-- The port has a drive. -/
def HasDrive (m : Mem) (port : UInt32) : Prop := portTypeAt m port = .sata ∨ portTypeAt m port = .satapi

instance (m : Mem) (port : UInt32) : Decidable (HasDrive m port) := inferInstanceAs (Decidable (_ ∨ _))

/-- The implemented ports with a drive, in ascending order. -/
def drivePorts (m : Mem) (abar : UInt32) : List ℕ :=
  (List.range 32).filter fun i => implements (m.load32 (abar + 0x0C)) i ∧ HasDrive m (portAt abar i)

/-- An iteration of `ahci_driver_probe_ports`. -/
def probePort (portsImpl : UInt32) (i : ℕ) : KernelM PUnit := do
  if portsImpl &&& (1 <<< UInt32.ofNat i) ≠ 0 then
    let port := portAt (← get).ahciDriver.abar i
    let portType ← checkPortType port
    if portType = .sata ∨ portType = .satapi then ahciAddPort port portType
    else pure ⟨⟩
  else pure ⟨⟩

section probePort

variable {s t : Kernel} {portsImpl port : UInt32} {i : ℕ}

theorem ahciDriverProbePorts_eq (s : Kernel) :
    ahciDriverProbePorts s = timesM 32 (probePort (s.mem.load32 (s.ahciDriver.abar + 0x0C)))
      (s.emit (.hba (s.ahciDriver.abar + 0x0C))) := by
  have hread : hbaRead (s.ahciDriver.abar + 0x0C) s =
      .ok (s.mem.load32 (s.ahciDriver.abar + 0x0C)) (s.emit (.hba (s.ahciDriver.abar + 0x0C))) := rfl
  rw [ahciDriverProbePorts, bind_of_ok (get_apply s), bind_of_ok hread]
  rfl

/-- From `s` to `t` the status of a port was read, and perhaps its signature. -/
def ReadsPort (port : UInt32) (s t : Kernel) : Prop :=
  t = s.emit (.hba (port + 0x28)) ∨ t = (s.emit (.hba (port + 0x28))).emit (.hba (port + 0x24))

/-- `check_port_type` reads the registers of the port. -/
theorem checkPortType_ok (port : UInt32) (s : Kernel) :
    ∃ t, checkPortType port s = .ok (portTypeAt s.mem port) t ∧ ReadsPort port s t := by
  have hread : ∀ a (u : Kernel), hbaRead a u = .ok (u.mem.load32 a) (u.emit (.hba a)) := fun _ _ => rfl
  rw [checkPortType, bind_of_ok (hread _ _)]
  by_cases hdetected : s.mem.load32 (port + 0x28) &&& 0b111 ≠ 0x3
  · refine ⟨_, ?_, Or.inl rfl⟩
    rw [if_pos hdetected, portTypeAt, if_pos hdetected, pure_apply]
  · by_cases hactive : (s.mem.load32 (port + 0x28) >>> 8) &&& 0b111 ≠ 0x1
    · refine ⟨_, ?_, Or.inl rfl⟩
      rw [if_neg hdetected, if_pos hactive, portTypeAt, if_neg hdetected, if_pos hactive, pure_apply]
    · refine ⟨_, ?_, Or.inr rfl⟩
      rw [if_neg hdetected, if_neg hactive, portTypeAt, if_neg hdetected, if_neg hactive,
        bind_of_ok (hread _ _), Kernel.emit_mem]
      split_ifs <;> rfl

theorem ReadsPort.goesOn (h : ReadsPort port s t) : GoesOn (s.emit (.hba (port + 0x28))) t := by
  rcases h with rfl | rfl
  · exact Emits.refl _
  · exact emits_emit trivial _

theorem ReadsPort.looks (h : ReadsPort port s t) : Looks s t := by
  have hfirst : Looks s (s.emit (.hba (port + 0x28))) := looks_emit (by trivial) s
  rcases h with rfl | rfl
  · exact hfirst
  · exact hfirst.trans (looks_emit (by trivial) _)

/-- Nothing of note is done, and the driver keeps its registers and its count. -/
def KeepsCount (s t : Kernel) : Prop :=
  t.trace = s.trace ∧ t.ahciDriver.abar = s.ahciDriver.abar ∧ t.ahciDriver.portCount = s.ahciDriver.portCount

instance : Std.Refl KeepsCount := ⟨fun _ => ⟨rfl, rfl, rfl⟩⟩

instance : IsTrans Kernel KeepsCount :=
  ⟨fun _ _ _ h h' => ⟨h'.1.trans h.1, h'.2.1.trans h.2.1, h'.2.2.trans h.2.2⟩⟩

/-- The count is not what `ahci_driver_probe_ports` counts in. -/
theorem ahciAddPort_keepsCount (port : UInt32) (portType : PortType) :
    Along KeepsCount (ahciAddPort port portType) := by
  have hstore : ∀ a v, Along KeepsCount (store32 a v) := fun a v => Along.modify fun _ => ⟨rfl, rfl, rfl⟩
  refine (kmalloc_along (fun _ _ => ⟨rfl, rfl, rfl⟩) 16).bind fun record => ?_
  refine (Along.modify fun _ => ⟨rfl, rfl, rfl⟩).bind fun _ => Along.get.bind fun _ => ?_
  exact (hstore _ _).bind fun _ => (hstore _ _).bind fun _ => Along.modify fun _ => ⟨rfl, rfl, rfl⟩

theorem probePort_of_not (h : implements portsImpl i = false) (s : Kernel) :
    probePort portsImpl i s = .ok ⟨⟩ s := by
  rw [probePort, if_neg (by simpa [implements] using h), pure_apply]

theorem probePort_of_implements (h : implements portsImpl i = true) (s : Kernel) :
    ∃ t, ReadsPort (portAt s.ahciDriver.abar i) s t ∧
      probePort portsImpl i s = if HasDrive s.mem (portAt s.ahciDriver.abar i) then
        ahciAddPort (portAt s.ahciDriver.abar i) (portTypeAt s.mem (portAt s.ahciDriver.abar i)) t
      else .ok ⟨⟩ t := by
  obtain ⟨t, hrun, ht⟩ := checkPortType_ok (portAt s.ahciDriver.abar i) s
  refine ⟨t, ht, ?_⟩
  rw [probePort, if_pos (by simpa [implements] using h), bind_of_ok (get_apply s), bind_of_ok hrun]
  by_cases hdrive : HasDrive s.mem (portAt s.ahciDriver.abar i)
  · rw [if_pos hdrive]
    unfold HasDrive at hdrive
    rw [if_pos hdrive]
  · rw [if_neg hdrive]
    unfold HasDrive at hdrive
    rw [if_neg hdrive, pure_apply]

/-- An iteration reads the registers of its port, if that is implemented, and keeps the count. -/
theorem probePort_stop (portsImpl : UInt32) (i : ℕ) (s : Kernel) :
    ∃ t, (if implements portsImpl i then ReadsPort (portAt s.ahciDriver.abar i) s t else t = s) ∧
      KeepsCount t (stop (probePort portsImpl i s)) := by
  cases himpl : implements portsImpl i with
  | false =>
    refine ⟨s, rfl, ?_⟩
    rw [probePort_of_not himpl]
    exact Std.Refl.refl s
  | true =>
    obtain ⟨t, ht, hrun⟩ := probePort_of_implements himpl s
    refine ⟨t, ht, ?_⟩
    rw [hrun]
    split
    · exact ahciAddPort_keepsCount _ _ t
    · exact Std.Refl.refl t

/-- The probe never changes the count of the driver. -/
def SameCount (s t : Kernel) : Prop :=
  t.ahciDriver.abar = s.ahciDriver.abar ∧ t.ahciDriver.portCount = s.ahciDriver.portCount

instance : Std.Refl SameCount := ⟨fun _ => ⟨rfl, rfl⟩⟩

instance : IsTrans Kernel SameCount := ⟨fun _ _ _ h h' => ⟨h'.1.trans h.1, h'.2.trans h.2⟩⟩

theorem probePort_sameCount (portsImpl : UInt32) (i : ℕ) : Along SameCount (probePort portsImpl i) := by
  intro s
  obtain ⟨t, ht, hkeeps⟩ := probePort_stop portsImpl i s
  have hst : SameCount s t := by
    split at ht
    · rw [SameCount, ht.looks.1]
      exact ⟨rfl, rfl⟩
    · rw [ht]
      exact Std.Refl.refl s
  exact IsTrans.trans s t _ hst hkeeps.2

theorem ahciDriverProbePorts_sameCount : Along SameCount ahciDriverProbePorts := by
  intro s
  rw [ahciDriverProbePorts_eq]
  exact Along.timesM (probePort_sameCount _) (s.emit (.hba (s.ahciDriver.abar + 0x0C)))

/-- Without a drive the probe only looks. -/
theorem ahciDriverProbePorts_of_none (h : drivePorts s.mem s.ahciDriver.abar = []) :
    ∃ t, ahciDriverProbePorts s = .ok ⟨⟩ t ∧ Looks s t := by
  have hstart : Looks s (s.emit (.hba (s.ahciDriver.abar + 0x0C))) := looks_emit (by trivial) s
  rw [ahciDriverProbePorts_eq]
  refine timesM_inv (P := fun _ t => Looks s t) hstart fun i hi t ht => ?_
  cases himpl : implements (s.mem.load32 (s.ahciDriver.abar + 0x0C)) i with
  | false => exact ⟨t, probePort_of_not himpl t, ht⟩
  | true =>
    have habar : t.ahciDriver.abar = s.ahciDriver.abar := by rw [ht.1]
    have hnone : ¬ HasDrive s.mem (portAt s.ahciDriver.abar i) := by
      have hnot := List.filter_eq_nil_iff.mp h i (List.mem_range.mpr hi)
      simpa [himpl] using hnot
    obtain ⟨u, hu, hrun⟩ := probePort_of_implements himpl t
    rw [ht.mem, habar, if_neg hnone] at hrun
    exact ⟨u, hrun, ht.trans hu.looks⟩

/-- With the first port only, the probe is that of this port. -/
theorem ahciDriverProbePorts_of_one (h : s.mem.load32 (s.ahciDriver.abar + 0x0C) = 1) :
    ∃ t, Looks s t ∧ ahciDriverProbePorts s =
      if HasDrive s.mem (portAt s.ahciDriver.abar 0) then
        ahciAddPort (portAt s.ahciDriver.abar 0) (portTypeAt s.mem (portAt s.ahciDriver.abar 0)) t
      else .ok ⟨⟩ t := by
  have hothers : ∀ i < 31, implements 1 (i + 1) = false := by decide
  have hstart : Looks s (s.emit (.hba (s.ahciDriver.abar + 0x0C))) := looks_emit (by trivial) s
  obtain ⟨t, ht, hrun⟩ := probePort_of_implements (by decide : implements 1 0 = true)
    (s.emit (.hba (s.ahciDriver.abar + 0x0C)))
  refine ⟨t, hstart.trans ht.looks, ?_⟩
  rw [ahciDriverProbePorts_eq, h, timesM_first (fun i hi t => probePort_of_not (hothers i hi) t), hrun,
    Kernel.emit_mem]
  rfl

end probePort

/-! ### The records -/

/-- The record in the slot `k`. -/
def Kernel.portRecord (s : Kernel) (k : ℕ) : UInt32 := s.ahciDriver.ports (UInt32.ofNat k)

/-- The records of the driver are those of the ports: one for each, with its registers and its number. -/
structure PortRecords (s : Kernel) (ports : List ℕ) : Prop where
  count : s.ahciDriver.portCount.toNat = ports.length
  distinct : ((List.range ports.length).map s.portRecord).Nodup
  hbaPort : ∀ k (hk : k < ports.length), s.mem.load32 (s.portRecord k) = portAt s.ahciDriver.abar ports[k]
  portNum : ∀ k < ports.length, s.mem (s.portRecord k + 12) = UInt8.ofNat k

/-- The call of `ahci_configure_port` that an event says. -/
def Event.configured : Event → Option UInt32
  | .configurePort port => some port
  | _ => none

/-- The calls of `ahci_configure_port`, the latest first. -/
def Kernel.configured (s : Kernel) : List UInt32 := s.trace.filterMap Event.configured

/-- The loop of `ahci_driver_init` configures the first `n` records, each once. -/
def ConfiguresEach (fuel n : ℕ) (s : Kernel) : Prop :=
  ∃ t, ahciConfigurePorts fuel s = .ok ⟨⟩ t ∧
    t.configured = ((List.range n).map s.portRecord).reverse ++ s.configured

/-- Every drive of the controller has its record, and is configured. -/
def FindsDrives (fuel : ℕ) (s : Kernel) : Prop :=
  ∃ t, ahciDriverProbePorts s = .ok ⟨⟩ t ∧ PortRecords t (drivePorts s.mem s.ahciDriver.abar) ∧
    ConfiguresEach fuel (drivePorts s.mem s.ahciDriver.abar).length t

section FindsDrives

variable {s : Kernel}

/-- With a drive, the count is wrong. -/
theorem not_findsDrives (hzero : s.ahciDriver.portCount = 0) (h : drivePorts s.mem s.ahciDriver.abar ≠ [])
    (fuel : ℕ) : ¬ FindsDrives fuel s := by
  rintro ⟨t, hrun, hrecords, -⟩
  have hcount : t.ahciDriver.portCount = 0 := (ahciDriverProbePorts_sameCount.of_ok hrun).2.trans hzero
  have hlength := hrecords.count
  rw [hcount] at hlength
  exact h (List.length_eq_zero_iff.mp hlength.symm)

/-- **The drives of a controller have their records, and are configured, exactly when** there are none: from a
count of zero the count of the driver stays zero. -/
theorem findsDrives_iff (hzero : s.ahciDriver.portCount = 0) (fuel : ℕ) :
    FindsDrives fuel s ↔ drivePorts s.mem s.ahciDriver.abar = [] := by
  constructor
  · intro hfinds
    by_contra hdrives
    exact not_findsDrives hzero hdrives fuel hfinds
  · intro hnone
    obtain ⟨t, hrun, ht⟩ := ahciDriverProbePorts_of_none hnone
    have hcount : t.ahciDriver.portCount = 0 := by rw [ht.1, hzero]
    refine ⟨t, hrun, ?_, ?_⟩
    · rw [hnone]
      exact ⟨by rw [hcount]; rfl, List.nodup_nil, fun k hk => absurd hk (Nat.not_lt_zero k),
        fun k hk => absurd hk (Nat.not_lt_zero k)⟩
    · rw [hnone]
      exact ⟨t, ahciConfigurePorts_of_zero hcount fuel, rfl⟩

/-- The drives are in the registers of the controller. -/
theorem drivePorts_congr {m m' : Mem} {abar : UInt32} (h : Set.EqOn m m' (span abar 0x1100)) :
    drivePorts m abar = drivePorts m' abar := by
  have hload : ∀ offset : UInt32, offset.toNat + 4 ≤ 0x1100 →
      m.load32 (abar + offset) = m'.load32 (abar + offset) :=
    fun offset hoffset => Mem.load32_congr (h.mono (span_offset_subset hoffset))
  unfold drivePorts
  refine List.filter_congr fun i hi => ?_
  rw [List.mem_range] at hi
  have hregister : ∀ offset : UInt32, offset.toNat + 4 ≤ 0x80 →
      m.load32 (portAt abar i + offset) = m'.load32 (portAt abar i + offset) := by
    intro offset hoffset
    rw [portAt, UInt32.add_assoc, UInt32.add_assoc]
    refine hload _ ?_
    rw [UInt32.toNat_add, UInt32.toNat_add, UInt32.toNat_mul, UInt32.toNat_ofNat']
    show (256 + (128 * (i % 2 ^ 32) % 2 ^ 32 + offset.toNat) % 2 ^ 32) % 2 ^ 32 + 4 ≤ 0x1100
    omega
  have htype : portTypeAt m (portAt abar i) = portTypeAt m' (portAt abar i) := by
    unfold portTypeAt
    rw [hregister 0x28 (by decide), hregister 0x24 (by decide)]
  refine decide_eq_decide.mpr ?_
  rw [hload 0x0C (by decide), HasDrive, HasDrive, htype]

end FindsDrives

/-- A heap that is only looked at stays as it is. -/
theorem HeapAt.looks {H : HeapRegion} {s t : Kernel} {used : UInt32} (h : HeapAt H s used) (hst : Looks s t) :
    HeapAt H t used := by
  obtain ⟨hkheap, hbitmap, hsize, hused, hgranularity, hstart⟩ := h
  rw [hst.1]
  exact ⟨hkheap, hbitmap, hsize, hused, hgranularity, hstart⟩

/-- The record is written to the block that the heap returns. -/
theorem ahciAddPort_of_kmalloc {s u : Kernel} {record : UInt32} (h : kmalloc 16 s = .ok record u)
    (port : UInt32) (portType : PortType) :
    ∃ t, ahciAddPort port portType s = .ok ⟨⟩ t ∧ t.pd = u.pd ∧ Set.EqOn t.mem u.mem (span record 16)ᶜ := by
  rw [ahciAddPort, bind_of_ok h]
  refine ⟨_, rfl, rfl, fun a ha => ?_⟩
  show (((u.mem.store32 ((if u.ahciDriver.portCount.toUInt32 = u.ahciDriver.portCount.toUInt32 then record
    else _) + 4) portType.value).store32 (if _ = _ then record else _) port).store8 ((if _ = _ then record
    else _) + 12) u.ahciDriver.freePortCount) a = u.mem a
  rw [if_pos rfl]
  have hrecord : a ∉ span (record + 0) 4 := fun hmem => ha (span_offset_subset (by decide) hmem)
  have htype : a ∉ span (record + 4) 4 := fun hmem => ha (span_offset_subset (by decide) hmem)
  rw [UInt32.add_zero] at hrecord
  rw [Mem.store8_of_ne, Mem.eqOn_store32 _ _ _ hrecord, Mem.eqOn_store32 _ _ _ htype]
  rintro rfl
  exact ha (add_ofNat_mem_span (i := 12) (by decide) (by decide))

/-- A heap with room for the record has it afterwards, and nothing else is written. -/
theorem HeapAt.ahciAddPort_ok {H : HeapRegion} {s : Kernel} {used : UInt32} (h : HeapAt H s used) {j : ℕ}
    (hroom : Alloc.Room (H.bitmap.bits s.mem) H.blocks (H.blocksOf (16 : UInt32).toNat) j) (port : UInt32)
    (portType : PortType) : ∃ t, ahciAddPort port portType s = .ok ⟨⟩ t ∧ t.pd = s.pd ∧
      Set.EqOn t.mem s.mem (span H.addr (28 + H.bitmapBytes + H.size.toNat))ᶜ := by
  obtain ⟨i, hcall, hi, -⟩ := h.kmalloc (by decide) hroom
  obtain ⟨-, -, hmark⟩ := h.kmallocMark hi
  obtain ⟨t, hrun, hpd, hmem⟩ := ahciAddPort_of_kmalloc hcall port portType
  refine ⟨t, hrun, hpd, fun a ha => ?_⟩
  have hend := H.end_le
  have hsize := H.size_le hi
  have hstart : H.start = H.addr.toNat + 28 + H.bitmapBytes := rfl
  have hptr := H.toNat_ptr (i := i) (by omega)
  have hat : H.blockAt i = H.start + i * H.granularity.toNat := rfl
  have hlen : (16 : UInt32).toNat = 16 := rfl
  refine (hmem fun hin => ha ?_).trans (hmark fun hin => ha (span_mono (by omega) hin))
  rw [mem_span_iff (by omega)] at hin ⊢
  omega

/-! ### A controller with a port -/

/-- The registers of a controller at `0x200000` with one port, of a SATA drive. The low byte of the status of
the port is `status`. -/
def driveMem (status : UInt8) : Mem := fun a =>
  if a = 0x200128 then status
  else if a = 0x20000C ∨ a = 0x200124 ∨ a = 0x200125 ∨ a = 0x200129 then 1
  else 0

/-- A kernel with a new heap, and a driver that was not used before. -/
def driveKernel (status : UInt8) : Kernel :=
  kheapAdd 0x100000 64 4
    { Kernel.loaded with
      mem := driveMem status, ahciDriver := { Kernel.loaded.ahciDriver with abar := 0x200000 } }

section driveKernel

variable {status : UInt8}

theorem drivePorts_driveKernel (status : UInt8) :
    drivePorts (driveKernel status).mem 0x200000 = drivePorts (driveMem status) 0x200000 := by
  refine drivePorts_congr ((eqOn_kheapAdd (by decide) _).mono (Set.disjoint_left.mp ?_))
  exact disjoint_span (by decide) (by decide) (Or.inr (by decide))

/-- Without a detected device no port has a drive. -/
theorem findsDrives_driveKernel : FindsDrives 1 (driveKernel 0x10) :=
  (findsDrives_iff rfl 1).mpr ((drivePorts_driveKernel 0x10).trans (by decide))

theorem heapAt_driveKernel (status : UInt8) : HeapAt smallHeap (driveKernel status) 0 ∧
    ∀ f < smallHeap.blocks, smallHeap.bitmap.bits (driveKernel status).mem f = false :=
    kheapAdd_ok smallHeap _

theorem room_driveKernel (status : UInt8) :
    Alloc.Room (smallHeap.bitmap.bits (driveKernel status).mem) smallHeap.blocks
      (smallHeap.blocksOf (16 : UInt32).toNat) 0 :=
  ⟨by decide, fun k _ hk => (heapAt_driveKernel status).2 k (lt_trans hk (by decide))⟩

/-- With one drive, and room for its record, the probe comes to its end. -/
theorem ahciDriverProbePorts_driveKernel : ∃ t, ahciDriverProbePorts (driveKernel 0x13) = .ok ⟨⟩ t := by
  have hload : (driveKernel 0x13).mem.load32 ((driveKernel 0x13).ahciDriver.abar + 0x0C) = 1 :=
    (Mem.load32_congr ((eqOn_kheapAdd (by decide) _).mono (Set.disjoint_left.mp
      (disjoint_span (by decide) (by decide) (Or.inr (by decide)))))).trans (by decide)
  obtain ⟨s, hs, hrun⟩ := ahciDriverProbePorts_of_one hload
  have hroom := room_driveKernel 0x13
  rw [← hs.mem] at hroom
  rw [hrun]
  split
  · obtain ⟨t, hadd, -⟩ := ((heapAt_driveKernel 0x13).1.looks hs).ahciAddPort_ok hroom
      (portAt (driveKernel 0x13).ahciDriver.abar 0)
      (portTypeAt (driveKernel 0x13).mem (portAt (driveKernel 0x13).ahciDriver.abar 0))
    exact ⟨t, hadd⟩
  · exact ⟨s, rfl⟩

/-- With a drive, and a heap with room for its record, the probe ends and counts no port. -/
theorem findsDrives_uncounted : HasRoom smallHeap (driveKernel 0x13) 16 ∧
    drivePorts (driveKernel 0x13).mem (driveKernel 0x13).ahciDriver.abar = [0] ∧
    (∃ t, ahciDriverProbePorts (driveKernel 0x13) = .ok ⟨⟩ t ∧ t.ahciDriver.portCount = 0) ∧
    ∀ fuel, ¬ FindsDrives fuel (driveKernel 0x13) := by
  have hdrives : drivePorts (driveKernel 0x13).mem (driveKernel 0x13).ahciDriver.abar = [0] :=
    (drivePorts_driveKernel 0x13).trans (by decide)
  obtain ⟨t, hrun⟩ := ahciDriverProbePorts_driveKernel
  refine ⟨⟨0, ?_⟩, hdrives, ⟨t, hrun, ?_⟩, fun fuel => not_findsDrives rfl (by rw [hdrives]; simp) fuel⟩
  · rw [(heapAt_driveKernel 0x13).1.bitmap, smallHeap.bitmap_length]
    exact room_driveKernel 0x13
  · exact (ahciDriverProbePorts_sameCount.of_ok hrun).2

end driveKernel

end JurasOS
