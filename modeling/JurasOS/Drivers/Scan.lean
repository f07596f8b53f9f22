import JurasOS.Drivers.Pci
import JurasOS.Drivers.Ports
import JurasOS.Machine.Output

/-!
# The controllers that the scan finds

A record of the MCFG gives the functions of its buses an address each. The scan
leaves out the last bus of a record, and a bus whose first device is not there:
`scanTable` lists the controllers that it comes to, each once. While the
configuration space and the MCFG hold still, `pci_enumerate` initialises those.
-/

namespace JurasOS

open Machine

/-! ### Functions and their addresses -/

/-- A function of the configuration space, by the number of its allocation record. -/
structure PciSlot where
  record : ℕ
  bus : ℕ
  device : ℕ
  function : ℕ

/-- The address of a function of the buses at `base`. -/
def functionAddress (base : UInt64) (bus device function : ℕ) : ℕ :=
  base.toNat + bus * 2 ^ 20 + device * 2 ^ 15 + function * 2 ^ 12

section functionAddress

variable {bus device function : ℕ} (base : UInt64)

/-- A small number, shifted by as many bits as the scan shifts by. -/
theorem toNat_ofNat_shiftLeft {n : ℕ} {k : UInt64} (hn : n < 2 ^ 8) (hk : k.toNat ≤ 20) :
    (UInt64.ofNat n <<< k).toNat = n * 2 ^ k.toNat := by
  have hlt : n * 2 ^ k.toNat < 2 ^ 8 * 2 ^ 20 :=
    Nat.mul_lt_mul_of_lt_of_le hn (Nat.pow_le_pow_right (by decide) hk) (by decide)
  rw [UInt64.toNat_shiftLeft, UInt64.toNat_ofNat', Nat.mod_eq_of_lt (by omega : n < 2 ^ 64),
    Nat.mod_eq_of_lt (by omega : k.toNat < 64), Nat.shiftLeft_eq, Nat.mod_eq_of_lt (by omega)]

/-- The sums of the scan come to the address of the function. -/
theorem toUInt32_function (hbus : bus < 2 ^ 8) (hdevice : device < 2 ^ 5) (hfunction : function < 2 ^ 3) :
    (base + UInt64.ofNat bus <<< 20 + UInt64.ofNat device <<< 15 + UInt64.ofNat function <<< 12).toUInt32 =
      UInt32.ofNat (functionAddress base bus device function) := by
  have hb : (UInt64.ofNat bus <<< 20).toNat = bus * 2 ^ 20 := toNat_ofNat_shiftLeft hbus (by decide)
  have hd : (UInt64.ofNat device <<< 15).toNat = device * 2 ^ 15 :=
    toNat_ofNat_shiftLeft (by omega) (by decide)
  have hf : (UInt64.ofNat function <<< 12).toNat = function * 2 ^ 12 :=
    toNat_ofNat_shiftLeft (by omega) (by decide)
  rw [← UInt32.toNat_inj, UInt64.toNat_toUInt32, UInt64.toNat_add, UInt64.toNat_add, UInt64.toNat_add, hb,
    hd, hf, UInt32.toNat_ofNat', functionAddress]
  omega

theorem toUInt32_device (hbus : bus < 2 ^ 8) (hdevice : device < 2 ^ 5) :
    (base + UInt64.ofNat bus <<< 20 + UInt64.ofNat device <<< 15).toUInt32 =
      UInt32.ofNat (functionAddress base bus device 0) := by
  rw [← toUInt32_function base hbus hdevice (by decide : 0 < 2 ^ 3)]
  simp

theorem toUInt32_bus (hbus : bus < 2 ^ 8) :
    (base + UInt64.ofNat bus <<< 20).toUInt32 = UInt32.ofNat (functionAddress base bus 0 0) := by
  rw [← toUInt32_device base hbus (by decide : 0 < 2 ^ 5)]
  simp

end functionAddress

/-- The address of the header of a function, as the MCFG has it. -/
def PciSlot.address (m : Mem) (mcfg : UInt32) (slot : PciSlot) : UInt32 :=
  UInt32.ofNat (functionAddress (m.load64 (mcfgRecord mcfg slot.record)) slot.bus slot.device slot.function)

/-- The header of a function. -/
def PciSlot.header (m : Mem) (mcfg : UInt32) (slot : PciSlot) : PciDeviceHeader :=
  readPciHeader m (slot.address m mcfg)

/-- The first function of the device. -/
def PciSlot.ofDevice (slot : PciSlot) : PciSlot := { slot with function := 0 }

/-- The first function of the first device of the bus. -/
def PciSlot.ofBus (slot : PciSlot) : PciSlot := { slot with device := 0, function := 0 }

/-- The function is on a bus of its record, the last one included. -/
structure PciSlot.InTable (m : Mem) (mcfg : UInt32) (slot : PciSlot) : Prop where
  record : slot.record < mcfgEntries m mcfg
  start : (startBus m (mcfgRecord mcfg slot.record)).toNat ≤ slot.bus
  last : slot.bus ≤ (endBus m (mcfgRecord mcfg slot.record)).toNat
  device : slot.device < 32
  function : slot.function < 8

/-- An AHCI controller, of a device with a first function. -/
structure PciSlot.Controller (m : Mem) (mcfg : UInt32) (slot : PciSlot) : Prop where
  inTable : slot.InTable m mcfg
  device_present : (slot.ofDevice.header m mcfg).present
  present : (slot.header m mcfg).present
  ahci : (slot.header m mcfg).ahci

/-- The scan comes to the bus of the function: it is not the last one, and its first device is there. -/
def PciSlot.Reached (m : Mem) (mcfg : UInt32) (slot : PciSlot) : Prop :=
  slot.bus < (endBus m (mcfgRecord mcfg slot.record)).toNat ∧ (slot.ofBus.header m mcfg).present

/-! ### The list of the scan -/

section scanTable

variable (m : Mem) (mcfg : UInt32)

/-- The controller of a function, if it is one. -/
def scanFunction (slot : PciSlot) : List PciSlot :=
  if (slot.header m mcfg).present ∧ (slot.header m mcfg).ahci then [slot] else []

/-- The controllers of a device. -/
def scanDevice (record bus device : ℕ) : List PciSlot :=
  if (PciSlot.header m mcfg ⟨record, bus, device, 0⟩).present then
    (List.range 8).flatMap fun function => scanFunction m mcfg ⟨record, bus, device, function⟩
  else []

/-- The controllers of a bus. -/
def scanBus (record bus : ℕ) : List PciSlot :=
  if (PciSlot.header m mcfg ⟨record, bus, 0, 0⟩).present then (List.range 32).flatMap
    (scanDevice m mcfg record bus) else []

/-- The controllers of a record. -/
def scanRecord (record : ℕ) : List PciSlot :=
  let start := (startBus m (mcfgRecord mcfg record)).toNat
  (List.range ((endBus m (mcfgRecord mcfg record)).toNat - start)).flatMap fun i =>
    scanBus m mcfg record (start + i)

/-- The controllers that the scan comes to. -/
def scanTable : List PciSlot := (List.range (mcfgEntries m mcfg)).flatMap (scanRecord m mcfg)

end scanTable

section scanTable

variable {m : Mem} {mcfg : UInt32} {slot : PciSlot} {record bus device : ℕ}

theorem mem_scanFunction {slot' : PciSlot} :
    slot ∈ scanFunction m mcfg slot' ↔ ((slot'.header m mcfg).present ∧ (slot'.header m mcfg).ahci) ∧
    slot = slot' := by
  rw [scanFunction, List.mem_ite_nil_right, List.mem_singleton]

theorem mem_scanDevice : slot ∈ scanDevice m mcfg record bus device ↔
    (PciSlot.header m mcfg ⟨record, bus, device, 0⟩).present ∧
    ∃ function < 8, slot ∈ scanFunction m mcfg ⟨record, bus, device, function⟩ := by
  simp only [scanDevice, List.mem_ite_nil_right, List.mem_flatMap, List.mem_range]

theorem mem_scanBus : slot ∈ scanBus m mcfg record bus ↔ (PciSlot.header m mcfg ⟨record, bus, 0, 0⟩).present ∧
    ∃ device < 32, slot ∈ scanDevice m mcfg record bus device := by
  simp only [scanBus, List.mem_ite_nil_right, List.mem_flatMap, List.mem_range]

theorem mem_scanRecord : slot ∈ scanRecord m mcfg record ↔
    ∃ bus, (startBus m (mcfgRecord mcfg record)).toNat ≤ bus ∧
    bus < (endBus m (mcfgRecord mcfg record)).toNat ∧ slot ∈ scanBus m mcfg record bus := by
  simp only [scanRecord, List.mem_flatMap, List.mem_range]
  constructor
  · rintro ⟨i, hi, hslot⟩
    exact ⟨_, Nat.le_add_right _ i, by omega, hslot⟩
  · rintro ⟨bus, hstart, hend, hslot⟩
    refine ⟨bus - (startBus m (mcfgRecord mcfg record)).toNat, by omega, ?_⟩
    rwa [Nat.add_sub_cancel' hstart]

/-- **The scan comes to the controllers** on the buses that it comes to. -/
theorem mem_scanTable : slot ∈ scanTable m mcfg ↔ slot.Controller m mcfg ∧ slot.Reached m mcfg := by
  rw [scanTable, List.mem_flatMap]
  constructor
  · rintro ⟨record, hrecord, hslot⟩
    obtain ⟨bus, hstart, hend, hslot⟩ := mem_scanRecord.mp hslot
    obtain ⟨hbus, device, hdevice, hslot⟩ := mem_scanBus.mp hslot
    obtain ⟨hfirst, function, hfunction, hslot⟩ := mem_scanDevice.mp hslot
    obtain ⟨⟨hpresent, hahci⟩, rfl⟩ := mem_scanFunction.mp hslot
    exact ⟨⟨⟨List.mem_range.mp hrecord, hstart, hend.le, hdevice, hfunction⟩, hfirst, hpresent, hahci⟩,
      hend, hbus⟩
  · rintro ⟨⟨⟨hrecord, hstart, -, hdevice, hfunction⟩, hfirst, hpresent, hahci⟩, hend, hbus⟩
    refine ⟨slot.record, List.mem_range.mpr hrecord, mem_scanRecord.mpr ⟨slot.bus, hstart, hend, ?_⟩⟩
    refine mem_scanBus.mpr ⟨hbus, slot.device, hdevice,
      mem_scanDevice.mpr ⟨hfirst, slot.function, hfunction, ?_⟩⟩
    exact mem_scanFunction.mpr ⟨⟨hpresent, hahci⟩, rfl⟩

/-- Each of them says which device it is of. -/
theorem eq_of_mem_scanDevice (h : slot ∈ scanDevice m mcfg record bus device) :
    slot.record = record ∧ slot.bus = bus ∧ slot.device = device := by
  obtain ⟨-, function, -, hslot⟩ := mem_scanDevice.mp h
  rw [(mem_scanFunction.mp hslot).2]
  exact ⟨rfl, rfl, rfl⟩

theorem eq_of_mem_scanBus (h : slot ∈ scanBus m mcfg record bus) : slot.record = record ∧ slot.bus = bus := by
  obtain ⟨-, device, -, hslot⟩ := mem_scanBus.mp h
  obtain ⟨hrecord, hbus, -⟩ := eq_of_mem_scanDevice hslot
  exact ⟨hrecord, hbus⟩

theorem nodup_scanFunction (slot : PciSlot) : (scanFunction m mcfg slot).Nodup := by
  rw [scanFunction]
  split
  · exact List.nodup_singleton slot
  · exact List.nodup_nil

theorem nodup_scanDevice (record bus device : ℕ) : (scanDevice m mcfg record bus device).Nodup := by
  rw [scanDevice]
  split
  · refine nodup_flatMap_of_key PciSlot.function List.nodup_range (fun _ _ =>
      nodup_scanFunction _) fun function _ slot hslot => ?_
    rw [(mem_scanFunction.mp hslot).2]
  · exact List.nodup_nil

theorem nodup_scanBus (record bus : ℕ) : (scanBus m mcfg record bus).Nodup := by
  rw [scanBus]
  split
  · exact nodup_flatMap_of_key PciSlot.device List.nodup_range (fun _ _ => nodup_scanDevice ..)
      fun device _ slot hslot => (eq_of_mem_scanDevice hslot).2.2
  · exact List.nodup_nil

theorem nodup_scanRecord (record : ℕ) : (scanRecord m mcfg record).Nodup := by
  rw [scanRecord]
  refine nodup_flatMap_of_key (fun slot => slot.bus - (startBus m (mcfgRecord mcfg record)).toNat)
    List.nodup_range
    (fun _ _ => nodup_scanBus ..) fun i _ slot hslot => ?_
  rw [(eq_of_mem_scanBus hslot).2]
  exact Nat.add_sub_cancel_left ..

/-- **And to each of them once.** -/
theorem nodup_scanTable (m : Mem) (mcfg : UInt32) : (scanTable m mcfg).Nodup := by
  rw [scanTable]
  refine nodup_flatMap_of_key PciSlot.record List.nodup_range (fun _ _ =>
    nodup_scanRecord _) fun record _ slot hslot => ?_
  obtain ⟨bus, -, -, hslot⟩ := mem_scanRecord.mp hslot
  exact (eq_of_mem_scanBus hslot).1

end scanTable

/-! ### What the scan initialises -/

/-- The address that `ahci_driver_init` was called with. -/
def Event.initialised : Event → Option UInt32
  | .ahciInit a => some a
  | _ => none

/-- The calls of `ahci_driver_init`, the latest first. -/
def Kernel.initialised (s : Kernel) : List UInt32 := s.trace.filterMap Event.initialised

/-- The addresses of the functions of a record. -/
def window (m : Mem) (mcfg : UInt32) (record : ℕ) : Set ℕ :=
  Set.Ico ((m.load64 (mcfgRecord mcfg record)).toNat + (startBus m (mcfgRecord mcfg record)).toNat * 2 ^ 20)
    ((m.load64 (mcfgRecord mcfg record)).toNat + ((endBus m (mcfgRecord mcfg record)).toNat + 1) * 2 ^ 20)

/-- The bytes of the MCFG, and of the functions of its records. -/
def configBytes (m : Mem) (mcfg : UInt32) : Set UInt32 :=
  span mcfg (44 + 16 * mcfgEntries m mcfg) ∪ {a | ∃ record < mcfgEntries m mcfg,
    a.toNat ∈ window m mcfg record}

/-- The addresses of the functions fit 32 bits, and belong to one record each. -/
structure WindowsApart (m : Mem) (mcfg : UInt32) : Prop where
  fit : ∀ record < mcfgEntries m mcfg, ∀ a ∈ window m mcfg record, a < 2 ^ 32
  disjoint : ∀ i < mcfgEntries m mcfg, ∀ j < mcfgEntries m mcfg, i ≠ j →
    Disjoint (window m mcfg i) (window m mcfg j)

/-- The addresses of the controllers that the scan comes to, in order. -/
def scanAddresses (m : Mem) (mcfg : UInt32) : List UInt32 := (scanTable m mcfg).map (PciSlot.address m mcfg)

/-- What the scan itself reads: headers of functions, the header of the MCFG, and its records. -/
def Event.OfScan : Event → Prop
  | .pciHeader _ | .sdtHeader _ | .mcfgRecord _ => True
  | _ => False

/-- The configuration space and the MCFG hold still. The states of `I calls` are those of the scan after
`calls` of `ahci_driver_init`. What the scan calls returns from these: `ptm_map_addr` on a function, and
`ahci_driver_init` on the controller that is the next one of the scan. -/
structure HoldsStill (I : List UInt32 → Kernel → Prop) (fuel : ℕ) (m : Mem) (mcfg : UInt32) : Prop where
  still : ∀ calls s, I calls s → Set.EqOn s.mem m (configBytes m mcfg)
  emit : ∀ {e : Event}, e.OfScan → ∀ calls s, I calls s → I calls (s.emit e)
  map : ∀ slot : PciSlot, slot.InTable m mcfg → ∀ calls s, I calls s →
    ∃ t, ptmMapAddr (slot.address m mcfg) (slot.address m mcfg) true true s = .ok ⟨⟩ t ∧ I calls t
  init : ∀ calls a, calls ++ [a] <+: scanAddresses m mcfg → ∀ s, I calls s →
    ∃ t, ahciDriverInit fuel a s = .ok ⟨⟩ t ∧ I (calls ++ [a]) t

section initialised

variable {s t : Kernel}

theorem Emits.initialised (h : InsideInit s t) : t.initialised = s.initialised := by
  obtain ⟨es, htrace, hes⟩ := h
  have hnone : es.filterMap Event.initialised = [] := by
    refine List.filterMap_eq_nil_iff.mpr fun e he => ?_
    have hinside := hes e he
    cases e with
    | ahciInit a => exact hinside.elim
    | _ => rfl
  rw [Kernel.initialised, htrace, List.filterMap_append, hnone, List.nil_append, Kernel.initialised]

theorem ahciDriverInit_initialised {fuel : ℕ} {a : UInt32} (h : ahciDriverInit fuel a s = .ok ⟨⟩ t) :
    t.initialised = a :: s.initialised := by
  have hinside := inside_ahciDriverInit fuel a s
  rw [h] at hinside
  exact hinside.initialised

theorem ptmMapAddr_initialised {addr physAddr : UInt32} {isKernel isWritable : Bool}
    (h : ptmMapAddr addr physAddr isKernel isWritable s = .ok ⟨⟩ t) : t.initialised = s.initialised :=
  ((ptmMapAddr_inside addr physAddr isKernel isWritable).of_ok h).initialised

end initialised

section window

variable {m m' : Mem} {mcfg : UInt32} {slot slot' : PciSlot} {record : ℕ}

theorem mem_window (h : slot.InTable m mcfg) {k : ℕ} (hk : k < 2 ^ 12) :
    functionAddress (m.load64 (mcfgRecord mcfg slot.record)) slot.bus slot.device slot.function + k ∈
      window m mcfg slot.record := by
  obtain ⟨-, hstart, hlast, hdevice, hfunction⟩ := h
  rw [window, Set.mem_Ico, functionAddress]
  omega

theorem WindowsApart.toNat_address (hw : WindowsApart m mcfg) (h : slot.InTable m mcfg) :
    (slot.address m mcfg).toNat =
    functionAddress (m.load64 (mcfgRecord mcfg slot.record)) slot.bus slot.device slot.function := by
  have hlt := hw.fit _ h.record _ (mem_window h (by decide : 0 < 2 ^ 12))
  rw [Nat.add_zero] at hlt
  rw [PciSlot.address, UInt32.toNat_ofNat', Nat.mod_eq_of_lt hlt]

/-- The address says which function it is of. -/
theorem WindowsApart.eq_of_address (hw : WindowsApart m mcfg) (h : slot.InTable m mcfg)
    (h' : slot'.InTable m mcfg) (heq : slot.address m mcfg = slot'.address m mcfg) : slot = slot' := by
  have hnat := congrArg UInt32.toNat heq
  rw [hw.toNat_address h, hw.toNat_address h'] at hnat
  have hrecord : slot.record = slot'.record := by
    by_contra hne
    refine Set.disjoint_left.mp (hw.disjoint _ h.record _ h'.record hne)
      (mem_window h (by decide : 0 < 2 ^ 12)) ?_
    rw [hnat]
    exact mem_window h' (by decide : 0 < 2 ^ 12)
  obtain ⟨record, bus, device, function⟩ := slot
  obtain ⟨record', bus', device', function'⟩ := slot'
  obtain ⟨-, -, -, hdevice, hfunction⟩ := h
  obtain ⟨-, -, -, hdevice', hfunction'⟩ := h'
  simp only at hrecord hdevice hfunction hdevice' hfunction'
  subst hrecord
  simp only [functionAddress] at hnat
  rw [PciSlot.mk.injEq]
  omega

/-- A header lies in the window of its record. -/
theorem WindowsApart.header_subset (hw : WindowsApart m mcfg) (h : slot.InTable m mcfg) :
    span (slot.address m mcfg) 12 ⊆ configBytes m mcfg := by
  intro b hb
  have hnat := hw.toNat_address h
  have hlast := hw.fit _ h.record _ (mem_window h (by decide : 11 < 2 ^ 12))
  rw [mem_span_iff (by omega)] at hb
  obtain ⟨k, hk⟩ : ∃ k, b.toNat = (slot.address m mcfg).toNat + k := ⟨_, (Nat.add_sub_of_le hb.1).symm⟩
  refine Or.inr ⟨slot.record, h.record, ?_⟩
  rw [hk, hnat]
  exact mem_window h (by omega)

theorem WindowsApart.header_congr (hw : WindowsApart m mcfg) (hm : Set.EqOn m' m (configBytes m mcfg))
    (h : slot.InTable m mcfg) : readPciHeader m' (slot.address m mcfg) = slot.header m mcfg := by
  have hread := hm.mono (hw.header_subset h)
  have hbyte : ∀ i < 12,
    m' (slot.address m mcfg + UInt32.ofNat i) = m (slot.address m mcfg + UInt32.ofNat i) :=
    fun i hi => hread (add_ofNat_mem_span hi (by omega))
  have h9 := hbyte 9 (by decide)
  have h10 := hbyte 10 (by decide)
  have h11 := hbyte 11 (by decide)
  have hid := Mem.load16_congr (hread.mono (span_offset_subset (i := 2) (by decide)))
  rw [PciSlot.header, readPciHeader, readPciHeader, hid, PciDeviceHeader.mk.injEq]
  exact ⟨rfl, h9, h10, h11⟩

/-- A record lies in the MCFG. -/
theorem mcfgRecord_subset (h : record < mcfgEntries m mcfg) :
    span (mcfgRecord mcfg record) 16 ⊆ configBytes m mcfg := by
  refine Set.Subset.trans ?_ Set.subset_union_left
  rw [mcfgRecord, UInt32.add_assoc]
  refine span_offset_subset ?_
  have hle : (44 + 16 * UInt32.ofNat record).toNat ≤ 44 + 16 * record := by
    rw [UInt32.toNat_add, UInt32.toNat_mul, UInt32.toNat_ofNat']
    show (44 + 16 * (record % 2 ^ 32) % 2 ^ 32) % 2 ^ 32 ≤ _
    omega
  omega

/-- The fields of a record that the scan reads. -/
theorem mcfgRecord_congr (hm : Set.EqOn m' m (configBytes m mcfg)) (h : record < mcfgEntries m mcfg) :
    m'.load64 (mcfgRecord mcfg record) = m.load64 (mcfgRecord mcfg record) ∧
      startBus m' (mcfgRecord mcfg record) = startBus m (mcfgRecord mcfg record) ∧
      endBus m' (mcfgRecord mcfg record) = endBus m (mcfgRecord mcfg record) := by
  have hread := hm.mono (mcfgRecord_subset h)
  refine ⟨Mem.load64_congr (hread.mono (span_mono (by decide))), ?_, ?_⟩
  · exact hread (add_ofNat_mem_span (i := 10) (by decide) (by decide))
  · exact hread (add_ofNat_mem_span (i := 11) (by decide) (by decide))

theorem mcfgEntries_congr (hm : Set.EqOn m' m (configBytes m mcfg)) :
    mcfgEntries m' mcfg = mcfgEntries m mcfg := by
  have hsub : span (mcfg + 4) 4 ⊆ configBytes m mcfg :=
    (span_offset_subset (by show 4 + 4 ≤ _; omega)).trans Set.subset_union_left
  rw [mcfgEntries, mcfgEntries, Mem.load32_congr (hm.mono hsub)]

end window

/-! ### The scan, level by level -/

section HoldsStill

variable {I : List UInt32 → Kernel → Prop} {fuel : ℕ} {m : Mem} {mcfg : UInt32}
  {record bus device function : ℕ} {before : List UInt32}

theorem Event.OfScan.notInit {e : Event} (he : e.OfScan) : e.NotInit := by
  cases e <;> trivial

theorem emit_initialised {e : Event} (he : e.OfScan) (s : Kernel) : (s.emit e).initialised = s.initialised :=
  Emits.initialised (emits_emit he.notInit s)

theorem pciProbe_outputs (hI : HoldsStill I fuel m mcfg) (hw : WindowsApart m mcfg) {slot : PciSlot}
    (h : slot.InTable m mcfg) (before : List UInt32) :
    Outputs I Kernel.initialised before (pciProbe (slot.address m mcfg)) (slot.header m mcfg) [] := by
  intro s hs
  obtain ⟨t, hrun, ht⟩ := hI.map slot h before s hs
  have hread := hI.emit (e := .pciHeader (slot.address m mcfg)) (by trivial) before t ht
  refine ⟨t.emit (.pciHeader (slot.address m mcfg)), ?_, by rwa [List.append_nil], ?_⟩
  · rw [pciProbe, bind_of_ok hrun, bind_of_ok (modify_apply ..), bind_of_ok (get_apply _), pure_apply,
      hw.header_congr (hI.still _ _ hread) h]
  · exact (emit_initialised (by trivial) t).trans (ptmMapAddr_initialised hrun)

theorem pciEnumerateFunction_outputs (hI : HoldsStill I fuel m mcfg) (hw : WindowsApart m mcfg)
    (h : PciSlot.InTable m mcfg ⟨record, bus, device, function⟩)
    (hnext : before ++ (scanFunction m mcfg ⟨record, bus, device, function⟩).map (PciSlot.address m mcfg) <+:
      scanAddresses m mcfg) :
    Outputs I Kernel.initialised before
    (pciEnumerateFunction fuel (m.load64 (mcfgRecord mcfg record) + UInt64.ofNat bus <<< 20 +
      UInt64.ofNat device <<< 15) (UInt64.ofNat function)) ⟨⟩
      ((scanFunction m mcfg ⟨record, bus, device, function⟩).map (PciSlot.address m mcfg)) := by
  have hbus : bus < 2 ^ 8 := lt_of_le_of_lt h.last (UInt8.toNat_lt _)
  have haddress := toUInt32_function (m.load64 (mcfgRecord mcfg record)) hbus h.device h.function
  rw [pciEnumerateFunction, haddress]
  refine (pciProbe_outputs hI hw h before).bind ?_
  rw [scanFunction] at hnext ⊢
  rw [List.append_nil]
  split at hnext
  · next hfound =>
    rw [if_pos hfound, if_pos hfound]
    intro s hs
    obtain ⟨t, hrun, ht⟩ := hI.init _ _ hnext s hs
    exact ⟨t, hrun, ht, ahciDriverInit_initialised hrun⟩
  · next hnot =>
    rw [if_neg hnot, if_neg hnot]
    exact Outputs.pure _

theorem pciEnumerateDevice_outputs (hI : HoldsStill I fuel m mcfg) (hw : WindowsApart m mcfg)
    (h : PciSlot.InTable m mcfg ⟨record, bus, device, 0⟩)
    (hnext : before ++ (scanDevice m mcfg record bus device).map (PciSlot.address m mcfg) <+:
      scanAddresses m mcfg) :
    Outputs I Kernel.initialised before
    (pciEnumerateDevice fuel (m.load64 (mcfgRecord mcfg record) + UInt64.ofNat bus <<< 20)
      (UInt64.ofNat device)) ⟨⟩ ((scanDevice m mcfg record bus device).map (PciSlot.address m mcfg)) := by
  have hbus : bus < 2 ^ 8 := lt_of_le_of_lt h.last (UInt8.toNat_lt _)
  have haddress := toUInt32_device (m.load64 (mcfgRecord mcfg record)) hbus h.device
  rw [pciEnumerateDevice, haddress]
  refine (pciProbe_outputs hI hw h before).bind ?_
  rw [scanDevice] at hnext ⊢
  rw [List.append_nil]
  split at hnext
  · next hpresent =>
    rw [if_pos hpresent, if_pos hpresent]
    rw [List.map_flatMap] at hnext ⊢
    exact Outputs.timesM fun function hfunction =>
      pciEnumerateFunction_outputs hI hw ⟨h.record, h.start, h.last, h.device, hfunction⟩
        ((prefix_flatMap_range hfunction before _).trans hnext)
  · next hnot =>
    rw [if_neg hnot, if_neg hnot]
    exact Outputs.pure _

theorem pciEnumerateBus_outputs (hI : HoldsStill I fuel m mcfg) (hw : WindowsApart m mcfg)
    (h : PciSlot.InTable m mcfg ⟨record, bus, 0, 0⟩)
    (hnext : before ++ (scanBus m mcfg record bus).map (PciSlot.address m mcfg) <+: scanAddresses m mcfg) :
    Outputs I Kernel.initialised before
    (pciEnumerateBus fuel (m.load64 (mcfgRecord mcfg record)) (UInt64.ofNat bus)) ⟨⟩
      ((scanBus m mcfg record bus).map (PciSlot.address m mcfg)) := by
  have hbus : bus < 2 ^ 8 := lt_of_le_of_lt h.last (UInt8.toNat_lt _)
  have haddress := toUInt32_bus (m.load64 (mcfgRecord mcfg record)) hbus
  rw [pciEnumerateBus, haddress]
  refine (pciProbe_outputs hI hw h before).bind ?_
  rw [scanBus] at hnext ⊢
  rw [List.append_nil]
  split at hnext
  · next hpresent =>
    rw [if_pos hpresent, if_pos hpresent]
    rw [List.map_flatMap] at hnext ⊢
    exact Outputs.timesM fun device hdevice =>
      pciEnumerateDevice_outputs hI hw ⟨h.record, h.start, h.last, hdevice, h.function⟩
        ((prefix_flatMap_range hdevice before _).trans hnext)
  · next hnot =>
    rw [if_neg hnot, if_neg hnot]
    exact Outputs.pure _

/-- An iteration over the buses of a record. -/
theorem busStep_outputs (hI : HoldsStill I fuel m mcfg) (hw : WindowsApart m mcfg)
    (hrecord : record < mcfgEntries m mcfg) (hstart : (startBus m (mcfgRecord mcfg record)).toNat ≤ bus)
    (hend : bus < (endBus m (mcfgRecord mcfg record)).toNat)
    (hnext : before ++ (scanBus m mcfg record bus).map (PciSlot.address m mcfg) <+: scanAddresses m mcfg) :
    Outputs I Kernel.initialised before (busStep fuel (mcfgRecord mcfg record) (UInt64.ofNat bus))
    (.inl (UInt64.ofNat (bus + 1)))
      ((scanBus m mcfg record bus).map (PciSlot.address m mcfg)) := by
  intro s hs
  have hlt := UInt8.toNat_lt (endBus m (mcfgRecord mcfg record))
  obtain ⟨hbase, -, hlast⟩ := mcfgRecord_congr (hI.still before s hs) hrecord
  obtain ⟨t, hrun, ht, hout⟩ :=
    pciEnumerateBus_outputs hI hw ⟨hrecord, hstart, hend.le, by simp, by simp⟩ hnext s hs
  refine ⟨t, ?_, ht, hout⟩
  have htest : UInt64.ofNat bus < (endBus m (mcfgRecord mcfg record)).toUInt64 := by
    rw [UInt64.lt_iff_toNat_lt, UInt8.toNat_toUInt64, UInt64.toNat_ofNat', Nat.mod_eq_of_lt (by omega)]
    exact hend
  rw [busStep, bind_of_ok (get_apply s), hlast, if_pos htest, hbase, bind_of_ok hrun, pure_apply,
    UInt64.ofNat_add]
  rfl

theorem busStep_last_outputs (hI : HoldsStill I fuel m mcfg) (hrecord : record < mcfgEntries m mcfg)
    (hbus : bus < 2 ^ 64) (hend : (endBus m (mcfgRecord mcfg record)).toNat ≤ bus) (before : List UInt32) :
    Outputs I Kernel.initialised before (busStep fuel (mcfgRecord mcfg record) (UInt64.ofNat bus))
      (.inr ⟨⟩) [] := by
  intro s hs
  obtain ⟨-, -, hlast⟩ := mcfgRecord_congr (hI.still before s hs) hrecord
  have htest : ¬ UInt64.ofNat bus < (endBus m (mcfgRecord mcfg record)).toUInt64 := by
    rw [UInt64.lt_iff_toNat_lt, UInt8.toNat_toUInt64, UInt64.toNat_ofNat', Nat.mod_eq_of_lt hbus]
    omega
  exact ⟨s, by rw [busStep, bind_of_ok (get_apply s), hlast, if_neg htest, pure_apply],
    by rwa [List.append_nil], rfl⟩

theorem pciEnumerateRecord_outputs (hI : HoldsStill I fuel m mcfg) (hw : WindowsApart m mcfg)
    (hrecord : record < mcfgEntries m mcfg)
    (hnext : before ++ (scanRecord m mcfg record).map (PciSlot.address m mcfg) <+: scanAddresses m mcfg) :
    Outputs I Kernel.initialised before (pciEnumerateRecord fuel (mcfgRecord mcfg record)) ⟨⟩
      ((scanRecord m mcfg record).map (PciSlot.address m mcfg)) := by
  intro s hs
  obtain ⟨t, ht⟩ : ∃ t, t = s.emit (.mcfgRecord (mcfgRecord mcfg record)) := ⟨_, rfl⟩
  have hI' : I before t := ht ▸ hI.emit (by trivial) before s hs
  obtain ⟨-, hfirst, -⟩ := mcfgRecord_congr (hI.still before t hI') hrecord
  have hstart := UInt8.toNat_lt (startBus m (mcfgRecord mcfg record))
  have hend := UInt8.toNat_lt (endBus m (mcfgRecord mcfg record))
  rw [scanRecord, List.map_flatMap] at hnext
  have hloop : Outputs I Kernel.initialised before (loopM .running (busStep fuel (mcfgRecord mcfg record)) 256
      (UInt64.ofNat ((startBus m (mcfgRecord mcfg record)).toNat + 0))) ⟨⟩
      ((List.range ((endBus m (mcfgRecord mcfg record)).toNat -
        (startBus m (mcfgRecord mcfg record)).toNat)).flatMap fun i =>
        (scanBus m mcfg record ((startBus m (mcfgRecord mcfg record)).toNat + i)).map
          (PciSlot.address m mcfg)) := by
    refine Outputs.loopM (a := fun i => UInt64.ofNat ((startBus m (mcfgRecord mcfg record)).toNat + i))
      (fun i hi => ?_) ?_ (by omega)
    · exact busStep_outputs hI hw hrecord (Nat.le_add_right _ i) (by omega)
        ((prefix_flatMap_range hi before _).trans hnext)
    · exact busStep_last_outputs hI hrecord (by omega) (by omega) _
  have hfrom : UInt64.ofNat ((startBus m (mcfgRecord mcfg record)).toNat + 0) =
    (startBus m (mcfgRecord mcfg record)).toUInt64 := by
    rw [← UInt64.toNat_inj, UInt64.toNat_ofNat', UInt8.toNat_toUInt64, Nat.add_zero,
      Nat.mod_eq_of_lt (by omega)]
  obtain ⟨u, hrun, hu, hout⟩ := hloop t hI'
  rw [hfrom] at hrun
  rw [scanRecord, List.map_flatMap]
  refine ⟨u, by rw [pciEnumerateRecord, bind_of_ok (modify_apply ..), ← ht, bind_of_ok (get_apply t),
    hfirst, hrun], hu, ?_⟩
  rw [hout, ht, emit_initialised (by trivial)]

/-- **The scan initialises the controllers of its list**, each once, in order. -/
theorem pciEnumerate_outputs (hI : HoldsStill I fuel m mcfg) (hw : WindowsApart m mcfg) :
    Outputs I Kernel.initialised [] (pciEnumerate fuel mcfg) ⟨⟩ (scanAddresses m mcfg) := by
  intro s hs
  have hall : scanAddresses m mcfg = (List.range (mcfgEntries m mcfg)).flatMap fun record =>
      (scanRecord m mcfg record).map (PciSlot.address m mcfg) := by
    rw [scanAddresses, scanTable, List.map_flatMap]
  have htable : Outputs I Kernel.initialised [] (timesM (mcfgEntries m mcfg) fun i =>
      pciEnumerateRecord fuel (mcfgRecord mcfg i)) ⟨⟩ (scanAddresses m mcfg) := by
    rw [hall]
    refine Outputs.timesM fun record hrecord => pciEnumerateRecord_outputs hI hw hrecord ?_
    rw [hall]
    exact prefix_flatMap_range hrecord [] _
  obtain ⟨t, hrun, ht, hout⟩ := htable _ (hI.emit (e := .sdtHeader mcfg) (by trivial) [] s hs)
  refine ⟨t, by rw [pciEnumerate_eq, mcfgEntries_congr (hI.still [] s hs), hrun], ht, ?_⟩
  rw [hout, emit_initialised (by trivial)]

end HoldsStill

/-! ### Every controller, once -/

/-- `pci_enumerate` returns, and has called `ahci_driver_init` once on each controller, and on
nothing else. -/
def InitialisesEach (fuel : ℕ) (mcfg : UInt32) (s : Kernel) : Prop :=
  ∃ t calls, pciEnumerate fuel mcfg s = .ok ⟨⟩ t ∧ t.initialised = calls ++ s.initialised ∧
    (∀ slot : PciSlot, slot.Controller s.mem mcfg → calls.count (slot.address s.mem mcfg) = 1) ∧
    ∀ a ∈ calls, ∃ slot : PciSlot, slot.Controller s.mem mcfg ∧ slot.address s.mem mcfg = a

section InitialisesEach

variable {I : List UInt32 → Kernel → Prop} {fuel : ℕ} {mcfg : UInt32} {s : Kernel}

/-- The controllers of the list have different addresses. -/
theorem nodup_scanAddresses {m : Mem} (hw : WindowsApart m mcfg) : (scanAddresses m mcfg).Nodup := by
  refine List.Nodup.map_on (fun slot hslot slot' hslot' heq => ?_) (nodup_scanTable m mcfg)
  exact hw.eq_of_address (mem_scanTable.mp hslot).1.inTable (mem_scanTable.mp hslot').1.inTable heq

/-- **Every controller is initialised, once, exactly when** none is on the last bus of its record, or on a bus
without a first device. -/
theorem pciEnumerate_initialises_iff (hI : HoldsStill I fuel s.mem mcfg) (hs : I [] s)
    (hw : WindowsApart s.mem mcfg) :
    InitialisesEach fuel mcfg s ↔ ∀ slot : PciSlot, slot.Controller s.mem mcfg → slot.Reached s.mem mcfg := by
  obtain ⟨t, hrun, -, hout⟩ := pciEnumerate_outputs hI hw s hs
  constructor
  · rintro ⟨t', calls, hrun', hcalls, hcount, -⟩ slot hslot
    have heq : calls = (scanAddresses s.mem mcfg).reverse := by
      rw [hrun] at hrun'
      cases hrun'
      exact List.append_cancel_right (hcalls.symm.trans hout)
    have hmem : slot.address s.mem mcfg ∈ calls :=
      List.count_pos_iff.mp (by rw [hcount slot hslot]; exact Nat.one_pos)
    rw [heq, List.mem_reverse, scanAddresses, List.mem_map] at hmem
    obtain ⟨slot', hslot', haddress⟩ := hmem
    obtain ⟨hcontroller, hreached⟩ := mem_scanTable.mp hslot'
    rwa [hw.eq_of_address hcontroller.inTable hslot.inTable haddress] at hreached
  · intro hall
    refine ⟨t, _, hrun, hout, fun slot hslot => ?_, fun a ha => ?_⟩
    · refine List.count_eq_one_of_mem (List.nodup_reverse.mpr (nodup_scanAddresses hw)) ?_
      rw [List.mem_reverse]
      exact List.mem_map_of_mem (mem_scanTable.mpr ⟨hslot, hall slot hslot⟩)
    · rw [List.mem_reverse, scanAddresses, List.mem_map] at ha
      obtain ⟨slot, hslot, haddress⟩ := ha
      exact ⟨slot, (mem_scanTable.mp hslot).1, haddress⟩

end InitialisesEach

/-! ### A machine with a controller -/

/-- A page directory at `0x1000`, with one table for all addresses; an MCFG at `0x3000`, with a
record for the buses from 0 to `last`; a new heap of sixteen blocks at `0x100000`; and the header of an
AHCI controller, the first function of the first device of bus 0. It has a drive at its first port, with
the registers at `0x200000`. -/
def scanMem (last : UInt8) : Mem := fun a =>
  if a.toNat / 4096 = 1 then 0x40
  else if a.toNat / 4096 = 3 then
    ([0, 0, 0, 0, 60] ++ List.replicate 42 0 ++ [0xE0] ++ List.replicate 7 0 ++
      [last]).getD (a.toNat % 4096) 0
  else if a.toNat / 4096 = 0x100 then
    ([2, 0, 0, 0, 28, 0, 0x10, 0, 64, 0, 0, 0, 0, 0, 0, 0, 4, 0, 0, 0, 0, 0, 0, 0, 30, 0, 0x10, 0] :
      List UInt8).getD (a.toNat % 4096) 0
  else if a.toNat / 4096 = 0x200 then driveMem 0x13 a
  else ([0, 0, 0x22, 0x29, 0, 0, 0, 0, 0, 1, 6, 1] ++ List.replicate 24 0 ++ [0, 0, 0x20, 0] :
    List UInt8).getD (a - 0xE0000000).toNat 0

/-- A kernel with this directory and this heap. -/
def scanKernel (last : UInt8) : Kernel :=
  { Kernel.loaded with mem := scanMem last, pd := 0x1000, kheap := 0x100000 }

/-- The table of `scanMem` may change, and its heap when the driver has started. -/
structure ScanState (last : UInt8) (calls : List UInt32) (s : Kernel) : Prop where
  pd : s.pd = 0x1000
  portCount : s.ahciDriver.portCount = 0
  mem : Set.EqOn s.mem (scanMem last) (span 0x40404000 4096 ∪ span 0x100000 94)ᶜ
  heap : calls = [] → s.kheap = 0x100000 ∧ Set.EqOn s.mem (scanMem last) (span 0x100000 94)

section scanMem

variable {last : UInt8} {calls : List UInt32} {s t : Kernel}

theorem scanMem_above {a : UInt32} (ha : 0xE0000028 ≤ a.toNat) : scanMem last a = 0 := by
  have hlt := a.toNat_lt
  rw [scanMem, if_neg (by omega), if_neg (by omega), if_neg (by omega), if_neg (by omega)]
  rw [List.getD_eq_getElem?_getD, List.getElem?_eq_none]
  · rfl
  · rw [UInt32.toNat_sub]
    show 40 ≤ (2 ^ 32 - 0xE0000000 + a.toNat) % 2 ^ 32
    omega

/-- The bitmap of the heap is clear. -/
theorem scanMem_bitmap {a : UInt32} (hlo : 0x10001C ≤ a.toNat) (hhi : a.toNat < 0x101000) :
    scanMem last a = 0 := by
  rw [scanMem, if_neg (by omega), if_neg (by omega), if_pos (by omega), List.getD_eq_getElem?_getD,
    List.getElem?_eq_none]
  · rfl
  · show 28 ≤ a.toNat % 4096
    omega

/-- What is read off the table and the heap is as it was. -/
theorem ScanState.load32 (hs : ScanState last calls s) {a : UInt32} (ha : a.toNat + 4 ≤ 2 ^ 32)
    (htable : a.toNat + 4 ≤ 0x40404000 ∨ 0x40405000 ≤ a.toNat)
    (hheap : a.toNat + 4 ≤ 0x100000 ∨ 0x10005E ≤ a.toNat) : s.mem.load32 a = (scanMem last).load32 a := by
  have htable' : (0x40404000 : UInt32).toNat = 0x40404000 := rfl
  have hheap' : (0x100000 : UInt32).toNat = 0x100000 := rfl
  refine Mem.load32_congr (hs.mem.mono fun b hb => ?_)
  rw [mem_span_iff (by omega)] at hb
  rw [Set.mem_compl_iff, Set.mem_union, mem_span_iff (by decide), mem_span_iff (by decide)]
  omega

theorem ScanState.looks (hs : ScanState last calls s) (hst : Looks s t) : ScanState last calls t := by
  obtain ⟨hpd, hcount, hmem, hheap⟩ := hs
  rw [hst.1]
  exact ⟨hpd, hcount, hmem, hheap⟩

theorem scanMem_directory (last : UInt8) {a : UInt32} (ha : a.toNat < 1024) :
    (scanMem last).load32 (0x1000 + 4 * a) = 0x40404040 := by
  have hbyte : ∀ i < 4, scanMem last (0x1000 + 4 * a + UInt32.ofNat i) = 0x40 := by
    intro i hi
    rw [scanMem, if_pos]
    rw [UInt32.toNat_add, UInt32.toNat_add, UInt32.toNat_mul, UInt32.toNat_ofNat']
    show ((0x1000 + 4 * a.toNat % 2 ^ 32) % 2 ^ 32 + i % 2 ^ 32) % 2 ^ 32 / 4096 = 1
    omega
  have hload : (scanMem last).loadLE (0x1000 + 4 * a) 4 = Mem.loadLE (fun _ => 0x40) 0 4 :=
    Mem.loadLE_eq_of_bytes hbyte
  rw [Mem.load32, hload]
  rfl

/-- Any page can be mapped: its entry is in the one table. -/
theorem ScanState.mapAddr (hs : ScanState last calls s) (addr physAddr : UInt32) (isKernel isWritable : Bool) :
    ∃ t, ptmMapAddr addr physAddr isKernel isWritable s = .ok ⟨⟩ t ∧ ScanState last calls t ∧
    t.ahciDriver = s.ahciDriver := by
  have hpde : s.mem.load32 (s.pd + (4 : UInt32) * (addr >>> 22)) = 0x40404040 := by
    have hindex : (addr >>> 22).toNat < 1024 := by
      have hlt := addr.toNat_lt
      rw [toNat_pdeIndex]
      omega
    generalize addr >>> 22 = index at hindex
    have hnat : ((0x1000 : UInt32) + (4 : UInt32) * index).toNat = 4096 + 4 * index.toNat := by
      rw [UInt32.toNat_add, UInt32.toNat_mul]
      show (4096 + 4 * index.toNat % 2 ^ 32) % 2 ^ 32 = _
      omega
    rw [hs.pd, ← scanMem_directory last hindex]
    exact hs.load32 (by omega) (Or.inl (by omega)) (Or.inl (by omega))
  have hentry :
    span ((0x40404000 : UInt32) + (4 : UInt32) * ((addr >>> 12) &&& 0x03FF)) 4 ⊆ span 0x40404000 4096 := by
    refine span_offset_subset ?_
    rw [UInt32.toNat_mul, toNat_pteIndex]
    show 4 * (addr.toNat / 4096 % 1024) % 2 ^ 32 + 4 ≤ 4096
    omega
  have hheap : Disjoint (span 0x100000 94) (span 0x40404000 4096) :=
    disjoint_span (by decide) (by decide) (Or.inl (by decide))
  obtain ⟨t, ht⟩ : ∃ t, t = ptmWriteEntry ((0x40404000 : UInt32) + (4 : UInt32) * ((addr >>> 12) &&& 0x03FF))
    (pteOf physAddr isKernel isWritable) (s.emit (.mapAddr s.pd addr)) := ⟨_, rfl⟩
  refine ⟨t, ?_, ?_⟩
  · rw [ht, ptmMapAddr, Kernel.emit_mem, Kernel.emit_pd, hpde, if_neg (by decide)]
    rfl
  · rw [ht, ptmWriteEntry]
    split
    · refine ⟨⟨hs.pd, hs.portCount, fun a ha => ?_, fun hcalls => ?_⟩, rfl⟩
      · exact (Mem.eqOn_store32 _ _ _ fun hmem => ha (Or.inl (hentry hmem))).trans (hs.mem ha)
      · obtain ⟨hkheap, hmem⟩ := hs.heap hcalls
        refine ⟨hkheap, fun a ha => (Mem.eqOn_store32 _ _ _ fun hin => ?_).trans (hmem ha)⟩
        exact Set.disjoint_left.mp hheap ha (hentry hin)
    · exact ⟨⟨hs.pd, hs.portCount, hs.mem, hs.heap⟩, rfl⟩

/-- There is no header above that of the controller. -/
theorem scanMem_absent {a : UInt32} (hlo : 0xE0000028 ≤ a.toNat) (hhi : a.toNat + 4 ≤ 2 ^ 32) :
    (readPciHeader (scanMem last) a).present = false := by
  have hid : (scanMem last).load16 (a + 2) = 0 := by
    have hadd : (a + 2).toNat = a.toNat + 2 := toNat_add_ofNat (i := 2) (by omega)
    rw [Mem.load16, Mem.loadLE_eq_zero (by decide) fun b hb => scanMem_above ?_]
    · rfl
    · rw [mem_span_iff (by omega)] at hb
      omega
  rw [PciDeviceHeader.present, readPciHeader, hid]
  rfl

/-- The MCFG has a record, for the buses at `0xE0000000`. -/
theorem scanMem_mcfg (hlast : last = 0 ∨ last = 1) : mcfgEntries (scanMem last) 0x3000 = 1 ∧
    (scanMem last).load64 (mcfgRecord 0x3000 0) = 0xE0000000 ∧
    startBus (scanMem last) (mcfgRecord 0x3000 0) = 0 ∧
    endBus (scanMem last) (mcfgRecord 0x3000 0) = last := by
  rcases hlast with rfl | rfl <;> decide

theorem scanMem_window (hlast : last = 0 ∨ last = 1) :
    window (scanMem last) 0x3000 0 ⊆ Set.Ico 0xE0000000 0xE0200000 := by
  obtain ⟨-, hbase, hstart, hend⟩ := scanMem_mcfg hlast
  have hle : last.toNat ≤ 1 := by
    rcases hlast with rfl | rfl <;> decide
  intro a ha
  rw [window, hbase, hstart, hend, Set.mem_Ico] at ha
  simp only [UInt64.toNat_ofNat, UInt8.toNat_ofNat] at ha
  rw [Set.mem_Ico]
  omega

theorem scanMem_windowsApart (hlast : last = 0 ∨ last = 1) : WindowsApart (scanMem last) 0x3000 := by
  have hentries := (scanMem_mcfg hlast).1
  refine ⟨fun record hrecord a ha => ?_, fun i hi j hj hne => ?_⟩
  · obtain rfl : record = 0 := by omega
    have hwindow := scanMem_window hlast ha
    rw [Set.mem_Ico] at hwindow
    omega
  · omega

/-- A header that is there is that of the controller. -/
theorem scanMem_present {slot : PciSlot} (hlast : last = 0 ∨ last = 1)
    (h : slot.InTable (scanMem last) 0x3000) (hpresent : (slot.header (scanMem last) 0x3000).present) :
    slot = ⟨0, 0, 0, 0⟩ ∧ slot.address (scanMem last) 0x3000 = 0xE0000000 := by
  obtain ⟨hentries, hbase, -, -⟩ := scanMem_mcfg hlast
  have haddress := (scanMem_windowsApart hlast).toNat_address h
  have hwindow := scanMem_window hlast
  have hmem := mem_window h (by decide : 0 < 2 ^ 12)
  obtain ⟨record, bus, device, function⟩ := slot
  obtain rfl : record = 0 := by
    have hrecord : record < 1 := hentries ▸ h.record
    omega
  have hin := Set.mem_Ico.mp (hwindow hmem)
  simp only [hbase, functionAddress] at haddress hin
  have hnat : (0xE0000000 : UInt64).toNat = 0xE0000000 := rfl
  have hzero : bus = 0 ∧ device = 0 ∧ function = 0 := by
    by_contra hne
    rw [PciSlot.header, scanMem_absent (by omega) (by omega)] at hpresent
    cases hpresent
  obtain ⟨rfl, rfl, rfl⟩ := hzero
  refine ⟨rfl, UInt32.toNat_inj.mp ?_⟩
  rw [haddress]
  rfl

/-- Before the driver starts the heap is new. -/
theorem ScanState.heapAt (hlast : last = 0 ∨ last = 1) (hs : ScanState last [] s) : HeapAt smallHeap s 0 ∧
    Alloc.Room (smallHeap.bitmap.bits s.mem) smallHeap.blocks (smallHeap.blocksOf (16 : UInt32).toNat) 0 := by
  obtain ⟨hkheap, hmem⟩ := hs.heap rfl
  have hheader : (scanMem last).load32 0x100000 = 2 ∧ (scanMem last).load32 (0x100000 + 4) = 0x10001C ∧
      (scanMem last).load32 (0x100000 + 8) = 64 ∧ (scanMem last).load32 (0x100000 + 12) = 0 ∧
      (scanMem last).load16 (0x100000 + 16) = 4 ∧ (scanMem last).load32 (0x100000 + 24) = 0x10001E := by
    rcases hlast with rfl | rfl <;> decide
  have hload : ∀ i : UInt32, i.toNat + 4 ≤ 94 →
      s.mem.load32 (0x100000 + i) = (scanMem last).load32 (0x100000 + i) :=
    fun i hi => Mem.load32_congr (hmem.mono (span_offset_subset hi))
  have hfirst : s.mem.load32 0x100000 = 2 := by
    rw [← hheader.1]
    simpa using hload 0 (by decide)
  have hgranularity : s.mem.load16 (0x100000 + 16) = 4 := by
    rw [← hheader.2.2.2.2.1]
    exact Mem.load16_congr (hmem.mono (span_offset_subset (by decide)))
  obtain ⟨-, h4, h8, h12, -, h24⟩ := hheader
  rw [← hload 4 (by decide)] at h4
  rw [← hload 8 (by decide)] at h8
  rw [← hload 12 (by decide)] at h12
  rw [← hload 24 (by decide)] at h24
  refine ⟨⟨hkheap, ?_, ?_, ?_, ?_, ?_⟩, by decide, fun k _ hk => ?_⟩
  · rw [Kernel.heapBitmap, hkheap, hfirst, h4]
    rfl
  · rw [Kernel.chunkSize, hkheap, h8]
    rfl
  · rw [Kernel.chunkUsed, hkheap, h12]
  · rw [Kernel.chunkGranularity, hkheap, hgranularity]
    rfl
  · rw [Kernel.chunkStart, hkheap, h24]
    rfl
  · have hbitmap : smallHeap.bitmap.buffer.toNat = 0x10001C := rfl
    have hlt : k < smallHeap.bitmap.length := lt_trans hk (by decide)
    have hbyte := Bitmap.byteAddr_mem_span hlt
    have hin : smallHeap.bitmap.byteAddr (UInt32.ofNat k) ∈ span 0x100000 94 :=
      span_offset_subset (i := 28) (by decide) hbyte
    refine Bitmap.bits_of_zero ((hmem hin).trans (scanMem_bitmap ?_ ?_))
    · rw [mem_span_iff (by decide)] at hbyte
      omega
    · rw [mem_span_iff (by decide)] at hin
      have hheap : (0x100000 : UInt32).toNat = 0x100000 := rfl
      omega

/-- The driver starts on the controller: it makes a record for the drive on the heap. -/
theorem ScanState.init (hlast : last = 0 ∨ last = 1) (hs : ScanState last [] s) (fuel : ℕ) :
    ∃ t, ahciDriverInit fuel 0xE0000000 s = .ok ⟨⟩ t ∧ ScanState last [0xE0000000] t := by
  have habar : s.mem.load32 (0xE0000000 + 36) = 0x200000 :=
    (hs.load32 (by decide) (Or.inr (by decide)) (Or.inr (by decide))).trans (by
      rcases hlast with rfl | rfl <;> decide)
  obtain ⟨t, ht⟩ : ∃ t, t = { s.emit (.ahciInit 0xE0000000) with
    ahciDriver := { s.ahciDriver with pciBaseAddr := 0xE0000000, abar := 0x200000 } } := ⟨_, rfl⟩
  have hstate : ScanState last [] t := ht ▸ ⟨hs.pd, hs.portCount, hs.mem, hs.heap⟩
  obtain ⟨u, hmap, hu, hdriver⟩ := hstate.mapAddr 0x200000 0x200000 true true
  have hregisters : u.ahciDriver.abar = 0x200000 := by rw [hdriver, ht]
  have hone : u.mem.load32 (u.ahciDriver.abar + 0x0C) = 1 := by
    rw [hregisters]
    exact (hu.load32 (by decide) (Or.inl (by decide)) (Or.inr (by decide))).trans (by
      rcases hlast with rfl | rfl <;> decide)
  have htype : portTypeAt u.mem (portAt u.ahciDriver.abar 0) = .sata := by
    rw [hregisters, portTypeAt, hu.load32 (by decide) (Or.inl (by decide)) (Or.inr (by decide)),
      hu.load32 (by decide) (Or.inl (by decide)) (Or.inr (by decide))]
    rcases hlast with rfl | rfl <;> decide
  obtain ⟨v, hlook, hprobe⟩ := ahciDriverProbePorts_of_one hone
  have hv := hu.looks hlook
  obtain ⟨hheap, hroom⟩ := hv.heapAt hlast
  obtain ⟨w, hadd, hpd, hmem⟩ := hheap.ahciAddPort_ok hroom (portAt u.ahciDriver.abar 0) .sata
  replace hprobe := hprobe.trans (if_pos (Or.inl htype))
  rw [htype, hadd] at hprobe
  have hcount : w.ahciDriver.portCount = 0 :=
    ((ahciAddPort_keepsCount _ _).of_ok hadd).2.2.trans hv.portCount
  refine ⟨w, ?_, hpd.trans hv.pd, hcount, fun a ha => ?_, fun hnil => absurd hnil (List.cons_ne_nil _ _)⟩
  · have hrest : (ptmMapAddr 0x200000 0x200000 true true >>= fun _ => ahciDriverProbePorts >>= fun _ =>
        ahciConfigurePorts fuel) t = .ok ⟨⟩ w := by
      rw [bind_of_ok hmap, bind_of_ok hprobe, ahciConfigurePorts_of_zero hcount]
    rw [ahciDriverInit, bind_of_ok (modify_apply ..), bind_of_ok (modify_apply ..), Kernel.emit_mem, habar]
    rw [ht] at hrest
    exact hrest
  · exact (hmem fun hin => ha (Or.inr hin)).trans (hv.mem ha)

/-- The scan comes to the controller once. -/
theorem scanMem_next (hlast : last = 0 ∨ last = 1) {a : UInt32}
    (h : calls ++ [a] <+: scanAddresses (scanMem last) 0x3000) : calls = [] ∧ a = 0xE0000000 := by
  have hall : ∀ b ∈ scanAddresses (scanMem last) 0x3000, b = 0xE0000000 := by
    intro b hb
    obtain ⟨slot, hslot, rfl⟩ := List.mem_map.mp hb
    have hcontroller := (mem_scanTable.mp hslot).1
    exact (scanMem_present hlast hcontroller.inTable hcontroller.present).2
  have hnodup := (nodup_scanAddresses (scanMem_windowsApart hlast)).sublist h.sublist
  have ha := hall a (h.subset (List.mem_append_right _ (List.mem_singleton_self a)))
  refine ⟨List.eq_nil_iff_forall_not_mem.mpr fun b hb => ?_, ha⟩
  have hb' := hall b (h.subset (List.mem_append_left _ hb))
  rw [ha, ← hb'] at hnodup
  exact List.disjoint_of_nodup_append hnodup hb (List.mem_singleton_self b)

theorem scanMem_holdsStill (hlast : last = 0 ∨ last = 1) (fuel : ℕ) :
    HoldsStill (ScanState last) fuel (scanMem last) 0x3000 := by
  refine ⟨fun calls s hs => hs.mem.mono ?_, fun {e} _ calls s hs => ⟨hs.pd, hs.portCount, hs.mem, hs.heap⟩,
    fun slot _ calls s hs => ?_, fun calls a hnext s hs => ?_⟩
  · obtain ⟨hentries, -⟩ := scanMem_mcfg hlast
    have htable : (0x40404000 : UInt32).toNat = 0x40404000 := rfl
    have hheap : (0x100000 : UInt32).toNat = 0x100000 := rfl
    rw [configBytes, hentries]
    rintro a (ha | ⟨record, hrecord, ha⟩)
    · have hmcfg : (0x3000 : UInt32).toNat = 0x3000 := rfl
      rw [mem_span_iff (by decide)] at ha
      rw [Set.mem_compl_iff, Set.mem_union, mem_span_iff (by decide), mem_span_iff (by decide)]
      omega
    · obtain rfl : record = 0 := by omega
      have hwindow := Set.mem_Ico.mp (scanMem_window hlast ha)
      rw [Set.mem_compl_iff, Set.mem_union, mem_span_iff (by decide), mem_span_iff (by decide)]
      omega
  · obtain ⟨t, hrun, ht, -⟩ :=
      hs.mapAddr (slot.address (scanMem last) 0x3000) (slot.address (scanMem last) 0x3000) true true
    exact ⟨t, hrun, ht⟩
  · obtain ⟨rfl, rfl⟩ := scanMem_next hlast hnext
    exact hs.init hlast fuel

/-- The controller of the machine. -/
theorem scanMem_controller (hlast : last = 0 ∨ last = 1) :
    PciSlot.Controller (scanMem last) 0x3000 ⟨0, 0, 0, 0⟩ := by
  rcases hlast with rfl | rfl <;>
    exact ⟨⟨by decide, by decide, by decide, by decide, by decide⟩, by decide, by decide, by decide⟩

theorem scanKernel_state (last : UInt8) : ScanState last [] (scanKernel last) :=
  ⟨rfl, rfl, fun _ _ => rfl, fun _ => ⟨rfl, fun _ _ => rfl⟩⟩

/-- With another bus after it, the controller is found. -/
theorem pciEnumerate_initialises_scanKernel : InitialisesEach 1 0x3000 (scanKernel 1) := by
  refine (pciEnumerate_initialises_iff (scanMem_holdsStill (Or.inr rfl) 1) (scanKernel_state 1)
    (scanMem_windowsApart (Or.inr rfl))).mpr fun slot hslot => ?_
  rw [(scanMem_present (Or.inr rfl) hslot.inTable hslot.present).1]
  exact ⟨by decide, (scanMem_controller (Or.inr rfl)).present⟩

/-- On the last bus of the record it is not: the scan returns, and has initialised nothing. -/
theorem pciEnumerate_misses_last_bus : (∃ I, HoldsStill I 1 (scanKernel 0).mem 0x3000 ∧ I [] (scanKernel 0)) ∧
    WindowsApart (scanKernel 0).mem 0x3000 ∧ PciSlot.Controller (scanKernel 0).mem 0x3000 ⟨0, 0, 0, 0⟩ ∧
    (∃ t, pciEnumerate 1 0x3000 (scanKernel 0) = .ok ⟨⟩ t ∧ t.initialised = []) ∧
    ¬ InitialisesEach 1 0x3000 (scanKernel 0) := by
  have hrun : ∃ t, pciEnumerate 1 0x3000 (scanKernel 0) = .ok ⟨⟩ t ∧ t.initialised = [] := by
    obtain ⟨t, hrun, -, hout⟩ :=
      pciEnumerate_outputs (scanMem_holdsStill (Or.inl rfl) 1) (scanMem_windowsApart (Or.inl rfl)) _
      (scanKernel_state 0)
    have hnone : scanTable (scanMem 0) 0x3000 = [] := by
      refine List.eq_nil_iff_forall_not_mem.mpr fun slot hslot => ?_
      have hreached := (mem_scanTable.mp hslot).2.1
      have hend : endBus (scanMem 0) (mcfgRecord 0x3000 slot.record) = 0 := by
        rw [(scanMem_present (Or.inl rfl) (mem_scanTable.mp hslot).1.inTable
          (mem_scanTable.mp hslot).1.present).1]
        decide
      rw [hend] at hreached
      exact absurd hreached (Nat.not_lt_zero _)
    rw [scanAddresses, hnone] at hout
    exact ⟨t, hrun, hout⟩
  have hcontroller := scanMem_controller (Or.inl (rfl : (0 : UInt8) = 0))
  refine ⟨⟨_, scanMem_holdsStill (Or.inl rfl) 1, scanKernel_state 0⟩, scanMem_windowsApart (Or.inl rfl),
    hcontroller, hrun, ?_⟩
  rintro ⟨t, calls, hrun', hcalls, hcount, -⟩
  obtain ⟨u, hu, hnone⟩ := hrun
  rw [hu] at hrun'
  cases hrun'
  rw [hnone] at hcalls
  have hnil : calls = [] := (List.append_eq_nil_iff.mp hcalls.symm).1
  have hone := hcount _ hcontroller
  rw [hnil] at hone
  cases hone

end scanMem

end JurasOS
