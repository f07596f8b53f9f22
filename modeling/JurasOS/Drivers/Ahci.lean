import JurasOS.Heap.Kheap
import JurasOS.Paging.Requests

/-!
# `ahci.c`

The driver of an AHCI controller: it maps the registers, makes a record on the heap
for each port that has a drive, and gives each port pages for its command list. The
registers are plain memory here.

The file does not compile as it stands. `port_count` is not declared; it is a
variable of its own here, apart from `driver->port_count`. `hba_portort` is read as
`hba_port`, `HBA_PxCMD_ST` as `0x0001`, and `HBA_PxCMD_FR`, which is not defined, as
the second value of `HBA_PxCMD_FRE`.
-/

namespace JurasOS

open Machine

/-- `PORT_TYPE`. -/
inductive PortType where
  | none
  | sata
  | semb
  | pm
  | satapi
  deriving DecidableEq

/-- The value of a `PORT_TYPE`. -/
def PortType.value : PortType → UInt32
  | .none => 0
  | .sata => 1
  | .semb => 2
  | .pm => 3
  | .satapi => 4

/-- `HBA_PxCMD_CR`. -/
def hbaPxCmdCr : UInt32 := 0x8000

/-- `HBA_PxCMD_FRE`. -/
def hbaPxCmdFre : UInt32 := 0x4000

/-- `HBA_PxCMD_FR`. -/
def hbaPxCmdFr : UInt32 := 0x4000

/-- `HBA_PxCMD_ST`. -/
def hbaPxCmdSt : UInt32 := 0x0001

/-- The word at an address. -/
def load32 (a : UInt32) : KernelM UInt32 := do
  let s ← get
  pure (s.mem.load32 a)

theorem load32_apply (a : UInt32) (s : Kernel) : load32 a s = .ok (s.mem.load32 a) s := rfl

/-- A store of a word. -/
def store32 (a v : UInt32) : KernelM PUnit := modify fun s => { s with mem := s.mem.store32 a v }

/-- A register, read. -/
def hbaRead (a : UInt32) : KernelM UInt32 := do
  modify (Kernel.emit (.hba a))
  load32 a

/-- A register, written. -/
def hbaWrite (a v : UInt32) : KernelM PUnit := do
  modify (Kernel.emit (.hba a))
  store32 a v

/-- A pointer cast to `uint64_t`: the compiler extends its sign. -/
def pointerToUInt64 (p : UInt32) : UInt64 := p.toInt32.toInt64.toUInt64

/-- `check_port_type`. -/
def checkPortType (port : UInt32) : KernelM PortType := do
  let sataStatus ← hbaRead (port + 0x28)
  let interfacePowerManagement := (sataStatus >>> 8) &&& 0b111
  let deviceDetection := sataStatus &&& 0b111
  if deviceDetection ≠ 0x3 then pure .none
  else if interfacePowerManagement ≠ 0x1 then pure .none
  else
    let sig ← hbaRead (port + 0x24)
    if sig = 0xeb140101 then pure .satapi
    else if sig = 0x00000101 then pure .sata
    else if sig = 0x96690101 then pure .pm
    else if sig = 0xc33c0101 then pure .semb
    else pure .none

/-- The port `i` of the controller at `abar`. -/
def portAt (abar : UInt32) (i : ℕ) : UInt32 := abar + 0x100 + 0x80 * UInt32.ofNat i

/-- The record that `ahci_driver_probe_ports` makes for a port with a drive. -/
def ahciAddPort (port : UInt32) (portType : PortType) : KernelM PUnit := do
  let record ← kmalloc 16
  modify fun s =>
    let driver := s.ahciDriver
    let slot := driver.portCount.toUInt32
    { s with ahciDriver := { driver with ports := fun i => if i = slot then record else driver.ports i } }
  let driver := (← get).ahciDriver
  let ahciPort := driver.ports driver.portCount.toUInt32
  store32 (ahciPort + 4) portType.value
  store32 ahciPort port
  modify fun s =>
    let count := s.ahciDriver.freePortCount
    { s with
      mem := s.mem.store8 (ahciPort + 12) count
      ahciDriver := { s.ahciDriver with freePortCount := count + 1 } }

/-- `ahci_driver_probe_ports`. -/
def ahciDriverProbePorts : KernelM PUnit := do
  let abar := (← get).ahciDriver.abar
  let portsImpl ← hbaRead (abar + 0x0C)
  timesM 32 fun i => do
    if portsImpl &&& (1 <<< UInt32.ofNat i) ≠ 0 then
      let port := portAt (← get).ahciDriver.abar i
      let portType ← checkPortType port
      if portType = .sata ∨ portType = .satapi then ahciAddPort port portType
      else pure ⟨⟩
    else pure ⟨⟩

/-- The address of the command register of a port, through its record. -/
def cmdRegister (port : UInt32) : KernelM UInt32 := do
  let hbaPort ← load32 port
  pure (hbaPort + 0x18)

/-- `ahci_port_start`. -/
def ahciPortStart (fuel : ℕ) (port : UInt32) : KernelM PUnit := do
  loopM .running (fun _ => do
    let cmd ← hbaRead (← cmdRegister port)
    if cmd &&& hbaPxCmdCr ≠ 0 then pure (.inl ⟨⟩) else pure (.inr ⟨⟩)) fuel PUnit.unit
  let cmd ← cmdRegister port
  hbaWrite cmd ((← hbaRead cmd) ||| hbaPxCmdFre)
  let cmd ← cmdRegister port
  hbaWrite cmd ((← hbaRead cmd) ||| hbaPxCmdSt)

/-- `ahci_port_stop`. -/
def ahciPortStop (fuel : ℕ) (port : UInt32) : KernelM PUnit := do
  let cmd ← cmdRegister port
  hbaWrite cmd ((← hbaRead cmd) &&& ~~~hbaPxCmdSt)
  let cmd ← cmdRegister port
  hbaWrite cmd ((← hbaRead cmd) &&& ~~~hbaPxCmdFre)
  loopM .running (fun _ => do
    let cmd ← hbaRead (← cmdRegister port)
    if cmd &&& hbaPxCmdFr ≠ 0 then pure (.inl ⟨⟩)
    else
      let cmd ← hbaRead (← cmdRegister port)
      if cmd &&& hbaPxCmdCr ≠ 0 then pure (.inl ⟨⟩) else pure (.inr ⟨⟩)) fuel PUnit.unit

/-- A page for the port, or `NULL`, in the two registers from `offset` on, and cleared. -/
def ahciPortBase (port offset size : UInt32) : KernelM PUnit := do
  let base := (← pfaRequestPage).getD 0
  hbaWrite ((← load32 port) + offset) base
  hbaWrite ((← load32 port) + (offset + 4)) (pointerToUInt64 base >>> 32).toUInt32
  let base ← hbaRead ((← load32 port) + offset)
  modify fun s => s.memset base 0 size

/-- The command header `i`, and a page for its table. -/
def ahciCommandHeader (cmdHeader : UInt32) (i : ℕ) : KernelM PUnit := do
  let header := cmdHeader + 32 * UInt32.ofNat i
  modify fun s => { s with mem := s.mem.store16 (header + 2) 8 }
  let cmdTableAddr := (← pfaRequestPage).getD 0
  let addr := pointerToUInt64 cmdTableAddr + (UInt64.ofNat i <<< 8)
  store32 (header + 8) addr.toUInt32
  store32 (header + 12) (addr >>> 32).toUInt32
  modify fun s => s.memset cmdTableAddr 0 256

/-- `ahci_configure_port`. The sum in `cmd_header` is made before the shift. -/
def ahciConfigurePort (fuel : ℕ) (port : UInt32) : KernelM PUnit := do
  modify (Kernel.emit (.configurePort port))
  ahciPortStop fuel port
  ahciPortBase port 0x00 1024
  ahciPortBase port 0x08 256
  let clb ← hbaRead (← load32 port)
  let clbu ← hbaRead ((← load32 port) + 0x04)
  let cmdHeader := ((clb.toUInt64 + clbu.toUInt64) <<< 32).toUInt32
  timesM 32 (ahciCommandHeader cmdHeader)
  ahciPortStart fuel port

/-- The loop of `ahci_driver_init` over the ports: `port_count` is a byte, so it ends. -/
def ahciConfigurePorts (fuel : ℕ) : KernelM PUnit :=
  loopM .running (fun i => do
    let driver := (← get).ahciDriver
    if i < driver.portCount.toUInt32 then
      ahciConfigurePort fuel (driver.ports i)
      pure (.inl (i + 1))
    else pure (.inr ⟨⟩)) 256 (0 : UInt32)

/-- `ahci_driver_init`. -/
def ahciDriverInit (fuel : ℕ) (pciBaseAddr : UInt32) : KernelM PUnit := do
  modify (Kernel.emit (.ahciInit pciBaseAddr))
  modify fun s =>
    { s with ahciDriver := { s.ahciDriver with
      pciBaseAddr := pciBaseAddr, abar := s.mem.load32 (pciBaseAddr + 36) } }
  let abar := (← get).ahciDriver.abar
  ptmMapAddr abar abar true true
  ahciDriverProbePorts
  ahciConfigurePorts fuel

/-- With a count of zero no port is configured. -/
theorem ahciConfigurePorts_of_zero {s : Kernel} (h : s.ahciDriver.portCount = 0) (fuel : ℕ) :
    ahciConfigurePorts fuel s = .ok ⟨⟩ s := by
  rw [ahciConfigurePorts, show (256 : ℕ) = 255 + 1 from rfl, loopM]
  refine (bind_of_ok (?_ : _ = EStateM.Result.ok (.inr ⟨⟩) s)).trans rfl
  rw [bind_of_ok (get_apply s), h, if_neg (by decide), pure_apply]

/-! ### What the drivers do -/

/-- An event that is not a call of `ahci_driver_init`. -/
def Event.NotInit : Event → Prop
  | .ahciInit _ => False
  | _ => True

/-- The run goes on, and `ahci_driver_init` is not called. -/
abbrev InsideInit : Kernel → Kernel → Prop := Emits Event.NotInit

/-- An event of the drivers themselves: not a call of `ahci_driver_init`, and not a read of a
firmware table. -/
def Event.OfDriver : Event → Prop
  | .memset _ _ | .mapAddr _ _ | .pteWrite _ | .pciHeader _ | .hba _ | .configurePort _ => True
  | _ => False

/-- The relation allows what the driver does in one step: to write something down, and to change the memory,
its own record and the counters of the allocator. -/
structure DriverSteps (R : Kernel → Kernel → Prop) : Prop where
  emit : ∀ {e : Event}, e.OfDriver → ∀ s, R s (s.emit e)
  change : ∀ (s : Kernel) (m : Mem) (driver : AhciDriver) (pfa : Pfa), pfa.pageBitmap = s.pfa.pageBitmap →
    R s { s with mem := m, ahciDriver := driver, pfa := pfa }

/-- The things of note that the drivers do are theirs. -/
theorem driverSteps_emits {P : Event → Prop} (hP : ∀ e : Event, e.OfDriver → P e) : DriverSteps (Emits P) :=
  ⟨fun he => emits_emit (hP _ he), fun _ _ _ _ _ => Emits.of_trace rfl⟩

theorem driverSteps_insideInit : DriverSteps InsideInit :=
  driverSteps_emits fun e he => by cases e <;> trivial

section DriverSteps

variable {R : Kernel → Kernel → Prop}

theorem DriverSteps.store32 (h : DriverSteps R) (a v : UInt32) : Along R (store32 a v) :=
  Along.modify fun s => h.change s _ s.ahciDriver s.pfa rfl

variable [IsTrans Kernel R]

theorem DriverSteps.hbaWrite (h : DriverSteps R) (a v : UInt32) : Along R (hbaWrite a v) :=
  (Along.modify (h.emit (by trivial))).bind fun _ => h.store32 a v

theorem DriverSteps.memset (h : DriverSteps R) (p n : UInt32) (v : UInt8) :
    Along R (modify fun s => s.memset p v n : KernelM PUnit) :=
  Along.modify fun s =>
    IsTrans.trans _ _ _ (h.emit (e := .memset p n) trivial s) (h.change _ _ s.ahciDriver s.pfa rfl)

variable [Std.Refl R]

theorem load32_along (a : UInt32) : Along R (load32 a) := Along.get.bind fun _ => Along.pure _

theorem DriverSteps.hbaRead (h : DriverSteps R) (a : UInt32) : Along R (hbaRead a) :=
  (Along.modify (h.emit (by trivial))).bind fun _ => load32_along a

/-- A call of `ptm_map_addr`, after it is written down. -/
theorem DriverSteps.ptmMapAddr_from (h : DriverSteps R) (addr physAddr : UInt32) (isKernel isWritable : Bool)
    (s : Kernel) :
    R (s.emit (.mapAddr s.pd addr)) (stop (ptmMapAddr addr physAddr isKernel isWritable s)) := by
  rw [JurasOS.ptmMapAddr]
  split
  · exact Std.Refl.refl _
  · simp only [stop, ptmWriteEntry]
    split
    · exact IsTrans.trans _ _ _ (h.emit (by trivial) _) (h.change _ _ s.ahciDriver s.pfa rfl)
    · exact Std.Refl.refl _

theorem DriverSteps.ptmMapAddr (h : DriverSteps R) (addr physAddr : UInt32) (isKernel isWritable : Bool) :
    Along R (ptmMapAddr addr physAddr isKernel isWritable) := fun s =>
  IsTrans.trans _ _ _ (h.emit (e := .mapAddr s.pd addr) trivial s)
    (h.ptmMapAddr_from addr physAddr isKernel isWritable s)

theorem DriverSteps.pfaRequestPage (h : DriverSteps R) : Along R pfaRequestPage := by
  refine Along.get.bind fun s => ?_
  cases clearPage s with
  | none => exact Along.pure _
  | some index =>
    refine Along.bind (Along.modify fun t => ?_) fun _ => Along.pure _
    have hmarks := pfaLockPage_marks (UInt32.ofNat index * 4096) t
    rw [hmarks.same]
    exact h.change t _ t.ahciDriver _ hmarks.bitmap

/-- `kmalloc` writes to memory only. -/
theorem kmalloc_along (hmem : ∀ (s : Kernel) m, R s { s with mem := m }) (size : UInt32) :
    Along R (kmalloc size) := by
  refine Along.get.bind fun s => ?_
  dsimp only
  split
  · exact Along.throw _
  · exact Along.bind (Along.modify fun t => hmem t _) fun _ => Along.get.bind fun _ => Along.pure _

theorem DriverSteps.kmalloc (h : DriverSteps R) (size : UInt32) : Along R (kmalloc size) :=
  kmalloc_along (fun s m => h.change s m s.ahciDriver s.pfa rfl) size

theorem DriverSteps.checkPortType (h : DriverSteps R) (port : UInt32) : Along R (checkPortType port) := by
  refine (h.hbaRead _).bind fun _ => (Along.pure _).ite ((Along.pure _).ite ?_)
  refine (h.hbaRead _).bind fun _ => (Along.pure _).ite ((Along.pure _).ite ((Along.pure _).ite ?_))
  exact (Along.pure _).ite (Along.pure _)

theorem DriverSteps.ahciAddPort (h : DriverSteps R) (port : UInt32) (portType : PortType) :
    Along R (ahciAddPort port portType) := by
  refine (h.kmalloc 16).bind fun _ => ?_
  refine Along.bind (Along.modify fun s => h.change s s.mem _ s.pfa rfl) fun _ => ?_
  refine Along.get.bind fun _ => (h.store32 _ _).bind fun _ => (h.store32 _ _).bind fun _ => ?_
  exact Along.modify fun s => h.change s _ _ s.pfa rfl

theorem DriverSteps.ahciDriverProbePorts (h : DriverSteps R) : Along R ahciDriverProbePorts := by
  refine Along.get.bind fun _ => (h.hbaRead _).bind fun _ => Along.timesM fun i => ?_
  refine Along.ite (Along.get.bind fun _ => (h.checkPortType _).bind fun _ => ?_) (Along.pure _)
  exact (h.ahciAddPort _ _).ite (Along.pure _)

theorem cmdRegister_along (port : UInt32) : Along R (cmdRegister port) :=
  (load32_along port).bind fun _ => Along.pure _

/-- A read, change and write of the command register. -/
theorem DriverSteps.cmdUpdate (h : DriverSteps R) (port : UInt32) (f : UInt32 → UInt32) :
    Along R (do let cmd ← cmdRegister port; JurasOS.hbaWrite cmd (f (← JurasOS.hbaRead cmd))) :=
  (cmdRegister_along port).bind fun _ => (h.hbaRead _).bind fun _ => h.hbaWrite _ _

theorem DriverSteps.ahciPortStart (h : DriverSteps R) (fuel : ℕ) (port : UInt32) :
    Along R (ahciPortStart fuel port) := by
  refine Along.bind (Along.loopM (fun _ => ?_) fuel _) fun _ => ?_
  · exact (cmdRegister_along port).bind fun _ => (h.hbaRead _).bind fun _ =>
      (Along.pure _).ite (Along.pure _)
  · refine (cmdRegister_along port).bind fun _ => (h.hbaRead _).bind fun _ =>
      (h.hbaWrite _ _).bind fun _ => ?_
    exact h.cmdUpdate port (· ||| hbaPxCmdSt)

theorem DriverSteps.ahciPortStop (h : DriverSteps R) (fuel : ℕ) (port : UInt32) :
    Along R (ahciPortStop fuel port) := by
  refine (cmdRegister_along port).bind fun _ => (h.hbaRead _).bind fun _ =>
    (h.hbaWrite _ _).bind fun _ => ?_
  refine (cmdRegister_along port).bind fun _ => (h.hbaRead _).bind fun _ =>
    (h.hbaWrite _ _).bind fun _ => ?_
  refine Along.loopM (fun _ => ?_) fuel _
  refine (cmdRegister_along port).bind fun _ => (h.hbaRead _).bind fun _ => (Along.pure _).ite ?_
  exact (cmdRegister_along port).bind fun _ => (h.hbaRead _).bind fun _ =>
    (Along.pure _).ite (Along.pure _)

theorem DriverSteps.ahciPortBase (h : DriverSteps R) (port offset size : UInt32) :
    Along R (ahciPortBase port offset size) := by
  refine h.pfaRequestPage.bind fun _ => (load32_along port).bind fun _ => (h.hbaWrite _ _).bind fun _ => ?_
  refine (load32_along port).bind fun _ => (h.hbaWrite _ _).bind fun _ => ?_
  exact (load32_along port).bind fun _ => (h.hbaRead _).bind fun _ => h.memset _ _ _

theorem DriverSteps.ahciCommandHeader (h : DriverSteps R) (cmdHeader : UInt32) (i : ℕ) :
    Along R (ahciCommandHeader cmdHeader i) := by
  refine Along.bind (Along.modify fun s => h.change s _ s.ahciDriver s.pfa rfl) fun _ => ?_
  refine h.pfaRequestPage.bind fun _ => ?_
  exact (h.store32 _ _).bind fun _ => (h.store32 _ _).bind fun _ => h.memset _ _ _

theorem DriverSteps.ahciConfigurePort (h : DriverSteps R) (fuel : ℕ) (port : UInt32) :
    Along R (ahciConfigurePort fuel port) := by
  refine (Along.modify (h.emit (by trivial))).bind fun _ => (h.ahciPortStop fuel port).bind fun _ => ?_
  refine (h.ahciPortBase _ _ _).bind fun _ => (h.ahciPortBase _ _ _).bind fun _ => ?_
  refine (load32_along port).bind fun _ => (h.hbaRead _).bind fun _ => ?_
  refine (load32_along port).bind fun _ => (h.hbaRead _).bind fun _ => ?_
  exact (Along.timesM fun i => h.ahciCommandHeader _ i).bind fun _ => h.ahciPortStart fuel port

/-- A call of `ahci_driver_init`, after it is written down. -/
theorem DriverSteps.ahciDriverInit_from (h : DriverSteps R) (fuel : ℕ) (pciBaseAddr : UInt32) (s : Kernel) :
    R (s.emit (.ahciInit pciBaseAddr)) (stop (ahciDriverInit fuel pciBaseAddr s)) := by
  rw [ahciDriverInit, bind_of_ok (modify_apply ..)]
  refine Along.bind (Along.modify fun t => h.change t t.mem _ t.pfa rfl) (fun _ => ?_) _
  refine Along.get.bind fun _ => (h.ptmMapAddr _ _ _ _).bind fun _ => h.ahciDriverProbePorts.bind fun _ => ?_
  refine Along.loopM (fun i => Along.get.bind fun _ => ?_) 256 _
  exact ((h.ahciConfigurePort fuel _).bind fun _ => Along.pure _).ite (Along.pure _)

end DriverSteps

/-! ### The run goes on -/

theorem ptmMapAddr_inside (addr physAddr : UInt32) (isKernel isWritable : Bool) :
    Along InsideInit (ptmMapAddr addr physAddr isKernel isWritable) :=
  driverSteps_insideInit.ptmMapAddr addr physAddr isKernel isWritable

/-- `ahci_driver_init` does not call itself. -/
theorem inside_ahciDriverInit (fuel : ℕ) (pciBaseAddr : UInt32) (s : Kernel) :
    InsideInit (s.emit (.ahciInit pciBaseAddr)) (stop (ahciDriverInit fuel pciBaseAddr s)) :=
  driverSteps_insideInit.ahciDriverInit_from fuel pciBaseAddr s

end JurasOS
