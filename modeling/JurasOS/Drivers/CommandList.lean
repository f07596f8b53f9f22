import JurasOS.Drivers.Configure

/-!
# The command list of a port

`PortConfigured` is what `ahci_configure_port` is for: a list of command headers,
each with eight entries and with a cleared table of its own in a page that the call
got. No call leaves a port so. The address of the list is shifted out of
`cmd_header`, so that the headers are made at 0; and where that is the list, the
tables are put 256 bytes apart, each in a page of its own, so that those from the
16th on are past the end of their page.
-/

namespace JurasOS

open Machine Alloc

/-- What a port with its registers at `hba` is to be like after `ahci_configure_port`, from `s` to
`t`: where the headers and their tables are, and the area for what is received. -/
structure PortConfigured (hba : UInt32) (header table : ℕ → UInt32) (fis : UInt32) (s t : Kernel) : Prop where
  clb : ∀ i < 32, (header i).toNat = t.mem.wide hba + 32 * i
  fb : fis.toNat = t.mem.wide (hba + 8)
  prdtl : ∀ i < 32, t.mem.load16 (header i + 2) = 8
  ctba : ∀ i < 32, (table i).toNat = t.mem.wide (header i + 8)
  zeroed : ∀ i < 32, ∀ a ∈ span (table i) 256, t.mem a = 0
  obtained : ∀ i < 32, ∃ f < s.pfa.pageBitmap.length, s.taken f = false ∧ t.taken f = true ∧
    span (table i) 256 ⊆ frameBytes f
  tables_apart : ∀ i < 32, ∀ j < 32, i ≠ j → Disjoint (span (table i) 256) (span (table j) 256)
  list_apart : ∀ i < 32, Disjoint (span (header 0) 1024) (span (table i) 256)
  fis_apart : ∀ i < 32, Disjoint (span fis 256) (span (table i) 256)
  list_fis : Disjoint (span (header 0) 1024) (span fis 256)

/-- What the call may still change, with the clear frames below `k` taken. -/
def laterBytes (hba : UInt32) (s : Kernel) (k : ℕ) : Set UInt32 :=
  span 0 1024 ∪ span (hba + 8) 8 ∪ s.bitmapBytes ∪ {a | ∃ f ∈ s.clearFrames, k ≤ f ∧ a ∈ frameBytes f}

/-- A change of the command register. -/
def cmdUpdate (port : UInt32) (f : UInt32 → UInt32) : KernelM PUnit := do
  let cmd ← cmdRegister port
  hbaWrite cmd (f (← hbaRead cmd))

/-- An iteration of the loop of `ahci_port_start`. -/
def startStep (port : UInt32) : KernelM (PUnit ⊕ PUnit) := do
  let cmd ← hbaRead (← cmdRegister port)
  if cmd &&& hbaPxCmdCr ≠ 0 then pure (.inl ⟨⟩) else pure (.inr ⟨⟩)

/-- An iteration of the loop of `ahci_port_stop`. -/
def stopStep (port : UInt32) : KernelM (PUnit ⊕ PUnit) := do
  let cmd ← hbaRead (← cmdRegister port)
  if cmd &&& hbaPxCmdFr ≠ 0 then pure (.inl ⟨⟩) else startStep port

theorem ahciPortStart_eq (fuel : ℕ) (port : UInt32) : ahciPortStart fuel port = (do
    loopM .running (fun _ => startStep port) fuel PUnit.unit
    cmdUpdate port (· ||| hbaPxCmdFre)
    cmdUpdate port (· ||| hbaPxCmdSt)) := by
  simp only [ahciPortStart, cmdUpdate, startStep, bind_assoc]

theorem ahciPortStop_eq (fuel : ℕ) (port : UInt32) : ahciPortStop fuel port = (do
    cmdUpdate port (· &&& ~~~hbaPxCmdSt)
    cmdUpdate port (· &&& ~~~hbaPxCmdFre)
    loopM .running (fun _ => stopStep port) fuel PUnit.unit) := by
  simp only [ahciPortStop, cmdUpdate, stopStep, startStep, bind_assoc]

section ahciConfigurePort

variable {port hba : UInt32} {s t v v' : Kernel} {k j f n fuel : ℕ}

/-! ### The command register -/

theorem hbaRead_looks (a : UInt32) : Along Looks (hbaRead a) :=
  (Along.modify (looks_emit (e := .hba a) trivial)).bind fun _ => load32_along a

theorem startStep_looks (port : UInt32) : Along Looks (startStep port) :=
  (cmdRegister_along port).bind fun _ => (hbaRead_looks _).bind fun _ => (Along.pure _).ite (Along.pure _)

theorem stopStep_looks (port : UInt32) : Along Looks (stopStep port) :=
  (cmdRegister_along port).bind fun _ => (hbaRead_looks _).bind fun _ =>
    (Along.pure _).ite (startStep_looks port)

theorem Configuring.looks (h : Configuring port hba s k j v) (hlook : Looks v v') :
    Configuring port hba s k j v' := by
  have hpfa : v'.pfa = v.pfa := by rw [hlook.1]
  exact h.write hpfa (fun a _ => congrFun hlook.mem a) (Set.empty_disjoint _) (Set.empty_disjoint _)

theorem Configuring.cmdRegister (h : Configuring port hba s k j v) :
    JurasOS.cmdRegister port v = .ok (hba + 0x18) v := by
  rw [JurasOS.cmdRegister, bind_of_ok h.load_record, pure_apply]

/-- The command register is changed, and nothing else. -/
theorem Configuring.cmdUpdate (h : Configuring port hba s k j v) (hready : PortReady port hba s)
    (f : UInt32 → UInt32) :
    ∃ v', JurasOS.cmdUpdate port f v = .ok ⟨⟩ v' ∧ Configuring port hba s k j v' ∧
      v'.mem = v.mem.store32 (hba + 0x18) (f (v.mem.load32 (hba + 0x18))) := by
  have hread := h.looks (looks_emit (e := .hba (hba + 0x18)) trivial v)
  obtain ⟨v', hrun, h', hm'⟩ :=
    hread.hbaWrite_ok hready (x := 0x18) (by decide) (f (v.mem.load32 (hba + 0x18)))
  exact ⟨v', by rw [JurasOS.cmdUpdate, bind_of_ok h.cmdRegister, bind_of_ok (hbaRead_apply ..), hrun], h',
    hm'⟩

/-- Two changes, one after the other. -/
theorem Configuring.cmdUpdates (h : Configuring port hba s k j v) (hready : PortReady port hba s)
    (f g : UInt32 → UInt32) :
    ∃ v', (JurasOS.cmdUpdate port f >>= fun _ => JurasOS.cmdUpdate port g) v = .ok ⟨⟩ v' ∧
      Configuring port hba s k j v' ∧ v'.mem.load32 (hba + 0x18) = g (f (v.mem.load32 (hba + 0x18))) ∧
      Set.EqOn v'.mem v.mem (span (hba + 0x18) 4)ᶜ := by
  obtain ⟨u, hrun, hu, hum⟩ := h.cmdUpdate hready f
  obtain ⟨v', hrun', h', hm'⟩ := hu.cmdUpdate hready g
  refine ⟨v', by rw [bind_of_ok hrun, hrun'], h', ?_, fun a ha => ?_⟩
  · rw [hm', Mem.load32_store32, hum, Mem.load32_store32]
  · rw [hm', Mem.eqOn_store32 _ _ _ ha, hum, Mem.eqOn_store32 _ _ _ ha]

/-- A call of `ahci_port_stop` that ends has changed the command register only. -/
theorem Configuring.portStop (h : Configuring port hba s k j v) (hready : PortReady port hba s)
    (hrun : ahciPortStop fuel port v = .ok ⟨⟩ v') :
    Configuring port hba s k j v' ∧ Set.EqOn v'.mem v.mem (span (hba + 0x18) 4)ᶜ := by
  obtain ⟨u, hupdates, hu, -, hum⟩ := h.cmdUpdates hready (· &&& ~~~hbaPxCmdSt) (· &&& ~~~hbaPxCmdFre)
  rw [ahciPortStop_eq, ← bind_assoc, bind_of_ok hupdates] at hrun
  have hlook : Looks u v' := (Along.loopM (fun _ => stopStep_looks port) fuel PUnit.unit).of_ok hrun
  exact ⟨hu.looks hlook, by rwa [hlook.mem]⟩

/-- So has a call of `ahci_port_start`. -/
theorem Configuring.portStart (h : Configuring port hba s k j v) (hready : PortReady port hba s)
    (hrun : ahciPortStart fuel port v = .ok ⟨⟩ v') :
    Configuring port hba s k j v' ∧ Set.EqOn v'.mem v.mem (span (hba + 0x18) 4)ᶜ := by
  rw [ahciPortStart_eq] at hrun
  obtain ⟨⟨⟩, u, hloop, hrest⟩ := bind_eq_ok.mp hrun
  have hlook : Looks v u := (Along.loopM (fun _ => startStep_looks port) fuel PUnit.unit).of_ok hloop
  obtain ⟨w, hupdates, hw, -, hwm⟩ := (h.looks hlook).cmdUpdates hready (· ||| hbaPxCmdFre) (· ||| hbaPxCmdSt)
  rw [hupdates] at hrest
  cases hrest
  exact ⟨hw, by rwa [← hlook.mem]⟩

/-- A port that does not run is not waited for. -/
theorem Configuring.startStep_ok (h : Configuring port hba s k j v) (hidle : v.mem.load32 (hba + 0x18) = 0) :
    startStep port v = .ok (.inr ⟨⟩) (v.emit (.hba (hba + 0x18))) := by
  rw [startStep, bind_of_ok h.cmdRegister, bind_of_ok (hbaRead_apply ..), hidle, if_neg (by decide),
    pure_apply]

theorem Configuring.portStop_ok (h : Configuring port hba s k j v) (hready : PortReady port hba s)
    (hidle : v.mem.load32 (hba + 0x18) = 0) :
    ∃ v', ahciPortStop 1 port v = .ok ⟨⟩ v' ∧ v'.mem.load32 (hba + 0x18) = 0 := by
  obtain ⟨u, hupdates, hu, hzero, -⟩ := h.cmdUpdates hready (· &&& ~~~hbaPxCmdSt) (· &&& ~~~hbaPxCmdFre)
  have hread := hu.looks (looks_emit (e := .hba (hba + 0x18)) trivial u)
  rw [hidle, show (0 &&& ~~~hbaPxCmdSt) &&& ~~~hbaPxCmdFre = 0 by decide] at hzero
  refine ⟨(u.emit (.hba (hba + 0x18))).emit (.hba (hba + 0x18)), ?_, hzero⟩
  rw [ahciPortStop_eq, ← bind_assoc, bind_of_ok hupdates, loopM]
  refine (bind_of_ok (?_ : _ = EStateM.Result.ok (.inr ⟨⟩) _)).trans (pure_apply ..)
  rw [stopStep, bind_of_ok hu.cmdRegister, bind_of_ok (hbaRead_apply ..), hzero, if_neg (by decide),
    hread.startStep_ok hzero]

theorem Configuring.portStart_ok (h : Configuring port hba s k j v) (hready : PortReady port hba s)
    (hidle : v.mem.load32 (hba + 0x18) = 0) :
    ∃ v', ahciPortStart 1 port v = .ok ⟨⟩ v' := by
  have hread := h.looks (looks_emit (e := .hba (hba + 0x18)) trivial v)
  obtain ⟨v', hupdates, -⟩ := hread.cmdUpdates hready (· ||| hbaPxCmdFre) (· ||| hbaPxCmdSt)
  have hloop : loopM .running (fun _ => startStep port) 1 PUnit.unit v =
      .ok ⟨⟩ (v.emit (.hba (hba + 0x18))) := (bind_of_ok (h.startStep_ok hidle)).trans (pure_apply ..)
  exact ⟨v', by rw [ahciPortStart_eq, bind_of_ok hloop, hupdates]⟩

/-! ### The loop over the headers -/

theorem laterBytes_subset {k' : ℕ} (hle : k ≤ k') : laterBytes hba s k' ⊆ laterBytes hba s k := by
  rintro a (ha | ⟨f, hf, hkf, ha⟩)
  · exact Or.inl ha
  · exact Or.inr ⟨f, hf, hle.trans hkf, ha⟩

/-- A request of a page, and what is written beside it, change such bytes only. -/
theorem FirstFrom.subset_laterBytes (h : FirstFrom s k f) (hba : UInt32) {W : Set UInt32}
    (hW : W ⊆ span 0 1024 ∪ span (hba + 8) 8) :
    W ∪ s.bitmapBytes ∪ frameBytes f ⊆ laterBytes hba s k := by
  rintro a ((ha | ha) | ha)
  · exact Or.inl (Or.inl (hW ha))
  · exact Or.inl (Or.inr ha)
  · exact Or.inr ⟨f, h.clear, h.le, ha⟩

theorem span_headerAt_subset {i : ℕ} (hi : i < 32) : span (headerAt i) 32 ⊆ span 0 1024 := by
  have hlow := headerAt_low hi (x := 0) (n := 32) (by decide)
  rwa [UInt32.add_zero] at hlow

theorem FirstFrom.header_later (h : FirstFrom s k f) (hba : UInt32) {i k' : ℕ} (hi : i < 32) (hle : k' ≤ k) :
    (laterBytes hba s k')ᶜ ⊆ (span (headerAt i) 32 ∪ s.bitmapBytes ∪ frameBytes f)ᶜ :=
  Set.compl_subset_compl.mpr
    ((h.subset_laterBytes hba ((span_headerAt_subset hi).trans Set.subset_union_left)).trans
    (laterBytes_subset hle))

/-- The first iterations of the loop. -/
theorem Configuring.commandHeaders (h : Configuring port hba s k j v) (hready : PortReady port hba s)
    (hk : 0 < k) (hn : n ≤ 32) (hfree : j + n ≤ s.clearFrames.card) :
    ∃ v', timesM n (ahciCommandHeader 0) v = .ok ⟨⟩ v' ∧ ∃ k', k ≤ k' ∧ Configuring port hba s k' (j + n) v' ∧
      Set.EqOn v'.mem v.mem (laterBytes hba s k)ᶜ := by
  refine timesM_inv (P := fun i t => ∃ k', k ≤ k' ∧ Configuring port hba s k' (j + i) t ∧
    Set.EqOn t.mem v.mem (laterBytes hba s k)ᶜ) ⟨k, le_rfl, h, Set.eqOn_refl _ _⟩ ?_
  rintro i hi t ⟨k', hle, ht, hmem⟩
  obtain ⟨f, t', hrun, hfirst, ht', -, -, hmem'⟩ :=
    ht.commandHeader hready (by omega) (by omega) (i := i) (by omega)
  exact ⟨t', hrun, f + 1, hle.trans (hfirst.le.trans (Nat.le_succ f)), ht',
    (hmem'.mono (hfirst.header_later hba (by omega) hle)).trans hmem⟩

/-- The step for a header leaves the other headers. -/
theorem PortReady.header_apart (h : PortReady port hba s) (hf : f ∈ s.clearFrames) (hpos : 0 < f) {i j : ℕ}
    (hi : i < 32) (hj : j < 32) (hne : i ≠ j) :
    Disjoint (span (headerAt i) 32) (span (headerAt j) 32 ∪ s.bitmapBytes ∪ frameBytes f) := by
  have hheaders : Disjoint (span (headerAt i) 32) (span (headerAt j) 32) := by
    have hti := toNat_headerAt hi
    have htj := toNat_headerAt hj
    exact disjoint_span (by omega) (by omega) (by omega)
  obtain ⟨-, -, hbitmap⟩ := fixedBytes_off h.low_off
  exact (hheaders.union_right (hbitmap.mono_left (span_headerAt_subset hi))).union_right
    ((frameBytes_low (h.lt_of_clear hf) hpos).symm.mono_left (span_headerAt_subset hi))

/-- The whole loop. The last two tables were meant for the frames `f` and `g`. -/
theorem Configuring.headers (h : Configuring port hba s k j v) (hready : PortReady port hba s) (hk : 0 < k)
    (hfree : j + 32 ≤ s.clearFrames.card) :
    ∃ f g v', timesM 32 (ahciCommandHeader 0) v = .ok ⟨⟩ v' ∧ Configuring port hba s (g + 1) (j + 32) v' ∧
      f ∈ s.clearFrames ∧ FirstFrom s (f + 1) g ∧ v'.mem.wide (headerAt 30 + 8) = (tableAddr f 30).toNat ∧
      v'.mem.wide (headerAt 31 + 8) = (tableAddr g 31).toNat ∧
      Set.EqOn v'.mem v.mem (laterBytes hba s k)ᶜ := by
  obtain ⟨t, hloop, k', hle, ht, htm⟩ := h.commandHeaders hready (n := 30) hk (by decide) (by omega)
  obtain ⟨f, u, hrun, hf, hu, hlower, hupper, hum⟩ :=
    ht.commandHeader hready (by omega) (by omega) (i := 30) (by decide)
  obtain ⟨g, w, hrun', hg, hw, hlower', hupper', hwm⟩ :=
    hu.commandHeader hready (by omega) (by omega) (i := 31) (by decide)
  have hkf := hf.le
  have hfg := hg.le
  refine ⟨f, g, w, ?_, hw, hf.clear, hg, ?_, ?_, ?_⟩
  · rw [show 32 = 30 + 1 + 1 from rfl, timesM, timesM]
    exact (bind_of_ok ((bind_of_ok hloop).trans hrun)).trans hrun'
  · have hapart :=
      hready.header_apart hg.clear (by omega) (i := 30) (j := 31) (by decide) (by decide) (by decide)
    rw [Mem.wide_congr (hwm.mono ((span_offset_subset (by decide)).trans (Set.disjoint_left.mp hapart)))]
    exact Mem.wide_eq hlower (by rw [UInt32.add_assoc]; exact hupper)
  · exact Mem.wide_eq hlower' (by rw [UInt32.add_assoc]; exact hupper')
  · exact (hwm.mono (hg.header_later hba (by decide) (by omega))).trans
      ((hum.mono (hf.header_later hba (by decide) (by omega))).trans htm)

/-! ### The addresses that are made -/

theorem toNat_pointerToUInt64 (p : UInt32) :
    (pointerToUInt64 p).toNat = if p.toNat < 2 ^ 31 then p.toNat else p.toNat + (2 ^ 64 - 2 ^ 32) := by
  have hp := p.toNat_lt
  show (p.toBitVec.signExtend 64).toNat = _
  rw [BitVec.toNat_signExtend, BitVec.toNat_setWidth, BitVec.msb_eq_decide, UInt32.toNat_toBitVec]
  by_cases h : p.toNat < 2 ^ 31
  · rw [if_pos h, if_neg (by simpa using h)]
    omega
  · rw [if_neg h, if_pos (by simpa using h)]
    omega

theorem toUInt32_pointerToUInt64 (p : UInt32) : (pointerToUInt64 p).toUInt32 = p := by
  have hp := p.toNat_lt
  rw [← UInt32.toNat_inj, UInt64.toNat_toUInt32, toNat_pointerToUInt64]
  split <;> omega

/-- Only a pointer to the lower half of memory is kept as it is. -/
theorem toNat_eq_pointer {a p : UInt32} (h : a.toNat = (pointerToUInt64 p).toNat) : a = p := by
  have ha := a.toNat_lt
  rw [toNat_pointerToUInt64] at h
  rw [← UInt32.toNat_inj]
  split at h <;> omega

theorem toNat_tableAddr (hf : f < 2 ^ 20) {i : ℕ} (hi : i < 32) : (tableAddr f i).toNat =
    ((if f < 2 ^ 19 then f * 4096 else f * 4096 + (2 ^ 64 - 2 ^ 32)) + 256 * i) % 2 ^ 64 := by
  have hpage := toNat_pageOf hf
  have hoffset : (UInt64.ofNat i <<< 8).toNat = 256 * i := by
    rw [UInt64.toNat_shiftLeft, UInt64.toNat_ofNat']
    show (i % 2 ^ 64) <<< 8 % 2 ^ 64 = _
    rw [Nat.shiftLeft_eq]
    omega
  rw [tableAddr, UInt64.toNat_add, toNat_pointerToUInt64, hpage, hoffset]
  by_cases h : f < 2 ^ 19
  · rw [if_pos h, if_pos (by omega)]
  · rw [if_neg h, if_neg (by omega)]

/-- A table from the 16th on is past the end of the page that was requested for it. -/
theorem table_page (hf : f < 2 ^ 20) {i : ℕ} (hlo : 16 ≤ i) (hhi : i < 32) {table : UInt32}
    (h : table.toNat = (tableAddr f i).toNat) : table.toNat / 4096 = f + 1 ∧ f < 2 ^ 19 ∨ f + 1 = 2 ^ 20 := by
  have htable := table.toNat_lt
  rw [toNat_tableAddr hf hhi] at h
  split at h <;> omega

/-! ### The whole call -/

/-- After the loop over the headers: the list is at the frame `p`, and the last two tables were meant for the
frames `f` and `g`. -/
structure HeadersMade (port hba : UInt32) (s : Kernel) (p f g : ℕ) (v : Kernel) : Prop where
  configuring : Configuring port hba s (g + 1) 34 v
  list : FirstFrom s 0 p
  table : f ∈ s.clearFrames
  last : FirstFrom s (f + 1) g
  clb : v.mem.wide hba = (pointerToUInt64 (pageOf p)).toNat
  prdtl : 0 < p → v.mem.load16 (pageOf p + 2) = 0
  ctba : v.mem.wide (headerAt 30 + 8) = (tableAddr f 30).toNat
  ctba_last : v.mem.wide (headerAt 31 + 8) = (tableAddr g 31).toNat

/-- The registers that are not for the other area stay as they are. -/
theorem PortReady.registers_later (h : PortReady port hba s) {x : UInt32} (hx : x.toNat + n ≤ 0x80)
    (hapart : x.toNat + n ≤ 8 ∨ 16 ≤ x.toNat) (k : ℕ) :
    Disjoint (span (hba + x) n) (laterBytes hba s k) := by
  have hin : span (hba + x) n ⊆ span hba 0x80 := span_offset_subset hx
  obtain ⟨-, hlow, -⟩ := fixedBytes_off h.low_off
  have hother : Disjoint (span (hba + x) n) (span (hba + 8) 8) :=
    disjoint_span_offset (by omega) (by decide) hapart
  refine Disjoint.union_right ((Disjoint.union_right (hlow.symm.mono_left hin) hother).union_right
    (h.registers_bitmap.mono_left hin)) (Set.disjoint_left.mpr ?_)
  rintro a ha ⟨f, hf, -, hframe⟩
  obtain ⟨-, hregisters, -⟩ := fixedBytes_off (h.frames_off f hf)
  exact Set.disjoint_left.mp hregisters hframe (hin ha)

/-- So does a page that the call got, but for the first one of memory. -/
theorem PortReady.page_later (h : PortReady port hba s) (hf : f ∈ s.clearFrames) (hpos : 0 < f) :
    Disjoint (frameBytes f) (laterBytes hba s (f + 1)) := by
  obtain ⟨-, hregisters, hbitmap⟩ := fixedBytes_off (h.frames_off f hf)
  have hother : span (hba + 8) 8 ⊆ span hba 0x80 := span_offset_subset (by decide)
  have hlow := frameBytes_low (h.lt_of_clear hf) hpos
  refine Disjoint.union_right ((Disjoint.union_right hlow (hregisters.mono_right hother)).union_right
    hbitmap) (Set.disjoint_left.mpr ?_)
  rintro a ha ⟨g, hg, hle, hframe⟩
  exact Set.disjoint_left.mp (frameBytes_disjoint (h.lt_of_clear hf) (h.lt_of_clear hg) (by omega)) ha hframe

/-- Once the port has stopped, the headers are made. -/
theorem PortReady.headersMade (hready : PortReady port hba s) (hfree : 34 ≤ s.clearFrames.card)
    (hstop : ahciPortStop fuel port (s.emit (.configurePort port)) = .ok ⟨⟩ t) :
    ∃ p f g v, ahciConfigurePort fuel port s = ahciPortStart fuel port v ∧ HeadersMade port hba s p f g v ∧
      v.mem.load32 (hba + 0x18) = t.mem.load32 (hba + 0x18) := by
  obtain ⟨h₁, -⟩ :=
    (hready.configuring.looks (looks_emit (e := .configurePort port) trivial s)).portStop hready hstop
  obtain ⟨p, s₂, hlist, hfirst, h₂, hclb, hclbu, hcleared, hm₂⟩ :=
    h₁.portBase hready (by omega) 0 1024 (by decide) (by decide)
  obtain ⟨q, s₃, hfis, hnext, h₃, -, -, -, hm₃⟩ :=
    h₂.portBase hready (by omega) 8 256 (by decide) (by decide)
  rw [UInt32.add_zero] at hclb hm₂
  rw [UInt32.zero_add] at hclbu
  have h₄ := (h₃.looks (looks_emit (e := .hba hba) trivial s₃)).looks
    (looks_emit (e := .hba (hba + 4)) trivial _)
  obtain ⟨f, g, s₅, hloop, h₅, hf, hg, hctba, hctba', hm₅⟩ := h₄.headers hready (Nat.succ_pos q) (by omega)
  have hpq := hnext.le
  have hfirst₃ : Set.EqOn s₃.mem s₂.mem (laterBytes hba s (p + 1))ᶜ :=
    hm₃.mono (Set.compl_subset_compl.mpr (hnext.subset_laterBytes hba Set.subset_union_right))
  have hlater : Set.EqOn s₅.mem s₂.mem (laterBytes hba s (p + 1))ᶜ :=
    (hm₅.mono (Set.compl_subset_compl.mpr (laterBytes_subset (by omega)))).trans hfirst₃
  refine ⟨p, f, g, s₅, ?_, ⟨h₅, hfirst, hf, hg, ?_, fun hpos => ?_, hctba, hctba'⟩, ?_⟩
  · rw [ahciConfigurePort, bind_of_ok (modify_apply ..), bind_of_ok hstop, bind_of_ok hlist, bind_of_ok hfis,
      bind_of_ok h₃.load_record, bind_of_ok (hbaRead_apply ..)]
    refine (bind_of_ok (h₃.looks (looks_emit (e := .hba hba) trivial s₃)).load_record).trans ?_
    rw [bind_of_ok (hbaRead_apply ..), toUInt32_shiftLeft, bind_of_ok hloop]
  · have hkept := hready.registers_later (x := 0) (n := 8) (by decide) (Or.inl (by decide)) (p + 1)
    rw [UInt32.add_zero] at hkept
    rw [Mem.wide_congr (hlater.mono (Set.disjoint_left.mp hkept))]
    exact Mem.wide_eq (by rw [hclb, toUInt32_pointerToUInt64]) hclbu
  · have hpage : span (pageOf p + 2) 2 ⊆ span (pageOf p) (1024 : UInt32).toNat :=
      span_offset_subset (by decide)
    have hkept : span (pageOf p + 2) 2 ⊆ (laterBytes hba s (p + 1))ᶜ := fun a ha =>
      Set.disjoint_left.mp (hready.page_later hfirst.clear hpos) (span_mono (by decide) (hpage ha))
    rw [Mem.load16_congr (hlater.mono hkept), Mem.load16,
      Mem.loadLE_eq_zero (by decide) fun a ha => hcleared a (hpage ha)]
    rfl
  · have hpair : Disjoint (span (hba + 0x18) 4) (span (hba + 0) 8) :=
      disjoint_span_offset (by decide) (by decide) (Or.inr (by decide))
    have hkept := hready.registers_later (x := 0x18) (n := 4) (by decide) (Or.inr (by decide))
    have hbase := hfirst.subset_laterBytes hba (Set.empty_subset _)
    rw [UInt32.add_zero] at hpair
    rw [Mem.load32_congr (hlater.mono (Set.disjoint_left.mp (hkept (p + 1))))]
    refine Mem.load32_congr (hm₂.mono ?_)
    rintro a ha ((hregister | hbit) | hframe)
    · exact Set.disjoint_left.mp hpair ha hregister
    · exact Set.disjoint_left.mp (hkept 0) ha (hbase (Or.inl (Or.inr hbit)))
    · exact Set.disjoint_left.mp (hkept 0) ha (hbase (Or.inr hframe))

/-- `ahci_port_start` leaves the headers. -/
theorem HeadersMade.portStart {p f g : ℕ} (h : HeadersMade port hba s p f g v) (hready : PortReady port hba s)
    (hrun : ahciPortStart fuel port v = .ok ⟨⟩ t) : HeadersMade port hba s p f g t := by
  obtain ⟨hconfiguring, hmem⟩ := h.configuring.portStart hready hrun
  have hin : span (hba + 0x18) 4 ⊆ span hba 0x80 := span_offset_subset (by decide)
  have hregisters : Disjoint (span (hba + 0) 8) (span (hba + 0x18) 4) :=
    disjoint_span_offset (by decide) (by decide) (Or.inl (by decide))
  rw [UInt32.add_zero] at hregisters
  obtain ⟨-, hlow, -⟩ := fixedBytes_off hready.low_off
  have hheader : ∀ i < 32, t.mem.wide (headerAt i + 8) = v.mem.wide (headerAt i + 8) := by
    intro i hi
    have hlower : span (headerAt i + 8) 8 ⊆ span 0 1024 :=
      (span_offset_subset (by decide)).trans (span_headerAt_subset hi)
    exact Mem.wide_congr (hmem.mono (Set.disjoint_left.mp (hlow.mono hlower hin)))
  refine ⟨hconfiguring, h.list, h.table, h.last, ?_, fun hpos => ?_, ?_, ?_⟩
  · rw [Mem.wide_congr (hmem.mono (Set.disjoint_left.mp hregisters)), h.clb]
  · obtain ⟨-, hpage, -⟩ := fixedBytes_off (hready.frames_off p h.list.clear)
    have hprdtl : span (pageOf p + 2) 2 ⊆ frameBytes p := span_offset_subset (by decide)
    rw [Mem.load16_congr (hmem.mono (Set.disjoint_left.mp (hpage.mono hprdtl hin))), h.prdtl hpos]
  · rw [hheader 30 (by decide), h.ctba]
  · rw [hheader 31 (by decide), h.ctba_last]

/-- Where the page of the list is not the first one of memory, the list has no header in it. -/
theorem HeadersMade.pos_not {p f g : ℕ} (h : HeadersMade port hba s p f g t) (hpos : 0 < p)
    {header table : ℕ → UInt32} {fis : UInt32} : ¬ PortConfigured hba header table fis s t := by
  intro hport
  have hlist := hport.clb 0 (by decide)
  rw [h.clb] at hlist
  have hprdtl := hport.prdtl 0 (by decide)
  rw [toNat_eq_pointer hlist, h.prdtl hpos] at hprdtl
  exact absurd hprdtl (by decide)

/-- The page of a table that was meant for the frame `f` is the next one. -/
theorem PortConfigured.table_next {header table : ℕ → UInt32} {fis : UInt32}
    (h : PortConfigured hba header table fis s t) (hready : PortReady port hba s) {i : ℕ} (hlo : 16 ≤ i)
    (hi : i < 32) (hf : f < 2 ^ 20) (hctba : t.mem.wide (header i + 8) = (tableAddr f i).toNat) :
    (f + 1 < s.pfa.pageBitmap.length ∧ s.taken (f + 1) = false ∧ t.taken (f + 1) = true ∧ f < 2 ^ 19) ∨
      f + 1 = 2 ^ 20 := by
  obtain ⟨F, hF, hclear, htaken, hsub⟩ := h.obtained i hi
  have htable := h.ctba i hi
  rw [hctba] at htable
  have hmem : table i ∈ frameBytes F := hsub (by rw [mem_span, UInt32.sub_self]; decide)
  rw [mem_frameBytes (lt_of_lt_of_le hF hready.length_le)] at hmem
  rcases table_page hf hlo hi htable with ⟨hpage, hlow⟩ | htop
  · rw [hmem] at hpage
    subst hpage
    exact Or.inl ⟨hF, hclear, htaken, hlow⟩
  · exact Or.inr htop

/-- Where it is the first one, one of the last two tables is not in a page that the call got. -/
theorem HeadersMade.zero_not {f g : ℕ} (h : HeadersMade port hba s 0 f g t) (hready : PortReady port hba s)
    {header table : ℕ → UInt32} {fis : UInt32} : ¬ PortConfigured hba header table fis s t := by
  intro hport
  have hheader : ∀ i < 32, header i = headerAt i := fun i hi => by
    have hlist := hport.clb i hi
    rw [h.clb] at hlist
    rw [← UInt32.toNat_inj, toNat_headerAt hi, hlist]
    exact Nat.zero_add _
  have hfg := h.last.le
  have hg := hready.lt_of_clear h.last.clear
  rcases hport.table_next hready (i := 31) (by decide) (by decide) hg
    (by rw [hheader 31 (by decide), h.ctba_last]) with
    ⟨hlt, hclear, htaken, -⟩ | htop
  · -- The page after the last one that was requested was not requested.
    rcases (h.configuring.taken (g + 1) hlt).mp htaken with hbefore | hlt'
    · rw [hclear] at hbefore
      cases hbefore
    · omega
  · -- The last page ends the memory, so that the one after that of the table before is between the two.
    rcases hport.table_next hready (i := 30) (by decide) (by decide) (hready.lt_of_clear h.table)
      (by rw [hheader 30 (by decide), h.ctba]) with ⟨-, hclear, -, hlow⟩ | htop'
    · rw [h.last.between (f + 1) le_rfl (by omega)] at hclear
      cases hclear
    · omega

theorem HeadersMade.not_configured {p f g : ℕ} (h : HeadersMade port hba s p f g t)
    (hready : PortReady port hba s) (header table : ℕ → UInt32) (fis : UInt32) :
    ¬ PortConfigured hba header table fis s t := by
  rcases Nat.eq_zero_or_pos p with rfl | hpos
  · exact h.zero_not hready
  · exact h.pos_not hpos

/-- A call that ends has made the headers. -/
theorem PortReady.ended (hready : PortReady port hba s) (hfree : 34 ≤ s.clearFrames.card)
    (hrun : ahciConfigurePort fuel port s = .ok ⟨⟩ t) : ∃ p f g, HeadersMade port hba s p f g t := by
  have hrun' := hrun
  rw [ahciConfigurePort, bind_of_ok (modify_apply ..)] at hrun'
  obtain ⟨⟨⟩, u, hstop, -⟩ := bind_eq_ok.mp hrun'
  obtain ⟨p, f, g, v, hcall, hmade, -⟩ := hready.headersMade hfree hstop
  rw [hcall] at hrun
  exact ⟨p, f, g, hmade.portStart hready hrun⟩

/-- **No call of `ahci_configure_port` leaves the port configured**: with 34 clear frames, and what it
relies on apart, the list has no header, or a table is not in a page that the call got. -/
theorem portConfigured_never (hready : PortReady port hba s) (hfree : 34 ≤ s.clearFrames.card) (fuel : ℕ) :
    ¬ ∃ t header table fis, ahciConfigurePort fuel port s = .ok ⟨⟩ t ∧
      PortConfigured hba header table fis s t := by
  rintro ⟨t, header, table, fis, hrun, hport⟩
  obtain ⟨p, f, g, hmade⟩ := hready.ended hfree hrun
  exact hmade.not_configured hready header table fis hport

/-- The call ends when the port does not run. -/
theorem PortReady.ends (hready : PortReady port hba s) (hfree : 34 ≤ s.clearFrames.card)
    (hidle : s.mem.load32 (hba + 0x18) = 0) : ∃ t, ahciConfigurePort 1 port s = .ok ⟨⟩ t := by
  have h₀ := hready.configuring.looks (looks_emit (e := .configurePort port) trivial s)
  obtain ⟨u, hstop, hzero⟩ := h₀.portStop_ok hready hidle
  obtain ⟨p, f, g, v, hcall, hmade, hkept⟩ := hready.headersMade hfree hstop
  obtain ⟨t, hstart⟩ := hmade.configuring.portStart_ok hready (hkept.trans hzero)
  exact ⟨t, hcall.trans hstart⟩

end ahciConfigurePort

/-! ### A port that does not run -/

/-- A port with its record at `0x100000` and its registers, which are zero, at `0x110000`, and a bitmap of 64
frames at `0x120000`. The bits of the first eight frames are given. -/
def portKernel (bits : UInt8) : Kernel :=
  { Kernel.loaded with
    mem := fun a => if a = 0x100002 then 0x11 else if a = 0x120000 then bits else 0
    pfa := { Kernel.loaded.pfa with pageBitmap := { buffer := 0x120000, size := 8 } } }

section portKernel

variable {bits : UInt8}

theorem bitmapBytes_portKernel (bits : UInt8) : (portKernel bits).bitmapBytes = span 0x120000 8 := rfl

theorem portReady_portKernel (bits : UInt8) : PortReady 0x100000 0x110000 (portKernel bits) := by
  have hfixed : fixedBytes 0x100000 0x110000 (portKernel bits) ⊆ span 0x100000 0x30000 :=
    Set.union_subset (Set.union_subset (span_mono (by decide))
      (span_subset_span (by decide) (by decide) (by decide)))
      (span_subset_span (a := 0x120000) (j := 8) (by decide) (by decide) (by decide))
  have hthree : (0x100000 : UInt32).toNat = 0x100000 := rfl
  refine ⟨?_, Nat.le_of_ble_eq_true rfl, ?_, ?_, ?_, fun f hf => ?_, ?_⟩
  · have hmem : Set.EqOn (portKernel bits).mem (fun a =>
      if a = 0x100002 then 0x11 else 0) (span 0x100000 4) := by
      intro a ha
      have hne : a ≠ 0x120000 := by
        rintro rfl
        rw [mem_span] at ha
        exact absurd ha (by decide)
      simp only [portKernel, if_neg hne]
    rw [Mem.load32_congr hmem]
    decide
  · exact disjoint_span (by decide) (by decide) (Or.inl (by decide))
  · rw [bitmapBytes_portKernel]
    exact disjoint_span (by decide) (by decide) (Or.inl (by decide))
  · rw [bitmapBytes_portKernel]
    exact disjoint_span (by decide) (by decide) (Or.inl (by decide))
  · have hlt : f < 64 := (mem_clearFrames.mp hf).1
    have hpage := toNat_pageOf (f := f) (by omega)
    exact Disjoint.mono_right hfixed (disjoint_span (by omega) (by decide) (Or.inl (by omega)))
  · exact Disjoint.mono_right hfixed (disjoint_span (by decide) (by decide) (Or.inl (by decide)))

theorem portKernel_clear (bits : UInt8) : 34 ≤ (portKernel bits).clearFrames.card := by
  have hbyte : ∀ f < 64, 8 ≤ f → (0x120000 : UInt32) + UInt32.ofNat f / 8 ≠ 0x100002 ∧
      (0x120000 : UInt32) + UInt32.ofNat f / 8 ≠ 0x120000 := by decide
  have hsub : (Finset.range 64).filter (8 ≤ ·) ⊆ (portKernel bits).clearFrames := by
    intro f hf
    rw [Finset.mem_filter, Finset.mem_range] at hf
    obtain ⟨hrecord, hfirst⟩ := hbyte f hf.1 hf.2
    refine mem_clearFrames.mpr ⟨hf.1, Bitmap.bits_of_zero ?_⟩
    exact (if_neg hrecord).trans (if_neg hfirst)
  exact le_trans (by decide) (Finset.card_le_card hsub)

/-- With the first frame free, the list is at 0, and a table is past the end of its page. -/
theorem portConfigured_never_portKernel : ¬ ∃ t header table fis,
    ahciConfigurePort 1 0x100000 (portKernel 0) = .ok ⟨⟩ t ∧
      PortConfigured 0x110000 header table fis (portKernel 0) t :=
  portConfigured_never (portReady_portKernel 0) (portKernel_clear 0) 1

/-- With the first frame taken, the list is a page with no header in it. -/
theorem portConfigured_empty : 34 ≤ (portKernel 0x80).clearFrames.card ∧ ∃ t,
    ahciConfigurePort 1 0x100000 (portKernel 0x80) = .ok ⟨⟩ t ∧
      ¬ ∃ header table fis, PortConfigured 0x110000 header table fis (portKernel 0x80) t := by
  have hready := portReady_portKernel 0x80
  have hfree := portKernel_clear 0x80
  obtain ⟨t, hrun⟩ := hready.ends hfree rfl
  obtain ⟨p, f, g, hmade⟩ := hready.ended hfree hrun
  refine ⟨hfree, t, hrun, ?_⟩
  rintro ⟨header, table, fis, hport⟩
  exact hmade.not_configured hready header table fis hport

end portKernel

end JurasOS
