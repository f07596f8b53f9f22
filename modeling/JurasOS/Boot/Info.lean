import JurasOS.Boot.Main

/-!
# The boot information

The bootloader puts the boot information where it likes, and the kernel keeps
pointers to its tags. From the end of its image on, the kernel takes memory for the
bitmap and for the heap, and clears it, wherever the boot information is: what is
stored off that memory and off the screen stays, and what is stored on it does not.
-/

namespace JurasOS

open Machine

/-- From `s` to `t` nothing changed but counters and the trace, and bits from the buffer of the bitmap on. -/
structure MarksOnly (s t : Kernel) : Prop where
  same : t = { s with mem := t.mem, pfa := t.pfa, trace := t.trace }
  bitmap : t.pfa.pageBitmap = s.pfa.pageBitmap
  mem : Set.EqOn t.mem s.mem (span s.pfa.pageBitmap.buffer (2 ^ 17))ᶜ

instance : Std.Refl MarksOnly := ⟨fun _ => ⟨rfl, rfl, fun _ _ => rfl⟩⟩

instance : IsTrans Kernel MarksOnly where
  trans s t u h h' := by
    refine ⟨by rw [h'.same, h.same], h'.bitmap.trans h.bitmap, fun a ha => ?_⟩
    have hmem := h'.mem
    rw [h.bitmap] at hmem
    exact (hmem ha).trans (h.mem ha)

section MarksOnly

variable {s t u : Kernel} {value : Bool} {address pageCount : UInt32}

theorem Marks.marksOnly (h : Marks value (frames address pageCount) s t) : MarksOnly s t := by
  refine ⟨?_, h.bitmap, h.mem.mono (Set.compl_subset_compl.mpr (bytes_frames_subset _ _ _))⟩
  rw [h.same]

theorem reserveEntry_marksOnly (mmap : UInt32) (a : PUnit) : Along MarksOnly (reserveEntry mmap a) := by
  intro s
  have hemit : MarksOnly s (s.emit (.mmapEntry mmap)) := ⟨rfl, rfl, fun _ _ => rfl⟩
  simp only [reserveEntry, stop]
  split
  · exact hemit
  · exact IsTrans.trans _ _ _ hemit (pfaReservePages_marks _ _ _).marksOnly

/-- The bitmap is made in the first `2 ^ 17` bytes from the kernel's end on. -/
theorem pfaMakeBitmap_mem (memorySize : UInt32) (s : Kernel) :
    Set.EqOn (pfaMakeBitmap memorySize s).mem s.mem (span s.kernelEnd (2 ^ 17))ᶜ := by
  have hle : (memorySize / 4096 / 8 + 1).toNat ≤ 2 ^ 17 := by
    have hsize := memorySize.toNat_lt
    rw [toNat_bitmapSize]
    omega
  have hmade := (pfaMakeBitmap_made memorySize s).mem
  generalize memorySize / 4096 / 8 + 1 = bitmapSize at hle hmade
  intro a ha
  refine hmade fun hmem => ha ?_
  rcases hmem with hmem | hmem
  · exact span_mono hle hmem
  · exact bytes_frames_subset ⟨bitmapSize, s.kernelEnd⟩ _ _ hmem

end MarksOnly

/-- What reading the map leaves, at whatever point it stops: the tags, where the kernel starts, and the memory
off the bitmap's. -/
structure MapKept (s t : Kernel) : Prop where
  tags : t.tags = s.tags
  kernelStart : t.kernelStart = s.kernelStart
  mem : Set.EqOn t.mem s.mem (span s.kernelEnd (2 ^ 17))ᶜ

theorem MapKept.refl (s : Kernel) : MapKept s s := ⟨rfl, rfl, fun _ _ => rfl⟩

section MapKept

variable {s t u : Kernel}

theorem MapKept.of_counted (h : Counted s t) (h' : MapKept t u) : MapKept s u := by
  rw [Counted] at h
  rw [h] at h'
  exact ⟨h'.tags, h'.kernelStart, h'.mem⟩

/-- The first pass over the map. -/
theorem mmapLoop_count_kept (s : Kernel) (fuel : ℕ) :
    Counted s (stop (mmapLoop s.tags.memoryMap countEntry fuel 0 (s.emit (.mmapTag s.tags.memoryMap)))) :=
  IsTrans.trans (r := Counted) s (s.emit (.mmapTag s.tags.memoryMap)) _ rfl
    (mmapLoop_along countEntry_counted _ fuel 0 _)

/-- The second pass, after the bitmap is made. -/
theorem mmapLoop_reserve_kept (memorySize tag : UInt32) (fuel : ℕ) (s t : Kernel)
    (ht : t = stop (mmapLoop tag reserveEntry fuel ⟨⟩ (pfaMakeBitmap memorySize s))) :
    MapKept s t ∧ t.kernelEnd = s.kernelEnd + t.pfa.pageBitmap.size := by
  have hmade := pfaMakeBitmap_made memorySize s
  have hmem := pfaMakeBitmap_mem memorySize s
  have hmarks := mmapLoop_along reserveEntry_marksOnly tag fuel ⟨⟩ (pfaMakeBitmap memorySize s)
  rw [← ht] at hmarks
  generalize pfaMakeBitmap memorySize s = u at hmade hmem hmarks
  obtain ⟨hsame, hbitmap, hbits⟩ := hmarks
  rw [hmade.bitmap] at hbitmap hbits
  refine ⟨⟨?_, ?_, hbits.trans hmem⟩, ?_⟩
  · rw [hsame, hmade.same]
  · rw [hsame, hmade.same]
  · rw [hbitmap, hsame]
    exact hmade.kernelEnd

/-- **Reading the map**, whatever the memory holds, writes on the bitmap's memory only, and moves
the kernel's end after it. -/
theorem pfaReadMultibootMemoryMap_kept (hfirst : s.pfa.initialized = false) (fuel : ℕ) :
    MapKept s (stop (pfaReadMultibootMemoryMap fuel s)) ∧ ∀ t, pfaReadMultibootMemoryMap fuel s = .ok ⟨⟩ t →
      t.kernelEnd = s.kernelEnd + t.pfa.pageBitmap.size := by
  rw [pfaReadMultibootMemoryMap, bind_of_ok (get_apply s), hfirst, if_neg Bool.false_ne_true,
    bind_of_ok (get_apply s), bind_of_ok (modify_apply ..)]
  have hcounted := mmapLoop_count_kept s fuel
  cases hcount : mmapLoop s.tags.memoryMap countEntry fuel 0 (s.emit (.mmapTag s.tags.memoryMap)) with
  | error e t =>
    replace hcounted : Counted s t := by rwa [hcount] at hcounted
    rw [bind_of_error hcount]
    exact ⟨.of_counted hcounted (.refl t), fun _ h => by cases h⟩
  | ok memorySize t =>
    replace hcounted : Counted s t := by rwa [hcount] at hcounted
    rw [bind_of_ok hcount, bind_of_ok (get_apply t)]
    split
    · exact ⟨.of_counted hcounted (.refl t), fun _ h => by cases h⟩
    · obtain ⟨hkept, hend⟩ := mmapLoop_reserve_kept memorySize s.tags.memoryMap fuel t _ rfl
      rw [bind_of_ok (modify_apply ..)]
      cases hreserve : mmapLoop s.tags.memoryMap reserveEntry fuel ⟨⟩ (pfaMakeBitmap memorySize t) with
      | error e u =>
        rw [hreserve] at hkept
        rw [bind_of_error hreserve]
        exact ⟨.of_counted hcounted hkept, fun _ h => by cases h⟩
      | ok _ u =>
        rw [hreserve] at hkept hend
        rw [bind_of_ok hreserve, modify_apply]
        refine ⟨.of_counted hcounted ⟨hkept.tags, hkept.kernelStart, hkept.mem⟩, ?_⟩
        rintro _ ⟨⟩
        rw [Counted] at hcounted
        rw [hcounted] at hend
        exact hend

end MapKept

/-- The memory that the kernel takes from its end on: for a bitmap of this size, and for the heap. -/
def takenSpan (kernelEnd bitmapSize : UInt32) : Set UInt32 := span kernelEnd (bitmapSize.toNat + 540700)

/-- From the tags to the devices, the bytes `A` are those of `m`, which the bootloader left there. -/
structure InfoKept (m : Mem) (A : Set UInt32) (fuel : ℕ) (s : Kernel) : Prop where
  tags : Set.EqOn s.mem m A
  /-- A memory map in `A` is read to its end, twice, and at each step of the second pass it is that of
  the first. -/
  map : ∀ entrySize entries, MmapTag m s.tags.memoryMap entrySize entries →
    span s.tags.memoryMap (tagBytes entrySize entries.length) ⊆ A → entries.length < fuel →
    ∃ t u, mmapLoop s.tags.memoryMap countEntry fuel 0 (s.emit (.mmapTag s.tags.memoryMap)) =
    .ok (mapBytes entries) t ∧
      (∀ n, MmapTag
        (stop (mmapLoop s.tags.memoryMap reserveEntry n ⟨⟩ (pfaMakeBitmap (mapBytes entries) t))).mem
        s.tags.memoryMap entrySize entries) ∧ kernelMemory fuel s = .ok ⟨⟩ u
  devices : Set.EqOn (stop (kernelMemory fuel s)).mem m A
  /-- `acpi_init` finds the RSDP of the bootloader, and looks for the MCFG without a write. -/
  acpi : ∀ t, kernelMemory fuel s = .ok ⟨⟩ t → t.tags = s.tags ∧
    (span (s.tags.acpiOld + 24) 4 ⊆ A → t.rsdt = m.load32 (s.tags.acpiOld + 24)) ∧
    ∃ mcfg u, acpiFindTable t.rsdt mcfgSignature t = .ok mcfg u ∧ Set.EqOn u.mem m A

section InfoKept

variable {fuel : ℕ} {info : BootInfo} {m : Mem} {s t : Kernel} {A : Set UInt32} {entrySize : UInt32}
  {entries : List MmapEntry}

theorem span_subset_takenSpan (kernelEnd bitmapSize : UInt32) :
    span kernelEnd (2 ^ 17) ⊆ takenSpan kernelEnd bitmapSize :=
  span_mono (by omega)

/-- From the tags to the devices, the kernel writes on the memory that it takes only. -/
theorem kernelMemory_kept (hfirst : s.pfa.initialized = false) (fuel : ℕ)
    (ht : t = stop (kernelMemory fuel s)) :
    t.tags = s.tags ∧ Set.EqOn t.mem s.mem (takenSpan s.kernelEnd t.pfa.pageBitmap.size)ᶜ := by
  obtain ⟨hkept, hend⟩ := pfaReadMultibootMemoryMap_kept hfirst fuel
  rw [kernelMemory] at ht
  cases hread : pfaReadMultibootMemoryMap fuel s with
  | error e u =>
    rw [bind_of_error hread] at ht
    replace hkept : MapKept s t := by rwa [hread, ← ht] at hkept
    exact ⟨hkept.tags, hkept.mem.mono (Set.compl_subset_compl.mpr (span_subset_takenSpan _ _))⟩
  | ok _ u =>
    rw [bind_of_ok hread, modify_apply] at ht
    replace ht : t = kernelHeap u := ht
    replace hkept : MapKept s u := by rwa [hread] at hkept
    have hsame := kernelHeap_same u
    have hheap := eqOn_kernelHeap u
    rw [← ht] at hsame hheap
    refine ⟨?_, fun a ha => ?_⟩
    · rw [hsame]
      exact hkept.tags
    · have hlow : a ∉ span s.kernelEnd (2 ^ 17) := fun hmem => ha (span_subset_takenSpan _ _ hmem)
      have hhigh : a ∉ span u.kernelEnd 540700 := by
        intro hmem
        rw [hend u hread] at hmem
        refine ha ?_
        rw [hsame]
        exact span_offset_subset le_rfl hmem
      exact (hheap hhigh).trans (hkept.mem hlow)

/-- A memory map off the first `2 ^ 17` bytes from the kernel's end on is read to its end, twice. -/
theorem mmapTag_secondPass (hfirst : s.pfa.initialized = false)
    (htag : MmapTag s.mem s.tags.memoryMap entrySize entries)
    (hapart : Disjoint (span s.tags.memoryMap (tagBytes entrySize entries.length))
    (span s.kernelEnd (2 ^ 17))) (hfuel : entries.length < fuel) :
    ∃ t u, mmapLoop s.tags.memoryMap countEntry fuel 0 (s.emit (.mmapTag s.tags.memoryMap)) =
    .ok (mapBytes entries) t ∧
      (∀ n, MmapTag
        (stop (mmapLoop s.tags.memoryMap reserveEntry n ⟨⟩ (pfaMakeBitmap (mapBytes entries) t))).mem
        s.tags.memoryMap entrySize entries) ∧ kernelMemory fuel s = .ok ⟨⟩ u := by
  have hstored : MapStored s entrySize entries :=
    ⟨htag, hapart.mono_right (span_mono (mapBitmapSize_le entries)),
      hapart.mono_right (bytes_mapFrames_subset _ _ _ _ _)⟩
  obtain ⟨t, hcount, ht, -⟩ := mmapLoop_count (s := s.emit (.mmapTag s.tags.memoryMap)) htag hfuel
  obtain ⟨u, hread, -⟩ := pfaReadMultibootMemoryMap_ok hfirst hstored hfuel
  refine ⟨t, kernelHeap u, hcount, fun n => ?_, by rw [kernelMemory, bind_of_ok hread, modify_apply]⟩
  have hcounted : Counted s t := by
    rw [Counted, ht]
    rfl
  have hkept := (mmapLoop_reserve_kept (mapBytes entries) s.tags.memoryMap n t _ rfl).1
  exact htag.of_eqOn ((MapKept.of_counted hcounted hkept).mem.mono (Set.disjoint_left.mp hapart))

/-- **The boot information stays as it was loaded** if it is off the screen, and off the memory that the
kernel takes for the bitmap and for the heap. -/
theorem kernelTags_infoKept (hrun : kernelTags fuel info (Kernel.boot m) = .ok ⟨⟩ s)
    (hscreen : Disjoint A screen)
    (htaken : Disjoint A (takenSpan s.kernelEnd (stop (kernelMemory fuel s)).pfa.pageBitmap.size)) :
    InfoKept m A fuel s := by
  have htagged := kernelTags_ok hrun
  have hfirst : s.pfa.initialized = false := by
    rw [htagged.same]
    rfl
  have hlow : Disjoint A (span s.kernelEnd (2 ^ 17)) := htaken.mono_right (span_subset_takenSpan _ _)
  have hs : Set.EqOn s.mem m A := htagged.mem.mono (Set.disjoint_left.mp hscreen)
  obtain ⟨htags, hmem⟩ := kernelMemory_kept hfirst fuel rfl
  have hdevices : Set.EqOn (stop (kernelMemory fuel s)).mem m A :=
    (hmem.mono (Set.disjoint_left.mp htaken)).trans hs
  refine ⟨hs, fun entrySize entries htag hsub hfuel => ?_, hdevices, fun t ht => ?_⟩
  · exact mmapTag_secondPass hfirst (htag.of_eqOn (hs.mono hsub)) (hlow.mono_left hsub) hfuel
  · rw [ht] at htags hdevices
    obtain ⟨u, hfind, hu⟩ := acpiFindTable_ok t.rsdt mcfgSignature t
    refine ⟨htags, fun hsub => ?_, _, u, hfind, ?_⟩
    · rw [Kernel.rsdt, show t.tags = s.tags from htags]
      exact Mem.load32_congr (hdevices.mono hsub)
    · rw [hu.mem]
      exact hdevices

/-- The machine keeps its boot information. -/
theorem kernelTags_infoKept_bootMem : ∃ s, kernelTags 4 bootInfo (Kernel.boot (bootMem 0x1000)) = .ok ⟨⟩ s ∧
    s.tags.memoryMap = 0x10008 ∧ InfoKept (bootMem 0x1000) (span 0x10000 112) 4 s := by
  obtain ⟨s, t, hrun, htags, -, hsetup, hdone, -⟩ := kernelSetup_bootMem (Or.inl rfl)
  have hend : s.kernelEnd = 0x110000 := by
    rw [(kernelTags_ok hrun).same]
    rfl
  have hmemory : stop (kernelMemory 4 s) = t := by
    rw [kernelSetup, bind_of_ok hrun] at hsetup
    rw [hsetup]
    rfl
  have hsize := mapBitmapSize_le (bootMap 0x1000)
  refine ⟨s, hrun, by rw [htags],
    kernelTags_infoKept hrun (disjoint_span (by decide) (by decide) (by decide)) ?_⟩
  rw [hmemory, hdone.bitmap, hend]
  generalize mapBitmapSize (bootMap 0x1000) = bitmapSize at hsize
  refine disjoint_span (by decide) ?_ (Or.inl (by decide))
  show 0x110000 + (bitmapSize.toNat + 540700) ≤ _
  omega

/-! ### Next to the kernel -/

/-- The memory that the new bitmap clears, where it sets no bit. -/
theorem pfaMakeBitmap_clears (memorySize : UInt32) (s : Kernel) {a : UInt32}
    (ha : a ∈ span s.kernelEnd (memorySize / 4096 / 8 + 1).toNat)
    (hbits : a ∉ Bitmap.bytes ⟨memorySize / 4096 / 8 + 1, s.kernelEnd⟩
      (frames s.kernelEnd (numPages (memorySize / 4096 / 8 + 1)))) :
    (pfaMakeBitmap memorySize s).mem a = 0 := by
  have hmarks := pfaLockPages_marks s.kernelEnd (numPages (memorySize / 4096 / 8 + 1))
    (initBitmap (memorySize / 4096 / 8 + 1) s.kernelEnd s)
  exact (hmarks.mem hbits).trans (memset_of_mem ha 0 s.mem)

/-- Boot information with a memory map, of four mebibytes that are available. -/
def nearWords : List UInt32 := [56, 0] ++ [6, 40, 24, 0] ++ [0, 0, 0x400000, 0, 1, 0] ++ [0, 8]

/-- A memory with these at `0x110000`. -/
def nearMem : Mem := fun a =>
  let i := (a - 0x110000).toNat
  (nearWords.getD (i / 4) 0 >>> UInt32.ofNat (8 * (i % 4))).toUInt8

/-- A kernel of 64 KiB, at a mebibyte, with the boot information after it. -/
def nearInfo : BootInfo := ⟨0x100000, 0x110000, 0x36d76289, 0x110000⟩

/-- The entries of its memory map. -/
def nearMap : List MmapEntry := [⟨0, 0x400000, 1⟩]

theorem nearMem_off : span 0x110000 56 ⊆ screenᶜ :=
  Set.disjoint_left.mp (disjoint_span (by decide) (by decide) (Or.inr (by decide)))

theorem load_of_nearMem {m : Mem} (h : Set.EqOn m nearMem (span 0x110000 56)) (a : UInt32)
    (hlo : 0x110000 ≤ a.toNat) (hhi : a.toNat + 4 ≤ 0x110038) : m.load32 a = nearMem.load32 a :=
  Mem.load32_congr (h.mono (span_subset_span (b := 0x110000) (by decide) hlo hhi))

/-- The boot finds the map in it, with the kernel's end where the information is. -/
theorem kernelTags_nearMem : ∃ s, kernelTags 3 nearInfo (Kernel.boot nearMem) = .ok ⟨⟩ s ∧
    s.kernelEnd = 0x110000 ∧
    s.tags.memoryMap = 0x110008 ∧ Set.EqOn s.mem nearMem (span 0x110000 56) := by
  have hdraws := (terminalInitialize_draws 0 { Kernel.boot nearMem with
    kernelStart := nearInfo.kernelStart, kernelEnd := nearInfo.kernelEnd }).mem
  obtain ⟨s, hrun, htags⟩ : ∃ s, kernelTags 3 nearInfo (Kernel.boot nearMem) = .ok ⟨⟩ s ∧
      s.tags = ⟨0, 0, 0, 0, 0x110008, 0, 0⟩ := by
    rw [kernelTags, bind_of_ok (modify_apply ..), bind_of_ok (modify_apply ..), if_neg (by decide),
      if_neg (by decide)]
    refine loadTags_ok 0x110000 ?_
    have hmem := load_of_nearMem (hdraws.mono nearMem_off)
    generalize terminalInitialize 0 { Kernel.boot nearMem with
      kernelStart := nearInfo.kernelStart, kernelEnd := nearInfo.kernelEnd } = u at hmem
    have hmap : u.mem.load32 0x110008 = 6 ∧ u.mem.load32 (0x110008 + 4) = 40 := by
      rw [hmem _ (by decide) (by decide), hmem _ (by decide) (by decide)]
      decide
    have hlast : u.mem.load32 0x110030 = 0 := by
      rw [hmem _ (by decide) (by decide)]
      decide
    have hnext : nextTag 0x110008 40 = 0x110030 := by decide
    rw [show (0x110000 : UInt32) + 8 = 0x110008 from rfl, tagsFrom, hmap.1, hmap.2, hnext,
      if_neg (by decide), tagsFrom, if_pos hlast]
    rfl
  have htagged := kernelTags_ok hrun
  refine ⟨s, hrun, ?_, by rw [htags], htagged.mem.mono nearMem_off⟩
  rw [htagged.same]
  rfl

/-- The bitmap is made on the boot information: the second pass finds a memory map of size zero. -/
theorem kernelTags_overwritten : ∃ s t, kernelTags 3 nearInfo (Kernel.boot nearMem) = .ok ⟨⟩ s ∧
    Disjoint (span nearInfo.mbiAddr (nearMem.load32 nearInfo.mbiAddr).toNat)
      (span nearInfo.kernelStart (nearInfo.kernelEnd - nearInfo.kernelStart).toNat) ∧
    MmapTag s.mem s.tags.memoryMap 24 nearMap ∧
    mmapLoop s.tags.memoryMap countEntry 3 0 (s.emit (.mmapTag s.tags.memoryMap)) = .ok (mapBytes nearMap) t ∧
    s.mem.load32 (s.tags.memoryMap + 4) = 40 ∧
    (pfaMakeBitmap (mapBytes nearMap) t).mem.load32 (s.tags.memoryMap + 4) = 0 := by
  obtain ⟨s, hrun, hend, hmap, hs⟩ := kernelTags_nearMem
  have htag : MmapTag s.mem s.tags.memoryMap 24 nearMap := by
    rw [hmap]
    have hnear : MmapTag nearMem 0x110008 24 nearMap :=
      ⟨by decide, by decide, by decide, by decide, by decide, by decide⟩
    have hbytes : tagBytes 24 nearMap.length = 40 := rfl
    exact hnear.of_eqOn
      (hs.mono (span_subset_span (b := 0x110000) (by decide) (by decide) (by rw [hbytes]; decide)))
  obtain ⟨t, hcount, ht, -⟩ :=
    mmapLoop_count (s := s.emit (.mmapTag s.tags.memoryMap)) htag (by decide : nearMap.length < 3)
  refine ⟨s, t, hrun, disjoint_span (by decide) (by decide) (by decide), htag, hcount, ?_, ?_⟩
  · rw [hmap, load_of_nearMem hs _ (by decide) (by decide)]
    decide
  · have hkernelEnd : t.kernelEnd = 0x110000 := by
      rw [ht]
      exact hend
    have hsize : mapBytes nearMap / 4096 / 8 + 1 = 129 := by decide
    refine Mem.load32_eq_zero fun a ha => pfaMakeBitmap_clears _ _ ?_ ?_
    · rw [hsize, hkernelEnd]
      rw [hmap] at ha
      exact span_offset_subset (i := 12) (by decide) ha
    · rw [hsize, hkernelEnd]
      rintro ⟨_, ⟨i, hi, rfl⟩, rfl⟩
      rw [hmap] at ha
      have hone : i = 0 := by
        have hpages : (numPages 129).toNat = 1 := by decide
        omega
      subst hone
      exact absurd (mem_span.mp ha) (by decide)

end InfoKept

end JurasOS
