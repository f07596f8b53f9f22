import JurasOS.Boot.Main

/-!
# The kernel is not locked when the devices are probed

`ptm_initialize` locks the kernel's pages, after `acpi_init`. When the drivers
allocate, what is marked is what reading the memory map has marked: the pages of
the bitmap, and pages from the entries of the map on. The kernel is among them
only by chance.
-/

namespace JurasOS

open Machine Alloc

section kernelSetup

variable {fuel : ℕ} {info : BootInfo} {m : Mem} {s t : Kernel} {entrySize : UInt32} {entries : List MmapEntry}

theorem SetUp.length_eq (h : SetUp s t entrySize entries) :
    t.pfa.pageBitmap.length = (mapBitmapSize entries).toNat * 8 := by
  rw [h.bitmap, mapBitmapSize_length]

theorem SetUp.length_le (h : SetUp s t entrySize entries) : t.pfa.pageBitmap.length ≤ 2 ^ 20 := by
  have := mapBitmapSize_le entries
  rw [h.length_eq]
  omega

/-- What is locked then. -/
theorem SetUp.kernelLocked_iff (h : SetUp s t entrySize entries) : KernelLocked t ↔
    ∀ f, s.kernelStart.toNat < (f + 1) * 4096 →
      f * 4096 < s.kernelEnd.toNat + (mapBitmapSize entries).toNat + 540700 →
      f < (mapBitmapSize entries).toNat * 8 ∧
      f ∈ mapFrames s.kernelEnd s.tags.memoryMap entrySize entries := by
  have hstart : t.kernelStart = s.kernelStart := by rw [h.same]
  rw [KernelLocked, staysLocked_iff h.length_le, h.marked, h.length_eq, kernelFrames, hstart, h.kernelEnd]
  constructor
  · intro hall f hlo hhi
    exact (hall ⟨hlo, hhi⟩).symm
  · rintro hall f ⟨hlo, hhi⟩
    exact (hall f hlo hhi).symm

/-- **When the devices are probed the kernel is locked exactly when** every frame of its image, of the bitmap
and of the heap is in the bitmap and is one that reading the memory map has marked: one of the bitmap's own
pages, or of those from an entry that is not available on. -/
theorem kernelSetup_locks_iff (htags : kernelTags fuel info (Kernel.boot m) = .ok ⟨⟩ s)
    (hstored : MapStored s entrySize entries) (hfuel : entries.length < fuel)
    (hfit : info.kernelEnd.toNat + (mapBitmapSize entries).toNat + 540700 < 2 ^ 32) :
    ∃ t, kernelSetup fuel info (Kernel.boot m) = .ok ⟨⟩ t ∧ (KernelLocked t ↔
      ∀ f, info.kernelStart.toNat < (f + 1) * 4096 →
        f * 4096 < info.kernelEnd.toNat + (mapBitmapSize entries).toNat + 540700 →
        f < (mapBitmapSize entries).toNat * 8 ∧
        f ∈ mapFrames info.kernelEnd s.tags.memoryMap entrySize entries) := by
  have htagged := kernelTags_ok htags
  have hstart : s.kernelStart = info.kernelStart := by rw [htagged.same]
  have hend : s.kernelEnd = info.kernelEnd := by rw [htagged.same]
  have hfirst : s.pfa.initialized = false := by rw [htagged.same]; rfl
  obtain ⟨t, hrun, h⟩ := kernelMemory_ok hfirst hstored hfuel (by rwa [hend])
  refine ⟨t, by rw [kernelSetup, bind_of_ok htags, hrun], ?_⟩
  rw [h.kernelLocked_iff, hstart, hend]

/-- A long entry below the kernel has it locked by chance. -/
theorem kernelSetup_locks_bootMem : ∃ t, kernelSetup 4 bootInfo (Kernel.boot (bootMem 0x200000)) = .ok ⟨⟩ t ∧
    KernelLocked t := by
  obtain ⟨s, -, htags, hfound, hstored, -⟩ := kernelSetup_bootMem (Or.inr rfl)
  have hsize : (mapBitmapSize (bootMap 0x200000)).toNat = 193 := by decide
  obtain ⟨t, hrun, hiff⟩ := kernelSetup_locks_iff htags hstored (by decide) (by rw [hsize]; decide)
  refine ⟨t, hrun, hiff.mpr fun f hlo hhi => ?_⟩
  change 0x100000 < _ at hlo
  rw [hsize] at hhi ⊢
  change _ < 0x110000 + 193 + 540700 at hhi
  refine ⟨by omega, Or.inr ⟨1, by decide, by decide, rfl, f - 16, ?_, ?_⟩⟩
  · show _ < 512
    omega
  · rw [hfound]
    show f = (16 + (f - 16)) % 2 ^ 20
    omega

/-- On the machine with an MCFG the kernel's first page is not locked, and requests for a page return it. -/
theorem kernelSetup_leaves_kernel : ∃ t t' live,
    kernelSetup 4 bootInfo (Kernel.boot (bootMem 0x1000)) = .ok ⟨⟩ t ∧
    ¬ KernelLocked t ∧ PfaRun FitsOrFull t t' live ∧ ∃ b ∈ live, 256 ∈ b.frames ∧ 256 ∈ kernelFrames t := by
  obtain ⟨s, t, htags, hfound, -, hrun, h, -⟩ := kernelSetup_bootMem (Or.inl rfl)
  have htagged := kernelTags_ok htags
  have hsize : (mapBitmapSize (bootMap 0x1000)).toNat = 129 := by decide
  have hstart : s.kernelStart = 0x100000 := by rw [htagged.same]; rfl
  have hend : s.kernelEnd = 0x110000 := by rw [htagged.same]; rfl
  have hkernel : 256 ∈ kernelFrames t := by
    rw [kernelFrames, Set.mem_ofPred_eq, h.kernelEnd, hend, h.same, hstart]
    exact ⟨by decide, by rw [hsize]; decide⟩
  have hclear : 256 ∉ t.marked := by
    rw [h.marked, hend, hfound]
    exact fun hmem => notMem_mapFrames_pair (by decide) rfl (by decide) (by decide) (by decide) hmem.1
  have hlt : 256 < t.pfa.pageBitmap.length := by rw [h.length_eq, hsize]; decide
  obtain ⟨t', live, hcalls, b, hb, hfb⟩ := exists_pfaRun_returns fitsOrFull_page h.length_le hlt hclear
  exact ⟨t, t', live, hrun, fun hlocked => hclear (hlocked.1 hkernel), hcalls, b, hb, hfb, hkernel⟩

end kernelSetup

end JurasOS
