import JurasOS.Boot.Coverage
import JurasOS.Boot.Info
import JurasOS.Paging.SelfMapped

/-!
# The page tables of the boot

`kernel_main` makes the bitmap at the end of its image, the heap after the bitmap, and
`ptm_initialize` the page tables after the heap, which is longer than the bits of all
frames are. So what `ptm_initialize` does of the bitmap and the page tables it does in
every boot that comes to it. And a request that takes frames past the end of the bitmap
sets bits in the heap, and leaves the page tables alone.
-/

namespace JurasOS

open Machine Alloc Relation

/-- The kernel's start, its end and its bitmap stayed where they are. -/
structure LayoutKept (s t : Kernel) : Prop where
  kernelStart : t.kernelStart = s.kernelStart
  kernelEnd : t.kernelEnd = s.kernelEnd
  bitmap : t.pfa.pageBitmap = s.pfa.pageBitmap

instance : Std.Refl LayoutKept := ⟨fun _ => ⟨rfl, rfl, rfl⟩⟩

instance : IsTrans Kernel LayoutKept := ⟨fun _ _ _ h h' =>
  ⟨h'.kernelStart.trans h.kernelStart, h'.kernelEnd.trans h.kernelEnd, h'.bitmap.trans h.bitmap⟩⟩

/-- The devices do not move them. -/
theorem scanSteps_layoutKept : ScanSteps LayoutKept where
  emit _ _ := ⟨rfl, rfl, rfl⟩
  change _ _ _ _ hbitmap := ⟨rfl, rfl, hbitmap⟩
  ahciInit _ _ := ⟨rfl, rfl, rfl⟩
  table _ _ := ⟨rfl, rfl, rfl⟩

/-- The bitmap is at the image's end, and the heap after it ends where the kernel does. -/
structure HeapMade (info : BootInfo) (t : Kernel) : Prop where
  kernelStart : t.kernelStart = info.kernelStart
  buffer : t.pfa.pageBitmap.buffer = info.kernelEnd
  small : t.pfa.pageBitmap.size.toNat * 8 ≤ 2 ^ 20
  kernelEnd : t.kernelEnd.toNat = info.kernelEnd.toNat + t.pfa.pageBitmap.size.toNat + 540700

section HeapMade

variable {fuel : ℕ} {info : BootInfo} {m : Mem} {s t s₁ s₂ : Kernel} {pageCount : UInt32}

theorem HeapMade.of_layoutKept (h : HeapMade info s) (hkept : LayoutKept s t) : HeapMade info t := by
  obtain ⟨hstart, hend, hbitmap⟩ := hkept
  refine ⟨hstart.trans h.kernelStart, ?_, ?_, ?_⟩
  · rw [hbitmap]
    exact h.buffer
  · rw [hbitmap]
    exact h.small
  · rw [hbitmap, hend]
    exact h.kernelEnd

/-- Up to the devices, the bitmap and the heap are made, whatever the memory map says. -/
theorem kernelSetup_heapMade (hfit : info.kernelEnd.toNat + 5 * 2 ^ 20 ≤ 2 ^ 32)
    (hrun : kernelSetup fuel info (Kernel.boot m) = .ok ⟨⟩ t) : HeapMade info t := by
  rw [kernelSetup] at hrun
  obtain ⟨⟨⟩, s, htags, hmemory⟩ := bind_eq_ok.mp hrun
  have htagged := kernelTags_ok htags
  have hstart : s.kernelStart = info.kernelStart := by rw [htagged.same]
  have hend : s.kernelEnd = info.kernelEnd := by rw [htagged.same]
  have hfirst : s.pfa.initialized = false := by
    rw [htagged.same]
    rfl
  rw [kernelMemory] at hmemory
  obtain ⟨⟨⟩, u, hread, hheap⟩ := bind_eq_ok.mp hmemory
  rw [modify_apply] at hheap
  cases hheap
  obtain ⟨memorySize, hbitmap, -⟩ := pfaReadMultibootMemoryMap_made hfirst hread
  obtain ⟨hkept, hmoved⟩ := pfaReadMultibootMemoryMap_kept hfirst fuel
  replace hmoved := hmoved u hread
  rw [hread] at hkept
  have hlt := memorySize.toNat_lt
  have hsize : u.pfa.pageBitmap.size.toNat = memorySize.toNat / 32768 + 1 := by
    rw [hbitmap]
    exact toNat_bitmapSize memorySize
  have hsum : (info.kernelEnd + u.pfa.pageBitmap.size).toNat =
      info.kernelEnd.toNat + u.pfa.pageBitmap.size.toNat := toNat_add_of_lt (by omega)
  rw [hend] at hbitmap hmoved
  rw [kernelHeap_same]
  refine ⟨hkept.kernelStart.trans hstart, ?_, ?_, ?_⟩
  · show u.pfa.pageBitmap.buffer = info.kernelEnd
    rw [hbitmap]
  · show u.pfa.pageBitmap.size.toNat * 8 ≤ 2 ^ 20
    omega
  · show (u.kernelEnd + 540700).toNat = info.kernelEnd.toNat + u.pfa.pageBitmap.size.toNat + 540700
    rw [toNat_add_of_lt (by rw [hmoved, hsum]; show _ + 540700 < _; omega), hmoved, hsum]
    rfl

/-- So are they when the boot comes to `ptm_initialize`. -/
theorem kernelMain_heapMade (hfit : info.kernelEnd.toNat + 5 * 2 ^ 20 ≤ 2 ^ 32)
    (hrun : kernelMain fuel info (Kernel.boot m) = .ok ⟨⟩ s₁) :
    ∃ t, HeapMade info t ∧ ptmInitialize t = .ok ⟨⟩ s₁ := by
  rw [kernelMain] at hrun
  obtain ⟨⟨⟩, s, hsetup, hrest⟩ := bind_eq_ok.mp hrun
  obtain ⟨⟨⟩, t, hdevices, hpaging⟩ := bind_eq_ok.mp hrest
  have hkept : LayoutKept s t := (scanSteps_layoutKept.acpiInit fuel).of_ok hdevices
  exact ⟨t, (kernelSetup_heapMade hfit hsetup).of_layoutKept hkept, hpaging⟩

/-- The page tables fit. -/
theorem HeapMade.kernelTop_lt (h : HeapMade info t) (hfit : info.kernelEnd.toNat + 5 * 2 ^ 20 ≤ 2 ^ 32) :
    kernelTop t < 2 ^ 32 := by
  have hsmall := h.small
  have hend := h.kernelEnd
  rw [kernelTop, roundUp]
  omega

/-- The bits of all frames lie below the kernel's end. -/
theorem HeapMade.below (h : HeapMade info t) :
    t.pfa.pageBitmap.buffer.toNat + 2 ^ 17 ≤ t.kernelEnd.toNat := by
  have hend := h.kernelEnd
  rw [h.buffer]
  omega

/-- **The page tables are made clear of the bits of all frames.** -/
theorem HeapMade.ptmInitialize_ok (h : HeapMade info t) (hfit : info.kernelEnd.toNat + 5 * 2 ^ 20 ≤ 2 ^ 32) :
    ∃ s₁, ptmInitialize t = .ok ⟨⟩ s₁ ∧ Initialized t s₁ ∧ MapInv (s₁.pd + 12288) s₁ := by
  have htop := h.kernelTop_lt hfit
  obtain ⟨s₁, hrun, hdone⟩ := JurasOS.ptmInitialize_ok (Nat.le_of_lt htop)
    (lockClear_of_buffer (Nat.le_of_lt htop) h.below)
  exact ⟨s₁, hrun, hdone, hdone.mapInv htop h.below h.small⟩

/-- **In every boot the page tables refine a partial map**, through any run of `ptm_map_addr` after it. -/
theorem kernelMain_refines (hfit : info.kernelEnd.toNat + 5 * 2 ^ 20 ≤ 2 ^ 32)
    (hboot : kernelMain fuel info (Kernel.boot m) = .ok ⟨⟩ s₁) (calls : List (UInt32 × Mapping)) :
    ∃ s₂, ptmMapAll calls s₁ = .ok ⟨⟩ s₂ ∧ ∀ v, walkEntry s₂.mem s₂.cr3 v =
      some (entryOf ((identity (s₁.kernelEnd.toNat / 4096)).mapAll calls (v.toNat / 4096))) := by
  obtain ⟨t, hmade, hpaging⟩ := kernelMain_heapMade hfit hboot
  obtain ⟨s₁', hrun, hdone, -⟩ := hmade.ptmInitialize_ok hfit
  rw [hpaging] at hrun
  cases hrun
  obtain ⟨s₂, hcalls, hA, hcr3⟩ := hdone.ptmMapAll calls
  exact ⟨s₂, hcalls, hA.walkEntry hcr3⟩

/-- **The boot locks the kernel exactly when** the frames that `NUM_PAGES` leaves out were locked before
`ptm_initialize`, if the bitmap has the frames of the kernel. -/
theorem kernelMain_locks_iff (hfit : info.kernelEnd.toNat + 5 * 2 ^ 20 ≤ 2 ^ 32)
    (hstart : info.kernelStart ≤ info.kernelEnd)
    (hboot : kernelMain fuel info (Kernel.boot m) = .ok ⟨⟩ s₁)
    (hcover : s₁.kernelEnd.toNat / 4096 ≤ s₁.pfa.pageBitmap.length) :
    ∃ t, HeapMade info t ∧ ptmInitialize t = .ok ⟨⟩ s₁ ∧ (KernelLocked s₁ ↔
      ∀ f, info.kernelStart.toNat / 4096 + ((s₁.kernelEnd.toNat - info.kernelStart.toNat) / 4098 + 1) ≤ f →
        f < s₁.kernelEnd.toNat / 4096 → t.taken f = true) := by
  obtain ⟨t, hmade, hpaging⟩ := kernelMain_heapMade hfit hboot
  obtain ⟨s₁', hrun, hdone, -⟩ := hmade.ptmInitialize_ok hfit
  rw [hpaging] at hrun
  cases hrun
  have htop := hmade.kernelTop_lt hfit
  have hbelow := hmade.below
  have hsmall := hmade.small
  have hend := hmade.kernelEnd
  have hle : t.kernelStart ≤ t.kernelEnd := by
    rw [UInt32.le_iff_toNat_le] at hstart ⊢
    rw [hmade.kernelStart, hend]
    omega
  have hlength : t.pfa.pageBitmap.length = t.pfa.pageBitmap.size.toNat * 8 := Bitmap.length_eq (by omega)
  rw [hdone.bitmap, (hdone.toNat_pd htop).2.2.2] at hcover
  refine ⟨t, hmade, hpaging, ?_⟩
  rw [hdone.kernelLocked_iff htop hle hcover (by omega) (by omega), hmade.kernelStart,
    (hdone.toNat_pd htop).2.2.2]

/-- **In every state that the boot leads to**, through requests, frees and mappings of pages to themselves,
`pfa_request_mpages` does what `pfa_request_pages` does and maps the pages to themselves, if there is room for
them in the bitmap. -/
theorem pfaRequestMpages_maps (hfit : info.kernelEnd.toNat + 5 * 2 ^ 20 ≤ 2 ^ 32)
    (hboot : kernelMain fuel info (Kernel.boot m) = .ok ⟨⟩ s₁) (hrun : ReflTransGen MapStep s₁ s₂)
    (hcount : 0 < pageCount.toNat) (hroom : ∃ j, Room s₂.taken s₂.pfa.pageBitmap.length pageCount.toNat j) :
    MapsRequest pageCount s₂ := by
  obtain ⟨t, hmade, hpaging⟩ := kernelMain_heapMade hfit hboot
  obtain ⟨s₁', hrun', -, hinv⟩ := hmade.ptmInitialize_ok hfit
  rw [hpaging] at hrun'
  cases hrun'
  exact (hinv.of_steps hrun).requestMpages hcount hroom

/-! ### A machine without devices -/

/-- Boot information with a memory map of four mebibytes that are available, and tables of the firmware
whose MCFG has no bus. -/
def idleWords : List UInt32 :=
  [80, 0] ++
  [6, 40, 24, 0] ++ [0, 0, 0x400000, 0, 1, 0] ++ -- the memory map
  [14, 28, 0, 0, 0, 0, 0x10058, 0] ++ -- the RSDP
  [0, 8] ++
  [0x54445352, 40, 0, 0, 0, 0, 0, 0, 0, 0x10080] ++ -- the RSDT
  [0x4746434D, 44, 0, 0, 0, 0, 0, 0, 0, 0, 0] -- the MCFG

/-- A memory with these at `0x10000`. -/
def idleMem : Mem := fun a =>
  let i := (a - 0x10000).toNat
  ((idleWords.getD (i / 4) 0) >>> UInt32.ofNat (8 * (i % 4))).toUInt8

/-- The entries of its memory map. -/
def idleMap : List MmapEntry := [⟨0, 0x400000, 1⟩]

/-- The machine comes to the devices. -/
theorem kernelSetup_idleMem : ∃ s t, kernelTags 4 bootInfo (Kernel.boot idleMem) = .ok ⟨⟩ s ∧
    s.tags = ⟨0, 0, 0, 0, 0x10008, 0x10030, 0⟩ ∧ MapStored s 24 idleMap ∧
      kernelSetup 4 bootInfo (Kernel.boot idleMem) = .ok ⟨⟩ t ∧ SetUp s t 24 idleMap ∧
      Set.EqOn t.mem idleMem (span 0x10000 256) := by
  have hmap : MmapTag idleMem 0x10008 24 idleMap :=
    ⟨by decide, by decide, by decide, by decide, by decide, by decide⟩
  refine kernelSetup_of_image (fun m h => ?_) hmap (by decide)
  refine tagsFrom_two (a := 0x10050) ?_ ?_ ?_ ?_ ?_
  all_goals
    rw [load32_of_image h (by decide) (by decide)]
    decide

/-- It has no bus to scan. -/
theorem not_findsBus_idleMem (htags : s.tags.acpiOld = 0x10030)
    (h : Set.EqOn s.mem idleMem (span 0x10000 256)) : ¬ FindsBus s := by
  have hload : ∀ {a : UInt32}, 0x10000 ≤ a.toNat → a.toNat + 4 ≤ 0x10100 →
      s.mem.load32 a = idleMem.load32 a :=
    fun hlo hhi => load32_of_image h hlo hhi
  have hrsdt : s.rsdt = 0x10058 := by
    rw [Kernel.rsdt, htags, hload (by decide) (by decide)]
    decide
  have hentries : rsdtEntries s.mem 0x10058 = 1 := by
    rw [rsdtEntries, hload (by decide) (by decide)]
    decide
  have hpointer : s.mem.load32 (rsdtPointer 0x10058 0) = 0x10080 := by
    rw [hload (by decide) (by decide)]
    decide
  have hsignature : hasSignature s.mem mcfgSignature 0x10080 = true := by
    rw [hasSignature_congr (h.mono (span_subset_span (b := 0x10000) (by decide) (by decide) (by decide)))]
    decide
  have hnone : mcfgEntries s.mem 0x10080 = 0 := by
    rw [mcfgEntries, hload (by decide) (by decide)]
    decide
  rintro ⟨-, i, hi, -⟩
  rw [hrsdt, acpiTable_of_one hentries hpointer hsignature, hnone] at hi
  exact Nat.not_lt_zero i hi

/-- Up to the devices, frame 1 is clear. -/
theorem SetUp.clear_idleMap (h : SetUp s t 24 idleMap) (hend : s.kernelEnd = 0x110000) :
    1 < t.pfa.pageBitmap.length ∧ t.taken 1 = false := by
  have hsize : (mapBitmapSize idleMap).toNat = 129 := by decide
  have hlength : t.pfa.pageBitmap.length = 1032 := by
    rw [h.bitmap, Bitmap.length_eq (by show (mapBitmapSize idleMap).toNat * 8 < _; omega)]
    show (mapBitmapSize idleMap).toNat * 8 = 1032
    omega
  refine ⟨by omega, ?_⟩
  rw [← Bool.not_eq_true]
  intro htaken
  have hmarked : 1 ∈ t.marked := ⟨by omega, htaken⟩
  rw [h.marked, hend] at hmarked
  obtain ⟨⟨i, hi, heq⟩ | ⟨i, hi, -, hunavailable, -⟩, -⟩ := hmarked
  · have hone : (numPages (mapBitmapSize idleMap)).toNat = 1 := by decide
    obtain rfl : i = 0 := by omega
    exact absurd heq (by decide)
  · have hi' : i < 1 := hi
    obtain rfl : i = 0 := by omega
    rw [show idleMap[0].available = true from rfl] at hunavailable
    cases hunavailable

/-- `ptm_initialize` leaves frame 1 clear: the kernel starts above it. -/
theorem Initialized.clear_low (h : Initialized t s₁) (hmade : HeapMade bootInfo t)
    (hlt : 1 < t.pfa.pageBitmap.length) (hclear : t.taken 1 = false) : s₁.taken 1 = false := by
  have htop := hmade.kernelTop_lt (by decide)
  have hbelow := hmade.below
  have hsmall := hmade.small
  have hstart : t.kernelStart = 0x100000 := hmade.kernelStart
  have hout := bit_clear htop (by omega) hlt
  have hle : t.kernelStart ≤ t.kernelEnd := by
    have hend := hmade.kernelEnd
    rw [hstart, UInt32.le_iff_toNat_le, hend]
    show 0x100000 ≤ 0x110000 + _ + _
    omega
  rw [← Bool.not_eq_true, h.taken 1 (by decide) hout, hclear, lockedFrames_eq htop hle, hstart]
  rintro (⟨hlow, -⟩ | heq)
  · exact absurd hlow (by decide)
  · cases heq

/-- The machine comes through its boot, and frame 1 stays clear. -/
theorem kernelMain_idleMem : ∃ s₁, kernelMain 4 bootInfo (Kernel.boot idleMem) = .ok ⟨⟩ s₁ ∧
    1 < s₁.pfa.pageBitmap.length ∧ s₁.taken 1 = false := by
  obtain ⟨s, t, htags, hfound, -, hsetup, hdone, himage⟩ := kernelSetup_idleMem
  have htagged := kernelTags_ok htags
  have hend : s.kernelEnd = 0x110000 := by
    rw [htagged.same]
    rfl
  have hold : t.tags.acpiOld = 0x10030 := by rw [hdone.same, hfound]
  obtain ⟨hlt, hclear⟩ := hdone.clear_idleMap hend
  obtain ⟨u, hdevices, hlooks, -⟩ := acpiInit_ok 4 (by rw [hold]; decide) (not_findsBus_idleMem hold himage)
  have hmade := (kernelSetup_heapMade (by decide) hsetup).of_layoutKept
    ((scanSteps_layoutKept.acpiInit 4).of_ok hdevices)
  obtain ⟨s₁, hpaging, hinit, -⟩ := hmade.ptmInitialize_ok (by decide)
  have hlt' : 1 < u.pfa.pageBitmap.length := by rwa [hlooks]
  refine ⟨s₁, ?_, by rwa [hinit.bitmap], hinit.clear_low hmade hlt' ?_⟩
  · rw [kernelMain, bind_of_ok hsetup, bind_of_ok hdevices, hpaging]
  · rwa [hlooks]

/-- After the boot of the machine and a mapping, the next request for a page maps it to itself. -/
theorem pfaRequestMpages_maps_idleMem : ∃ s₁ s₂, kernelMain 4 bootInfo (Kernel.boot idleMem) = .ok ⟨⟩ s₁ ∧
    ptmMapAddr 0x40000000 0x40000000 true true s₁ = .ok ⟨⟩ s₂ ∧ MapsRequest 1 s₂ := by
  obtain ⟨s₁, hboot, hlt, hclear⟩ := kernelMain_idleMem
  obtain ⟨t, hmade, hpaging⟩ := kernelMain_heapMade (by decide) hboot
  obtain ⟨s₁', hrun, -, hinv⟩ := hmade.ptmInitialize_ok (by decide)
  rw [hpaging] at hrun
  cases hrun
  obtain ⟨A, hself, hA⟩ := hinv.holds
  obtain ⟨s₂, hmap, -, hframe⟩ := hA.ptmMapAddr_self hself (a := 0x40000000) (by decide)
  obtain ⟨hbitmap, htaken⟩ := hinv.ready.taken_of_mapFrame hframe
  have hstep : MapStep s₁ s₂ := .map 0x40000000 (by decide) hmap
  refine ⟨s₁, s₂, hboot, hmap, pfaRequestMpages_maps (by decide) hboot (.single hstep) (by decide)
    ⟨1, ?_, fun f hlo hhi => ?_⟩⟩
  · rw [hbitmap]
    exact hlt
  · have hone : (1 : UInt32).toNat = 1 := rfl
    obtain rfl : f = 1 := by omega
    rw [htaken 1 hlt, hclear]

end HeapMade

end JurasOS
